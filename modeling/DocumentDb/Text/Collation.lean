/-
  DocumentDb — the collation order of text.

  * A `Collator` is the order that a locale gives to text.  `Collation.compare` is that order with
    ties by code point, so that only identical texts are equal.
  * `Collation.canonical` decomposes accented letters and puts the marks of one letter into
    canonical order, so that equivalent spellings have the same weights.
  * `Collation.weight?` gives a character its weights at the three levels; control
    characters have none.
  * `Collation.weigh` is the order of the root locale, alphabetical first, accents next, case last:
    it compares the primary weights of two texts, then the secondary, then the tertiary weights.
-/

namespace DocumentDb

/-- How a locale orders text. -/
class Collator where
  /-- Two texts in the order of the locale, equal where it does not tell them apart. -/
  weigh : String → String → Ordering

namespace Collation

/-- Texts in collation order, ties by code point. -/
def compare [Collator] (a b : String) : Ordering := (Collator.weigh a b).then (Ord.compare a b)

/-! ## Canonical decomposition -/

/-- The combining marks that have a weight, in the order of their secondary weights: acute, grave,
    circumflex, ring, diaeresis, tilde, cedilla. -/
def marks : List Char :=
  ['\u0301', '\u0300', '\u0302', '\u030a', '\u0308', '\u0303', '\u0327']

/-- For each mark the letters that carry it, beside the same letters without it. -/
def accented : List (Char × String × String) :=
  [('\u0301', "ÁÉÍÓÚÝáéíóúý", "AEIOUYaeiouy"),
   ('\u0300', "ÀÈÌÒÙàèìòù", "AEIOUaeiou"),
   ('\u0302', "ÂÊÎÔÛâêîôû", "AEIOUaeiou"),
   ('\u030a', "Åå", "Aa"),
   ('\u0308', "ÄËÏÖÜäëïöüÿ", "AEIOUaeiouy"),
   ('\u0303', "ÃÑÕãñõ", "ANOano"),
   ('\u0327', "Çç", "Cc")]

/-- Every accented letter with its base letter and its mark. -/
def decompositions : List (Char × List Char) :=
  accented.flatMap fun (mark, letters, bases) =>
    (letters.toList.zip bases.toList).map fun (letter, base) => (letter, [base, mark])

/-- A letter and its mark apart. -/
def decompose (c : Char) : List Char := (decompositions.lookup c).getD [c]

/-- The class of a mark: a cedilla is attached below, the other marks stand above; a letter has
    class `0`. -/
def markClass (c : Char) : Nat :=
  if c = '\u0327' then 202 else if marks.contains c then 230 else 0

/-- Puts a character in front of a text, past the marks of a lower class than its own. -/
def placeMark (c : Char) : List Char → List Char
  | [] => [c]
  | d :: rest =>
    if 0 < markClass d ∧ markClass d < markClass c then d :: placeMark c rest else c :: d :: rest

/-- Decomposed text in canonical order. -/
def canonical (s : String) : List Char :=
  (s.toList.flatMap decompose).foldr placeMark []

/-! ## Weights -/

/-- The weights of a character at the three levels; a mark has no primary weight. -/
structure Weight where
  primary : Option Nat
  secondary : Nat
  tertiary : Nat

/-- The characters whose primary weights are known, in ascending order. -/
def alphabet : List Char :=
  "\t\n\x0b\x0c\r _-,;:!?.'\"()[]\x7b\x7d@*/\\&#%`^+<=>|~".toList ++
    "🎉😀$0123456789abcdefghijklmnopqrstuvwxyzαβωабя一日本語".toList

/-- The primary weight of a lower-case character; characters outside the alphabet follow it by code
    point. -/
def primary (c : Char) : Nat := (alphabet.idxOf? c).getD (alphabet.length + c.toNat)

/-- Control characters other than white space carry no weight. -/
def isIgnorable (c : Char) : Bool :=
  c.toNat ≤ 0x08 || (0x0e ≤ c.toNat && c.toNat ≤ 0x1f) || c.toNat == 0x7f

/-- The weights of a character.  An upper-case letter differs from its lower-case letter at the
    third level only. -/
def weight? (c : Char) : Option Weight :=
  if isIgnorable c then none
  else match marks.idxOf? c with
    | some i => some ⟨none, i + 1, 0⟩
    | none => some ⟨some (primary c.toLower), 0, if c.isUpper then 1 else 0⟩

/-- The weights of a text. -/
def weights (s : String) : List Weight := (canonical s).filterMap weight?

/-! ## The root locale -/

/-- The weights of a text level by level. -/
def sortKey (s : String) : List Nat × List Nat × List Nat :=
  let ws := weights s
  (ws.filterMap (·.primary), ws.map (·.secondary), ws.map (·.tertiary))

/-- Texts in the order of the root locale, level by level. -/
def weigh (a b : String) : Ordering :=
  let (primary, secondary, tertiary) := sortKey a
  let (primary', secondary', tertiary') := sortKey b
  (Ord.compare primary primary').then <|
    (Ord.compare secondary secondary').then (Ord.compare tertiary tertiary')

/-- The collator of the root locale. -/
instance root : Collator := ⟨weigh⟩

end Collation

end DocumentDb
