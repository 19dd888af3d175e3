/-
  DocumentDb — dotted paths.

  * `Path.segments` cuts a text at every dot; `Path.join` puts the dots back (`join_segments`).
  * `Path.isValid` holds when no segment is empty.
  * `Path.position?` reads a segment as a position in an array: ASCII digits, after an optional plus
    sign, that make a 64-bit number.
-/

namespace DocumentDb.Path

/-! ## Cutting at dots -/

/-- The parts of a list of characters between its dots. -/
def cut : List Char → List (List Char)
  | [] => [[]]
  | c :: rest =>
    if c = '.' then [] :: cut rest
    else match cut rest with
      | [] => [[c]]
      | first :: others => (c :: first) :: others

/-- The segments of a path. -/
def segments (path : String) : List String := (cut path.toList).map String.ofList

/-- Segments put together with dots. -/
def join (segments : List String) : String := ".".intercalate segments

theorem cut_ne_nil (cs : List Char) : cut cs ≠ [] := by
  cases cs with
  | nil => simp [cut]
  | cons c rest =>
    simp only [cut]
    split
    · simp
    · split <;> simp

theorem join_cut (cs : List Char) : join ((cut cs).map String.ofList) = String.ofList cs := by
  induction cs with
  | nil => rfl
  | cons c rest ih =>
    cases e : cut rest with
    | nil => exact absurd e (cut_ne_nil rest)
    | cons first others =>
      simp only [e, join, List.map_cons] at ih
      simp only [cut, e]
      split
      · next dot => simp [join, ih, dot, String.ofList_cons]
      · simp [join, ih, String.ofList_cons]

theorem join_segments (path : String) : join (segments path) = path := by
  simp [segments, join_cut]

/-- A path one level below another. -/
def child (path key : String) : String := path ++ "." ++ key

/-- A path one level below another, where the empty path is the root. -/
def below (path key : String) : String := if path.isEmpty then key else child path key

/-- Whether a text has a dot, so that it is a path of several segments. -/
def isDotted (path : String) : Bool := path.toList.contains '.'

/-- Whether no segment of the path is empty. -/
def isValid (path : String) : Bool := (segments path).all fun s => !s.isEmpty

/-! ## Positions -/

/-- The number that a list of decimal digits denotes. -/
def digits? : List Char → Nat → Option Nat
  | [], n => some n
  | c :: rest, n => if c.isDigit then digits? rest (10 * n + (c.toNat - '0'.toNat)) else none

/-- The digits of a segment, without its sign. -/
def unsigned : List Char → List Char
  | '+' :: rest => rest
  | cs => cs

/-- The position that a segment denotes. -/
def position? (segment : String) : Option Nat :=
  match unsigned segment.toList with
  | [] => none
  | cs => (digits? cs 0).filter (· < Nat.pow 2 64)

/-- The position that a segment denotes in an array of the given length. -/
def positionIn? (segment : String) (length : Nat) : Option Nat :=
  (position? segment).filter (· < length)

end DocumentDb.Path
