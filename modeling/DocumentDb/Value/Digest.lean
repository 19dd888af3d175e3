/-
  DocumentDb — digests: the bytes by which equal values are recognised.

  * `Value.parts` is what a digest is made of, one `DigestPart` after the other.  A value starts
    with the rank of its kind.  A number is one word, a text one part, an array its length and its
    items, and a document its keys and values one after the other, without a length or an end.
  * A float that is a 64-bit integer is the part of that integer; every not-a-number is the part of
    the same one; any other float is its bits.
  * `Value.digest` is the bytes of the parts.  Equal values have equal parts.  Different
    values mostly have different digests: the exceptions are numbers with one word and
    documents nested differently.
-/
import DocumentDb.Value.Basic

namespace DocumentDb

/-- The bytes of a 64-bit word, lowest first. -/
def wordBytes (w : UInt64) : List UInt8 :=
  (List.range 8).map fun i => UInt8.ofNat (w.toNat / Nat.pow 256 i)

/-- The bytes of a text, closed by a byte that no text contains. -/
def textBytes (s : String) : List UInt8 := s.toUTF8.toList ++ [0xff]

/-! ## Parts -/

/-- What enters a digest at once. -/
inductive DigestPart where
  | byte (b : UInt8)
  | integer (n : Int64)
  | word (w : UInt64)
  | length (n : Nat)
  | text (s : String)
  deriving DecidableEq

/-- The bytes of a part; an integer is written in two's complement. -/
def DigestPart.bytes : DigestPart → List UInt8
  | byte b => [b]
  | integer n => wordBytes n.toUInt64
  | word w => wordBytes w
  | length n => wordBytes (UInt64.ofNat n)
  | text s => textBytes s

/-- The part that tells the kind of a value. -/
def Kind.part (kind : Kind) : DigestPart := .byte (UInt8.ofNat kind.rank)

/-- The part of a float: the integer that it denotes, if that is one of 64 bits; else its bits,
    which are taken to be the same for every not-a-number. -/
def Binary64.part (x : Binary64) : DigestPart :=
  if x.integer?.isSome ∧ x.units < int64Bound ∧ -int64Bound ≤ x.units then .integer x.toInt64
  else if x.isNaN then .word nan.bits
  else .word x.bits

/-- The part of a number. -/
def Number.part : Number → DigestPart
  | .int n => .integer n
  | .float x => x.part

mutual
/-- The parts of a value. -/
def Value.parts : Value → List DigestPart
  | .null => [Kind.null.part]
  | .bool b => [Kind.bool.part, .byte (if b then 1 else 0)]
  | .number n => [Kind.number.part, n.part]
  | .text s => [Kind.text.part, .text s]
  | .document d => Kind.document.part :: d.parts
  | .array items => Kind.array.part :: .length items.length :: Value.partsOfItems items
/-- The parts of fields, which are those of the document that has them. -/
def Fields.parts : {bound : Option String} → Fields bound → List DigestPart
  | _, .nil => []
  | _, .cons key _ value rest => .text key :: (value.parts ++ rest.parts)
/-- The parts of some items. -/
def Value.partsOfItems : List Value → List DigestPart
  | [] => []
  | value :: rest => value.parts ++ Value.partsOfItems rest
end

/-! ## Digests -/

/-- The digest of a value. -/
def Value.digest (value : Value) : List UInt8 := value.parts.flatMap DigestPart.bytes

/-- The digest of fields. -/
def Fields.digest {bound : Option String} (d : Fields bound) : List UInt8 :=
  d.parts.flatMap DigestPart.bytes

end DocumentDb
