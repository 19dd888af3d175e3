/-
  DocumentDb — numbers: 64-bit integers and 64-bit floats as one kind.

  * `Number.compare` orders numbers by their exact value, whichever form they have: `1` and `1.0`
    are equal, `2^53 + 1` lies strictly between two floats.  No integer is rounded on the way.  A
    not-a-number equals every other and comes after all numbers.
-/
import DocumentDb.Number.Decimal

namespace DocumentDb

/-- A number, in one of its two forms. -/
inductive Number where
  | int (n : Int64)
  | float (x : Binary64)
  deriving DecidableEq, Inhabited

namespace Number

/-- An integer and a float in the order of their values.  A float beyond the 64-bit integers is told
    by its size, any other by its integer part, and by its fraction where that part is the
    integer. -/
def compareMixed (n : Int64) (x : Binary64) : Ordering :=
  if x.isNaN ∨ Binary64.int64Bound ≤ x.units then .lt
  else if x.units < -Binary64.int64Bound then .gt
  else (Ord.compare n.toInt x.toInt64.toInt).then
    (Ord.compare (x.whole * Binary64.unitsPerOne) x.units)

/-- Numbers in the order of their values, whichever form they have. -/
def compare : Number → Number → Ordering
  | .int m, .int n => Ord.compare m.toInt n.toInt
  | .float x, .float y => x.compare y
  | .int n, .float x => compareMixed n x
  | .float x, .int n => (compareMixed n x).swap

/-- The nearest float. -/
def toBinary64 : Number → Binary64
  | .int n => .ofInt n.toInt
  | .float x => x

/-- The decimal text of a number. -/
def text : Number → String
  | .int n => n.toInt.repr
  | .float x => x.text

/-- The number equal to an unsigned word, or the float nearest to it where no integer form is wide
    enough. -/
def ofUInt64 (n : UInt64) : Number :=
  if n.toNat < Nat.pow 2 63 then .int (Int64.ofInt n.toNat) else .float (.ofInt n.toNat)

end Number

end DocumentDb
