/-
  DocumentDb — the order of values in an index.

  * `Value.collate` orders two texts by the collation and two arrays item by item in the same
    manner; all else keeps its native order.  With `missingFirst` null comes before every other
    value, without it null is equal to everything.
  * `Direction` is the direction of a key field, written `1` or `-1`; `Direction.apply` turns an
    ascending result into one of that direction.
-/
import DocumentDb.Value.Basic
import DocumentDb.Text.Collation

namespace DocumentDb

/-- The direction of one key field of an index. -/
inductive Direction where
  | ascending | descending
  deriving DecidableEq, Inhabited

namespace Direction

/-- The direction written as a number. -/
def ofInt? (n : Int) : Option Direction :=
  if n = 1 then some ascending else if n = -1 then some descending else none

/-- The number that stands for a direction. -/
def toInt : Direction → Int
  | ascending => 1
  | descending => -1

/-- An ascending result in a direction. -/
def apply : Direction → Ordering → Ordering
  | ascending, o => o
  | descending, o => o.swap

end Direction

variable [Collator]

mutual
/-- Values in ascending index order. -/
def Value.collate (missingFirst : Bool) : Value → Value → Ordering
  | .text a, .text b => Collation.compare a b
  | .null, .null => .eq
  | .null, _ => if missingFirst then .lt else .eq
  | _, .null => if missingFirst then .gt else .eq
  | .array a, .array b => Value.collateItems missingFirst a b
  | a, b => a.compare b
/-- Items in ascending index order, one after the other; fewer items come first. -/
def Value.collateItems (missingFirst : Bool) : List Value → List Value → Ordering
  | [], [] => .eq
  | [], _ :: _ => .lt
  | _ :: _, [] => .gt
  | value :: rest, value' :: rest' =>
    (value.collate missingFirst value').then (Value.collateItems missingFirst rest rest')
end

/-- Values in index order of the given direction. -/
def Value.collateIn (direction : Direction) (missingFirst : Bool) (a b : Value) : Ordering :=
  direction.apply (a.collate missingFirst b)

end DocumentDb
