/-
  DocumentDb — composite keys: what an index is ordered by.

  * A `CompositeKey` has one part for each key field: a value and the direction of the field.
  * `CompositeKey.compare` compares keys part by part, each part in index order of the direction of
    the left key, null first in ascending order; a shorter key comes first.
-/
import DocumentDb.Value.Collated

namespace DocumentDb

/-- The value of one key field with the direction of the field. -/
structure KeyPart where
  value : Value
  direction : Direction
  deriving Inhabited

/-- The values of the key fields of an index, in the order of the fields. -/
structure CompositeKey where
  parts : List KeyPart
  deriving Inhabited

namespace CompositeKey

variable [Collator]

/-- Parts in index order, one after the other. -/
def compareParts : List KeyPart → List KeyPart → Ordering
  | [], [] => .eq
  | [], _ :: _ => .lt
  | _ :: _, [] => .gt
  | part :: rest, part' :: rest' =>
    (part.value.collateIn part.direction true part'.value).then (compareParts rest rest')

/-- Keys in index order. -/
def compare (a b : CompositeKey) : Ordering := compareParts a.parts b.parts

instance : Ord CompositeKey := ⟨compare⟩

instance : BEq CompositeKey := ⟨fun a b => a.compare b == .eq⟩

/-- The values of a key. -/
def values (k : CompositeKey) : List Value := k.parts.map (·.value)

/-- Whether every part is null. -/
def isAllMissing (k : CompositeKey) : Bool := k.parts.all (·.value.isNull)

/-- Whether the part at a position is equal, in index order, to a value. -/
def partMatches (k : CompositeKey) (position : Nat) (value : Value) : Bool :=
  match k.parts[position]? with
  | some part => part.value.collate true value == .eq
  | none => false

/-- The text of a key in messages. -/
def render (k : CompositeKey) : String :=
  "(" ++ ", ".intercalate (k.values.map Value.render) ++ ")"

/-- Keys in index order, equal ones in the order given. -/
def sort (keys : List CompositeKey) : List CompositeKey :=
  keys.mergeSort fun a b => (a.compare b).isLE

end CompositeKey

end DocumentDb
