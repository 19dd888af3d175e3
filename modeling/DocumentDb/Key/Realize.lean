/-
  DocumentDb — the keys that a document has in an index.

  * `Document.resolve` are the values of a document at the path of a key field: an array branches
    once per item at every segment, and also at the end of the path.  Nulls are left out and equal
    values kept once; where nothing is left, null stands for the missing value.
  * `Realization` generates one composite key for each choice of one value per field, the
    last field varying fastest.  It is an odometer, so that the first keys of a large
    product are at hand at once.
  * `KeySpec.keys` is the list of all these keys, and `KeySpec.entries` those that an index records:
    a document that lacks every key field has none.
-/
import DocumentDb.Key.Spec

namespace DocumentDb

/-! ## The values of one field -/

mutual
/-- The values at a path inside a value, as often as they occur. -/
def Value.walk : Value → List String → List Value
  | .null, _ => []
  | .array items, [] => items.filter (!·.isNull)
  | value, [] => [value]
  | .document d, key :: path => d.walk key path
  | .array items, segment :: path =>
    match Path.position? segment with
    | some position => Value.walkItem items position path
    | none => Value.walkEach items (segment :: path)
  | _, _ :: _ => []
/-- The values at a path under a key. -/
def Fields.walk : {bound : Option String} → Fields bound → String → List String → List Value
  | _, .nil, _, _ => []
  | _, .cons key _ value rest, wanted, path =>
    if key = wanted then value.walk path else rest.walk wanted path
/-- The values at a path inside the item at a position. -/
def Value.walkItem : List Value → Nat → List String → List Value
  | [], _, _ => []
  | value :: _, 0, path => value.walk path
  | _ :: rest, position + 1, path => Value.walkItem rest position path
/-- The values at a path inside some items. -/
def Value.walkEach : List Value → List String → List Value
  | [], _ => []
  | value :: rest, path => value.walk path ++ Value.walkEach rest path
end

/-- The distinct values of a document at a path of segments, or null if there is none. -/
def Document.resolve (d : Document) : List String → List Value
  | [] => [.null]
  | first :: path =>
    match (d.walk first path).eraseDups with
    | [] => [.null]
    | values => values

/-! ## One key per choice -/

/-- The values that one field of a key may take, with the direction of the field. -/
structure KeyChoice where
  values : List Value
  direction : Direction

namespace KeyChoice

/-- The parts that a field contributes to the keys. -/
def parts (c : KeyChoice) : List KeyPart := c.values.map (⟨·, c.direction⟩)

/-- Every choice of one part per field, in lexicographic order. -/
def product : List KeyChoice → List (List KeyPart)
  | [] => [[]]
  | choice :: rest =>
    let others := product rest
    choice.parts.flatMap fun part => others.map (part :: ·)

end KeyChoice

/-- A generator of keys: the values of each field, the position of the next choice in each, and
    whether all choices have been made. -/
structure Realization where
  fields : List KeyChoice
  cursor : List Nat
  exhausted : Bool

namespace Realization

/-- The generator that starts at the first choice. -/
def start (fields : List KeyChoice) : Realization :=
  { fields := fields
    cursor := fields.map fun _ => 0
    exhausted := fields.isEmpty || fields.any (·.values.isEmpty) }

/-- The number of keys that a fresh generator makes, in 64-bit arithmetic. -/
def total (r : Realization) : UInt64 :=
  if r.fields.isEmpty then 0
  else r.fields.foldl (fun n choice => n * UInt64.ofNat choice.values.length) 1

/-- The positions of the next choice, and whether they have all gone round to the first. -/
def advance : List KeyChoice → List Nat → List Nat × Bool
  | choice :: fields, position :: cursor =>
    match advance fields cursor with
    | (cursor, false) => (position :: cursor, false)
    | (cursor, true) =>
      if position + 1 < choice.values.length then ((position + 1) :: cursor, false)
      else (0 :: cursor, true)
  | _, cursor => (cursor, true)

/-- The key of the choice at the cursor. -/
def current (r : Realization) : CompositeKey :=
  ⟨(r.fields.zip r.cursor).map fun (choice, position) =>
    ⟨choice.values[position]?.getD .null, choice.direction⟩⟩

/-- The next key and the generator after it. -/
def next? (r : Realization) : Option (CompositeKey × Realization) :=
  if r.exhausted then none
  else
    let (cursor, exhausted) := advance r.fields r.cursor
    some (r.current, { r with cursor := cursor, exhausted := exhausted })

/-- The next keys, at most `limit` of them. -/
def take (r : Realization) : Nat → List CompositeKey
  | 0 => []
  | limit + 1 =>
    match r.next? with
    | some (key, r) => key :: take r limit
    | none => []

end Realization

namespace KeySpec

/-- The values that a document gives each key field. -/
def choices (spec : KeySpec) (d : Document) : List KeyChoice :=
  spec.fields.map fun f => ⟨d.resolve f.segments, f.direction⟩

/-- The generator of the keys of a document. -/
def realize (spec : KeySpec) (d : Document) : Realization := .start (spec.choices d)

/-- All keys of a document, in the order in which they are generated. -/
def keys (spec : KeySpec) (d : Document) : List CompositeKey :=
  (KeyChoice.product (spec.choices d)).map (⟨·⟩)

/-- The keys under which an index records a document. -/
def entries (spec : KeySpec) (d : Document) : List CompositeKey :=
  match spec.keys d with
  | [key] => if key.isAllMissing then [] else [key]
  | keys => keys

end KeySpec

end DocumentDb
