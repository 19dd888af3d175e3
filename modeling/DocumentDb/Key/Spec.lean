/-
  DocumentDb — key specifications: what an index is over.

  * A `KeySpec` is a name, a uniqueness flag and an ordered list of key fields, each a valid path
    with a direction.  No path occurs twice, and there is at least one (both are part of the type).
  * `KeySpec.build` makes a specification of fields in a given order.  Without a name it gets
    `KeySpec.defaultName`, the paths with their directions: `orgId:1|arr.val:-1`.
  * `KeySpec.ofDocument` reads a key document such as `{"orgId": 1, "arr": {"val": -1}}`, whose
    embedded documents stand for dotted paths.
-/
import DocumentDb.Document.Fields
import DocumentDb.Text.Path
import DocumentDb.Value.Digest
import DocumentDb.Fault

namespace DocumentDb

/-- One field of the key of an index. -/
structure KeyField where
  path : String
  direction : Direction
  valid : Path.isValid path = true
  deriving DecidableEq

namespace KeyField

/-- The segments of the path of a field. -/
def segments (f : KeyField) : List String := Path.segments f.path

/-- The text of a field in default names. -/
def label (f : KeyField) : String := f.path ++ ":" ++ f.direction.toInt.repr

end KeyField

/-- What an index is over. -/
structure KeySpec where
  fields : List KeyField
  unique : Bool
  name : String
  nonempty : fields ≠ []
  distinct : (fields.map (·.path)).Nodup
  deriving DecidableEq

/-- The uniqueness flag and the name that a new index is asked to have. -/
structure IndexOptions where
  unique : Bool := false
  name? : Option String := none
  deriving DecidableEq

namespace KeySpec

/-! ## Names -/

/-- The name of an index over some fields that is given none. -/
def labels (fields : List KeyField) : String := "|".intercalate (fields.map (·.label))

/-- The name that the fields of a specification make. -/
def defaultName (spec : KeySpec) : String := labels spec.fields

/-- The text of a specification. -/
def render (spec : KeySpec) : String :=
  spec.name ++ " [" ++ spec.defaultName ++ "]" ++ if spec.unique then " unique" else ""

/-- The paths of the fields. -/
def paths (spec : KeySpec) : List String := spec.fields.map (·.path)

/-- The position of the field with a path. -/
def positionOf? (spec : KeySpec) (path : String) : Option Nat :=
  spec.fields.findIdx? (·.path == path)

/-- Whether two specifications differ in their names at most. -/
def sameDefinition (a b : KeySpec) : Bool := a.unique == b.unique && a.fields == b.fields

/-- The digest of a specification. -/
def digest (spec : KeySpec) : List UInt8 :=
  wordBytes (UInt64.ofNat spec.fields.length) ++
    (spec.fields.flatMap fun f =>
      textBytes f.path ++ wordBytes (UInt64.ofNat f.segments.length) ++
        f.segments.flatMap textBytes ++
        wordBytes (if f.direction = .ascending then 0 else 1)) ++
    [if spec.unique then 1 else 0] ++ textBytes spec.name

/-! ## Building -/

/-- Key fields of which no two have the same path. -/
abbrev DistinctFields := { fields : List KeyField // (fields.map (·.path)).Nodup }

/-- Puts a field after the others, unless its path occurs there or is not valid. -/
def addField (fields : DistinctFields) (path : String) (direction : Direction) :
    Except Fault DistinctFields :=
  if fresh : path ∈ fields.1.map (·.path) then .error (.repeatedKeyField path)
  else if valid : Path.isValid path = true then
    .ok ⟨fields.1 ++ [⟨path, direction, valid⟩], by
      simp only [List.map_append, List.map_cons, List.map_nil]
      exact List.nodup_append.2 ⟨fields.2, by simp, by
        intro a ha b hb
        rw [List.mem_singleton.1 hb]
        exact fun h => fresh (h ▸ ha)⟩⟩
  else .error (.invalidKeyPath path)

/-- The fields with the given paths and directions. -/
def addFields (fields : DistinctFields) : List (String × Direction) → Except Fault DistinctFields
  | [] => .ok fields
  | (path, direction) :: rest => do
    let fields ← addField fields path direction
    addFields fields rest

/-- The specification of an index over the given paths, in their order. -/
def build (paths : List (String × Direction)) (options : IndexOptions) : Except Fault KeySpec := do
  let fields ← addFields ⟨[], by simp⟩ paths
  if nonempty : fields.1 = [] then .error .noKeyFields
  else
    match options.name? with
    | some name =>
      if name.isEmpty then .error .emptyIndexName
      else return ⟨fields.1, options.unique, name, nonempty, fields.2⟩
    | none => return ⟨fields.1, options.unique, labels fields.1, nonempty, fields.2⟩

end KeySpec

/-! ## Key documents -/

/-- The direction that a leaf of a key document stands for. -/
def Value.direction? : Value → Option Direction
  | .number (.int n) => Direction.ofInt? n.toInt
  | .number (.float x) => x.integer?.bind Direction.ofInt?
  | _ => none

mutual
/-- The key fields that a value of a key document stands for. -/
def Value.keyFields (path : String) : Value → Except Fault (List (String × Direction))
  | .document d => if d.isEmpty then .error (.emptyKeyMapping path) else d.keyFieldsBelow path
  | leaf =>
    match leaf.direction? with
    | some direction => .ok [(path, direction)]
    | none => .error (.invalidDirection leaf path)
/-- The key fields that the entries of a key document below a path stand for. -/
def Fields.keyFieldsBelow (path : String) : {bound : Option String} → Fields bound →
    Except Fault (List (String × Direction))
  | _, .nil => .ok []
  | _, .cons key _ value rest => do
    let first ← value.keyFields (Path.below path key)
    let others ← rest.keyFieldsBelow path
    return first ++ others
end

/-- The specification that a key document describes; its fields come in the order of its keys. -/
def KeySpec.ofDocument (keys : Document) (options : IndexOptions) : Except Fault KeySpec := do
  let paths ← keys.keyFieldsBelow ""
  KeySpec.build paths options

end DocumentDb
