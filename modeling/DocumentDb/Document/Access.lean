/-
  DocumentDb — reading, writing and merging documents by dotted paths.

  * `Document.get` reads the value at a path.  A key that equals the whole path wins over the path.
    A segment that is a position selects an item of an array; any other segment is read in every
    item, and what is found is put together in one array.
  * `Document.put` writes a value at a path and makes the documents on the way that are missing.
  * `Document.remove` drops the value at a path, and the embedded documents that this empties.
  * `Document.leafPaths` lists the paths of the values that are no documents with entries.
  * `Document.merge` takes over the entries of some changes in the order of their keys.  Where both
    sides hold a document under a key the two are merged; any other entry is put, so that a dotted
    key of the changes is a path.  `Document.absorb` does the same and keeps what was merged before
    an entry that cannot be put.
-/
import DocumentDb.Document.Fields
import DocumentDb.Text.Path
import DocumentDb.Fault

namespace DocumentDb

/-- The key of the id of a document. -/
def idKey : String := "_id"

/-! ## Reading -/

/-- What reading every item of an array gives: nulls are left out, arrays are opened, and equal
    values are kept once. -/
def Value.collect (found : List Value) : Value :=
  let opened := found.flatMap fun
    | .null => []
    | .array items => items
    | value => [value]
  .array opened.eraseDups

mutual
/-- The value at a path inside a value, null if nothing is there. -/
def Value.at : Value → List String → Value
  | value, [] => value
  | .document d, key :: path => d.at key path
  | .array items, segment :: path =>
    match Path.position? segment with
    | some position => Value.atItem items position path
    | none => .collect (Value.atEach items (segment :: path))
  | _, _ :: _ => .null
/-- The value at a path under a key. -/
def Fields.at : {bound : Option String} → Fields bound → String → List String → Value
  | _, .nil, _, _ => .null
  | _, .cons key _ value rest, wanted, path =>
    if key = wanted then value.at path else rest.at wanted path
/-- The value at a path inside the item at a position. -/
def Value.atItem : List Value → Nat → List String → Value
  | [], _, _ => .null
  | value :: _, 0, path => value.at path
  | _ :: rest, position + 1, path => Value.atItem rest position path
/-- The value at a path inside each item. -/
def Value.atEach : List Value → List String → List Value
  | [], _ => []
  | value :: rest, path => value.at path :: Value.atEach rest path
end

namespace Document

/-- The value at a path, null if nothing is there. -/
def get (d : Document) (key : String) : Except Fault Value :=
  match d.field? key with
  | some value => .ok value
  | none =>
    if Path.isDotted key then
      if Path.isValid key then
        match Path.segments key with
        | first :: path => .ok (d.at first path)
        | [] => .ok .null
      else .error (.invalidKey key)
    else .ok .null

/-- Whether there is a value other than null at a path. -/
def containsField (d : Document) (key : String) : Bool :=
  match d.get key with
  | .ok value => !value.isNull
  | .error _ => false

/-- The id of a document, if it is a text. -/
def id? (d : Document) : Option String := (d.field? idKey).bind Value.text?

end Document

/-! ## Writing -/

/-- The value, if it is a document, that an item of an array continues with. -/
def Value.asContainer : Option Value → Option Value
  | some (.document d) => some (.document d)
  | _ => none

/-- What stands in a place after `value` is written at a path inside it, where `current` is what
    stood there.  A document keeps its other entries.  An array keeps its other items if the segment
    is one of its positions, and the item is then a document or becomes one where the path goes on.
    All else gives way to a new document. -/
def Value.write (current : Option Value) (path : List String) (value : Value) : Value :=
  match path, current with
  | [], _ => value
  | key :: path, some (.document d) =>
    .document (Document.set d key (Value.write (d.field? key) path value))
  | segment :: path, some (.array items) =>
    match Path.positionIn? segment items.length with
    | some position =>
      .array (items.set position (Value.write (Value.asContainer items[position]?) path value))
    | none => .document (Document.single segment (Value.write none path value))
  | key :: path, _ => .document (Document.single key (Value.write none path value))

namespace Document

/-- The document with `value` at a path of segments. -/
def write (d : Document) (path : List String) (value : Value) : Document :=
  match path with
  | [] => d
  | key :: path => d.set key (Value.write (d.field? key) path value)

/-- The document with `value` at a path. -/
def put (d : Document) (key : String) (value : Value) : Except Fault Document :=
  if key.isEmpty then .error .emptyKey
  else if Path.isDotted key then
    if Path.isValid key then .ok (d.write (Path.segments key) value) else .error (.invalidKey key)
  else .ok (d.set key value)

/-- The document without the value at a path of segments through embedded documents; an embedded
    document left without entries is dropped as well. -/
def prune (d : Document) : List String → Document
  | [] => d
  | [key] => d.erase key
  | key :: segment :: path =>
    match d.field? key with
    | some (.document nested) =>
      let pruned := prune nested (segment :: path)
      if pruned.isEmpty then d.erase key else d.set key (.document pruned)
    | _ => d

/-- The document without the value at a path. -/
def remove (d : Document) (key : String) : Except Fault Document :=
  if d.hasKey key || !Path.isDotted key then .ok (d.erase key)
  else if Path.isValid key then .ok (d.prune (Path.segments key))
  else .error (.invalidKey key)

end Document

/-! ## Leaves -/

mutual
/-- The paths of the leaves at or below a value that stands at `path`. -/
def Value.leafPaths (path : String) : Value → List String
  | .document d => if d.isEmpty then [path] else Fields.leafPaths path d
  | _ => [path]
/-- The paths of the leaves below a path.  Where that path is empty an id is no leaf. -/
def Fields.leafPaths (path : String) : {bound : Option String} → Fields bound → List String
  | _, .nil => []
  | _, .cons key _ value rest =>
    (if path.isEmpty && key == idKey then [] else value.leafPaths (Path.below path key)) ++
      rest.leafPaths path
end

/-- The paths of all leaves of a document, without its id. -/
def Document.leafPaths (d : Document) : List String := Fields.leafPaths "" d

/-! ## Merging -/

mutual
/-- The document with one entry of some changes taken over. -/
def Document.mergeEntry (d : Document) (key : String) : Value → Except Fault Document
  | .document theirs =>
    match d.field? key with
    | some (.document mine) => do
      let merged ← theirs.mergeInto mine
      return d.set key (.document merged)
    | _ => d.put key (.document theirs)
  | value => d.put key value
/-- The document with the entries of some changes taken over. -/
def Fields.mergeInto : {bound : Option String} → Fields bound → Document → Except Fault Document
  | _, .nil, d => .ok d
  | _, .cons key _ value rest, d => do
    let d ← d.mergeEntry key value
    rest.mergeInto d
end

/-- The document with some changes merged into it. -/
def Document.merge (d changes : Document) : Except Fault Document := changes.mergeInto d

/-- The document with the entries taken over up to the first that cannot be put, and why it
    cannot. -/
def Fields.absorbInto : {bound : Option String} → Fields bound → Document → Document × Option Fault
  | _, .nil, d => (d, none)
  | _, .cons key _ value rest, d =>
    match d.mergeEntry key value with
    | .ok d => rest.absorbInto d
    | .error fault => (d, some fault)

/-- The document with as much of some changes merged into it as can be, and what stopped the
    merge. -/
def Document.absorb (d changes : Document) : Document × Option Fault := changes.absorbInto d

end DocumentDb
