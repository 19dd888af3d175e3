/-
  DocumentDb — one index: its buckets and what it records of each document.

  * An `Index` maps each key to the ids of the documents that have it, in index order of the keys,
    and each id to its keys.  The keys recorded for a document, not its present contents, decide
    what removing it takes away.
  * `Index.validate` says whether a document may have some keys: in a unique index no other document
    may have one of them.  `Index.record` adds keys without asking, and `Index.verify` checks that
    every recorded key leads back to its document.
  * `Index.remove` takes all keys of a document away again.  It fails if one of them does not lead
    back to the document, but not before it has taken away the others.
  * `Index.lookup` finds the ids whose keys fit a probe.
-/
import DocumentDb.Key.Realize
import DocumentDb.Document.Access

namespace DocumentDb

/-- An index; the serial number tells it from other indexes of the same name. -/
structure Index where
  serial : Nat
  spec : KeySpec
  /-- The ids under each key, ascending, in ascending order of the keys. -/
  buckets : List (CompositeKey × List String)
  /-- The keys of each id. -/
  recorded : List (String × List CompositeKey)

namespace Index

variable [Collator]

/-- An index without entries. -/
def new (serial : Nat) (spec : KeySpec) : Index :=
  { serial := serial, spec := spec, buckets := [], recorded := [] }

/-! ## Reading -/

/-- The name of an index. -/
def name (i : Index) : String := i.spec.name

/-- The number of documents recorded. -/
def size (i : Index) : Nat := i.recorded.length

/-- The number of distinct keys. -/
def entryCount (i : Index) : Nat := i.buckets.length

/-- Whether a document is recorded. -/
def contains (i : Index) (id : String) : Bool := (i.recorded.lookup id).isSome

/-- The keys recorded for a document. -/
def keysOf (i : Index) (id : String) : List CompositeKey := (i.recorded.lookup id).getD []

/-- The ids under a key. -/
def bucket (i : Index) (key : CompositeKey) : List String :=
  ((i.buckets.find? fun (k, _) => key == k).map (·.2)).getD []

/-- Every id recorded, in order of its first key. -/
def ids (i : Index) : List String := (i.buckets.flatMap (·.2)).eraseDups

/-- The key of a unique index that keeps a document out, with the document that has it. -/
def conflict? (i : Index) (id : String) (keys : List CompositeKey) :
    Option (CompositeKey × String) :=
  if i.spec.unique then
    keys.findSome? fun key => ((i.bucket key).find? (· != id)).map fun owner => (key, owner)
  else none

/-- Whether a document may have the given keys. -/
def validate (i : Index) (id : String) (keys : List CompositeKey) : Except Fault Unit :=
  match i.conflict? id keys with
  | some (key, owner) => .error (.keyTaken key i.name owner)
  | none => .ok ()

/-- Whether each key recorded for a document leads back to it. -/
def verify (i : Index) (id : String) : Except Fault Unit :=
  match (i.keysOf id).find? fun key => !(i.bucket key).contains id with
  | some key => .error (.indexOutOfStep i.name id key)
  | none => .ok ()

/-! ## Writing -/

/-- Puts an id in its place among ascending ids, once. -/
def insertId (id : String) : List String → List String
  | [] => [id]
  | other :: rest =>
    if id < other then id :: other :: rest
    else if id = other then other :: rest
    else other :: insertId id rest

/-- Puts an id under a key.  A key that is there already keeps its form. -/
def insertEntry (key : CompositeKey) (id : String) :
    List (CompositeKey × List String) → List (CompositeKey × List String)
  | [] => [(key, [id])]
  | (other, ids) :: rest =>
    match key.compare other with
    | .lt => (key, [id]) :: (other, ids) :: rest
    | .eq => (other, insertId id ids) :: rest
    | .gt => (other, ids) :: insertEntry key id rest

/-- Takes an id away from a key, and the key if no id is left; nothing, if the id is not
    under the key. -/
def eraseEntry (id : String) (key : CompositeKey) :
    List (CompositeKey × List String) → Option (List (CompositeKey × List String))
  | [] => none
  | (other, ids) :: rest =>
    if key == other then
      if ids.contains id then
        let left := ids.erase id
        some (if left.isEmpty then rest else (other, left) :: rest)
      else none
    else (eraseEntry id key rest).map ((other, ids) :: ·)

/-- Takes an id away from keys, one after the other.  A key that it is not under is passed over, and
    the first such key is given. -/
def eraseEntries (id : String) : List CompositeKey → List (CompositeKey × List String) →
    List (CompositeKey × List String) × Option CompositeKey
  | [], buckets => (buckets, none)
  | key :: keys, buckets =>
    match eraseEntry id key buckets with
    | some buckets => eraseEntries id keys buckets
    | none => ((eraseEntries id keys buckets).1, some key)

/-- Adds the keys that are not there yet. -/
def addKeys (known keys : List CompositeKey) : List CompositeKey :=
  keys.foldl (fun known key => if known.contains key then known else known ++ [key]) known

/-- Adds keys to those of an id. -/
def insertKeys (id : String) (keys : List CompositeKey) :
    List (String × List CompositeKey) → List (String × List CompositeKey)
  | [] => [(id, addKeys [] keys)]
  | (other, known) :: rest =>
    if id = other then (other, addKeys known keys) :: rest
    else (other, known) :: insertKeys id keys rest

/-- The index with the given keys recorded for a document. -/
def record (i : Index) (id : String) (keys : List CompositeKey) : Index :=
  if keys.isEmpty then i
  else { i with
    buckets := keys.foldl (fun buckets key => insertEntry key id buckets) i.buckets
    recorded := insertKeys id keys i.recorded }

@[simp] theorem spec_record (i : Index) (id : String) (keys : List CompositeKey) :
    (i.record id keys).spec = i.spec := by
  unfold record
  split <;> rfl

/-- The index with the keys of a document recorded, unless a unique index keeps them out. -/
def insert (i : Index) (id : String) (d : Document) : Except Fault Index := do
  let keys := i.spec.entries d
  i.validate id keys
  return i.record id keys

/-- The index without the keys recorded for a document, which are given. -/
def remove (i : Index) (id : String) : Index × Except Fault (List CompositeKey) :=
  let keys := i.keysOf id
  let (buckets, broken) := eraseEntries id keys i.buckets
  ({ i with buckets := buckets, recorded := i.recorded.filter (·.1 != id) },
    match broken with
    | some key => .error (.indexOutOfStep i.name id key)
    | none => .ok keys)

@[simp] theorem spec_remove (i : Index) (id : String) : (i.remove id).1.spec = i.spec := rfl

/-- The index without entries. -/
def clear (i : Index) : Index := { i with buckets := [], recorded := [] }

/-! ## Lookup -/

/-- The positions of the key fields that a probe supplies, with the values it supplies. -/
def supplied (i : Index) (probe : Document) : List (Nat × List Value) :=
  (i.spec.fields.zipIdx.filter fun (f, _) => probe.containsField f.path).map fun (f, position) =>
    (position, probe.resolve f.segments)

/-- Whether a key has, in each supplied field, one of the supplied values. -/
def fits (supplied : List (Nat × List Value)) (key : CompositeKey) : Bool :=
  supplied.all fun (position, values) => values.any (key.partMatches position)

/-- The ids whose keys have, in every key field that the probe supplies, a value that the probe has
    there, in order of the first such key.  A probe that supplies all fields leads straight to the
    buckets of its own keys; with any other every key is tried. -/
def lookup (i : Index) (probe : Document) : List String :=
  let supplied := i.supplied probe
  let found :=
    if supplied.length = i.spec.fields.length then
      (CompositeKey.sort (i.spec.keys probe)).flatMap i.bucket
    else (i.buckets.filter fun (key, _) => fits supplied key).flatMap (·.2)
  found.eraseDups

end Index

end DocumentDb
