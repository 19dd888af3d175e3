/-
  DocumentDb — the state of a collection.

  * A `Collection` stores documents under their ids, in order of insertion, and has a
    registry of indexes.  Each stored document has a serial number of its own, by which a
    live result refers to it.
  * A `Handle` is one document of a result: a copy, or a live reference to the stored
    document.  A document that is removed stays readable and writable through live handles,
    beside the collection.
  * `Collection.place`, `Collection.discard`, `Collection.replace` and `Collection.truncate`
    change documents and indexes together.  Where the indexes do not give up the keys of a
    document, it stays.
  * `Collection.amend` changes a document through a live handle and leaves the indexes as they are.
-/
import DocumentDb.Collection.Settings
import DocumentDb.Filter.Match
import DocumentDb.Index.Registry
import DocumentDb.Text.Quoted

namespace DocumentDb

/-- A document with the serial number of the place where it is kept. -/
structure Cell where
  serial : Nat
  document : Document

/-- One document of a result. -/
inductive Handle where
  | copy (d : Document)
  | live (serial : Nat)

/-- A named set of documents with its indexes. -/
structure Collection where
  name : String
  settings : Settings
  /-- The judge of the documents that meet a filter. -/
  matcher : Matcher
  /-- The stored documents under their ids, in order of insertion. -/
  stored : List (String × Cell)
  registry : Registry
  /-- The documents no longer stored, which live handles may still show. -/
  retired : List Cell
  /-- The serial number that the next document or index gets. -/
  nextSerial : Nat

namespace Collection

variable [Collator]

/-- A collection without documents and indexes. -/
def new (name : String) (settings : Settings) (matcher : Matcher) : Collection :=
  { name := name, settings := settings, matcher := matcher, stored := [], registry := .empty,
    retired := [], nextSerial := 0 }

instance : Inhabited Collection := ⟨new "" {} .equality⟩

/-! ## Reading -/

/-- The number of stored documents. -/
def count (c : Collection) : Nat := c.stored.length

/-- The stored document with an id, and where it is kept. -/
def cell? (c : Collection) (id : String) : Option Cell := c.stored.lookup id

/-- The stored document with an id. -/
def findById (c : Collection) (id : String) : Option Document := (c.cell? id).map (·.document)

/-- The index with a name. -/
def index? (c : Collection) (name : String) : Option Index := c.registry.get? name

/-- An index as it is now.  One that was dropped has no entries. -/
def current (c : Collection) (i : Index) : Index :=
  (c.registry.indexes.find? (·.serial == i.serial)).getD i.clear

/-- The text of a collection in diagnostics. -/
def report (c : Collection) : String :=
  "Collection \x7b name: " ++ Text.quoted c.name ++ ", count: " ++ c.count.repr ++ " \x7d"

/-! ## Documents and indexes together -/

/-- The collection with a document stored last and its keys recorded. -/
def place (c : Collection) (id : String) (d : Document) : Collection :=
  { c with
    stored := c.stored ++ [(id, ⟨c.nextSerial, d⟩)]
    registry := c.registry.record id d
    nextSerial := c.nextSerial + 1 }

/-- The collection without the document of an id and its keys. -/
def discard (c : Collection) (id : String) : Collection × Except Fault Unit :=
  match c.registry.remove id with
  | (registry, .error fault) => ({ c with registry := registry }, .error fault)
  | (registry, .ok ()) =>
    ({ c with
        stored := c.stored.filter (·.1 != id)
        registry := registry
        retired := c.retired ++ (c.cell? id).toList }, .ok ())

/-- Stored documents with other contents of the one with an id. -/
def rewrite (id : String) (d : Document) (stored : List (String × Cell)) : List (String × Cell) :=
  stored.map fun (other, cell) =>
    if other = id then (other, { cell with document := d }) else (other, cell)

/-- The collection with other contents of the document with an id, and its keys recorded anew. -/
def replace (c : Collection) (id : String) (d : Document) : Collection × Except Fault Unit :=
  match c.registry.remove id with
  | (registry, .error fault) => ({ c with registry := registry }, .error fault)
  | (registry, .ok ()) =>
    ({ c with stored := rewrite id d c.stored, registry := registry.record id d }, .ok ())

/-- The collection without documents; its indexes stay, emptied. -/
def truncate (c : Collection) : Collection :=
  { c with stored := [], registry := c.registry.clear, retired := c.retired ++ c.stored.map (·.2) }

/-! ## Live handles -/

/-- The document that a handle shows. -/
def read (c : Collection) : Handle → Option Document
  | .copy d => some d
  | .live serial =>
    ((c.stored.map (·.2) ++ c.retired).find? (·.serial == serial)).map (·.document)

/-- The collection with other contents of the document that a live handle refers to. -/
def amend (c : Collection) (serial : Nat) (d : Document) : Collection :=
  let change := fun cell : Cell =>
    if cell.serial = serial then { cell with document := d } else cell
  { c with
    stored := c.stored.map fun (id, cell) => (id, change cell)
    retired := c.retired.map change }

/-- Writes a document through a handle: a live one changes the collection, a copy only itself. -/
def write (c : Collection) (d : Document) : Handle → Collection × Handle
  | .copy _ => (c, .copy d)
  | .live serial => (c.amend serial d, .live serial)

end Collection

end DocumentDb
