/-
  DocumentDb — writing documents.

  * `IdSource.identify` settles the id of a document that is about to be stored; a document without
    one gets the next id of the source.
  * `Collection.insertMany` and `Collection.load` store documents one after the other.  A document
    that is refused is reported and leaves no trace, and the others go in.
  * `Collection.remove` and `Collection.update` treat the documents that a find gives, in its order.
    An update that a unique index refuses is reported, and the document stays as it was.
-/
import DocumentDb.Collection.Find

namespace DocumentDb

/-! ## Ids -/

/-- A source of ids: `label n` is the `n`-th id that it makes, and `made` the number made so far. -/
structure IdSource where
  label : Nat → String
  made : Nat

namespace IdSource

/-- The id of a document, and the document with it.  An id is a text; where it is absent or null one
    is made if that is asked for. -/
def identify (source : IdSource) (generate : Bool) (d : Document) :
    Except Fault (String × Document) × IdSource :=
  match (d.field? idKey).getD .null with
  | .text id => (.ok (id, d), source)
  | .null =>
    if generate then
      let id := source.label (source.made + 1)
      (.ok (id, d.set idKey (.text id)), { source with made := source.made + 1 })
    else (.error .idMissing, source)
  | other => (.error (.idNotText other.kind), source)

end IdSource

/-! ## Reports -/

/-- A document of a batch that was refused. -/
structure Failure where
  /-- The position of the document in the batch. -/
  position : Nat
  /-- The id of the document, where it has one. -/
  id? : Option String
  fault : Fault

/-- The outcome of a batch: the ids of the documents written, and the documents refused. -/
structure BatchReport where
  accepted : List String := []
  failures : List Failure := []

namespace BatchReport

/-- The report with one more document written, before the others. -/
def accept (id : String) (r : BatchReport) : BatchReport := { r with accepted := id :: r.accepted }

/-- The report with one more document refused, before the others. -/
def refuse (failure : Failure) (r : BatchReport) : BatchReport :=
  { r with failures := failure :: r.failures }

/-- Whether no document was refused. -/
def isOk (r : BatchReport) : Bool := r.failures.isEmpty

end BatchReport

namespace Collection

variable [Collator]

/-! ## Storing -/

/-- The collection with a document stored.  Its id has to be free and, if `checked`, its
    keys as well. -/
def enter (c : Collection) (checked : Bool) (id : String) (d : Document) :
    Except Fault Collection :=
  if (c.cell? id).isSome then .error (.idTaken id c.name)
  else
    match if checked then c.registry.validate id d else .ok () with
    | .ok () => .ok (c.place id d)
    | .error fault => .error fault

/-- Stores documents one after the other, the first at `position` of its batch.  Those without an id
    get one, and unique indexes keep documents out. -/
def insertEach : (c : Collection) → IdSource → (position : Nat) → List Document →
    Collection × IdSource × Except Fault BatchReport
  | c, source, _, [] => (c, source, .ok {})
  | c, source, position, d :: rest =>
    match source.identify true d with
    | (.error fault, source) =>
      let (c, source, report) := insertEach c source (position + 1) rest
      (c, source, report.map (.refuse ⟨position, none, fault⟩))
    | (.ok (id, d), source) =>
      match c.enter true id d with
      | .ok c =>
        let (c, source, report) := insertEach c source (position + 1) rest
        (c, source, report.map (.accept id))
      | .error fault =>
        if fault.isRecoverable then
          let (c, source, report) := insertEach c source (position + 1) rest
          (c, source, report.map (.refuse ⟨position, some id, fault⟩))
        else (c, source, .error fault)

/-- Stores documents. -/
def insertMany (c : Collection) (source : IdSource) (documents : List Document) :
    Collection × IdSource × Except Fault BatchReport :=
  c.insertEach source 0 documents

/-- Stores one document. -/
def insert (c : Collection) (source : IdSource) (d : Document) :
    Collection × IdSource × Except Fault BatchReport :=
  c.insertMany source [d]

/-- Stores documents one after the other, as the options say.  A document refused is reported under
    the id that it carries. -/
def loadEach (options : LoadOptions) : (c : Collection) → IdSource → (position : Nat) →
    List Document → Collection × IdSource × Except Fault BatchReport
  | c, source, _, [] => (c, source, .ok {})
  | c, source, position, d :: rest =>
    let (identified, source) := source.identify options.ensureKeys d
    let outcome : Except Fault (String × Collection) := do
      let (id, d) ← identified
      let c ← c.enter options.violationCheck id d
      return (id, c)
    match outcome with
    | .ok (id, c) =>
      let (c, source, report) := loadEach options c source (position + 1) rest
      (c, source, report.map (.accept id))
    | .error fault =>
      if fault.isRecoverable then
        let carried := match identified with
          | .ok (_, d) => d.id?
          | .error _ => d.id?
        let (c, source, report) := loadEach options c source (position + 1) rest
        (c, source, report.map (.refuse ⟨position, carried, fault⟩))
      else (c, source, .error fault)

/-- Stores documents in place of all that are stored. -/
def load (c : Collection) (source : IdSource) (documents : List Document) (options : LoadOptions) :
    Collection × IdSource × Except Fault BatchReport :=
  c.truncate.loadEach options source 0 documents

/-! ## Removing -/

/-- Removes the documents of some ids, in their order. -/
def removeEach : Collection → List String → Collection × Except Fault (List String)
  | c, [] => (c, .ok [])
  | c, id :: rest =>
    match c.discard id with
    | (c, .error fault) => (c, .error fault)
    | (c, .ok ()) =>
      let (c, removed) := c.removeEach rest
      (c, removed.map (id :: ·))

/-- Removes the documents that meet a filter, and gives their ids. -/
def remove (c : Collection) (filter : Document) : Collection × Except Fault (List String) :=
  match c.search filter {} with
  | .ok m => c.removeEach (m.found.map (·.1))
  | .error fault => (c, .error fault)

/-- Removes a document by its id, or, if it has none, the documents that meet it as a filter. -/
def removeDocument (c : Collection) (d : Document) : Collection × Except Fault (List String) :=
  match d.id? with
  | some id => c.remove (Filter.byId id)
  | none => c.remove d

/-! ## Updating -/

/-- Merges changes into some documents, the first at `position` of its batch. -/
def updateEach (changes : Document) : (c : Collection) → (position : Nat) → List (String × Cell) →
    Collection × Except Fault BatchReport
  | c, _, [] => (c, .ok {})
  | c, position, (id, cell) :: rest =>
    match cell.document.merge changes with
    | .error fault => (c, .error fault)
    | .ok updated =>
      match c.registry.validate id updated with
      | .error fault =>
        if fault.isRecoverable then
          let (c, report) := updateEach changes c (position + 1) rest
          (c, report.map (.refuse ⟨position, some id, fault⟩))
        else (c, .error fault)
      | .ok () =>
        match c.replace id updated with
        | (c, .error fault) => (c, .error fault)
        | (c, .ok ()) =>
          let (c, report) := updateEach changes c (position + 1) rest
          (c, report.map (.accept id))

/-- Merges changes into the documents that meet a filter.  The changes must not name the id, and
    must be such that they can be merged. -/
def update (c : Collection) (filter changes : Document) : Collection × Except Fault BatchReport :=
  if changes.hasKey idKey then (c, .error .idImmutable)
  else
    match Document.empty.merge changes with
    | .error fault => (c, .error fault)
    | .ok _ =>
      match c.search filter {} with
      | .error fault => (c, .error fault)
      | .ok m => c.updateEach changes 0 m.found

end Collection

end DocumentDb
