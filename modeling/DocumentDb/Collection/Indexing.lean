/-
  DocumentDb — the indexes of a collection.

  * `Collection.ensureSpec` registers an index over the stored documents.  It succeeds without
    effect if an index of the name and of the same definition is registered, and fails without
    effect if that of the name is defined otherwise or if the documents do not fit.
  * `Collection.rebuildIndex` records in an index the keys of the stored documents as they are now,
    without asking whether they fit.
-/
import DocumentDb.Collection.Basic

namespace DocumentDb

/-- The outcome of asking for an index: its name, and why it is not there. -/
structure EnsureReport where
  name : String
  fault? : Option Fault

/-- Whether the index is there. -/
def EnsureReport.isOk (r : EnsureReport) : Bool := r.fault?.isNone

namespace Collection

variable [Collator]

/-- The index with the keys of some documents recorded, unless two of them have a key of a unique
    index in common. -/
def buildIndex : Index → List (String × Cell) → Except Fault Index
  | i, [] => .ok i
  | i, (id, cell) :: rest => do
    let i ← i.insert id cell.document
    buildIndex i rest

/-- Registers the index of a specification. -/
def ensureSpec (c : Collection) (spec : KeySpec) : Collection × EnsureReport :=
  match c.index? spec.name with
  | some existing =>
    if existing.spec.sameDefinition spec then (c, ⟨spec.name, none⟩)
    else (c, ⟨spec.name, some (.indexDefinedOtherwise spec.name)⟩)
  | none =>
    match buildIndex (.new c.nextSerial spec) c.stored with
    | .ok i =>
      ({ c with registry := c.registry.register i, nextSerial := c.nextSerial + 1 },
        ⟨spec.name, none⟩)
    | .error fault => (c, ⟨spec.name, some (.buildFailed spec.name fault)⟩)

/-- Registers the index that a key document describes. -/
def ensureIndex (c : Collection) (keys : Document) (options : IndexOptions) :
    Collection × EnsureReport :=
  match KeySpec.ofDocument keys options with
  | .ok spec => c.ensureSpec spec
  | .error fault => (c, ⟨options.name?.getD "", some fault⟩)

/-- Drops the index of a name. -/
def dropIndex (c : Collection) (name : String) : Except Fault Collection :=
  match c.registry.deregister name with
  | (registry, some _) => .ok { c with registry := registry }
  | (_, none) => .error (.indexUnknown name c.name)

/-- Drops all indexes. -/
def dropAllIndexes (c : Collection) : Collection := { c with registry := .empty }

/-- The index with the keys of some documents recorded, whether they fit or not. -/
def recordEach : Index → List (String × Cell) → Index
  | i, [] => i
  | i, (id, cell) :: rest => recordEach (i.record id (i.spec.entries cell.document)) rest

@[simp] theorem spec_recordEach (i : Index) (documents : List (String × Cell)) :
    (recordEach i documents).spec = i.spec := by
  induction documents generalizing i with
  | nil => rfl
  | cons entry rest ih => simp [recordEach, ih]

/-- Fills the index of a name with the keys of the stored documents as they are now. -/
def rebuildIndex (c : Collection) (name : String) : Except Fault Collection :=
  if c.registry.contains name then
    .ok { c with
      registry := c.registry.modify name (fun i => recordEach i.clear c.stored) fun i => by
        simp [Index.name, Index.clear] }
  else .error (.indexUnknown name c.name)

end Collection

end DocumentDb
