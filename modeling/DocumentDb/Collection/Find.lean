/-
  DocumentDb — finding documents.

  * `Collection.candidates` are the documents that a plan leads to, and `Collection.search` those of
    them that the matcher of the collection accepts, in the same order.
  * `Collection.find` gives the documents as copies or as live handles, as the options and
    the settings say.
-/
import DocumentDb.Collection.Basic
import DocumentDb.Collection.Plan

namespace DocumentDb

/-- What a search finds: the documents under their ids, the plan that led to them, and the number of
    documents that were tried. -/
structure Matches where
  found : List (String × Cell)
  plan : Plan
  scanned : Nat

/-- The outcome of a find. -/
structure FindResult where
  found : List (String × Cell)
  /-- Whether the results are copies. -/
  decoupled : Bool
  plan : Plan
  scanned : Nat

namespace FindResult

/-- The documents found. -/
def documents (r : FindResult) : List Document := r.found.map (·.2.document)

/-- The ids in the documents found, where they are texts. -/
def ids (r : FindResult) : List String := r.documents.filterMap (·.id?)

/-- The handles of the documents found. -/
def handles (r : FindResult) : List Handle :=
  r.found.map fun (_, cell) => if r.decoupled then .copy cell.document else .live cell.serial

end FindResult

namespace Collection

variable [Collator]

/-- The stored documents of some ids that an index gives.  Each has to be there. -/
def fetch (c : Collection) (i : Index) : List String → Except Fault (List (String × Cell))
  | [] => .ok []
  | id :: rest =>
    match c.cell? id with
    | some cell => do
      let others ← c.fetch i rest
      return (id, cell) :: others
    | none => .error (.documentUnknown i.name id)

/-- The documents to try. -/
def candidates (c : Collection) : Access → Except Fault (List (String × Cell))
  | .byIndex i probe => c.fetch i (i.lookup probe)
  | .byId id => .ok ((c.cell? id).map fun cell => (id, cell)).toList
  | .scan => .ok c.stored

/-- The documents that a matcher accepts, in their order. -/
def accepted (accepts : Document → Except Fault Bool) :
    List (String × Cell) → Except Fault (List (String × Cell))
  | [] => .ok []
  | (id, cell) :: rest => do
    let accept ← accepts cell.document
    let others ← accepted accepts rest
    return if accept then (id, cell) :: others else others

/-- The plan for a filter. -/
def explain (c : Collection) (filter : Document) (options : FindOptions) : Except Fault Plan :=
  Plan.ofFilter filter options c.registry

/-- The documents that meet a filter. -/
def search (c : Collection) (filter : Document) (options : FindOptions) : Except Fault Matches := do
  let plan ← c.explain filter options
  let tried ← c.candidates plan.access
  let found ← accepted (c.matcher · filter) tried
  return ⟨found, plan, tried.length⟩

/-- The documents that meet a filter, as the options ask for them. -/
def find (c : Collection) (filter : Document) (options : FindOptions) :
    Except Fault FindResult := do
  let m ← c.search filter options
  return ⟨m.found, options.decoupleOr c.settings.decoupleResults, m.plan, m.scanned⟩

/-- The first document that meets a filter. -/
def findOne (c : Collection) (filter : Document) : Except Fault (Option Document) := do
  let r ← c.find filter {}
  return r.documents.head?

end Collection

end DocumentDb
