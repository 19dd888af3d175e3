/-
  DocumentDb — the operations on a collection as data.

  * An `Operation` is one call that may change a collection; `Collection.perform` carries it out and
    gives the fault that it returns, if it returns one.
  * A `Step` is an operation, or a change of a stored document through a live handle, which
    no index notices.
  * `Collection.Reachable allowed` are the collections that a history of allowed steps leads to:
    operations alone (`Step.IsOperation`), checked ones (`Step.IsChecked`), or any steps at all.
-/
import DocumentDb.Collection.Indexing
import DocumentDb.Collection.Write

namespace DocumentDb

/-- A call that may change a collection. -/
inductive Operation where
  | insertMany (source : IdSource) (documents : List Document)
  | remove (filter : Document)
  | removeDocument (d : Document)
  | update (filter changes : Document)
  | load (source : IdSource) (documents : List Document) (options : LoadOptions)
  | truncate
  | ensureIndex (keys : Document) (options : IndexOptions)
  | ensureSpec (spec : KeySpec)
  | dropIndex (name : String)
  | dropAllIndexes
  | rebuildIndex (name : String)

/-- One step of the history of a collection. -/
inductive Step where
  | operation (op : Operation)
  | amend (serial : Nat) (d : Document)

namespace Step

/-- The step is an operation, which keeps the indexes in step with the documents. -/
def IsOperation : Step → Prop
  | operation _ => True
  | amend .. => False

/-- The step is an operation in which unique indexes keep documents out. -/
def IsChecked : Step → Prop
  | operation (.load _ _ options) => options.violationCheck = true
  | operation _ => True
  | amend .. => False

end Step

/-- The fault of an outcome. -/
def faultOf {α : Type} : Except Fault α → Option Fault
  | .ok _ => none
  | .error fault => some fault

namespace Collection

variable [Collator]

/-- The collection that an outcome leaves, which is the one before it if it is a fault. -/
def settle (c : Collection) : Except Fault Collection → Collection × Option Fault
  | .ok c => (c, none)
  | .error fault => (c, some fault)

/-- The collection after an operation, and the fault that the operation returns. -/
def perform (c : Collection) : Operation → Collection × Option Fault
  | .insertMany source documents =>
    let (c, _, report) := c.insertMany source documents
    (c, faultOf report)
  | .remove filter =>
    let (c, removed) := c.remove filter
    (c, faultOf removed)
  | .removeDocument d =>
    let (c, removed) := c.removeDocument d
    (c, faultOf removed)
  | .update filter changes =>
    let (c, report) := c.update filter changes
    (c, faultOf report)
  | .load source documents options =>
    let (c, _, report) := c.load source documents options
    (c, faultOf report)
  | .truncate => (c.truncate, none)
  | .ensureIndex keys options => ((c.ensureIndex keys options).1, none)
  | .ensureSpec spec => ((c.ensureSpec spec).1, none)
  | .dropIndex name => c.settle (c.dropIndex name)
  | .dropAllIndexes => (c.dropAllIndexes, none)
  | .rebuildIndex name => c.settle (c.rebuildIndex name)

/-- The collection after a step. -/
def step (c : Collection) : Step → Collection
  | .operation op => (c.perform op).1
  | .amend serial d => c.amend serial d

/-- The collections that some history of allowed steps leads to from a new collection. -/
inductive Reachable (allowed : Step → Prop) : Collection → Prop where
  | new (name : String) (settings : Settings) (matcher : Matcher) :
    Reachable allowed (.new name settings matcher)
  | step {c : Collection} (s : Step) : Reachable allowed c → allowed s →
    Reachable allowed (c.step s)

theorem Reachable.mono {allowed allowed' : Step → Prop} (h : ∀ s, allowed s → allowed' s)
    {c : Collection} (r : Reachable allowed c) : Reachable allowed' c := by
  induction r with
  | new name settings matcher => exact .new name settings matcher
  | step s _ hs ih => exact .step s ih (h s hs)

end Collection

end DocumentDb
