/-
  DocumentDb — a store: named collections with common settings.

  * A `Store` keeps every collection that was ever made, so that a handle to one stays good
    after the collection is dropped, and the names of those that are live, in the order in
    which they were made.
  * `Store.collection` gives the number of the live collection of a name and makes it if need be;
    `Store.attach` takes in a collection that has no name in the store.
  * `Store.drop` empties the live collection of a name and takes its name away.  A later collection
    of that name is another one.
  * An `Action` asks for a collection by its name, drops one by its name, or takes a step in one by
    its number, which is what a handle to it amounts to.  `Store.act` carries an action out, and
    `Store.run` several one after the other.  An action that fails, or that asks for a number never
    given out, leaves the store as it is.
-/
import DocumentDb.Collection.Operation

namespace DocumentDb

/-- Collections that share settings. -/
structure Store where
  settings : Settings
  /-- Every collection, at the position of its number. -/
  pool : List Collection
  /-- The names of the live collections with their numbers, in order of creation. -/
  live : List (String × Nat)

namespace Store

/-- The store of some settings without collections. -/
def new (settings : Settings) : Store := { settings := settings, pool := [], live := [] }

/-- A store without collections, with some of the default settings changed. -/
def configured (changes : List Setting) : Except Fault Store := do
  let settings ← Settings.ofList changes
  return new settings

/-- The names of the live collections. -/
def names (s : Store) : List String := s.live.map (·.1)

/-- Whether there is a live collection of the name. -/
def has (s : Store) (name : String) : Bool := (s.live.lookup name).isSome

/-- The collection with a number. -/
def get? (s : Store) (number : Nat) : Option Collection := s.pool[number]?

/-- The store with the collection of a number changed. -/
def modify (s : Store) (number : Nat) (f : Collection → Collection) : Store :=
  { s with pool := s.pool.modify number f }

/-- Takes in a collection without a name and gives its number. -/
def attach (s : Store) (c : Collection) : Store × Nat :=
  ({ s with pool := s.pool ++ [c] }, s.pool.length)

/-- The number of the live collection of a name, which is made if there is none. -/
def collection (s : Store) (name : String) : Store × Nat :=
  match s.live.lookup name with
  | some number => (s, number)
  | none =>
    let (s, number) := s.attach (.new name s.settings .equality)
    ({ s with live := s.live ++ [(name, number)] }, number)

/-- Drops the live collection of a name. -/
def drop (s : Store) (name : String) : Except Fault Store :=
  match s.live.lookup name with
  | some number =>
    .ok { s.modify number fun c => c.truncate.dropAllIndexes with
      live := s.live.filter (·.1 != name) }
  | none => .error (.collectionUnknown name)

end Store

/-! ## Histories -/

/-- One step of the history of a store. -/
inductive Action where
  | collection (name : String)
  | drop (name : String)
  | step (number : Nat) (s : Step)

namespace Store

variable [Collator]

/-- The store after an action. -/
def act (s : Store) : Action → Store
  | .collection name => (s.collection name).1
  | .drop name =>
    match s.drop name with
    | .ok s => s
    | .error _ => s
  | .step number step => s.modify number fun c => c.step step

/-- The store after some actions. -/
def run (s : Store) (actions : List Action) : Store := actions.foldl act s

end Store

end DocumentDb
