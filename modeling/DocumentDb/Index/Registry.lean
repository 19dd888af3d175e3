/-
  DocumentDb — the indexes of a collection, in the order in which they were registered.

  * A `Registry` holds indexes of distinct names.  `Registry.ensure` registers an index last unless
    its name is taken, `Registry.deregister` takes one out and leaves the order of the others.
  * `Registry.validate`, `Registry.record`, `Registry.verify` and `Registry.remove` do to every
    index what one document asks for.  A removal verifies all indexes before it changes one, and the
    first index that fails ends it.
-/
import DocumentDb.Index.Basic

namespace DocumentDb

/-- Indexes of distinct names. -/
structure Registry where
  indexes : List Index
  distinct : (indexes.map Index.name).Nodup

namespace Registry

variable [Collator]

/-- The registry without indexes. -/
def empty : Registry := ⟨[], by simp⟩

instance : Inhabited Registry := ⟨empty⟩

/-! ## Indexes by name -/

/-- The index with a name. -/
def get? (r : Registry) (name : String) : Option Index := r.indexes.find? (·.name == name)

/-- Whether a name is taken. -/
def contains (r : Registry) (name : String) : Bool := (r.get? name).isSome

/-- The names in order of registration. -/
def names (r : Registry) : List String := r.indexes.map (·.name)

/-- The number of indexes. -/
def size (r : Registry) : Nat := r.indexes.length

/-- The registry with an index registered last, if its name is free. -/
def register (r : Registry) (i : Index) : Registry :=
  if taken : i.name ∈ r.indexes.map Index.name then r
  else ⟨r.indexes ++ [i], by
    simp only [List.map_append, List.map_cons, List.map_nil]
    exact List.nodup_append.2 ⟨r.distinct, by simp, by
      intro a ha b hb
      rw [List.mem_singleton.1 hb]
      exact fun h => taken (h ▸ ha)⟩⟩

/-- Registers an index unless its name is taken.  Gives the index that has the name afterwards and
    whether it is new. -/
def ensure (r : Registry) (i : Index) : Registry × Index × Bool :=
  match r.get? i.name with
  | some existing => (r, existing, false)
  | none => (r.register i, i, true)

/-- The registry without the index of a name, which is given as well. -/
def deregister (r : Registry) (name : String) : Registry × Option Index :=
  (⟨r.indexes.filter (·.name != name), (List.filter_sublist.map _).nodup r.distinct⟩, r.get? name)

/-! ## All indexes at once -/

/-- The registry with every index changed in its entries. -/
def map (r : Registry) (f : Index → Index) (keepsName : ∀ i, (f i).name = i.name) : Registry :=
  ⟨r.indexes.map f, by
    rw [List.map_map, show Index.name ∘ f = Index.name from funext keepsName]
    exact r.distinct⟩

/-- The registry with the entries of the index of one name changed. -/
def modify (r : Registry) (name : String) (f : Index → Index)
    (keepsName : ∀ i, (f i).name = i.name) : Registry :=
  r.map (fun i => if i.name = name then f i else i) fun i => by
    show (if i.name = name then f i else i).name = i.name
    split
    · exact keepsName i
    · rfl

/-- Whether every index lets a document have its keys; the first that does not decides. -/
def validate (r : Registry) (id : String) (d : Document) : Except Fault Unit :=
  r.indexes.forM fun i => i.validate id (i.spec.entries d)

/-- The registry with the keys of a document recorded in every index. -/
def record (r : Registry) (id : String) (d : Document) : Registry :=
  r.map (fun i => i.record id (i.spec.entries d)) fun i => by simp [Index.name]

/-- Whether every index leads back to a document from all keys that it records for it. -/
def verify (r : Registry) (id : String) : Except Fault Unit :=
  r.indexes.forM fun i => i.verify id

/-- Takes the keys of a document away from one index after the other, until one fails. -/
def removeEach (id : String) : List Index → List Index × Except Fault Unit
  | [] => ([], .ok ())
  | i :: rest =>
    match i.remove id with
    | (i, .error fault) => (i :: rest, .error fault)
    | (i, .ok _) =>
      let (rest, outcome) := removeEach id rest
      (i :: rest, outcome)

theorem specs_removeEach (id : String) (indexes : List Index) :
    (removeEach id indexes).1.map (·.spec) = indexes.map (·.spec) := by
  induction indexes with
  | nil => rfl
  | cons i rest ih =>
    have hspec := i.spec_remove id
    rw [removeEach]
    split
    · next hi =>
      rw [hi] at hspec
      rw [List.map_cons, List.map_cons, hspec]
    · next hi =>
      rw [hi] at hspec
      rw [List.map_cons, List.map_cons, hspec, ih]

theorem names_removeEach (id : String) (indexes : List Index) :
    (removeEach id indexes).1.map Index.name = indexes.map Index.name := by
  have hspecs := congrArg (List.map KeySpec.name) (specs_removeEach id indexes)
  rwa [List.map_map, List.map_map] at hspecs

/-- The registry without the keys of a document, unless an index does not lead back to the
    document. -/
def remove (r : Registry) (id : String) : Registry × Except Fault Unit :=
  match r.verify id with
  | .error fault => (r, .error fault)
  | .ok () =>
    let removal := removeEach id r.indexes
    (⟨removal.1, (names_removeEach id r.indexes).symm ▸ r.distinct⟩, removal.2)

/-- The registry with every index emptied. -/
def clear (r : Registry) : Registry := r.map (·.clear) fun _ => rfl

end Registry

end DocumentDb
