/-
  DocumentDb — documents that no unique index sets against each other.

  * `Collection.contents` are the stored documents under their ids, in their order, wherever
    they are kept.
  * `Registry.Separates r d d'`: no unique index gives two documents a key in common.  Indexes that
    are not unique do not matter to it (`separates_congr`).
  * **`InStep.admits_iff`**: indexes in step let a document pass under an id just when they separate
    it from the documents of all other ids.  So what passes depends on the documents and on the
    unique indexes alone.
-/
import DocumentDb.Proofs.Collection.Consistency

namespace DocumentDb

variable [Collator]

/-! ## Unique keys in common -/

namespace Registry

/-- No unique index gives the two documents a key in common. -/
def Separates (r : Registry) (d d' : Document) : Prop :=
  ∀ i ∈ r.indexes, i.spec.unique = true →
    ∀ key ∈ i.spec.entries d, ∀ key' ∈ i.spec.entries d', (key == key') = false

instance (r : Registry) (d d' : Document) : Decidable (r.Separates d d') :=
  inferInstanceAs (Decidable (∀ i ∈ r.indexes, i.spec.unique = true →
    ∀ key ∈ i.spec.entries d, ∀ key' ∈ i.spec.entries d', (key == key') = false))

/-- Two registries have the same unique indexes, whatever these hold and whatever others there
    are. -/
def SameUnique (r r' : Registry) : Prop :=
  ∀ spec : KeySpec, spec.unique = true →
    (spec ∈ r.indexes.map (·.spec) ↔ spec ∈ r'.indexes.map (·.spec))

variable {r r' r'' : Registry} {d d' : Document}

omit [Collator] in
theorem SameUnique.refl (r : Registry) : r.SameUnique r := fun _ _ => Iff.rfl

omit [Collator] in
theorem SameUnique.symm (h : r.SameUnique r') : r'.SameUnique r := fun spec hu => (h spec hu).symm

omit [Collator] in
theorem SameUnique.trans (h : r.SameUnique r') (h' : r'.SameUnique r'') : r.SameUnique r'' :=
  fun spec hu => (h spec hu).trans (h' spec hu)

/-- Whether documents are separated is a matter of the specifications. -/
theorem separates_iff : r.Separates d d' ↔ ∀ spec ∈ r.indexes.map (·.spec), spec.unique = true →
    ∀ key ∈ spec.entries d, ∀ key' ∈ spec.entries d', (key == key') = false := by
  rw [List.forall_mem_map]
  rfl

theorem separates_comm [Std.TransCmp Collator.weigh] : r.Separates d d' ↔ r.Separates d' d := by
  constructor
  · exact fun h i hi hu key hkey key' hkey' => BEq.comm.trans (h i hi hu key' hkey' key hkey)
  · exact fun h i hi hu key hkey key' hkey' => BEq.comm.trans (h i hi hu key' hkey' key hkey)

theorem separates_congr (h : r.SameUnique r') : r.Separates d d' ↔ r'.Separates d d' := by
  rw [separates_iff, separates_iff]
  refine forall_congr' fun spec => ?_
  constructor
  · exact fun hs hm hu => hs ((h spec hu).2 hm) hu
  · exact fun hs hm hu => hs ((h spec hu).1 hm) hu

theorem specs_record (r : Registry) (id : String) (d : Document) :
    (r.record id d).indexes.map (·.spec) = r.indexes.map (·.spec) := by
  refine (List.map_map ..).trans (List.map_congr_left fun i _ => ?_)
  exact Index.spec_record ..

omit [Collator] in
theorem specs_only (r : Registry) (kept : String → Bool) :
    (r.only kept).indexes.map (·.spec) = r.indexes.map (·.spec) :=
  List.map_map ..

end Registry

namespace Collection

/-! ## Contents -/

/-- Documents under their ids, wherever they are kept. -/
def contentsOf (entries : List (String × Cell)) : List (String × Document) :=
  entries.map fun e => (e.1, e.2.document)

/-- The stored documents under their ids, in their order. -/
def contents (c : Collection) : List (String × Document) := contentsOf c.stored

variable {c : Collection} {id : String} {d : Document}

omit [Collator] in
theorem mem_contentsOf {entries : List (String × Cell)} {e : String × Cell} (h : e ∈ entries) :
    (e.1, e.2.document) ∈ contentsOf entries :=
  List.mem_map_of_mem h

omit [Collator] in
theorem ids_contentsOf (entries : List (String × Cell)) :
    (contentsOf entries).map (·.1) = entries.map (·.1) :=
  List.map_map ..

omit [Collator] in
theorem findById_eq_lookup (c : Collection) (id : String) : c.findById id = c.contents.lookup id :=
  (lookup_map_value c.stored (fun _ cell => cell.document) id).symm

/-- **What indexes in step let pass is what they separate from the documents of all other ids.** -/
theorem InStep.admits_iff (h : c.InStep) : c.registry.Admits id d ↔
    ∀ e ∈ c.contents, e.1 ≠ id → c.registry.Separates d e.2 := by
  unfold contents contentsOf
  rw [List.forall_mem_map]
  constructor
  · intro hadmits e he hne i hi hu key hkey key' hkey'
    refine Bool.eq_false_iff.2 fun heq => hne (hadmits i hi hu key hkey e.1 ?_)
    rw [(h.indexes i hi).records, KeySpec.due_of_lookup ((mem_iff_lookup h.distinct).1 he)]
    exact Index.contains_iff.2 ⟨key', hkey', heq⟩
  · intro hapart i hi hu key hkey other hother
    rw [(h.indexes i hi).records] at hother
    by_contra hne
    cases hl : c.stored.lookup other with
    | none =>
      rw [KeySpec.due_of_not_stored hl] at hother
      cases hother
    | some cell =>
      rw [KeySpec.due_of_lookup hl] at hother
      obtain ⟨key', hkey', heq⟩ := Index.contains_iff.1 hother
      have hfalse := hapart (other, cell) (mem_of_lookup hl) hne i hi hu key hkey key' hkey'
      rw [heq] at hfalse
      cases hfalse

end Collection

end DocumentDb
