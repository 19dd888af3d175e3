/-
  DocumentDb — an index in step with the stored documents.

  * `KeySpec.due` are the keys that the stored document of an id has in an index.
  * `Index.InStep i stored`: the index is consistent and records for each id what is due.  Taking
    ids away and recording one id again follow the documents that go and come (`InStep.only`,
    `InStep.record`), and filling an empty index brings it in step (`inStep_recordEach`).
  * A document is in an index in step just when it has a value in some key field, so the size of the
    index counts these documents (`InStep.size_eq`).
-/
import DocumentDb.Collection.Indexing
import DocumentDb.Proofs.Index.Only

namespace DocumentDb

namespace KeySpec

/-- The keys that the stored document of an id has in an index. -/
def due (spec : KeySpec) (stored : List (String × Cell)) (id : String) : List CompositeKey :=
  match stored.lookup id with
  | some cell => spec.entries cell.document
  | none => []

variable {spec : KeySpec} {stored stored' : List (String × Cell)} {id : String} {cell : Cell}

theorem due_congr (h : stored.lookup id = stored'.lookup id) :
    spec.due stored id = spec.due stored' id := by
  unfold due
  rw [h]

theorem due_of_lookup (h : stored.lookup id = some cell) :
    spec.due stored id = spec.entries cell.document := by
  unfold due
  rw [h]

theorem due_of_not_stored (h : stored.lookup id = none) : spec.due stored id = [] := by
  unfold due
  rw [h]

theorem due_ne_nil_iff :
    spec.due stored id ≠ [] ↔ ∃ cell, stored.lookup id = some cell ∧ spec.covers cell.document := by
  unfold due
  cases stored.lookup id with
  | none => simp
  | some cell => simp [entries_ne_nil_iff]

end KeySpec

namespace Index

variable [Collator]

/-- An index records exactly the keys of the stored documents, up to equality of keys. -/
structure InStep (i : Index) (stored : List (String × Cell)) : Prop where
  consistent : i.Consistent
  records : ∀ id key, (i.keysOf id).contains key = true ↔ (i.spec.due stored id).contains key = true

theorem inStep_clear (i : Index) : i.clear.InStep [] := by
  refine ⟨Consistent.clear i, ?_⟩
  intro id key
  rw [KeySpec.due_of_not_stored List.lookup_nil]
  simp [keysOf, Index.clear]

variable [Std.TransCmp Collator.weigh]

namespace InStep

variable {i : Index} {stored stored' : List (String × Cell)}

omit [Std.TransCmp Collator.weigh] in
theorem only (h : i.InStep stored) (kept : String → Bool) :
    (i.only kept).InStep (stored.filter fun e => kept e.1) := by
  refine ⟨h.consistent.only kept, fun id key => ?_⟩
  have hl := lookup_filter stored kept id
  show _ ↔ (i.spec.due _ id).contains key = true
  rw [keysOf_only]
  split
  · next hkept => rw [h.records, KeySpec.due_congr (hl.trans (if_pos hkept))]
  · next hkept => rw [KeySpec.due_of_not_stored (hl.trans (if_neg hkept))]

theorem record (h : i.InStep stored) {id : String} {cell : Cell} (fresh : stored.lookup id = none)
    (here : stored'.lookup id = some cell)
    (others : ∀ id', id' ≠ id → stored.lookup id' = stored'.lookup id') :
    (i.record id (i.spec.entries cell.document)).InStep stored' := by
  refine ⟨h.consistent.record id fun _ => KeySpec.directions_of_mem_entries, ?_⟩
  intro id' key
  rw [contains_keysOf_record, h.records, spec_record]
  by_cases hid : id' = id
  · rw [hid, KeySpec.due_of_not_stored fresh, KeySpec.due_of_lookup here]
    simp
  · rw [KeySpec.due_congr (others id' hid)]
    simp [hid]

/-! ## What an index in step holds -/

theorem mem_bucket_iff (h : i.InStep stored) {key : CompositeKey} {id : String} :
    id ∈ i.bucket key ↔ (i.spec.due stored id).contains key = true :=
  (mem_bucket_iff_contains h.consistent).trans (h.records id key)

theorem keysOf_ne_nil_iff (h : i.InStep stored) {id : String} :
    i.keysOf id ≠ [] ↔ i.spec.due stored id ≠ [] := by
  have hne : ∀ keys : List CompositeKey, keys ≠ [] ↔ ∃ key, keys.contains key = true := by
    intro keys
    constructor
    · intro hn
      obtain ⟨key, hk⟩ := List.exists_mem_of_ne_nil _ hn
      exact ⟨key, contains_iff.2 ⟨key, hk, BEq.rfl⟩⟩
    · rintro ⟨key, hk⟩ rfl
      simp at hk
  rw [hne, hne]
  exact exists_congr fun key => h.records id key

theorem not_recorded (h : i.InStep stored) {id : String} (hid : stored.lookup id = none) :
    i.contains id = false ∧ ∀ b ∈ i.buckets, id ∉ b.2 := by
  have hdue : i.spec.due stored id = [] := KeySpec.due_of_not_stored hid
  constructor
  · refine Bool.eq_false_iff.2 ?_
    intro hc
    have hne := (mem_recorded_iff h.consistent).1 (lookup_isSome_iff.1 hc)
    exact h.keysOf_ne_nil_iff.1 hne hdue
  · intro b hb hmem
    have hk := (h.records id b.1).1 ((h.consistent.holds_iff b.1 id).1 ⟨b, hb, BEq.rfl, hmem⟩)
    rw [hdue] at hk
    simp at hk

/-- **The size of an index is the number of stored documents with a value in some key field.** -/
theorem size_eq (h : i.InStep stored) (distinct : (stored.map (·.1)).Nodup) :
    i.size = stored.countP fun e => i.spec.covers e.2.document := by
  let covered := stored.filter fun e => i.spec.covers e.2.document
  have hc : (covered.map (·.1)).Nodup := distinct.sublist (List.filter_sublist.map _)
  have hp : (i.recorded.map (·.1)).Perm (covered.map (·.1)) := by
    refine (List.perm_ext_iff_of_nodup h.consistent.distinct hc).2 ?_
    intro id
    rw [mem_recorded_iff h.consistent, h.keysOf_ne_nil_iff, KeySpec.due_ne_nil_iff, List.mem_map]
    constructor
    · rintro ⟨cell, hl, hcov⟩
      exact ⟨(id, cell), List.mem_filter.2 ⟨(mem_iff_lookup distinct).2 hl, hcov⟩, rfl⟩
    · rintro ⟨e, he, rfl⟩
      obtain ⟨hs, hcov⟩ := List.mem_filter.1 he
      exact ⟨e.2, (mem_iff_lookup distinct).1 hs, hcov⟩
  rw [List.countP_eq_length_filter, ← List.length_map (f := fun e : String × Cell => e.1),
    ← hp.length_eq, List.length_map]
  rfl

end InStep

/-! ## Filling an index -/

open Collection (recordEach buildIndex)

theorem inStep_recordEach : ∀ {documents done : List (String × Cell)} {i : Index},
    i.InStep done → ((done ++ documents).map (·.1)).Nodup →
    (recordEach i documents).InStep (done ++ documents)
  | [], done, i, h, _ => by rwa [List.append_nil]
  | (id, cell) :: rest, done, i, h, hd => by
    have hfresh := lookup_of_nodup_append hd
    have hl := lookup_append_fresh hfresh cell
    have hi := h.record hfresh ((hl id).trans (if_pos rfl)) fun id' hid =>
      ((hl id').trans (if_neg hid)).symm
    rw [recordEach, List.append_cons]
    exact inStep_recordEach hi (List.append_cons .. ▸ hd)

omit [Std.TransCmp Collator.weigh] in
/-- An index is built by recording every document, if none is refused. -/
theorem buildIndex_eq_recordEach : ∀ {documents : List (String × Cell)} {i j : Index},
    buildIndex i documents = .ok j → j = recordEach i documents
  | [], i, j, h => (Except.ok.inj h).symm
  | (id, cell) :: rest, i, j, h => by
    rw [buildIndex, insert] at h
    rw [recordEach]
    cases hv : i.validate id (i.spec.entries cell.document) with
    | error fault => rw [hv] at h; cases h
    | ok u =>
      rw [hv] at h
      exact buildIndex_eq_recordEach h

end Index

end DocumentDb
