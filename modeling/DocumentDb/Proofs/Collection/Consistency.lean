/-
  DocumentDb — indexes stay in step with the stored documents.

  * No move stores an id twice, so no history does (`Move.distinct`, `Reachable.distinct`).
  * `Collection.InStep`: no id is stored twice, and every registered index is in step with the
    stored documents.  Every move preserves it (`InStep.move`), so every operation does
    (`InStep.perform`), and it holds of every collection that operations lead to
    (`Reachable.inStep`).
  * **`indexes_record_stored_documents`** spells out what this says of the two maps of an
    index and of its size.
-/
import DocumentDb.Proofs.Collection.Move

namespace DocumentDb

namespace Collection

section

variable [Collator]

/-- No id is stored twice, and every index records the keys of the stored documents. -/
structure InStep (c : Collection) : Prop where
  distinct : (c.stored.map (·.1)).Nodup
  indexes : ∀ i ∈ c.registry.indexes, i.InStep c.stored

/-! ## Ids -/

variable {checked : Prop} {c c' : Collection}

theorem distinct_place (distinct : (c.stored.map (·.1)).Nodup) {id : String}
    (fresh : c.cell? id = none) (d : Document) : ((c.place id d).stored.map (·.1)).Nodup := by
  unfold Collection.place
  rw [List.map_append]
  refine List.nodup_append'.2 ⟨distinct, List.nodup_singleton _, ?_⟩
  intro other hm hs
  rw [List.mem_singleton.1 hs] at hm
  exact lookup_eq_none_iff.1 fresh hm

omit [Collator] in
theorem ids_amend (c : Collection) (serial : Nat) (d : Document) :
    (c.amend serial d).stored.map (·.1) = c.stored.map (·.1) := by
  unfold amend
  rw [List.map_map]
  rfl

/-- **No move stores an id twice.** -/
theorem Move.distinct (m : Move checked c c') (distinct : (c.stored.map (·.1)).Nodup) :
    (c'.stored.map (·.1)).Nodup := by
  cases m with
  | place id d fresh passes => exact distinct_place distinct fresh d
  | discard id =>
    rcases discard_cases c id with ⟨-, hs⟩ | ⟨-, hs⟩
    · rwa [hs]
    · rw [hs]
      exact distinct.sublist (List.filter_sublist.map _)
  | replace id d known passes =>
    rw [ids_replace]
    exact distinct
  | truncate => exact List.nodup_nil
  | register spec i built => exact distinct
  | withdraw registry kept => exact distinct
  | rebuild name c' rebuilt =>
    rw [(rebuildIndex_cases rebuilt).1]
    exact distinct

theorem Moves.distinct (m : Moves checked c c') (distinct : (c.stored.map (·.1)).Nodup) :
    (c'.stored.map (·.1)).Nodup := by
  induction m with
  | refl => exact distinct
  | tail _ m ih => exact m.distinct ih

/-- In no history an id is stored twice, whatever is changed through live handles. -/
theorem Reachable.distinct {allowed : Step → Prop} (h : c.Reachable allowed) :
    (c.stored.map (·.1)).Nodup := by
  induction h with
  | new name settings matcher => exact List.nodup_nil
  | @step c s _ _ ih =>
    cases s with
    | operation op => exact Moves.distinct (perform_moves c op) ih
    | amend serial d =>
      show ((c.amend serial d).stored.map (·.1)).Nodup
      rw [ids_amend]
      exact ih

/-! ## One move -/

/-- A collection without documents has its indexes in step, whatever they held. -/
theorem inStep_truncate (c : Collection) : c.truncate.InStep := by
  refine ⟨List.nodup_nil, ?_⟩
  intro j hj
  obtain ⟨i, -, rfl⟩ := List.mem_map.1 hj
  exact Index.inStep_clear i

variable [Std.TransCmp Collator.weigh]

theorem InStep.place (h : c.InStep) {id : String} (fresh : c.cell? id = none) (d : Document) :
    (c.place id d).InStep := by
  refine ⟨distinct_place h.distinct fresh d, fun j hj => ?_⟩
  obtain ⟨i, hi, rfl⟩ := List.mem_map.1 hj
  have hl := lookup_append_fresh fresh ⟨c.nextSerial, d⟩
  have hin := (h.indexes i hi).record fresh ((hl id).trans (if_pos rfl)) fun id' hid =>
    ((hl id').trans (if_neg hid)).symm
  exact hin

omit [Std.TransCmp Collator.weigh] in
theorem InStep.sound (h : c.InStep) : c.Sound := fun i hi => (h.indexes i hi).consistent

theorem InStep.discard (h : c.InStep) (id : String) : (c.discard id).1.InStep := by
  rw [h.sound.discard_eq]
  refine ⟨h.distinct.sublist (List.filter_sublist.map _), ?_⟩
  intro j hj
  obtain ⟨i, hi, rfl⟩ := List.mem_map.1 hj
  exact (h.indexes i hi).only (· != id)

theorem InStep.replace (h : c.InStep) {id : String} (known : (c.cell? id).isSome = true)
    (d : Document) : (c.replace id d).1.InStep := by
  obtain ⟨cell, hc⟩ := Option.isSome_iff_exists.1 known
  refine ⟨by rw [ids_replace]; exact h.distinct, ?_⟩
  -- the keys go out with the old contents and come in with the new ones
  have hself := lookup_replace_self (h.sound.replace_eq_ok id d) hc
  have hothers : ∀ id', id' ≠ id → (c.stored.filter (·.1 != id)).lookup id' =
      (c.replace id d).1.stored.lookup id' := by
    intro id' hne
    rw [lookup_filter_ne, if_neg hne, lookup_replace_ne hne]
  have hgone : (c.stored.filter (·.1 != id)).lookup id = none := by
    rw [lookup_filter_ne, if_pos rfl]
  rw [h.sound.replace_eq] at hself hothers ⊢
  intro j hj
  obtain ⟨j', hj', rfl⟩ := List.mem_map.1 hj
  obtain ⟨i, hi, rfl⟩ := List.mem_map.1 hj'
  exact ((h.indexes i hi).only (· != id)).record hgone hself hothers

/-- **A move keeps the indexes in step.** -/
theorem InStep.move (h : c.InStep) (m : Move checked c c') : c'.InStep := by
  cases m with
  | place id d fresh passes => exact h.place fresh d
  | discard id => exact h.discard id
  | replace id d known passes => exact h.replace known d
  | truncate => exact inStep_truncate c
  | register spec i built =>
    refine ⟨h.distinct, ?_⟩
    intro j hj
    rcases mem_register hj with hj | rfl
    · exact h.indexes j hj
    · rw [Index.buildIndex_eq_recordEach built]
      exact Index.inStep_recordEach (Index.inStep_clear (.new c.nextSerial spec)) h.distinct
  | withdraw registry kept => exact ⟨h.distinct, fun j hj => h.indexes j (kept j hj)⟩
  | rebuild name c' rebuilt =>
    obtain ⟨hs, hr⟩ := rebuildIndex_cases rebuilt
    refine ⟨hs ▸ h.distinct, ?_⟩
    intro j hj
    rw [hs]
    obtain ⟨i, hi, rfl | rfl⟩ := hr j hj
    · exact h.indexes j hi
    · exact Index.inStep_recordEach (Index.inStep_clear i) h.distinct

/-! ## Every history -/

theorem InStep.moves (h : c.InStep) (m : Moves checked c c') : c'.InStep := by
  induction m with
  | refl => exact h
  | tail _ m ih => exact ih.move m

theorem InStep.perform (h : c.InStep) (op : Operation) : (c.perform op).1.InStep :=
  h.moves (perform_moves c op)

omit [Std.TransCmp Collator.weigh] in
theorem inStep_new (name : String) (settings : Settings) (matcher : Matcher) :
    (Collection.new name settings matcher).InStep := ⟨List.nodup_nil, nofun⟩

omit [Collator] [Std.TransCmp Collator.weigh] in
theorem isOperation_of_isChecked : ∀ {s : Step}, s.IsChecked → s.IsOperation
  | .operation _, _ => trivial

theorem Reachable.inStep (h : c.Reachable Step.IsOperation) : c.InStep := by
  induction h with
  | new name settings matcher => exact inStep_new name settings matcher
  | step s _ hs ih =>
    cases s with
    | operation op => exact ih.perform op
    | amend serial d => exact absurd hs id

/-- **Every index records, for each stored document, exactly the keys of its present contents, and
    nothing else.**  This holds of both maps of the index: of the keys of each id, and of the ids
    under each key. -/
theorem indexes_record_stored_documents (h : c.Reachable Step.IsOperation) {i : Index}
    (hi : i ∈ c.registry.indexes) :
    (∀ id cell, (id, cell) ∈ c.stored → ∀ key,
      (i.keysOf id).contains key = (i.spec.entries cell.document).contains key ∧
        (i.bucket key).contains id = (i.spec.entries cell.document).contains key) ∧
    (∀ id, id ∉ c.stored.map (·.1) → i.contains id = false ∧ ∀ b ∈ i.buckets, id ∉ b.2) ∧
    (∀ b ∈ i.buckets, b.2 ≠ [] ∧ i.bucket b.1 = b.2) ∧
    i.size = c.stored.countP fun e => i.spec.covers e.2.document := by
  have hs := Reachable.inStep h
  have hin := hs.indexes i hi
  have ho := hin.consistent.ordered
  refine ⟨fun id cell hc key => ?_, fun id hid => ?_,
    fun b hb => ⟨ho.filled b hb, Index.bucket_eq_of_mem ho hb⟩, hin.size_eq hs.distinct⟩
  · have hl := (mem_iff_lookup hs.distinct).1 hc
    have hk := hin.records id key
    have hb : id ∈ i.bucket key ↔ (i.spec.due c.stored id).contains key = true := hin.mem_bucket_iff
    rw [KeySpec.due_of_lookup hl] at hk hb
    exact ⟨Bool.eq_iff_iff.2 hk, Bool.eq_iff_iff.2 (List.contains_iff_mem.trans hb)⟩
  · exact hin.not_recorded (lookup_eq_none_iff.2 hid)

end

/-- Two documents, of which the first has a label, and a unique index of the labels. -/
def labelled : Collection :=
  let spec : KeySpec := ⟨[⟨"label", .ascending, by decide⟩], true, "label", by simp, by simp⟩
  let documents : List Document :=
    [.ofList [("_id", .text "1"), ("label", .text "a")], .ofList [("_id", .text "2")]]
  ((Collection.new "notes" {} .equality).step (.operation (.ensureSpec spec))).step
    (.operation (.insertMany ⟨fun _ => "", 0⟩ documents))

theorem labelled_reachable : labelled.Reachable Step.IsChecked := by
  unfold labelled
  refine .step _ (.step _ (.new "notes" {} .equality) ?_) ?_
  · trivial
  · trivial

theorem labelled_index_records : ∃ i ∈ labelled.registry.indexes, i.size = 1 ∧
    (∀ id cell, (id, cell) ∈ labelled.stored → ∀ key,
      (i.keysOf id).contains key = (i.spec.entries cell.document).contains key ∧
        (i.bucket key).contains id = (i.spec.entries cell.document).contains key) ∧
    (∀ id, id ∉ labelled.stored.map (·.1) → i.contains id = false ∧ ∀ b ∈ i.buckets, id ∉ b.2) ∧
    (∀ b ∈ i.buckets, b.2 ≠ [] ∧ i.bucket b.1 = b.2) ∧
    i.size = labelled.stored.countP fun e => i.spec.covers e.2.document := by
  obtain ⟨i, hi, hsize⟩ : ∃ i ∈ labelled.registry.indexes, i.size = 1 :=
    ⟨_, List.mem_singleton_self _, rfl⟩
  have hr := labelled_reachable.mono fun _ => isOperation_of_isChecked
  exact ⟨i, hi, hsize, indexes_record_stored_documents hr hi⟩

end Collection

end DocumentDb
