/-
  DocumentDb — unique indexes keep documents apart.

  * `KeySpec.Exclusive spec stored`: no two stored documents have a key in common.  A document that
    the index lets pass keeps it so (`Exclusive.write`), and so does every document that goes
    (`Exclusive.drop`); an index that is built finds the stored documents so, or fails
    (`exclusive_buildIndex`).
  * Checked moves keep every unique index so (`Collection.Exclusive.move`).
  * **`unique_buckets_single`**: where unique indexes always keep documents out, each of their
    buckets has one id.
-/
import DocumentDb.Proofs.Collection.Consistency

namespace DocumentDb

section

variable [Collator]

/-- No two stored documents have a key of an index in common. -/
def KeySpec.Exclusive (spec : KeySpec) (stored : List (String × Cell)) : Prop :=
  ∀ id id' key, (spec.due stored id).contains key = true →
    (spec.due stored id').contains key = true → id = id'

namespace KeySpec.Exclusive

variable {spec : KeySpec} {stored stored' : List (String × Cell)}

theorem nil : spec.Exclusive [] := by
  intro id id' key h
  rw [due_of_not_stored List.lookup_nil] at h
  simp at h

theorem drop (h : spec.Exclusive stored)
    (kept : ∀ id, stored'.lookup id = none ∨ stored.lookup id = stored'.lookup id) :
    spec.Exclusive stored' := by
  have hsub : ∀ id key, (spec.due stored' id).contains key = true →
      (spec.due stored id).contains key = true := by
    intro id key hk
    rcases kept id with hn | he
    · rw [due_of_not_stored hn] at hk
      simp at hk
    · rwa [due_congr he]
  exact fun id id' key hk hk' => h id id' key (hsub id key hk) (hsub id' key hk')

variable [Std.TransCmp Collator.weigh]

/-- A document whose keys an index in step lets pass may take the place of what is under its id. -/
theorem write {i : Index} (h : i.spec.Exclusive stored) (hi : i.InStep stored)
    (hu : i.spec.unique = true) {id : String} {cell : Cell}
    (hv : i.validate id (i.spec.entries cell.document) = .ok ())
    (here : stored'.lookup id = some cell)
    (others : ∀ id', id' ≠ id → stored.lookup id' = stored'.lookup id') :
    i.spec.Exclusive stored' := by
  -- whoever shares a key with the new document had it before, so the index has let pass only `id`
  have hnew : ∀ id' key, id' ≠ id → (i.spec.due stored' id').contains key = true →
      (i.spec.due stored' id).contains key = true → False := by
    intro id' key hne hk hkid
    rw [due_of_lookup here] at hkid
    obtain ⟨k, hmem, hkk⟩ := Index.contains_iff.1 hkid
    rw [← due_congr (others id' hne)] at hk
    obtain ⟨k', hmem', hkk'⟩ := Index.contains_iff.1 hk
    have howner : id' ∈ i.bucket k :=
      hi.mem_bucket_iff.2 (Index.contains_iff.2 ⟨k', hmem', BEq.trans (BEq.symm hkk) hkk'⟩)
    exact hne (Index.validate_eq_ok_iff.1 hv hu k hmem id' howner)
  intro id₁ id₂ key h₁ h₂
  by_cases e₁ : id₁ = id
  · by_cases e₂ : id₂ = id
    · exact e₁.trans e₂.symm
    · exact absurd (e₁ ▸ h₁) fun hk => hnew id₂ key e₂ h₂ hk
  · by_cases e₂ : id₂ = id
    · exact absurd (e₂ ▸ h₂) fun hk => hnew id₁ key e₁ h₁ hk
    · rw [← due_congr (others id₁ e₁)] at h₁
      rw [← due_congr (others id₂ e₂)] at h₂
      exact h id₁ id₂ key h₁ h₂

end KeySpec.Exclusive

open Collection (buildIndex)

theorem Index.exclusive_buildIndex [Std.TransCmp Collator.weigh] :
    ∀ {documents done : List (String × Cell)} {i j : Index}, buildIndex i documents = .ok j →
      i.InStep done → ((done ++ documents).map (·.1)).Nodup → i.spec.unique = true →
      i.spec.Exclusive done → i.spec.Exclusive (done ++ documents)
  | [], done, i, j, _, _, _, _, he => by rwa [List.append_nil]
  | (id, cell) :: rest, done, i, j, h, hi, hd, hu, he => by
    have hfresh := lookup_of_nodup_append hd
    have hl := lookup_append_fresh hfresh cell
    have here := (hl id).trans (if_pos rfl)
    have others : ∀ id', id' ≠ id → done.lookup id' = (done ++ [(id, cell)]).lookup id' :=
      fun id' hid => ((hl id').trans (if_neg hid)).symm
    rw [buildIndex, insert] at h
    cases hv : i.validate id (i.spec.entries cell.document) with
    | error fault => rw [hv] at h; cases h
    | ok u =>
      rw [hv] at h
      have hnext := he.write hi hu hv here others
      rw [List.append_cons, ← spec_record i id (i.spec.entries cell.document)]
      refine exclusive_buildIndex h (hi.record hfresh here others) (List.append_cons .. ▸ hd) ?_ ?_
      · rwa [spec_record]
      · rwa [spec_record]

namespace Collection

/-- In every unique index no two stored documents have a key in common. -/
def Exclusive (c : Collection) : Prop :=
  ∀ i ∈ c.registry.indexes, i.spec.unique = true → i.spec.Exclusive c.stored

variable [Std.TransCmp Collator.weigh] {checked : Prop} {c c' : Collection}

omit [Std.TransCmp Collator.weigh] in
theorem validate_of_mem {r : Registry} {id : String} {d : Document} (h : r.validate id d = .ok ())
    {i : Index} (hi : i ∈ r.indexes) : i.validate id (i.spec.entries d) = .ok () :=
  forM_eq_ok_iff.1 h i hi

/-- **A checked move keeps unique indexes exclusive.** -/
theorem Exclusive.move (he : c.Exclusive) (h : c.InStep) (hc : checked) (m : Move checked c c') :
    c'.Exclusive := by
  intro j hj hu
  cases m with
  | place id d fresh passes =>
    obtain ⟨i, hi, rfl⟩ := List.mem_map.1 hj
    rw [Index.spec_record] at hu ⊢
    have hl := lookup_append_fresh fresh ⟨c.nextSerial, d⟩
    refine (he i hi hu).write (h.indexes i hi) hu ?_ ((hl id).trans (if_pos rfl)) fun id' hid =>
      ((hl id').trans (if_neg hid)).symm
    exact validate_of_mem (passes hc) hi
  | discard id =>
    rw [h.sound.discard_eq] at hj ⊢
    obtain ⟨i, hi, rfl⟩ := List.mem_map.1 hj
    refine (he i hi hu).drop ?_
    intro id'
    have hl := lookup_filter_ne c.stored id id'
    by_cases hid : id' = id
    · exact Or.inl (hl.trans (if_pos hid))
    · exact Or.inr (hl.trans (if_neg hid)).symm
  | replace id d known passes =>
    obtain ⟨cell, hcell⟩ := Option.isSome_iff_exists.1 known
    have hself := lookup_replace_self (h.sound.replace_eq_ok id d) hcell
    rw [h.sound.replace_eq] at hj
    obtain ⟨j', hj', rfl⟩ := List.mem_map.1 hj
    obtain ⟨i, hi, rfl⟩ := List.mem_map.1 hj'
    rw [Index.spec_record] at hu ⊢
    refine (he i hi hu).write (h.indexes i hi) hu ?_ hself fun id' hid =>
      (lookup_replace_ne hid d).symm
    exact validate_of_mem passes hi
  | truncate => exact KeySpec.Exclusive.nil
  | register spec i built =>
    rcases mem_register hj with hj | rfl
    · exact he j hj hu
    · have hspec : j.spec = spec := by
        rw [Index.buildIndex_eq_recordEach built, spec_recordEach]
        rfl
      rw [hspec] at hu ⊢
      exact Index.exclusive_buildIndex built (Index.inStep_clear (.new c.nextSerial spec))
        h.distinct hu
        KeySpec.Exclusive.nil
  | withdraw registry kept => exact he j (kept j hj) hu
  | rebuild name c' rebuilt =>
    obtain ⟨hs, hr⟩ := rebuildIndex_cases rebuilt
    obtain ⟨i, hi, rfl | rfl⟩ := hr j hj
    · rw [hs]
      exact he j hi hu
    · have hspec : (recordEach i.clear c.stored).spec = i.spec := spec_recordEach i.clear c.stored
      rw [hspec] at hu ⊢
      rw [hs]
      exact he i hi hu

theorem Exclusive.moves (he : c.Exclusive) (h : c.InStep) (hc : checked) (m : Moves checked c c') :
    c'.Exclusive := by
  induction m with
  | refl => exact he
  | tail ms m ih => exact ih.move (h.moves ms) hc m

theorem Reachable.exclusive (h : c.Reachable Step.IsChecked) : c.Exclusive := by
  induction h with
  | new name settings matcher => exact nofun
  | step s r hs ih =>
    have hin := (r.mono fun _ => isOperation_of_isChecked).inStep
    cases s with
    | operation op => exact ih.moves hin hs (perform_moves _ op)
    | amend serial d => exact absurd hs id

/-- **Where unique indexes always keep documents out, each bucket of a unique index has one id, and
    no two stored documents are recorded under equal keys.** -/
theorem unique_buckets_single (h : c.Reachable Step.IsChecked) {i : Index}
    (hi : i ∈ c.registry.indexes) (hu : i.spec.unique = true) :
    (∀ b ∈ i.buckets, ∃ id, b.2 = [id]) ∧
    (∀ e ∈ c.stored, ∀ e' ∈ c.stored, e.1 ≠ e'.1 →
      ∀ key ∈ i.spec.entries e.2.document, ∀ key' ∈ i.spec.entries e'.2.document,
        (key == key') = false) := by
  have hs := (h.mono fun _ => isOperation_of_isChecked).inStep
  have hin := hs.indexes i hi
  have hex := h.exclusive i hi hu
  constructor
  · intro b hb
    have hsame : ∀ id ∈ b.2, ∀ id' ∈ b.2, id = id' := by
      intro id hid id' hid'
      rw [← Index.bucket_eq_of_mem hin.consistent.ordered hb, hin.mem_bucket_iff] at hid hid'
      exact hex id id' b.1 hid hid'
    obtain ⟨id, rest, hb2⟩ := List.exists_cons_of_ne_nil (hin.consistent.ordered.filled b hb)
    have hasc := hin.consistent.ordered.ascending b hb
    rw [hb2] at hsame hasc
    refine ⟨id, hb2.trans (congrArg (id :: ·) (List.eq_nil_iff_forall_not_mem.2 ?_))⟩
    intro id' hid'
    have hlt := (List.pairwise_cons.1 hasc).1 id' hid'
    rw [hsame id List.mem_cons_self id' (List.mem_cons_of_mem _ hid')] at hlt
    exact String.lt_irrefl _ hlt
  · intro e he e' he' hne key hk key' hk'
    refine Bool.eq_false_iff.2 fun hkk => hne (hex e.1 e'.1 key' ?_ ?_)
    · rw [KeySpec.due_of_lookup ((mem_iff_lookup hs.distinct).1 he)]
      exact Index.contains_iff.2 ⟨key, hk, BEq.symm hkk⟩
    · rw [KeySpec.due_of_lookup ((mem_iff_lookup hs.distinct).1 he')]
      exact Index.contains_iff.2 ⟨key', hk', BEq.rfl⟩

end Collection

end

theorem Collection.labelled_buckets_single : ∃ i ∈ labelled.registry.indexes, i.entryCount = 1 ∧
    (∀ b ∈ i.buckets, ∃ id, b.2 = [id]) ∧
    (∀ e ∈ labelled.stored, ∀ e' ∈ labelled.stored, e.1 ≠ e'.1 →
      ∀ key ∈ i.spec.entries e.2.document, ∀ key' ∈ i.spec.entries e'.2.document,
        (key == key') = false) := by
  obtain ⟨i, hi, hu, hcount⟩ :
      ∃ i ∈ labelled.registry.indexes, i.spec.unique = true ∧ i.entryCount = 1 :=
    ⟨_, List.mem_singleton_self _, rfl, rfl⟩
  exact ⟨i, hi, hcount, unique_buckets_single labelled_reachable hi hu⟩

end DocumentDb
