/-
  DocumentDb — nothing a user does brings a collection out of order.

  * `Collection.Returns c fault`: an operation on a collection returns a fault, by itself or
    in its report.
  * Where the maps of every index agree and lead to stored documents, each fault is the fault of
    what was asked for, or comes from the matcher (`matcher_of_returns`).
  * **`Reachable.intact`**: so it is in every collection, also where documents were changed through
    live handles and the indexes have not noticed.
-/
import DocumentDb.Proofs.Collection.Anchored
import DocumentDb.Proofs.Collection.Batch.Update
import DocumentDb.Proofs.Collection.Planning
import DocumentDb.Proofs.FaultKinds

namespace DocumentDb

namespace Collection

section

variable [Collator] {c : Collection} {filter : Document} {options : FindOptions} {fault : Fault}

/-- An operation on a collection returns a fault, by itself or in its report. -/
inductive Returns (c : Collection) (fault : Fault) : Prop where
  | performed (op : Operation) (h : (c.perform op).2 = some fault)
  | inserted (source : IdSource) (documents : List Document) (report : BatchReport)
    (h : (c.insertMany source documents).2.2 = .ok report) (failure : Failure)
    (hf : failure ∈ report.failures) (hfault : failure.fault = fault)
  | loaded (source : IdSource) (documents : List Document) (options : LoadOptions)
    (report : BatchReport) (h : (c.load source documents options).2.2 = .ok report)
    (failure : Failure) (hf : failure ∈ report.failures)
    (hfault : failure.fault = fault)
  | updated (filter changes : Document) (report : BatchReport)
    (h : (c.update filter changes).2 = .ok report) (failure : Failure)
    (hf : failure ∈ report.failures) (hfault : failure.fault = fault)
  | ensuredIndex (keys : Document) (options : IndexOptions)
    (h : (c.ensureIndex keys options).2.fault? = some fault)
  | ensuredSpec (spec : KeySpec) (h : (c.ensureSpec spec).2.fault? = some fault)
  | explained (filter : Document) (options : FindOptions)
    (h : c.explain filter options = .error fault)
  | found (filter : Document) (options : FindOptions) (h : c.find filter options = .error fault)
  | foundOne (filter : Document) (h : c.findOne filter = .error fault)

/-! ## Finding -/

omit [Collator] in
theorem exists_of_accepted_eq_error {judge : Document → Except Fault Bool} :
    ∀ {tried : List (String × Cell)}, accepted judge tried = .error fault →
    ∃ d, judge d = .error fault
  | (id, cell) :: rest, h => by
    rcases bind_eq_error_iff.1 h with h | ⟨accept, -, h⟩
    · exact ⟨_, h⟩
    · rcases bind_eq_error_iff.1 h with h | ⟨others, -, h⟩
      · exact exists_of_accepted_eq_error h
      · cases h

omit [Collator] in
theorem mem_of_explain {plan : Plan} {i : Index} {probe : Document}
    (h : c.explain filter options = .ok plan) (ha : plan.access = .byIndex i probe) :
    i ∈ c.registry.indexes := by
  obtain ⟨hpotential, htakes⟩ := Plan.ofFilter_eq_ok_iff.1 h
  rw [ha, hpotential] at htakes
  exact List.mem_of_mem_filter (Plan.mem_of_widest? htakes.2.1)

section

variable [Std.TransCmp Collator.weigh]

theorem Anchored.exists_candidates (h : c.Anchored) (hs : c.Sound) {plan : Plan}
    (hplan : c.explain filter options = .ok plan) :
    ∃ tried, c.candidates plan.access = .ok tried := by
  cases ha : plan.access with
  | byIndex i probe => exact h.exists_fetch_lookup hs (mem_of_explain hplan ha) probe
  | byId id => exact ⟨_, rfl⟩
  | scan => exact ⟨_, rfl⟩

/-- A search fails only where the matcher does. -/
theorem Anchored.fault_of_search (h : c.Anchored) (hs : c.Sound)
    (hf : c.search filter options = .error fault) : ∃ d, c.matcher d filter = .error fault := by
  rcases bind_eq_error_iff.1 hf with hf | ⟨plan, hplan, hf⟩
  · exact absurd hf (Plan.ofFilter_ne_error fault)
  · obtain ⟨tried, htried⟩ := h.exists_candidates hs hplan
    rcases bind_eq_error_iff.1 hf with hf | ⟨tried', htried', hf⟩
    · cases htried.symm.trans hf
    · rcases bind_eq_error_iff.1 hf with hf | ⟨found, -, hf⟩
      · exact exists_of_accepted_eq_error hf
      · cases hf

end

theorem find_of_findOne (h : c.findOne filter = .error fault) :
    c.find filter {} = .error fault := by
  rcases bind_eq_error_iff.1 h with h | ⟨r, -, h⟩
  · exact h
  · cases h

/-! ## Writing -/

section

variable [Std.TransCmp Collator.weigh]

theorem exists_removeEach_eq_ok (ids : List String) (h : c.Sound) :
    ∃ removed, (c.removeEach ids).2 = .ok removed := by
  induction ids generalizing c with
  | nil => exact ⟨[], rfl⟩
  | cons id rest ih =>
    rw [h.removeEach_cons]
    obtain ⟨removed, hok⟩ := ih (h.discard id)
    exact ⟨id :: removed, map_eq_ok_iff.2 ⟨removed, hok, rfl⟩⟩

theorem fault_of_remove (h : c.Sound) (hf : (c.remove filter).2 = .error fault) :
    c.search filter {} = .error fault := by
  unfold remove at hf
  split at hf
  · next m _ =>
    obtain ⟨removed, hok⟩ := exists_removeEach_eq_ok (m.found.map (·.1)) h
    cases hok.symm.trans hf
  · next hs =>
    cases hf
    exact hs

theorem kind_of_updateEach {changes : Document} (targets : List (String × Cell)) (position : Nat)
    (h : c.Sound) (hf : (c.updateEach changes position targets).2 = .error fault) :
    fault.kind = .invalidFieldName := by
  induction targets generalizing c position with
  | nil => cases hf
  | cons e rest ih =>
    obtain ⟨id, cell⟩ := e
    rcases updateEach_cases changes c position id cell rest with
      ⟨fault', hm, he⟩ | ⟨d, -, ⟨fault', -, he⟩ | ⟨-, ⟨fault', hindex, -⟩ | ⟨-, he⟩⟩⟩
    · rw [he] at hf
      cases hf
      exact Fields.kind_of_mergeInto hm
    · rw [he] at hf
      exact ih _ h (map_eq_error_iff.1 hf)
    · cases (h.replace_eq_ok id d).symm.trans hindex
    · rw [he] at hf
      exact ih _ (h.replace id d) (map_eq_error_iff.1 hf)

/-- An update fails on changes that name the id or cannot be merged, or where its search does. -/
theorem fault_of_update {changes : Document} (h : c.Sound)
    (hf : (c.update filter changes).2 = .error fault) :
    fault.kind = .invalidOperation ∨ fault.kind = .invalidFieldName ∨
    c.search filter {} = .error fault := by
  unfold update at hf
  split at hf
  · cases hf
    exact Or.inl rfl
  · split at hf
    · next hm =>
      cases hf
      exact Or.inr (Or.inl (Fields.kind_of_mergeInto hm))
    · split at hf
      · next hs =>
        cases hf
        exact Or.inr (Or.inr hs)
      · exact Or.inr (Or.inl (kind_of_updateEach _ 0 h hf))

end

theorem recoverable_of_updateEach {changes : Document} (targets : List (String × Cell))
    (position : Nat) {report : BatchReport}
    (h : (c.updateEach changes position targets).2 = .ok report) :
    ∀ failure ∈ report.failures, failure.fault.isRecoverable = true := by
  induction targets generalizing c position report with
  | nil =>
    cases h
    exact nofun
  | cons e rest ih =>
    obtain ⟨id, cell⟩ := e
    rcases updateEach_cases changes c position id cell rest with
      ⟨fault, -, he⟩ | ⟨d, -, ⟨fault, hv, he⟩ | ⟨-, ⟨fault, -, he⟩ | ⟨-, he⟩⟩⟩
    · rw [he] at h
      cases h
    · rw [he] at h
      obtain ⟨told, htold, rfl⟩ := map_eq_ok_iff.1 h
      exact List.forall_mem_cons.2 ⟨Registry.isRecoverable_of_validate hv, ih _ htold⟩
    · rw [he] at h
      cases h
    · rw [he] at h
      obtain ⟨told, htold, rfl⟩ := map_eq_ok_iff.1 h
      have hall := ih _ htold
      exact hall

theorem recoverable_of_update {changes : Document} {report : BatchReport}
    (h : (c.update filter changes).2 = .ok report) :
    ∀ failure ∈ report.failures, failure.fault.isRecoverable = true := by
  obtain ⟨m, -, hu⟩ := search_of_update h
  rw [hu] at h
  exact recoverable_of_updateEach m.found 0 h

/-! ## Every operation -/

theorem kind_of_ensureSpec {spec : KeySpec} (h : (c.ensureSpec spec).2.fault? = some fault) :
    fault.kind = .indexAlreadyExists ∨ fault.kind = .indexBuildFailed := by
  unfold ensureSpec at h
  split at h
  · split at h
    · cases h
    · cases h
      exact Or.inl rfl
  · split at h
    · cases h
    · cases h
      exact Or.inr rfl

omit [Collator] in
theorem eq_error_of_faultOf {α : Type} {x : Except Fault α} (h : faultOf x = some fault) :
    x = .error fault := by
  cases x with
  | ok a => cases h
  | error fault' => rw [Option.some.inj h]

omit [Collator] in
theorem eq_error_of_settle {outcome : Except Fault Collection}
    (h : (c.settle outcome).2 = some fault) : outcome = .error fault := by
  cases outcome with
  | ok c' => cases h
  | error fault' => rw [Option.some.inj h]

omit [Collator] in
theorem kind_of_dropIndex {name : String} (h : c.dropIndex name = .error fault) :
    fault.kind = .indexNotFound := by
  unfold dropIndex at h
  split at h
  · cases h
  · cases h
    rfl

theorem kind_of_rebuildIndex {name : String} (h : c.rebuildIndex name = .error fault) :
    fault.kind = .indexNotFound := by
  unfold rebuildIndex at h
  split at h
  · cases h
  · cases h
    rfl

omit [Collator] in
theorem kind_of_recoverable (h : fault.isRecoverable = true) :
    fault.kind ≠ .invariantViolation := by
  intro hk
  rw [Fault.isRecoverable, hk] at h
  cases h

variable [Std.TransCmp Collator.weigh]

/-- An operation fails on changes that are refused, on the name of an index, or where its
    search does. -/
theorem fault_of_perform (h : c.Sound) {op : Operation} (hf : (c.perform op).2 = some fault) :
    fault.kind = .invalidOperation ∨ fault.kind = .invalidFieldName ∨ fault.kind = .indexNotFound ∨
      ∃ filter, c.search filter {} = .error fault := by
  cases op with
  | insertMany source documents =>
    obtain ⟨report, hok, -⟩ := c.exists_insertMany_eq_ok source documents
    cases hok.symm.trans (eq_error_of_faultOf hf)
  | load source documents options =>
    obtain ⟨report, hok, -⟩ := c.exists_load_eq_ok source documents options
    cases hok.symm.trans (eq_error_of_faultOf hf)
  | remove filter =>
    have hremove := eq_error_of_faultOf hf
    exact Or.inr (Or.inr (Or.inr ⟨filter, fault_of_remove h hremove⟩))
  | removeDocument d =>
    have hremove : (c.removeDocument d).2 = .error fault := eq_error_of_faultOf hf
    unfold removeDocument at hremove
    split at hremove <;> exact Or.inr (Or.inr (Or.inr ⟨_, fault_of_remove h hremove⟩))
  | update filter changes =>
    rcases fault_of_update h (eq_error_of_faultOf hf) with hk | hk | hs
    · exact Or.inl hk
    · exact Or.inr (Or.inl hk)
    · exact Or.inr (Or.inr (Or.inr ⟨filter, hs⟩))
  | dropIndex name =>
    exact Or.inr (Or.inr (Or.inl (kind_of_dropIndex (eq_error_of_settle hf))))
  | rebuildIndex name =>
    exact Or.inr (Or.inr (Or.inl (kind_of_rebuildIndex (eq_error_of_settle hf))))
  | truncate | ensureIndex _ _ | ensureSpec _ | dropAllIndexes => cases hf

/-- **A violated invariant is never found, unless the matcher reports one itself.** -/
theorem matcher_of_returns (h : c.Anchored) (hs : c.Sound) (hr : c.Returns fault)
    (hk : fault.kind = .invariantViolation) : ∃ d filter, c.matcher d filter = .error fault := by
  have hsearch : ∀ {filter options}, c.search filter options = .error fault →
      ∃ d filter, c.matcher d filter = .error fault := by
    intro filter options hf
    obtain ⟨d, hd⟩ := h.fault_of_search hs hf
    exact ⟨d, filter, hd⟩
  cases hr with
  | performed op hf =>
    rcases fault_of_perform hs hf with hk' | hk' | hk' | ⟨filter, hf⟩
    · cases hk.symm.trans hk'
    · cases hk.symm.trans hk'
    · cases hk.symm.trans hk'
    · exact hsearch hf
  | inserted source documents report hok failure hf hfault =>
    obtain ⟨report', hok', hall⟩ := c.exists_insertMany_eq_ok source documents
    cases hok'.symm.trans hok
    exact absurd hk (hfault ▸ kind_of_recoverable (hall failure hf))
  | loaded source documents options report hok failure hf hfault =>
    obtain ⟨report', hok', hall⟩ := c.exists_load_eq_ok source documents options
    cases hok'.symm.trans hok
    exact absurd hk (hfault ▸ kind_of_recoverable (hall failure hf))
  | updated filter changes report hok failure hf hfault =>
    exact absurd hk (hfault ▸ kind_of_recoverable (recoverable_of_update hok failure hf))
  | ensuredIndex keys options hf =>
    unfold ensureIndex at hf
    split at hf
    · rcases kind_of_ensureSpec hf with hk' | hk' <;> cases hk.symm.trans hk'
    · next hd =>
      cases hf
      rcases KeySpec.kind_of_ofDocument hd with hk' | hk' <;> cases hk.symm.trans hk'
  | ensuredSpec spec hf => rcases kind_of_ensureSpec hf with hk' | hk' <;> cases hk.symm.trans hk'
  | explained filter options hf => exact absurd hf (Plan.ofFilter_ne_error fault)
  | found filter options hf => exact hsearch (search_of_find hf)
  | foundOne filter hf => exact hsearch (search_of_find (find_of_findOne hf))

/-- The matcher that a collection has by default never does. -/
theorem not_violated_of_equality (h : c.Anchored) (hs : c.Sound) (hm : c.matcher = .equality)
    (hr : c.Returns fault) : fault.kind ≠ .invariantViolation := by
  intro hk
  obtain ⟨d, filter, hf⟩ := matcher_of_returns h hs hr hk
  rw [hm] at hf
  cases hk.symm.trans (Fields.kind_of_admits hf)

/-! ## Every history -/

/-- The two maps of every index are inverse to each other and lead to stored documents, and no
    operation finds it otherwise. -/
structure Intact (c : Collection) : Prop where
  inverse : ∀ i ∈ c.registry.indexes, ∀ key id, id ∈ i.bucket key ↔
    (i.keysOf id).contains key = true
  once : ∀ i ∈ c.registry.indexes, ∀ id, (i.keysOf id).Pairwise fun a b => (a == b) = false
  filled : ∀ i ∈ c.registry.indexes, ∀ b ∈ i.buckets, b.2 ≠ [] ∧ i.bucket b.1 = b.2
  recorded : ∀ i ∈ c.registry.indexes, ∀ id, i.contains id = true ↔ ∃ b ∈ i.buckets, id ∈ b.2
  stored : ∀ i ∈ c.registry.indexes, ∀ id, i.contains id = true → id ∈ c.stored.map (·.1)
  removes : ∀ id, (c.registry.remove id).2 = .ok () ∧
    ∀ i ∈ c.registry.indexes, (i.remove id).2 = .ok (i.keysOf id)
  faults : ∀ fault, c.Returns fault → fault.kind = .invariantViolation →
    ∃ d filter, c.matcher d filter = .error fault
  faults_of_equality : c.matcher = .equality → ∀ fault, c.Returns fault →
    fault.kind ≠ .invariantViolation
  inserts : ∀ source documents, ∃ report, (c.insertMany source documents).2.2 = .ok report
  loads : ∀ source documents options, ∃ report, (c.load source documents options).2.2 = .ok report

/-- **Whatever operations a collection has gone through, and whatever was written to its documents
    through live handles in between, its indexes are inverse maps without empty buckets of ids that
    are stored, no operation finds an invariant violated, and storing documents never fails.** -/
theorem Reachable.intact {allowed : Step → Prop} (h : c.Reachable allowed) : c.Intact where
  inverse i hi _ _ := Index.mem_bucket_iff_contains (h.sound i hi)
  once i hi id := (h.sound i hi).once_keysOf id
  filled i hi b hb :=
    ⟨(h.sound i hi).ordered.filled b hb, Index.bucket_eq_of_mem (h.sound i hi).ordered hb⟩
  recorded i hi _ := Index.contains_iff_mem_bucket (h.sound i hi)
  stored i hi id hid := by
    have hkeys := (Index.mem_recorded_iff (h.sound i hi)).1 (lookup_isSome_iff.1 hid)
    exact lookup_isSome_iff.1 (h.anchored i hi id hkeys)
  removes id := by
    refine ⟨by rw [Registry.remove_eq h.sound], fun i hi => ?_⟩
    rw [(h.sound i hi).remove_eq]
  faults _ := matcher_of_returns h.anchored h.sound
  faults_of_equality hm _ := not_violated_of_equality h.anchored h.sound hm
  inserts source documents := (c.exists_insertMany_eq_ok source documents).imp fun _ h => h.1
  loads source documents options :=
    (c.exists_load_eq_ok source documents options).imp fun _ h => h.1

end

/-- The labelled documents after the first has lost its label through a live handle. -/
def unlabelled : Collection := labelled.step (.amend 1 (.ofList [("_id", .text "1")]))

theorem unlabelled_intact :
    unlabelled.stored.map (fun e => e.2.document.hasKey "label") = [false, false] ∧
    unlabelled.registry.indexes.map (·.size) = [1] ∧ unlabelled.Intact := by
  have hr : unlabelled.Reachable fun _ => True :=
    .step _ (labelled_reachable.mono fun _ _ => trivial) trivial
  exact ⟨rfl, rfl, hr.intact⟩

end Collection

end DocumentDb
