/-
  DocumentDb — merging changes into the documents found.

  * `Revision changes` is what becomes of one document found: the changes are merged into it
    and the indexes record its new keys in place of the old ones, or a unique index refuses
    it and nothing changes.
  * **`update_one_by_one`**: an update that succeeds treats each document of the find once, in its
    order; documents that are not updated, and the order of all, stay as they were.
-/
import DocumentDb.Proofs.Collection.Batch.Basic
import DocumentDb.Proofs.Collection.Consistency

namespace DocumentDb

namespace Collection

section

variable [Collator]

/-! ## One document -/

/-- What becomes of one document found: the changes are merged into it, and its new keys
    take the place of the old ones; or another id has one of the new keys in a unique index,
    and nothing changes. -/
inductive Revision (changes : Document) :
    Collection → String × Cell → Option String → Collection → Prop where
  | revised {c : Collection} {id : String} {cell : Cell} {d : Document}
    (current : c.cell? id = some cell) (merged : cell.document.merge changes = .ok d)
    (admitted : c.registry.Admits id d)
    (replaced : (c.replace id d).2 = .ok ())
    (records : c.registry.Records (c.replace id d).1.registry id d) :
    Revision changes c (id, cell) (some id) (c.replace id d).1
  | refused {c : Collection} {id : String} {cell : Cell} {d : Document}
    (merged : cell.document.merge changes = .ok d) (refuses : ¬ c.registry.Admits id d) :
    Revision changes c (id, cell) none c

namespace Revision

variable {changes : Document} {c c' : Collection} {e : String × Cell} {outcome : Option String}
  {targets : List (String × Cell)} {outcomes : List (Option String)} {id : String}

theorem outcome_eq (h : Revision changes c e outcome c') : outcome = some e.1 ∨ outcome = none := by
  cases h with
  | revised => exact Or.inl rfl
  | refused => exact Or.inr rfl

theorem ids (h : Revision changes c e outcome c') : c'.stored.map (·.1) = c.stored.map (·.1) := by
  cases h with
  | revised => exact ids_replace ..
  | refused => rfl

theorem keeps (h : Revision changes c e outcome c') (hid : outcome ≠ some id) :
    c'.cell? id = c.cell? id ∧ c.registry.Keeps c'.registry id := by
  cases h with
  | revised _ _ _ _ hrecords =>
    have hne : id ≠ _ := fun he => hid (congrArg some he.symm)
    exact ⟨lookup_replace_ne hne _, hrecords.others id hne⟩
  | refused => exact ⟨rfl, .refl _ id⟩

/-! ## The documents found -/

theorem mem_targets (h : Handled (Revision changes) c targets outcomes c')
    (hid : some id ∈ outcomes) : id ∈ targets.map (·.1) := by
  induction h with
  | nil => cases hid
  | cons hd _ ih =>
    rcases List.mem_cons.1 hid with he | hid
    · rcases hd.outcome_eq with ho | ho
      · rw [Option.some.inj (he.trans ho)]
        exact List.mem_cons_self
      · cases he.trans ho
    · exact List.mem_cons_of_mem _ (ih hid)

theorem ids_all (h : Handled (Revision changes) c targets outcomes c') :
    c'.stored.map (·.1) = c.stored.map (·.1) := by
  refine h.preserves (I := fun s => s.stored.map (·.1) = c.stored.map (·.1)) (fun hd hs => ?_) rfl
  exact hd.ids.trans hs

/-- A document that is not updated stays as it is, and so do its keys. -/
theorem keeps_all (h : Handled (Revision changes) c targets outcomes c')
    (hid : some id ∉ outcomes) : c'.cell? id = c.cell? id ∧ c.registry.Keeps c'.registry id := by
  refine h.relate (R := fun s s' => s'.cell? id = s.cell? id ∧ s.registry.Keeps s'.registry id)
    (fun s => ⟨rfl, .refl s.registry id⟩) (fun h h' => ?_) keeps hid
  exact ⟨h'.1.trans h.1, h.2.trans h'.2⟩

/-- A document that is updated has the changes merged into it, and its new keys in every index. -/
theorem revises (h : Handled (Revision changes) c targets outcomes c')
    (distinct : (targets.map (·.1)).Nodup) (he : e ∈ targets) (hid : some e.1 ∈ outcomes) :
    ∃ d, e.2.document.merge changes = .ok d ∧ c'.cell? e.1 = some { e.2 with document := d } ∧
      c.registry.Rekeyed c'.registry e.1 (·.entries d) := by
  induction h with
  | nil => cases he
  | cons hd hrest ih =>
    obtain ⟨hfirst, hdistinct⟩ := List.nodup_cons.1 distinct
    have hlast := mt (mem_targets hrest) hfirst
    rcases List.mem_cons.1 he with rfl | he
    · cases hd with
      | revised hcurrent hmerged _ hreplaced hrecords =>
        obtain ⟨hcell, hkeys⟩ := keeps_all hrest hlast
        exact ⟨_, hmerged, hcell.trans (lookup_replace_self hreplaced hcurrent),
          hrecords.here.keep hkeys⟩
      | refused => exact absurd (List.mem_of_ne_of_mem (Option.some_ne_none _) hid) hlast
    · -- the first document has another id, so what it does leaves this one and its keys alone
      have hother : _ ≠ some e.1 := fun ho => by
        rcases hd.outcome_eq with ho' | ho'
        · exact ne_of_not_mem_keys hfirst he (Option.some.inj (ho.symm.trans ho'))
        · cases ho.symm.trans ho'
      obtain ⟨d, hmerged, hcell, hkeys⟩ := ih hdistinct he (List.mem_of_ne_of_mem hother.symm hid)
      exact ⟨d, hmerged, hcell, (hd.keeps hother).2.rekey hkeys⟩

end Revision

/-! ## The update -/

section

variable [Std.TransCmp Collator.weigh] {c : Collection} {changes : Document} {report : BatchReport}

theorem updateEach_handled (targets : List (String × Cell)) (position : Nat) (hs : c.Sound)
    (distinct : (targets.map (·.1)).Nodup) (current : ∀ e ∈ targets, c.cell? e.1 = some e.2)
    (hok : (c.updateEach changes position targets).2 = .ok report) :
    ∃ outcomes, report.Tells position outcomes ∧
      Handled (Revision changes) c targets outcomes (c.updateEach changes position targets).1 := by
  induction targets generalizing c position report with
  | nil =>
    cases hok
    exact ⟨[], .nil position, .nil c⟩
  | cons e rest ih =>
    obtain ⟨id, cell⟩ := e
    obtain ⟨hid, hrest⟩ := List.forall_mem_cons.1 current
    obtain ⟨hfirst, hdistinct⟩ := List.nodup_cons.1 distinct
    rcases updateEach_cases changes c position id cell rest with
      ⟨fault, -, he⟩ | ⟨d, hmerged,
        ⟨fault, hinvalid, he⟩ | ⟨hvalid, ⟨fault, hf, -⟩ | ⟨hreplaced, he⟩⟩⟩
    · rw [he] at hok
      cases hok
    · rw [he] at hok ⊢
      obtain ⟨told, htold, rfl⟩ := map_eq_ok_iff.1 hok
      obtain ⟨outcomes, htells, hrun⟩ := ih (position + 1) hs hdistinct hrest htold
      have hrefuses : ¬ c.registry.Admits id d := fun h => by
        cases ((Registry.validate_eq_ok_iff_admits hs).2 h).symm.trans hinvalid
      exact ⟨none :: outcomes, htells.refuse _ _, .cons (.refused hmerged hrefuses) hrun⟩
    · cases (hs.replace_eq_ok id d).symm.trans hf
    · rw [he] at hok ⊢
      obtain ⟨told, htold, rfl⟩ := map_eq_ok_iff.1 hok
      have hothers : ∀ e ∈ rest, (c.replace id d).1.cell? e.1 = some e.2 := fun e he =>
        (lookup_replace_ne (ne_of_not_mem_keys hfirst he) d).trans (hrest e he)
      obtain ⟨outcomes, htells, hrun⟩ := ih (position + 1) (hs.replace id d) hdistinct hothers htold
      have hadmits := (Registry.validate_eq_ok_iff_admits hs).1 hvalid
      exact ⟨some id :: outcomes, htells.accept id,
        .cons (.revised hid hmerged hadmits hreplaced (hs.records_replace id d)) hrun⟩

omit [Std.TransCmp Collator.weigh] in
/-- An update that succeeds has merged the changes into the documents that the search found. -/
theorem search_of_update {filter : Document} (hok : (c.update filter changes).2 = .ok report) :
    ∃ m, c.search filter {} = .ok m ∧ c.update filter changes = c.updateEach changes 0 m.found := by
  unfold update at hok ⊢
  split at hok
  · cases hok
  · next hid =>
    rw [if_neg hid]
    split at hok
    · cases hok
    · split at hok
      · cases hok
      · next m hm => exact ⟨m, hm, rfl⟩

/-- **An update that succeeds treats every document that a find gives, once and in that order, at
    its own turn: the changes are merged into it if no other id then has one of its new keys in a
    unique index, and else nothing changes.**  The report lists the ids of those updated and the
    positions of the others.  A document that is updated ends with the changes merged into it and
    its new keys in every index; all other documents and their keys, the ids, and their order are
    what they were. -/
theorem update_one_by_one (h : c.InStep) {filter : Document}
    (hok : (c.update filter changes).2 = .ok report) :
    ∃ r outcomes, c.find filter {} = .ok r ∧ (r.found.map (·.1)).Nodup ∧
      Handled (Revision changes) c r.found outcomes (c.update filter changes).1 ∧
      report.Tells 0 outcomes ∧
      (∀ e ∈ r.found, e.1 ∈ report.accepted → ∃ d, e.2.document.merge changes = .ok d ∧
        (c.update filter changes).1.cell? e.1 = some { e.2 with document := d } ∧
        c.registry.Rekeyed (c.update filter changes).1.registry e.1 (·.entries d)) ∧
      (∀ id ∉ report.accepted, (c.update filter changes).1.cell? id = c.cell? id ∧
        c.registry.Keeps (c.update filter changes).1.registry id) ∧
      (c.update filter changes).1.stored.map (·.1) = c.stored.map (·.1) := by
  obtain ⟨m, hm, hu⟩ := search_of_update hok
  have hdistinct := found_nodup h.distinct hm
  rw [hu] at hok ⊢
  obtain ⟨outcomes, htells, hrun⟩ := updateEach_handled m.found 0 h.sound hdistinct
    (fun e he => current_of_mem_found h.distinct hm he) hok
  refine ⟨_, outcomes, bind_eq_ok_iff.2 ⟨m, hm, rfl⟩, hdistinct, hrun, htells, fun e he hid => ?_,
    fun id hid => ?_, Revision.ids_all hrun⟩
  · exact Revision.revises hrun hdistinct he (htells.mem_accepted_iff.1 hid)
  · exact Revision.keeps_all hrun fun ho => hid (htells.mem_accepted_iff.2 ho)

end

end

/-- Giving all documents one label is refused for the second, since the first keeps it. -/
theorem labelled_update_one_by_one : labelled.InStep ∧ ∃ report r outcomes,
    (labelled.update .empty (.single "label" (.text "a"))).2 = .ok report ∧
      report.accepted = ["1"] ∧ report.failures.map (·.position) = [1] ∧
      labelled.find .empty {} = .ok r ∧
      Handled (Revision (.single "label" (.text "a"))) labelled r.found outcomes
        (labelled.update .empty (.single "label" (.text "a"))).1 ∧
      report.Tells 0 outcomes := by
  have h := Reachable.inStep (labelled_reachable.mono fun _ => isOperation_of_isChecked)
  have htold : (labelled.update .empty (.single "label" (.text "a"))).2.map
      (fun r => (r.accepted, r.failures.map (·.position))) = .ok (["1"], [1]) := rfl
  obtain ⟨report, hok, hreport⟩ := map_eq_ok_iff.1 htold
  obtain ⟨haccepted, hfailures⟩ := Prod.mk.inj hreport
  obtain ⟨r, outcomes, hfind, -, hrun, htells, -⟩ := update_one_by_one h hok
  exact ⟨h, report, r, outcomes, hok, haccepted, hfailures, hfind, hrun, htells⟩

end Collection

end DocumentDb
