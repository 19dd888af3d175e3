/-
  DocumentDb — what becomes of a malformed filter.

  * A find always has a plan (`exists_explain`), and documents to try.
  * A malformed filter is evaluated only on these.  So it is refused just when one of them
    passes the checks before its defect (**`find_malformed`**); otherwise the find succeeds
    and gives nothing.
  * Where an index leads past all documents, the same filter is not refused that is refused without
    the index (`labelled_malformed_passes`).
-/
import DocumentDb.Proofs.Collection.Integrity
import DocumentDb.Proofs.Filter.Malformed

namespace DocumentDb

open DocumentDb.Filter (Check)

namespace Collection

section

variable [Collator] {c : Collection} {judge : Document → Except Fault Bool} {fault : Fault}

omit [Collator] in
theorem exists_explain (c : Collection) (filter : Document) (options : FindOptions) :
    ∃ plan, c.explain filter options = .ok plan :=
  Plan.exists_ofFilter filter options c.registry

/-! ## Documents that are tried -/

omit [Collator] in
/-- Where every document either meets one fault or is refused, the first fault met is that one. -/
theorem accepted_eq_error : ∀ {tried : List (String × Cell)},
    (∀ e ∈ tried, judge e.2.document = .error fault ∨ judge e.2.document = .ok false) →
    (∃ e ∈ tried, judge e.2.document = .error fault) → accepted judge tried = .error fault
  | (id, cell) :: rest, h, hsome => by
    obtain ⟨hfirst, hrest⟩ := List.forall_mem_cons.1 h
    rw [accepted]
    rcases hfirst with hfirst | hfirst
    · rw [hfirst]
      rfl
    · have hlater : ∃ e ∈ rest, judge e.2.document = .error fault := by
        rw [List.exists_mem_cons_iff] at hsome
        exact hsome.resolve_left fun hhere => by cases hfirst.symm.trans hhere
      rw [hfirst, accepted_eq_error hrest hlater]
      rfl

theorem find_eq_of_candidates {filter : Document} {options : FindOptions} {plan : Plan}
    {tried : List (String × Cell)} (hplan : c.explain filter options = .ok plan)
    (htried : c.candidates plan.access = .ok tried) :
    c.find filter options = (accepted (c.matcher · filter) tried).map fun found =>
      ⟨found, options.decoupleOr c.settings.decoupleResults, plan, tried.length⟩ := by
  unfold find search
  simp only [hplan, htried, bind, Except.bind]
  cases accepted (c.matcher · filter) tried <;> rfl

variable [Std.TransCmp Collator.weigh]

/-- **A malformed filter has a defect, the same for all documents.  A find with it is refused for
    this defect if one of the documents tried passes the checks before it; if none does, the find
    succeeds and gives no document.** -/
theorem find_malformed {allowed : Step → Prop} (h : c.Reachable allowed)
    (hm : c.matcher = .equality) {filter : Document} (hf : filter.Malformed)
    (options : FindOptions) :
    ∃ fault plan tried, filter.defect? = some fault ∧ fault.kind = .filterError ∧
      c.explain filter options = .ok plan ∧ c.candidates plan.access = .ok tried ∧
      ((∃ e ∈ tried, Check.runAll e.2.document (Check.sound filter.checks) = .ok true) →
        c.find filter options = .error fault) ∧
      ((∀ e ∈ tried, Check.runAll e.2.document (Check.sound filter.checks) ≠ .ok true) →
        ∃ r, c.find filter options = .ok r ∧ r.found = []) := by
  obtain ⟨fault, hdefect, hkind⟩ := hf.exists_defect
  obtain ⟨plan, hplan⟩ := c.exists_explain filter options
  obtain ⟨tried, htried⟩ := h.anchored.exists_candidates h.sound hplan
  have hfind := find_eq_of_candidates hplan htried
  rw [hm] at hfind
  refine ⟨fault, plan, tried, hdefect, hkind, hplan, htried, fun hpass => ?_, fun hnone => ?_⟩
  · have herror : accepted (Matcher.equality · filter) tried = .error fault := by
      refine accepted_eq_error (fun e _ => ?_) ?_
      · exact (filter.admits_of_defect hdefect e.2.document).imp (·.2) (·.2)
      · obtain ⟨e, he, hsound⟩ := hpass
        rcases filter.admits_of_defect hdefect e.2.document with ⟨-, hd⟩ | ⟨hsound', -⟩
        · exact ⟨e, he, hd⟩
        · cases hsound.symm.trans hsound'
    rw [hfind, herror]
    rfl
  · have hfalse : ∀ e ∈ tried, filter.admits e.2.document = .ok false := by
      intro e he
      exact ((filter.admits_of_defect hdefect e.2.document).resolve_left fun h => hnone e he h.1).2
    have hok : accepted (Matcher.equality · filter) tried = .ok [] := by
      refine accepted_eq_ok_iff.2 ⟨fun e he => ⟨false, hfalse e he⟩, ?_⟩
      refine (List.filter_eq_nil_iff.2 fun e he hacc => ?_).symm
      cases (hfalse e he).symm.trans (accepts_iff.1 hacc)
    rw [hfind, hok]
    exact ⟨_, rfl, rfl⟩

end

/-- An operator that there is not, at one path, and a value that no document has, at another. -/
def strayed : Document :=
  .ofList [("a", .document (Document.single "$regex" (.text "^D"))), ("label", .text "b")]

theorem strayed_malformed : strayed.Malformed :=
  ⟨("a", .document (Document.single "$regex" (.text "^D"))), List.Mem.head _,
    Or.inr (.unsupported (List.Mem.head _) rfl rfl)⟩

/-- With the index no document is tried, and the filter passes. -/
theorem labelled_malformed_passes : strayed.Malformed ∧ labelled.Reachable Step.IsChecked ∧
    labelled.matcher = .equality ∧ (labelled.find strayed {}).toOption.map (·.ids) = some [] :=
  ⟨strayed_malformed, labelled_reachable, rfl, by decide +kernel⟩

/-- Without the index both documents are tried, and as no check comes before the defect each
    brings it out. -/
theorem labelled_malformed : ∃ fault, fault.kind = .filterError ∧
    labelled.find strayed .skipping = .error fault := by
  obtain ⟨fault, plan, tried, -, hkind, hplan, htried, hrefused, -⟩ :=
    find_malformed labelled_reachable rfl strayed_malformed .skipping
  cases hplan
  cases htried
  exact ⟨fault, hkind, hrefused ⟨_, List.Mem.head _, rfl⟩⟩

end Collection

end DocumentDb
