/-
  DocumentDb — updates that take the documents found in different orders.

  * `Collection.Barred`: the changes would give a document found a unique key of a document that is
    not found.  `Collection.Rivalled`: they would give it a unique key that another document found
    has, or would get.
  * `Underway`: whatever documents an update has handled, the others are as they were, and those
    found are as they were or have the changes merged into them.  Every document found has its turn
    in such a collection (`Revision.turn`), so one that is updated is not barred, and one that is
    refused is barred or rivalled (`update_fates`).
  * **`updates_agree`**: so indexes that are not unique, and the order in which they give the
    documents, decide the fate of rivals only.
-/
import DocumentDb.Proofs.Collection.Batch.Update
import DocumentDb.Proofs.Collection.Coverage

namespace DocumentDb

namespace Collection

section

variable [Collator]

/-- The changes give a document a unique key of a document that is not found. -/
def Barred (c : Collection) (changes : Document) (found : List (String × Document))
    (e : String × Document) : Prop :=
  ∃ d, e.2.merge changes = .ok d ∧
    ∃ o ∈ c.contents, o.1 ∉ found.map (·.1) ∧ ¬ c.registry.Separates d o.2

/-- The changes give a document a unique key that another document found has, or gets by the
    changes. -/
def Rivalled (c : Collection) (changes : Document) (found : List (String × Document))
    (e : String × Document) : Prop :=
  ∃ d, e.2.merge changes = .ok d ∧ ∃ f ∈ found, f.1 ≠ e.1 ∧
    (¬ c.registry.Separates d f.2 ∨ ∃ d', f.2.merge changes = .ok d' ∧ ¬ c.registry.Separates d d')

variable {c c' s s' : Collection} {changes : Document} {found found' : List (String × Document)}
  {e : String × Document}

theorem barred_congr (hsame : c'.contents = c.contents)
    (hunique : c.registry.SameUnique c'.registry) (hperm : found'.Perm found) :
    c'.Barred changes found' e ↔ c.Barred changes found e := by
  unfold Barred
  simp only [hsame, (hperm.map (·.1)).mem_iff, Registry.separates_congr hunique]

theorem rivalled_congr (hunique : c.registry.SameUnique c'.registry) (hperm : found'.Perm found) :
    c'.Rivalled changes found' e ↔ c.Rivalled changes found e := by
  unfold Rivalled
  simp only [hperm.mem_iff, Registry.separates_congr hunique]

/-! ## Contents under way -/

theorem contents_replace {id : String} {d : Document} (hok : (c.replace id d).2 = .ok ()) :
    (c.replace id d).1.contents = c.contents.map fun o => if o.1 = id then (o.1, d) else o := by
  unfold contents contentsOf
  rw [stored_replace hok, rewrite, List.map_map, List.map_map]
  refine List.map_congr_left fun e _ => ?_
  by_cases he : e.1 = id <;> simp [he]

theorem mem_contents_replace {id : String} {d : Document} (hok : (c.replace id d).2 = .ok ())
    {o : String × Document} (h : o ∈ (c.replace id d).1.contents) :
    o = (id, d) ∨ o ∈ c.contents := by
  rw [contents_replace hok] at h
  obtain ⟨o', ho', rfl⟩ := List.mem_map.1 h
  split
  · next he => exact Or.inl (congrArg (·, d) he)
  · exact Or.inr ho'

theorem mem_contents_replace_ne {id : String} {d : Document} (hok : (c.replace id d).2 = .ok ())
    {o : String × Document} (hne : o.1 ≠ id) :
    o ∈ (c.replace id d).1.contents ↔ o ∈ c.contents := by
  constructor
  · intro h
    rcases mem_contents_replace hok h with rfl | h
    · exact absurd rfl hne
    · exact h
  · intro h
    rw [contents_replace hok]
    exact List.mem_map.2 ⟨o, h, if_neg hne⟩

/-- A collection to which an update of some documents found may have led. -/
structure Underway (c : Collection) (changes : Document) (found : List (String × Document))
    (s : Collection) : Prop where
  inStep : s.InStep
  unique : c.registry.SameUnique s.registry
  others : ∀ o : String × Document, o.1 ∉ found.map (·.1) → (o ∈ s.contents ↔ o ∈ c.contents)
  found : ∀ o ∈ s.contents, o.1 ∈ found.map (·.1) →
    o ∈ found ∨ ∃ f ∈ found, f.1 = o.1 ∧ f.2.merge changes = .ok o.2

omit [Collator] in
theorem mem_of_mem_ids {entries : List (String × Document)} (distinct : (entries.map (·.1)).Nodup)
    (hfound : ∀ f ∈ found, f ∈ entries) {o : String × Document} (ho : o ∈ entries)
    (hid : o.1 ∈ found.map (·.1)) : o ∈ found := by
  obtain ⟨f, hf, hsame⟩ := List.mem_map.1 hid
  rwa [← List.inj_on_of_nodup_map distinct (hfound f hf) ho hsame]

/-- The collection before the update. -/
theorem Underway.first (h : c.InStep) (hfound : ∀ f ∈ found, f ∈ c.contents) :
    c.Underway changes found c where
  inStep := h
  unique := .refl _
  others _ _ := Iff.rfl
  found o ho hid := by
    have hdistinct : (c.contents.map (·.1)).Nodup := by
      unfold contents
      rw [ids_contentsOf]
      exact h.distinct
    exact Or.inl (mem_of_mem_ids hdistinct hfound ho hid)

/-- A document that is updated has no unique key of a document that is not found. -/
theorem Underway.not_barred (h : c.Underway changes found s) {d : Document} {e : String × Document}
    (he : e ∈ found) (hmerged : e.2.merge changes = .ok d) (hadmits : s.registry.Admits e.1 d) :
    ¬ c.Barred changes found e := by
  rintro ⟨d', hmerged', o, ho, hid, hshared⟩
  cases hmerged.symm.trans hmerged'
  have hne : o.1 ≠ e.1 := fun heq => hid (heq ▸ List.mem_map_of_mem he)
  refine hshared ((Registry.separates_congr h.unique).2 ?_)
  exact h.inStep.admits_iff.1 hadmits o ((h.others o hid).2 ho) hne

/-- A document that is refused has a unique key of a document that is not found, or of a rival. -/
theorem Underway.barred_or_rivalled (h : c.Underway changes found s) {d : Document}
    {e : String × Document} (hmerged : e.2.merge changes = .ok d)
    (hrefuses : ¬ s.registry.Admits e.1 d) :
    c.Barred changes found e ∨ c.Rivalled changes found e := by
  rw [h.inStep.admits_iff] at hrefuses
  push Not at hrefuses
  obtain ⟨o, ho, hne, hshared⟩ := hrefuses
  rw [← Registry.separates_congr h.unique] at hshared
  by_cases hid : o.1 ∈ found.map (·.1)
  · refine Or.inr ⟨d, hmerged, ?_⟩
    rcases h.found o ho hid with hfound | ⟨f, hf, hsame, hmerged'⟩
    · exact ⟨o, hfound, hne, Or.inl hshared⟩
    · exact ⟨f, hf, hsame ▸ hne, Or.inr ⟨o.2, hmerged', hshared⟩⟩
  · exact Or.inl ⟨d, hmerged, o, (h.others o hid).1 ho, hid, hshared⟩

variable [Std.TransCmp Collator.weigh]

theorem sameUnique_replace (h : c.Sound) (id : String) (d : Document) :
    c.registry.SameUnique (c.replace id d).1.registry := by
  unfold Registry.SameUnique
  rw [h.replace_eq, Registry.specs_record, Registry.specs_only]
  exact fun _ _ => Iff.rfl

/-- One document is handled. -/
theorem Underway.step (h : c.Underway changes found s) {e : String × Cell} {outcome : Option String}
    (hd : Revision changes s e outcome s') (he : (e.1, e.2.document) ∈ found) :
    c.Underway changes found s' := by
  cases hd with
  | refused => exact h
  | @revised id cell d hcurrent hmerged hadmitted hreplaced hrecords =>
    have hid : id ∈ found.map (·.1) := List.mem_map.2 ⟨_, he, rfl⟩
    refine ⟨h.inStep.replace (by rw [hcurrent]; rfl) d,
      h.unique.trans (sameUnique_replace h.inStep.sound id d), fun o ho => ?_, fun o ho hoid => ?_⟩
    · have hne : o.1 ≠ id := fun heq => ho (heq ▸ hid)
      rw [mem_contents_replace_ne hreplaced hne]
      exact h.others o ho
    · rcases mem_contents_replace hreplaced ho with rfl | ho
      · exact Or.inr ⟨_, he, rfl, hmerged⟩
      · exact h.found o ho hoid

/-- **Every document found has its turn, in a collection in which only documents found are changed,
    and is updated if it is admitted there.** -/
theorem Revision.turn {targets : List (String × Cell)} {outcomes : List (Option String)}
    (h : Handled (Revision changes) s targets outcomes s') (hs : c.Underway changes found s)
    (distinct : (targets.map (·.1)).Nodup) (hfound : ∀ e ∈ targets, (e.1, e.2.document) ∈ found) :
    ∀ e ∈ targets, ∃ t d, c.Underway changes found t ∧ e.2.document.merge changes = .ok d ∧
      (some e.1 ∈ outcomes ↔ t.registry.Admits e.1 d) := by
  induction h with
  | nil => exact nofun
  | @cons s s' s'' first rest outcome outcomes hd hrun ih =>
    obtain ⟨hfresh, hdistinct⟩ := List.nodup_cons.1 distinct
    obtain ⟨hfirst, hrest⟩ := List.forall_mem_cons.1 hfound
    have hlast := mt (mem_targets hrun) hfresh
    refine List.forall_mem_cons.2 ⟨?_, fun e he => ?_⟩
    · cases hd with
      | revised hcurrent hmerged hadmitted hrecords =>
        exact ⟨s, _, hs, hmerged, iff_of_true List.mem_cons_self hadmitted⟩
      | refused hmerged hrefuses =>
        refine ⟨s, _, hs, hmerged, iff_of_false (fun hm => ?_) hrefuses⟩
        exact hlast (List.mem_of_ne_of_mem (Option.some_ne_none _) hm)
    · obtain ⟨t, d, ht, hmerged, hiff⟩ := ih (hs.step hd hfirst) hdistinct hrest e he
      refine ⟨t, d, ht, hmerged, Iff.trans ?_ hiff⟩
      -- the outcome of the first document is not the id of a later one
      refine ⟨fun hm => (List.mem_cons.1 hm).resolve_left fun ho => ?_, List.mem_cons_of_mem _⟩
      rcases hd.outcome_eq with ho' | ho'
      · exact ne_of_not_mem_keys hfresh he (Option.some.inj (ho.trans ho'))
      · cases ho.trans ho'

/-! ## One update -/

omit [Std.TransCmp Collator.weigh] in
/-- After an update the documents updated have the changes merged into them, and the others
    are as they were. -/
theorem findById_handled {targets : List (String × Cell)} {outcomes : List (Option String)}
    (h : Handled (Revision changes) c targets outcomes s) (distinct : (targets.map (·.1)).Nodup)
    (current : ∀ e ∈ targets, c.cell? e.1 = some e.2) (id : String) :
    s.findById id =
      if some id ∈ outcomes then (c.findById id).bind fun d => (d.merge changes).toOption
      else c.findById id := by
  unfold findById
  split
  · next hid =>
    obtain ⟨e, he, rfl⟩ := List.mem_map.1 (Revision.mem_targets h hid)
    obtain ⟨d, hmerged, hcell, -⟩ := Revision.revises h distinct he hid
    rw [hcell, current e he]
    simp [hmerged, Except.toOption]
  · next hid => rw [(Revision.keeps_all h hid).1]

/-- What becomes of the documents that an update finds: which of them are updated, and what
    is stored then. -/
structure Fates (c : Collection) (changes : Document) (found : List (String × Document))
    (accepted : List String) (s : Collection) : Prop where
  within : ∀ id ∈ accepted, id ∈ found.map (·.1)
  updated : ∀ e ∈ found, e.1 ∈ accepted → ¬ c.Barred changes found e
  refused : ∀ e ∈ found, e.1 ∉ accepted → c.Barred changes found e ∨ c.Rivalled changes found e
  after : ∀ id, s.findById id =
    if id ∈ accepted then (c.findById id).bind fun d => (d.merge changes).toOption
    else c.findById id

/-- An update that succeeds handles the documents found one after the other, and brings such
    fates about. -/
theorem update_fates (h : c.InStep) {filter : Document} {report : BatchReport}
    (hok : (c.update filter changes).2 = .ok report) :
    ∃ m outcomes, c.search filter {} = .ok m ∧
      Handled (Revision changes) c m.found outcomes (c.update filter changes).1 ∧
      report.accepted = outcomes.reduceOption ∧
      c.Fates changes (contentsOf m.found) report.accepted (c.update filter changes).1 := by
  obtain ⟨m, hm, hu⟩ := search_of_update hok
  have hdistinct := found_nodup h.distinct hm
  have hcurrent : ∀ e ∈ m.found, c.cell? e.1 = some e.2 :=
    fun e he => current_of_mem_found h.distinct hm he
  rw [hu] at hok ⊢
  obtain ⟨outcomes, htells, hrun⟩ := updateEach_handled m.found 0 h.sound hdistinct hcurrent hok
  have hstored : ∀ f ∈ contentsOf m.found, f ∈ c.contents :=
    List.forall_mem_map.2 fun e he => mem_contentsOf (mem_stored_of_mem_found hm he)
  have hturn := Revision.turn hrun (.first h hstored) hdistinct fun e he => mem_contentsOf he
  refine ⟨m, outcomes, hm, hrun, htells.accepted, fun id hid => ?_,
    List.forall_mem_map.2 fun e he hid => ?_, List.forall_mem_map.2 fun e he hid => ?_,
    fun id => ?_⟩
  · rw [ids_contentsOf]
    exact Revision.mem_targets hrun (htells.mem_accepted_iff.1 hid)
  · obtain ⟨t, d, ht, hmerged, hiff⟩ := hturn e he
    exact ht.not_barred (mem_contentsOf he) hmerged (hiff.1 (htells.mem_accepted_iff.1 hid))
  · obtain ⟨t, d, ht, hmerged, hiff⟩ := hturn e he
    exact ht.barred_or_rivalled (e := (e.1, e.2.document)) hmerged
      (mt hiff.2 (mt htells.mem_accepted_iff.2 hid))
  · rw [findById_handled hrun hdistinct hcurrent]
    simp only [htells.mem_accepted_iff]

/-! ## Two updates -/

omit [Std.TransCmp Collator.weigh] in
/-- With the same documents and the same unique indexes, the same is admitted. -/
theorem admits_congr {k : Collection} (hs : s.InStep) (hk : k.InStep)
    (hsame : k.contents = s.contents) (hunique : s.registry.SameUnique k.registry) {id : String}
    {d : Document} :
    k.registry.Admits id d ↔ s.registry.Admits id d := by
  rw [hs.admits_iff, hk.admits_iff, hsame]
  simp only [Registry.separates_congr hunique]

/-- One document has the same outcome in both, and leaves the same documents. -/
theorem Revision.agree {k k' : Collection} {e e' : String × Cell} {outcome outcome' : Option String}
    (hd : Revision changes s e outcome s') (hd' : Revision changes k e' outcome' k') (hs : s.InStep)
    (hk : k.InStep) (hsame : k.contents = s.contents) (hunique : s.registry.SameUnique k.registry)
    (he : (e'.1, e'.2.document) = (e.1, e.2.document)) :
    outcome' = outcome ∧ s'.InStep ∧ k'.InStep ∧ k'.contents = s'.contents ∧
      s'.registry.SameUnique k'.registry := by
  obtain ⟨hid, hdocument⟩ := Prod.mk.inj he
  cases hd with
  | @revised id cell d hcurrent hmerged hadmitted hreplaced hrecords =>
    cases hd' with
    | @revised id' cell' d' hcurrent' hmerged' hadmitted' hreplaced' hrecords' =>
      cases hid
      rw [hdocument] at hmerged'
      cases hmerged.symm.trans hmerged'
      refine ⟨rfl, hs.replace (by rw [hcurrent]; rfl) d, hk.replace (by rw [hcurrent']; rfl) d,
        ?_, ?_⟩
      · rw [contents_replace hreplaced, contents_replace hreplaced', hsame]
      · exact (sameUnique_replace hs.sound _ d).symm.trans
          (hunique.trans (sameUnique_replace hk.sound _ d))
    | @refused id' cell' d' hmerged' hrefuses' =>
      cases hid
      rw [hdocument] at hmerged'
      cases hmerged.symm.trans hmerged'
      exact absurd ((admits_congr hs hk hsame hunique).2 hadmitted) hrefuses'
  | @refused id cell d hmerged hrefuses =>
    cases hd' with
    | @revised id' cell' d' hcurrent' hmerged' hadmitted' hreplaced' hrecords' =>
      cases hid
      rw [hdocument] at hmerged'
      cases hmerged.symm.trans hmerged'
      exact absurd ((admits_congr hs hk hsame hunique).1 hadmitted') hrefuses
    | refused => exact ⟨rfl, hs, hk, hsame, hunique⟩

/-- Updates that take the same documents in the same order have the same outcomes. -/
theorem Revision.outcomes_eq {targets targets' : List (String × Cell)}
    {outcomes outcomes' : List (Option String)} {k k' : Collection}
    (h : Handled (Revision changes) s targets outcomes s')
    (h' : Handled (Revision changes) k targets' outcomes' k') (hs : s.InStep) (hk : k.InStep)
    (hsame : k.contents = s.contents) (hunique : s.registry.SameUnique k.registry)
    (horder : contentsOf targets' = contentsOf targets) : outcomes' = outcomes := by
  induction h generalizing k targets' outcomes' with
  | nil =>
    cases List.map_eq_nil_iff.1 horder
    cases h'
    rfl
  | cons hd hrun ih =>
    obtain ⟨e', rest', rfl, he, hrest⟩ := List.map_eq_cons_iff.1 horder
    cases h' with
    | cons hd' hrun' =>
      obtain ⟨ho, hs₁, hk₁, hsame₁, hunique₁⟩ := hd.agree hd' hs hk hsame hunique he
      rw [ho, ih hrun' hs₁ hk₁ hsame₁ hunique₁ hrest]

section

omit [Std.TransCmp Collator.weigh]

variable {accepted accepted' : List String}

/-- The fates are a matter of the documents and the unique indexes. -/
theorem Fates.congr (h : c'.Fates changes found' accepted s) (hsame : c'.contents = c.contents)
    (hunique : c.registry.SameUnique c'.registry) (hperm : found'.Perm found) :
    c.Fates changes found accepted s where
  within id hid := (hperm.map (·.1)).mem_iff.1 (h.within id hid)
  updated e he hid := by
    rw [← barred_congr hsame hunique hperm]
    exact h.updated e (hperm.mem_iff.2 he) hid
  refused e he hid := by
    rw [← barred_congr hsame hunique hperm, ← rivalled_congr hunique hperm]
    exact h.refused e (hperm.mem_iff.2 he) hid
  after id := by
    rw [h.after, findById_eq_lookup, findById_eq_lookup, hsame]

/-- A document without a rival is updated if it is not barred, so only rivals can have two fates. -/
theorem Fates.agree (h : c.Fates changes found accepted s) (h' : c.Fates changes found accepted' s')
    (he : e ∈ found) (hcond : c.Barred changes found e ∨ ¬ c.Rivalled changes found e) :
    e.1 ∈ accepted ↔ e.1 ∈ accepted' := by
  by_cases hbarred : c.Barred changes found e
  · exact iff_of_false (fun ha => h.updated e he ha hbarred) fun ha => h'.updated e he ha hbarred
  · have hrival := hcond.resolve_left hbarred
    exact iff_of_true (by_contra fun hn => (h.refused e he hn).elim hbarred hrival)
      (by_contra fun hn => (h'.refused e he hn).elim hbarred hrival)

/-- If the documents found have the same fates, nothing else is updated. -/
theorem Fates.mem_accepted_iff (h : c.Fates changes found accepted s)
    (h' : c.Fates changes found accepted' s')
    (heach : ∀ e ∈ found, (e.1 ∈ accepted ↔ e.1 ∈ accepted')) (id : String) :
    id ∈ accepted ↔ id ∈ accepted' := by
  by_cases hid : id ∈ found.map (·.1)
  · obtain ⟨e, he, rfl⟩ := List.mem_map.1 hid
    exact heach e he
  · exact iff_of_false (mt (h.within id) hid) (mt (h'.within id) hid)

/-- What has the same fate is the same afterwards. -/
theorem Fates.findById_eq (h : c.Fates changes found accepted s)
    (h' : c.Fates changes found accepted' s') {id : String} (hid : id ∈ accepted ↔ id ∈ accepted') :
    s.findById id = s'.findById id := by
  rw [h.after, h'.after]
  simp only [hid]

end

/-- **Updates of collections with the same documents and the same unique indexes, by whatever ways,
    find the same documents.**  Where two updates succeed, a document found is updated by both or by
    neither, unless it has a rival and is not barred; what is updated by both or by neither is the
    same afterwards.  So the two lead to the same documents if they take them in the same order, or
    if every document found is barred, or has no rival, or is updated by both. -/
theorem updates_agree (h : c.InStep) (h' : c'.InStep) {filter : Document}
    (hm : c.matcher.KeepsTo filter) (hmatcher : c'.matcher = c.matcher)
    (hs : c.FindsStraight filter {}) (hs' : c'.FindsStraight filter {})
    (hsame : c'.contents = c.contents)
    (hunique : c.registry.SameUnique c'.registry) {report report' : BatchReport}
    (hok : (c.update filter changes).2 = .ok report)
    (hok' : (c'.update filter changes).2 = .ok report') :
    ∃ r r', c.find filter {} = .ok r ∧ c'.find filter {} = .ok r' ∧
      (contentsOf r'.found).Perm (contentsOf r.found) ∧
      (∀ e ∈ contentsOf r.found,
        c.Barred changes (contentsOf r.found) e ∨ ¬ c.Rivalled changes (contentsOf r.found) e →
        (e.1 ∈ report.accepted ↔ e.1 ∈ report'.accepted)) ∧
      (∀ id, (id ∈ report.accepted ↔ id ∈ report'.accepted) →
        (c.update filter changes).1.findById id = (c'.update filter changes).1.findById id) ∧
      (contentsOf r'.found = contentsOf r.found ∨
        (∀ e ∈ contentsOf r.found, c.Barred changes (contentsOf r.found) e ∨
          ¬ c.Rivalled changes (contentsOf r.found) e ∨
          e.1 ∈ report.accepted ∧ e.1 ∈ report'.accepted) →
        (∀ id, id ∈ report.accepted ↔ id ∈ report'.accepted) ∧
          ∀ id, (c.update filter changes).1.findById id =
            (c'.update filter changes).1.findById id) := by
  obtain ⟨m, outcomes, hsearch, hrun, haccepted, hfates⟩ := update_fates h hok
  obtain ⟨m', outcomes', hsearch', hrun', haccepted', hfates'⟩ := update_fates h' hok'
  have hperm := hs.contents_found_perm hs' h h' hm hmatcher hsame hsearch hsearch'
  replace hfates' := hfates'.congr hsame hunique hperm
  refine ⟨_, _, bind_eq_ok_iff.2 ⟨m, hsearch, rfl⟩, bind_eq_ok_iff.2 ⟨m', hsearch', rfl⟩, hperm,
    fun e he => hfates.agree hfates' he, fun id => hfates.findById_eq hfates', fun hcond => ?_⟩
  suffices hall : ∀ id, id ∈ report.accepted ↔ id ∈ report'.accepted from
    ⟨hall, fun id => hfates.findById_eq hfates' (hall id)⟩
  rcases hcond with horder | heach
  · have houtcomes := Revision.outcomes_eq hrun hrun' h h' hsame hunique horder
    intro id
    rw [haccepted, haccepted', houtcomes]
  · refine hfates.mem_accepted_iff hfates' fun e he => ?_
    rcases heach e he with hbarred | hrival | ⟨ha, ha'⟩
    · exact hfates.agree hfates' he (Or.inl hbarred)
    · exact hfates.agree hfates' he (Or.inr hrival)
    · exact iff_of_true ha ha'

end

/-- A unique index of the seats. -/
def seatSpec : KeySpec := ⟨[⟨"seat", .ascending, by decide⟩], true, "seat", by simp, by simp⟩

/-- An index of the kinds, which is not unique. -/
def kindSpec : KeySpec := ⟨[⟨"kind", .ascending, by decide⟩], false, "kind", by simp, by simp⟩

/-- Two documents of one kind, the second id first. -/
def pairOfKind : List Document :=
  [.ofList [("_id", .text "2"), ("kind", .text "x")],
    .ofList [("_id", .text "1"), ("kind", .text "x")]]

/-- The documents with the unique index alone. -/
def plain : Collection :=
  ((Collection.new "notes" {} .equality).step (.operation (.ensureSpec seatSpec))).step
    (.operation (.insertMany ⟨fun _ => "", 0⟩ pairOfKind))

/-- The documents with both indexes. -/
def sorted : Collection :=
  (((Collection.new "notes" {} .equality).step (.operation (.ensureSpec seatSpec))).step
    (.operation (.ensureSpec kindSpec))).step (.operation (.insertMany ⟨fun _ => "", 0⟩ pairOfKind))

theorem plain_reachable : plain.Reachable Step.IsOperation := by
  unfold plain
  exact .step _ (.step _ (.new "notes" {} .equality) trivial) trivial

theorem sorted_reachable : sorted.Reachable Step.IsOperation := by
  unfold sorted
  exact .step _ (.step _ (.step _ (.new "notes" {} .equality) trivial) trivial) trivial

theorem specs_sorted :
    sorted.registry.indexes.map (·.spec) = plain.registry.indexes.map (·.spec) ++ [kindSpec] := rfl

theorem sameUnique_sorted : plain.registry.SameUnique sorted.registry := by
  intro spec hu
  have hne : spec ≠ kindSpec := by
    rintro rfl
    cases hu
  rw [specs_sorted, List.mem_append, List.mem_singleton]
  exact (or_iff_left hne).symm

theorem plain_findsStraight : plain.FindsStraight (.single "kind" (.text "x")) {} := by
  intro plan hplan
  have hscan : plain.explain (.single "kind" (.text "x")) {} = .ok ⟨[], .scan⟩ := rfl
  cases hscan.symm.trans hplan
  trivial

theorem sorted_findsStraight : sorted.FindsStraight (.single "kind" (.text "x")) {} := by
  intro plan hplan
  obtain ⟨i, probe, potential, hindex, hspec⟩ : ∃ i probe potential,
      sorted.explain (.single "kind" (.text "x")) {} = .ok ⟨potential, .byIndex i probe⟩ ∧
        i.spec = kindSpec := ⟨_, _, _, rfl, rfl⟩
  cases hindex.symm.trans hplan
  intro f hf g hg _
  rw [hspec] at hf hg
  exact (List.mem_singleton.1 hf).trans (List.mem_singleton.1 hg).symm

/-- The seat goes to the document that is first in the store, or first in the index. -/
theorem sorted_updates_another :
    let filter : Document := .single "kind" (.text "x")
    let changes : Document := .single "seat" (.text "a")
    plain.InStep ∧ sorted.InStep ∧ sorted.contents = plain.contents ∧
      sorted.registry.indexes.map (·.spec) = plain.registry.indexes.map (·.spec) ++ [kindSpec] ∧
      (plain.update filter changes).2.toOption.map (·.accepted) = some ["2"] ∧
      (sorted.update filter changes).2.toOption.map (·.accepted) = some ["1"] ∧
      (plain.update filter changes).1.findById "1" ≠
        (sorted.update filter changes).1.findById "1" := by
  intro filter changes
  refine ⟨plain_reachable.inStep, sorted_reachable.inStep, rfl, specs_sorted, by decide +kernel,
    by decide +kernel, fun hsame => ?_⟩
  have hseated := congrArg (Option.map fun d => (d.field? "seat").isSome) hsame
  revert hseated
  decide +kernel

/-- Neither document gets a seat, so none is refused, and each is updated by both, in orders
    of their own. -/
theorem sorted_updates_agree :
    let filter : Document := .single "kind" (.text "x")
    let changes : Document := .single "note" (.text "n")
    ∃ r r' report report', plain.find filter {} = .ok r ∧ sorted.find filter {} = .ok r' ∧
      r.found.map (·.1) = ["2", "1"] ∧ r'.found.map (·.1) = ["1", "2"] ∧
      (plain.update filter changes).2 = .ok report ∧
      (sorted.update filter changes).2 = .ok report' ∧
      (∀ id, id ∈ report.accepted ↔ id ∈ report'.accepted) ∧
      ∀ id, (plain.update filter changes).1.findById id =
        (sorted.update filter changes).1.findById id := by
  intro filter changes
  have hfound : (plain.find filter {}).toOption.map (fun r => r.found.map (·.1)) =
      some ["2", "1"] := by
    decide +kernel
  have hfound' : (sorted.find filter {}).toOption.map (fun r => r.found.map (·.1)) =
      some ["1", "2"] := by
    decide +kernel
  have htold : (plain.update filter changes).2.toOption.map (·.accepted) = some ["2", "1"] := by
    decide +kernel
  have htold' : (sorted.update filter changes).2.toOption.map (·.accepted) = some ["1", "2"] := by
    decide +kernel
  obtain ⟨report, hok, haccepted⟩ := exists_of_toOption_map htold
  obtain ⟨report', hok', haccepted'⟩ := exists_of_toOption_map htold'
  obtain ⟨r, r', hr, hr', -, -, -, hagree⟩ :=
    updates_agree plain_reachable.inStep sorted_reachable.inStep
    (Matcher.equality_keepsTo filter) rfl plain_findsStraight sorted_findsStraight rfl
      sameUnique_sorted
    hok hok'
  rw [hr] at hfound
  rw [hr'] at hfound'
  have hids : r.found.map (·.1) = ["2", "1"] := Option.some.inj hfound
  have hboth : ∀ e ∈ contentsOf r.found, e.1 ∈ report.accepted ∧ e.1 ∈ report'.accepted := by
    intro e he
    have hid := List.mem_map_of_mem (f := (·.1)) he
    rw [ids_contentsOf, hids] at hid
    rw [haccepted, haccepted']
    exact ⟨hid, by simpa [or_comm] using hid⟩
  obtain ⟨hsame, hafter⟩ := hagree (Or.inr fun e he => Or.inr (Or.inr (hboth e he)))
  exact ⟨r, r', report, report', hr, hr', hids, Option.some.inj hfound', hok, hok', hsame, hafter⟩

end Collection

end DocumentDb
