/-
  DocumentDb — finding the document of an id.

  * The planner reads by id where no index serves the filter and an equality of the filter pins the
    id (`mem_constraints_of_byId`).  A document that meets this equality has no other id in it
    (`Document.Meets.eq_id`).
  * `find_agrees_of_id`: the document of one id is all that a scan gives, if the matcher accepts
    nothing that is stored under another id.
  * **`find_by_id_agrees`**: so the two agree where every document has the id under which it
    is stored.
  * `find_byId`: the filter of an id leads to the document stored under it, by whatever way the
    planner takes, if no document names another id than its own.  Operations lead to nothing else
    (`Reachable.namesOnly`).
-/
import DocumentDb.Proofs.Collection.Agreement
import DocumentDb.Proofs.Collection.Identity

namespace DocumentDb

theorem Value.text?_eq_some_iff {v : Value} {t : String} : v.text? = some t ↔ v = .text t := by
  cases v <;> simp [Value.text?]

/-! ## The id that a filter pins -/

namespace Document

variable {d : Document} {id own : String}

theorem candidates_id (d : Document) :
    d.candidates idKey = .ok ((d.field? idKey).elim [] (·.reach [])) := by
  have hsegments : Path.segments idKey = [idKey] := by decide
  rw [candidates_eq_ok (by decide) hsegments, Fields.reach_of_field?]

theorem Meets.beq_id (h : d.Meets idKey (.text id)) {v : Value} (hv : d.field? idKey = some v)
    (hself : v.reach [] = [v]) : (v == .text id) = true := by
  obtain ⟨found, hf, heq⟩ := h
  rw [candidates_id, hv, Option.elim_some, hself] at hf
  cases hf
  obtain ⟨w, hw, hbeq⟩ := List.any_eq_true.1 heq
  rwa [List.mem_singleton.1 hw] at hbeq

/-- A document that names no id but its own meets no equality with another one. -/
theorem Meets.eq_id (h : d.Meets idKey (.text id)) (hown : d.NamesOnly own) : own = id := by
  rcases hown with hown | ⟨nested, hnested⟩
  · exact Value.beq_text.1 (h.beq_id hown rfl)
  · cases Value.kind_eq_of_beq (h.beq_id hnested rfl)

end Document

namespace Collection

theorem mem_constraints_of_byId {c : Collection} {filter : Document} {options : FindOptions}
    {plan : Plan} {id : String} (h : c.explain filter options = .ok plan)
    (haccess : plan.access = .byId id) : (idKey, .text id) ∈ filter.constraints := by
  have htakes := (Plan.ofFilter_eq_ok_iff.1 h).2
  rw [haccess] at htakes
  obtain ⟨v, hv, ht⟩ := Option.bind_eq_some_iff.1 htakes.2.2
  rw [Value.text?_eq_some_iff.1 ht] at hv
  exact (List.mem_filter.1 (mem_of_lookup hv)).1

/-! ## One id and all documents -/

section

variable [Collator] {c : Collection} {filter : Document} {options options' : FindOptions}
    {plan : Plan}
  {id : String}

/-- If the matcher accepts nothing that is stored under another id, a find that reads by id gives
    what a scan gives. -/
theorem find_agrees_of_id (distinct : (c.stored.map (·.1)).Nodup)
    (hplan : c.explain filter options = .ok plan) (haccess : plan.access = .byId id)
    (honly : ∀ e ∈ c.stored, accepts (c.matcher · filter) e.2.document = true → e.1 = id)
    (hskip : options'.skipIndex = true) {all : FindResult}
    (hall : c.find filter options' = .ok all) :
    ∃ r, c.find filter options = .ok r ∧ r.found = all.found := by
  obtain ⟨m, hm, hr⟩ := bind_eq_ok_iff.1 hall
  cases hr
  obtain ⟨hjudged, hall⟩ := found_of_scan hskip hm
  -- the document read is the part of the store that has the id
  let tried := c.stored.filter (·.1 == id)
  have hcandidates : c.candidates plan.access = .ok tried := by
    rw [haccess]
    exact congrArg Except.ok (filter_key_eq distinct id).symm
  have hmem : ∀ e ∈ tried, e ∈ c.stored := fun e he => List.mem_of_mem_filter he
  have haccepted : accepted (c.matcher · filter) tried = .ok m.found := by
    refine accepted_eq_ok_iff.2 ⟨fun e he => hjudged e (hmem e he), ?_⟩
    rw [hall, List.filter_filter]
    refine List.filter_congr fun e he => ?_
    cases hacc : accepts (c.matcher · filter) e.2.document with
    | false => rfl
    | true => simp [honly e he hacc]
  have hsearch : c.search filter options = .ok ⟨m.found, plan, tried.length⟩ :=
    search_eq_ok_iff.2 ⟨hplan, tried, hcandidates, rfl, haccepted⟩
  exact ⟨_, bind_eq_ok_iff.2 ⟨_, hsearch, rfl⟩, rfl⟩

/-- **Where no id is stored twice and every document has the id under which it is stored, a find
    that reads by id gives what a scan gives, in the same order.** -/
theorem find_by_id_agrees (distinct : (c.stored.map (·.1)).Nodup) (h : c.Identified)
    (hm : c.matcher = .equality) (hplan : c.explain filter options = .ok plan)
    (haccess : plan.access = .byId id) (hskip : options'.skipIndex = true) {all : FindResult}
    (hall : c.find filter options' = .ok all) :
    ∃ r, c.find filter options = .ok r ∧ r.found = all.found := by
  refine find_agrees_of_id distinct hplan haccess (fun e he hacc => ?_) hskip hall
  rw [hm] at hacc
  have hmeets := meets_of_admits (accepts_iff.1 hacc) _ (mem_constraints_of_byId hplan haccess)
  exact hmeets.eq_id (.of_id? (h e he))

end

/-- No index serves the filter, and the find that reads by id gives the document that the
    scan gives. -/
theorem labelled_find_by_id :
    (∃ plan, labelled.explain (Filter.equal "_id" (.text "2")) {} = .ok plan ∧
      plan.access = .byId "2") ∧
      ∃ all, labelled.find (Filter.equal "_id" (.text "2")) .skipping = .ok all ∧ all.ids = ["2"] ∧
        ∃ r, labelled.find (Filter.equal "_id" (.text "2")) {} = .ok r ∧ r.found = all.found := by
  have hids : (labelled.stored.map (·.1)).Nodup := by decide
  have hidentified : labelled.Identified := by
    unfold Identified
    decide
  obtain ⟨plan, hplan, haccess⟩ : ∃ plan,
      labelled.explain (Filter.equal "_id" (.text "2")) {} = .ok plan ∧ plan.access = .byId "2" :=
    ⟨_, rfl, rfl⟩
  obtain ⟨all, hall, hfound⟩ : ∃ all,
      labelled.find (Filter.equal "_id" (.text "2")) .skipping = .ok all ∧ all.ids = ["2"] :=
    ⟨_, rfl, rfl⟩
  exact ⟨⟨plan, hplan, haccess⟩, all, hall, hfound,
    find_by_id_agrees hids hidentified rfl hplan haccess rfl hall⟩

end Collection

/-! ## The filter of an id -/

namespace Filter

theorem usable_byId (id : String) : (byId id).usable = [(idKey, .text id)] := rfl

theorem lookup_usable_byId (id : String) : (byId id).usable.lookup idKey = some (.text id) := rfl

theorem eq_id_of_usable_byId {id path : String}
    (h : ((byId id).usable.lookup path).isSome = true) : path = idKey := by
  rw [usable_byId, lookup_isSome_iff] at h
  exact List.mem_singleton.1 h

/-- The filter of an id judges every document. -/
theorem admits_byId (id : String) (d : Document) :
    (byId id).admits d = .ok (equalsAny ((d.field? idKey).elim [] (·.reach [])) (.text id)) := by
  rw [byId, admits_single (by decide), Value.holdsAt, Document.candidates_id]
  · rfl
  · intro constraint h
    cases h

theorem admits_byId_of_id? {id : String} {d : Document} (h : d.id? = some id) :
    (byId id).admits d = .ok true := by
  rw [admits_byId, Document.id?_eq_some_iff.1 h]
  refine congrArg Except.ok (List.any_eq_true.2 ⟨.text id, List.mem_singleton_self _, BEq.rfl⟩)

end Filter

/-- An index whose key fields are all the id has no other key field. -/
theorem KeySpec.apart_of_eq_id {spec : KeySpec} (h : ∀ f ∈ spec.fields, f.path = idKey) :
    spec.Apart := by
  intro f hf g hg _
  exact List.inj_on_of_nodup_map spec.distinct hf hg ((h f hf).trans (h g hg).symm)

namespace Collection

variable [Collator] {c : Collection} {id : String} {cell : Cell}

/-- No document names another id than the one under which it is stored. -/
theorem Reachable.namesOnly (h : c.Reachable Step.IsOperation) :
    c.EachStored fun id d => d.NamesOnly id := by
  have hupdates : c.Reachable (Step.UpdatesOnly fun _ => True) := h.mono fun s hs => by
    cases s with
    | operation op => cases op <;> trivial
    | amend serial d => exact hs.elim
  refine hupdates.eachStored (fun id d => .of_id? (Document.id?_set_id d id)) ?_
  intro changes _ hid _ id d r hd hr
  exact hd.mergeInto hid hr

omit [Collator] in
/-- The filter of an id accepts the document stored under it and no other. -/
theorem accepts_byId_iff (hm : c.matcher = .equality) (distinct : (c.stored.map (·.1)).Nodup)
    (hown : c.EachStored fun own d => d.NamesOnly own) (hc : c.cell? id = some cell)
    (hid : cell.document.id? = some id) {e : String × Cell} (he : e ∈ c.stored) :
    accepts (c.matcher · (Filter.byId id)) e.2.document = true ↔ e.1 = id := by
  rw [hm, accepts_iff]
  constructor
  · intro hadmits
    exact (meets_of_admits hadmits _ List.mem_cons_self).eq_id (hown e he)
  · rintro rfl
    rw [show e.2 = cell from Option.some.inj (((mem_iff_lookup distinct).1 he).symm.trans hc)]
    exact Filter.admits_byId_of_id? hid

theorem exists_scan_byId (hm : c.matcher = .equality) (distinct : (c.stored.map (·.1)).Nodup)
    (hown : c.EachStored fun own d => d.NamesOnly own) (hc : c.cell? id = some cell)
    (hid : cell.document.id? = some id) :
    ∃ all, c.find (Filter.byId id) .skipping = .ok all ∧ all.found = [(id, cell)] := by
  obtain ⟨all, hall, hfound⟩ := exists_scan (c := c) (Filter.byId id) fun e _ => by
    rw [hm]
    exact ⟨_, Filter.admits_byId id e.2.document⟩
  have hfilter : all.found = c.stored.filter (·.1 == id) := by
    rw [hfound]
    refine List.filter_congr fun e he => Bool.eq_iff_iff.2 ?_
    rw [accepts_byId_iff hm distinct hown hc hid he, beq_iff_eq]
  have hlookup : c.stored.lookup id = some cell := hc
  refine ⟨all, hall, ?_⟩
  rw [hfilter, filter_key_eq distinct, hlookup]
  rfl

/-- A find of an id gives the document stored under it, by whatever way the planner takes. -/
theorem find_byId [Std.TransCmp Collator.weigh] (h : c.InStep) (hm : c.matcher = .equality)
    (hown : c.EachStored fun own d => d.NamesOnly own) (hc : c.cell? id = some cell)
    (hid : cell.document.id? = some id) :
    ∃ r, c.find (Filter.byId id) {} = .ok r ∧ r.found = [(id, cell)] := by
  obtain ⟨all, hall, hfound⟩ := exists_scan_byId hm h.distinct hown hc hid
  have huse : ({} : FindOptions).skipIndex = false := rfl
  cases hpick : c.pick? (Filter.byId id) with
  | some i =>
    -- the only equality is that of the id, so the index has no other key field
    have hserves := List.all_eq_true.1 (List.mem_filter.1 (Plan.mem_of_widest? hpick)).2
    have hapart := KeySpec.apart_of_eq_id fun f hf => Filter.eq_id_of_usable_byId (hserves f hf)
    obtain ⟨r, hr, hperm, -⟩ := find_agrees_of_apart h hm hpick hapart huse rfl hall
    rw [hfound] at hperm
    exact ⟨r, hr, List.perm_singleton.1 hperm⟩
  | none =>
    obtain ⟨plan, hplan, haccess⟩ := explain_of_no_pick huse hpick (Filter.lookup_usable_byId id)
    have honly : ∀ e ∈ c.stored, accepts (c.matcher · (Filter.byId id)) e.2.document = true →
        e.1 = id :=
      fun e he => (accepts_byId_iff hm h.distinct hown hc hid he).1
    obtain ⟨r, hr, hsame⟩ := find_agrees_of_id h.distinct hplan haccess honly rfl hall
    exact ⟨r, hr, hsame.trans hfound⟩

end Collection

end DocumentDb
