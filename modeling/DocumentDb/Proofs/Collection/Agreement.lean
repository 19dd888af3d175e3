/-
  DocumentDb — a find that uses an index finds what a scan finds.

  * `Index.InStep.mem_lookup_iff`: what a lookup finds in an index in step.  These are the documents
    that share a value with the probe in each key field that it supplies
    (`InStep.mem_lookup_iff_shares`).
  * `found_of_scan` and `exists_scan`: a scan gives the stored documents that the matcher accepts,
    if it judges all of them.
  * `search_agrees`: such an index gives the same documents as a scan, each once, as soon as its
    lookup does not leave out a document that the matcher accepts.
  * **`find_agrees_of_apart`**: so the two agree where no key field of the index used leads
    through another.
-/
import DocumentDb.Proofs.Collection.Consistency
import DocumentDb.Proofs.Collection.Planning
import DocumentDb.Proofs.Collection.Probe
import DocumentDb.Proofs.Filter.Constraint
import DocumentDb.Proofs.Index.Lookup

namespace DocumentDb

/-! ## Lookups -/

/-- **A lookup in an index in step finds the ids whose documents have a key that answers the
    probe.** -/
theorem Index.InStep.mem_lookup_iff [Collator] [Std.TransCmp Collator.weigh] {i : Index}
    {stored : List (String × Cell)} (h : i.InStep stored) {probe : Document} {id : String} :
    id ∈ i.lookup probe ↔ ∃ key ∈ i.spec.due stored id, i.spec.Answers probe key :=
  mem_lookup_iff_of_holds h.consistent fun key =>
    (h.consistent.holds_iff key id).trans (h.records id key)

namespace Collection

/-- The index that the planner picks for a filter. -/
def pick? (c : Collection) (filter : Document) : Option Index :=
  Plan.widest? (c.registry.indexes.filter (Plan.serves filter.usable))

theorem access_of_skipIndex {c : Collection} {filter : Document} {options : FindOptions}
    {plan : Plan} (hskip : options.skipIndex = true) (h : c.explain filter options = .ok plan) :
    plan.access = .scan :=
  (Plan.ofFilter_eq_ok_iff.1 h).2.eq_scan hskip

theorem explain_of_no_pick {c : Collection} {filter : Document} {options : FindOptions}
    {id : String} (hskip : options.skipIndex = false) (hnone : c.pick? filter = none)
    (hid : filter.usable.lookup idKey = some (.text id)) :
    ∃ plan, c.explain filter options = .ok plan ∧ plan.access = .byId id := by
  refine ⟨⟨_, .byId id⟩, Plan.ofFilter_eq_ok_iff.2 ⟨rfl, hskip, hnone, ?_⟩, rfl⟩
  rw [hid]
  rfl

theorem explain_of_pick? {c : Collection} {filter probe : Document} {options : FindOptions}
    {i : Index} (hskip : options.skipIndex = false) (hi : c.pick? filter = some i)
    (hp : Plan.probe filter.usable .empty i.spec.fields = .ok probe) :
    ∃ plan, c.explain filter options = .ok plan ∧ plan.access = .byIndex i probe := by
  exact ⟨⟨_, .byIndex i probe⟩, Plan.ofFilter_eq_ok_iff.2 ⟨rfl, hskip, hi, hp⟩, rfl⟩

/-! ## Index and scan -/

variable [Collator] [Std.TransCmp Collator.weigh] {c : Collection}

omit [Std.TransCmp Collator.weigh] in
/-- A scan that succeeds has judged every stored document, and gives those accepted. -/
theorem found_of_scan {filter : Document} {options : FindOptions} {m : Matches}
    (hskip : options.skipIndex = true) (h : c.search filter options = .ok m) :
    (∀ e ∈ c.stored, ∃ accept, c.matcher e.2.document filter = .ok accept) ∧
      m.found = c.stored.filter fun e => accepts (c.matcher · filter) e.2.document := by
  obtain ⟨hexplain, scanned, hscanned, -, haccepted⟩ := search_eq_ok_iff.1 h
  rw [access_of_skipIndex hskip hexplain] at hscanned
  cases hscanned
  exact accepted_eq_ok_iff.1 haccepted

omit [Std.TransCmp Collator.weigh] in
/-- A scan gives the stored documents that the matcher accepts, if it judges all of them. -/
theorem exists_scan (filter : Document)
    (hjudged : ∀ e ∈ c.stored, ∃ accept, c.matcher e.2.document filter = .ok accept) :
    ∃ all, c.find filter .skipping = .ok all ∧
      all.found = c.stored.filter fun e => accepts (c.matcher · filter) e.2.document := by
  obtain ⟨plan, hplan⟩ : ∃ plan, c.explain filter .skipping = .ok plan := ⟨_, rfl⟩
  have hcandidates : c.candidates plan.access = .ok c.stored := by
    rw [access_of_skipIndex rfl hplan]
    rfl
  have hsearch : c.search filter .skipping = .ok ⟨_, plan, c.stored.length⟩ :=
    search_eq_ok_iff.2 ⟨hplan, c.stored, hcandidates, rfl, accepted_eq_ok_iff.2 ⟨hjudged, rfl⟩⟩
  exact ⟨_, bind_eq_ok_iff.2 ⟨_, hsearch, rfl⟩, rfl⟩

/-- A lookup in an index in step finds the stored documents that share a value with the probe in
    each key field that it supplies. -/
theorem InStep.mem_lookup_iff_shares (h : c.InStep) {i : Index} (hi : i ∈ c.registry.indexes)
    {probe : Document} {id : String} : id ∈ i.lookup probe ↔
      ∃ cell, (id, cell) ∈ c.stored ∧ i.spec.covers cell.document = true ∧
        i.spec.Shares probe cell.document := by
  simp only [(h.indexes i hi).mem_lookup_iff, ← KeySpec.exists_answer_iff,
    mem_iff_lookup h.distinct]
  constructor
  · rintro ⟨key, hk, hans⟩
    cases hl : c.stored.lookup id with
    | none =>
      rw [KeySpec.due_of_not_stored hl] at hk
      cases hk
    | some cell =>
      rw [KeySpec.due_of_lookup hl] at hk
      exact ⟨cell, rfl, key, hk, hans⟩
  · rintro ⟨cell, hl, key, hk, hans⟩
    exact ⟨key, by rwa [KeySpec.due_of_lookup hl], hans⟩

theorem InStep.stored_of_mem_lookup (h : c.InStep) {i : Index} (hi : i ∈ c.registry.indexes)
    {probe : Document} {id : String} (hid : id ∈ i.lookup probe) : (c.cell? id).isSome = true := by
  obtain ⟨cell, hmem, -⟩ := (h.mem_lookup_iff_shares hi).1 hid
  have hcell : c.cell? id = some cell := (mem_iff_lookup h.distinct).1 hmem
  rw [hcell]
  rfl

/-- What an index in step gives can be fetched: the stored documents that the lookup finds,
    each once. -/
theorem InStep.exists_fetch (h : c.InStep) {i : Index} (hi : i ∈ c.registry.indexes)
    (probe : Document) :
    ∃ tried, c.fetch i (i.lookup probe) = .ok tried ∧ (tried.map (·.1)).Nodup ∧
      ∀ e, e ∈ tried ↔ e ∈ c.stored ∧ e.1 ∈ i.lookup probe := by
  obtain ⟨tried, htried⟩ := exists_fetch_eq_ok i fun id hid => h.stored_of_mem_lookup hi hid
  have hids := ids_of_fetch htried
  have hcells : ∀ e ∈ tried, c.cell? e.1 = some e.2 := by
    intro e he
    obtain ⟨id, -, rfl, hcell⟩ := exists_of_mem_right (fetch_eq_ok_iff.1 htried) he
    exact hcell
  refine ⟨tried, htried, hids ▸ Index.lookup_nodup i probe, fun e => ?_⟩
  rw [← hids, mem_iff_lookup h.distinct]
  constructor
  · intro he
    exact ⟨hcells e he, List.mem_map_of_mem he⟩
  · rintro ⟨hcell, hid⟩
    obtain ⟨e', he', hsame⟩ := List.mem_map.1 hid
    have hcell' : c.cell? e'.1 = some e.2 := by
      rw [hsame]
      exact hcell
    rw [hcells e' he'] at hcell'
    rwa [show e = e' from Prod.ext hsame.symm (Option.some.inj hcell').symm]

/-- A lookup that leaves out no document that the matcher accepts gives what a scan gives. -/
theorem search_agrees (h : c.InStep) {filter probe : Document} {i : Index}
    (hi : i ∈ c.registry.indexes) {options options' : FindOptions} {plan : Plan} {all : Matches}
    (hskip : options'.skipIndex = true) (hall : c.search filter options' = .ok all)
    (hplan : c.explain filter options = .ok plan) (haccess : plan.access = .byIndex i probe)
    (coverage : ∀ e ∈ c.stored, accepts (c.matcher · filter) e.2.document = true →
      e.1 ∈ i.lookup probe) :
    ∃ m, c.search filter options = .ok m ∧ m.found.Perm all.found ∧ (m.found.map (·.1)).Nodup := by
  -- the scan has judged every stored document, so none of those tried makes the matcher fail
  obtain ⟨hjudged, hall⟩ := found_of_scan hskip hall
  obtain ⟨tried, htried, hnodup, hmem⟩ := h.exists_fetch hi probe
  let accept := fun e : String × Cell => accepts (c.matcher · filter) e.2.document
  have haccepted : accepted (c.matcher · filter) tried = .ok (tried.filter accept) :=
    accepted_eq_ok_iff.2 ⟨fun e he => hjudged e ((hmem e).1 he).1, rfl⟩
  have hcandidates : c.candidates plan.access = .ok tried := by
    rw [haccess]
    exact htried
  have hnodup' : ((tried.filter accept).map (·.1)).Nodup :=
    hnodup.sublist (List.filter_sublist.map _)
  refine ⟨⟨tried.filter accept, plan, tried.length⟩,
    search_eq_ok_iff.2 ⟨hplan, tried, hcandidates, rfl, haccepted⟩, ?_, hnodup'⟩
  rw [hall]
  have hstored : (c.stored.filter accept).Nodup :=
    (h.distinct.sublist (List.filter_sublist.map _)).of_map
  refine (List.perm_ext_iff_of_nodup hnodup'.of_map hstored).2 ?_
  intro e
  rw [List.mem_filter, List.mem_filter, hmem]
  constructor
  · rintro ⟨⟨he, -⟩, hacc⟩
    exact ⟨he, hacc⟩
  · rintro ⟨he, hacc⟩
    exact ⟨⟨he, coverage e he hacc⟩, hacc⟩

end Collection

/-! ## Fields that are apart -/

/-- A value that an index can serve is all that it finds where the value stands. -/
theorem Document.resolve_of_descend_isUsable {d : Document} {path : String} {v : Value}
    (h : (Value.document d).descend (Path.segments path) = some v) (hv : v.isUsable = true) :
    d.resolve (Path.segments path) = [v] := by
  rw [resolve_of_descend h, Value.walk_nil_of_isUsable hv]
  rfl

namespace Collection

variable [Collator] [Std.TransCmp Collator.weigh] {c : Collection}

/-- A probe that has the values that a filter asks for leads to every document that has them. -/
theorem mem_lookup_of_meets (h : c.InStep) {i : Index} (hi : i ∈ c.registry.indexes)
    {filter probe : Document}
    (hserves : ∀ f ∈ i.spec.fields, (filter.usable.lookup f.path).isSome = true)
    (hvalues : ∀ f ∈ i.spec.fields,
      (Value.document probe).descend f.segments = filter.usable.lookup f.path)
    {e : String × Cell} (he : e ∈ c.stored)
    (hmeets : ∀ t ∈ filter.constraints, e.2.document.Meets t.1 t.2) : e.1 ∈ i.lookup probe := by
  have hshared : ∀ f ∈ i.spec.fields, ∃ w ∈ e.2.document.resolve f.segments,
      w.isNull = false ∧ ∃ v ∈ probe.resolve f.segments, (w == v) = true := by
    intro f hf
    obtain ⟨v, hv⟩ := Option.isSome_iff_exists.1 (hserves f hf)
    obtain ⟨hmem, hu⟩ := List.mem_filter.1 (mem_of_lookup hv)
    obtain ⟨w, hw, hwv⟩ := (hmeets _ hmem).exists_mem_resolve hu
    have hnull := Value.isNull_of_isUsable (Value.isUsable_of_beq hwv hu)
    have hresolve := Document.resolve_of_descend_isUsable ((hvalues f hf).trans hv) hu
    exact ⟨w, hw, hnull, v, hresolve ▸ List.mem_singleton_self v, hwv⟩
  refine (h.mem_lookup_iff_shares hi).2 ⟨e.2, he, ?_, fun f hf _ => ?_⟩
  · obtain ⟨f, fields, hf⟩ := List.exists_cons_of_ne_nil i.spec.nonempty
    have hmem : f ∈ i.spec.fields := hf ▸ List.mem_cons_self
    obtain ⟨w, hw, hnull, -⟩ := hshared f hmem
    exact KeySpec.covers_of_mem_resolve hmem hw hnull
  · obtain ⟨w, hw, -, hv⟩ := hshared f hf
    exact ⟨w, hw, hv⟩

/-- **Where no key field of the index used leads through another, a find that uses it gives what a
    scan gives, each document once.** -/
theorem find_agrees_of_apart (h : c.InStep) (hm : c.matcher = .equality) {filter : Document}
    {i : Index} (hi : c.pick? filter = some i) (ha : i.spec.Apart) {options options' : FindOptions}
    (hskip : options.skipIndex = false) (hskip' : options'.skipIndex = true) {all : FindResult}
    (hall : c.find filter options' = .ok all) :
    ∃ r, c.find filter options = .ok r ∧ r.found.Perm all.found ∧ (r.found.map (·.1)).Nodup := by
  obtain ⟨hreg, hserves⟩ := List.mem_filter.1 (Plan.mem_of_widest? hi)
  have hserves : ∀ f ∈ i.spec.fields, (filter.usable.lookup f.path).isSome = true :=
    List.all_eq_true.1 hserves
  obtain ⟨probe, hprobe, -, hvalues⟩ := Plan.probe_of_apart (d := Document.empty)
    (fun _ _ => rfl) ha.pairwise (fun f _ => Plan.open_empty f.segments) hserves
  obtain ⟨plan, hplan, haccess⟩ := explain_of_pick? hskip hi hprobe
  obtain ⟨m, hm', hr⟩ := bind_eq_ok_iff.1 hall
  cases hr
  have hcoverage : ∀ e ∈ c.stored, accepts (c.matcher · filter) e.2.document = true →
      e.1 ∈ i.lookup probe := by
    intro e he hacc
    rw [hm] at hacc
    exact mem_lookup_of_meets h hreg hserves hvalues he (meets_of_admits (accepts_iff.1 hacc))
  obtain ⟨r, hr, hperm, hnodup⟩ := search_agrees h hreg hskip' hm' hplan haccess hcoverage
  exact ⟨_, bind_eq_ok_iff.2 ⟨r, hr, rfl⟩, hperm, hnodup⟩

end Collection

end DocumentDb
