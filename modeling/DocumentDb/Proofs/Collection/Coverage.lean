/-
  DocumentDb — what a find gives is a matter of the documents.

  * `Matcher.KeepsTo`: what a matcher owes to a collection, which asks it about few documents only.
    The default matcher does (`Matcher.equality_keepsTo`).
  * `pick?_of_explain`: an index is used if it is picked, with the probe made of the
    equalities of the filter.
  * `Collection.FindsStraight c filter options`: the way that a find takes leads past no document
    that meets these equalities.  An index used has no key field that leads through another, and
    where the find reads by id, no document names another id than its own.
  * **`FindsStraight.mem_found_iff`**: a find that succeeds then gives the stored documents that the
    matcher accepts; so two collections with the same documents give the same
    (`FindsStraight.contents_found_perm`), in orders of their own.
-/
import DocumentDb.Proofs.Collection.ById
import DocumentDb.Proofs.Collection.Separation

namespace DocumentDb

/-- A matcher keeps to the equalities of a filter: it accepts only documents that meet them. -/
def Matcher.KeepsTo (matcher : Matcher) (filter : Document) : Prop :=
  ∀ d, matcher d filter = .ok true → ∀ t ∈ filter.constraints, d.Meets t.1 t.2

theorem Matcher.equality_keepsTo (filter : Document) : Matcher.equality.KeepsTo filter :=
  fun _ haccepts => meets_of_admits haccepts

namespace Collection

/-! ## The way taken -/

theorem pick?_of_explain {c : Collection} {filter probe : Document} {options : FindOptions}
    {plan : Plan} {i : Index} (h : c.explain filter options = .ok plan)
    (ha : plan.access = .byIndex i probe) :
    c.pick? filter = some i ∧ Plan.probe filter.usable .empty i.spec.fields = .ok probe := by
  obtain ⟨hpotential, htakes⟩ := Plan.ofFilter_eq_ok_iff.1 h
  rw [ha, hpotential] at htakes
  exact htakes.2

/-- The way to the candidates leads past no document: no key field of the index leads through
    another one; no document names another id than its own, if one id is read. -/
def IsStraight (c : Collection) : Access → Prop
  | .byIndex i _ => i.spec.Apart
  | .byId _ => c.EachStored fun id d => d.NamesOnly id
  | .scan => True

/-- The way that a find takes leads past no document. -/
def FindsStraight (c : Collection) (filter : Document) (options : FindOptions) : Prop :=
  ∀ plan, c.explain filter options = .ok plan → c.IsStraight plan.access

variable [Collator] [Std.TransCmp Collator.weigh] {c c' : Collection} {filter : Document}
  {options : FindOptions} {m : Matches}

/-- A document that has what the filter asks for is among those that are tried. -/
theorem FindsStraight.mem_tried (hs : c.FindsStraight filter options) (h : c.InStep) {plan : Plan}
    (hplan : c.explain filter options = .ok plan) {tried : List (String × Cell)}
    (htried : c.candidates plan.access = .ok tried) {e : String × Cell} (he : e ∈ c.stored)
    (hmeets : ∀ t ∈ filter.constraints, e.2.document.Meets t.1 t.2) : e ∈ tried := by
  have hstraight := hs plan hplan
  cases haccess : plan.access with
  | byIndex i probe =>
    rw [haccess] at hstraight
    obtain ⟨hpick, hprobe⟩ := pick?_of_explain hplan haccess
    obtain ⟨hi, hserves⟩ := List.mem_filter.1 (Plan.mem_of_widest? hpick)
    have hserves : ∀ f ∈ i.spec.fields, (filter.usable.lookup f.path).isSome = true :=
      List.all_eq_true.1 hserves
    obtain ⟨probe', hprobe', -, hvalues⟩ := Plan.probe_of_apart (d := Document.empty)
      (fun _ _ => rfl) hstraight.pairwise (fun f _ => Plan.open_empty f.segments) hserves
    cases hprobe.symm.trans hprobe'
    obtain ⟨tried', htried', -, hmem⟩ := h.exists_fetch hi probe
    rw [haccess] at htried
    cases htried'.symm.trans htried
    exact (hmem e).2 ⟨he, mem_lookup_of_meets h hi hserves hvalues he hmeets⟩
  | byId id =>
    rw [haccess] at hstraight
    have hid : e.1 = id := (hmeets _ (mem_constraints_of_byId hplan haccess)).eq_id (hstraight e he)
    have hcell : c.cell? id = some e.2 := hid ▸ (mem_iff_lookup h.distinct).1 he
    rw [haccess, candidates, hcell] at htried
    cases htried
    rw [← hid]
    exact List.mem_singleton_self e
  | scan =>
    rw [haccess] at htried
    cases htried
    exact he

/-- **A find that succeeds gives the stored documents that the matcher accepts.** -/
theorem FindsStraight.mem_found_iff (hs : c.FindsStraight filter options) (h : c.InStep)
    (hm : c.matcher.KeepsTo filter) (hsearch : c.search filter options = .ok m)
    {e : String × Cell} :
    e ∈ m.found ↔ e ∈ c.stored ∧ c.matcher e.2.document filter = .ok true := by
  obtain ⟨hplan, tried, htried, -, hfound⟩ := search_eq_ok_iff.1 hsearch
  rw [(accepted_eq_ok_iff.1 hfound).2, List.mem_filter, accepts_iff]
  constructor
  · rintro ⟨he, haccepts⟩
    exact ⟨mem_stored_of_mem_candidates htried he, haccepts⟩
  · rintro ⟨he, haccepts⟩
    exact ⟨hs.mem_tried h hplan htried he (hm _ haccepts), haccepts⟩

theorem FindsStraight.mem_contents_found_iff (hs : c.FindsStraight filter options) (h : c.InStep)
    (hm : c.matcher.KeepsTo filter) (hsearch : c.search filter options = .ok m)
    {o : String × Document} :
    o ∈ contentsOf m.found ↔ o ∈ c.contents ∧ c.matcher o.2 filter = .ok true := by
  constructor
  · intro ho
    obtain ⟨e, he, rfl⟩ := List.mem_map.1 ho
    obtain ⟨hstored, haccepts⟩ := (hs.mem_found_iff h hm hsearch).1 he
    exact ⟨mem_contentsOf hstored, haccepts⟩
  · rintro ⟨ho, haccepts⟩
    obtain ⟨e, he, rfl⟩ := List.mem_map.1 ho
    exact mem_contentsOf ((hs.mem_found_iff h hm hsearch).2 ⟨he, haccepts⟩)

omit [Std.TransCmp Collator.weigh] in
theorem contents_found_nodup (h : c.InStep) (hsearch : c.search filter options = .ok m) :
    (contentsOf m.found).Nodup := by
  have hids := found_nodup h.distinct hsearch
  rw [← ids_contentsOf] at hids
  exact hids.of_map

/-- Two collections with the same documents and the same matcher give the same, each once,
    in orders of their own. -/
theorem FindsStraight.contents_found_perm {m' : Matches} (hs : c.FindsStraight filter options)
    (hs' : c'.FindsStraight filter options) (h : c.InStep) (h' : c'.InStep)
    (hm : c.matcher.KeepsTo filter) (hmatcher : c'.matcher = c.matcher)
    (hsame : c'.contents = c.contents) (hsearch : c.search filter options = .ok m)
    (hsearch' : c'.search filter options = .ok m') :
    (contentsOf m'.found).Perm (contentsOf m.found) := by
  have hm' : c'.matcher.KeepsTo filter := hmatcher ▸ hm
  refine (List.perm_ext_iff_of_nodup (contents_found_nodup h' hsearch')
    (contents_found_nodup h hsearch)).2 ?_
  intro o
  rw [hs.mem_contents_found_iff h hm hsearch, hs'.mem_contents_found_iff h' hm' hsearch', hsame,
    hmatcher]

end Collection

end DocumentDb
