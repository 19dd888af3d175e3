/-
  DocumentDb — how a plan is made.

  * `Plan.ofFilter_eq_ok_iff`: the indexes that a plan lists, and what has to hold of the way that
    it takes.  The paths of key fields are valid, so a probe can be made over any of them
    (`exists_probe`), and there is always a plan (`exists_ofFilter`).
  * `widest?_eq_some_iff`: of the indexes listed the first is picked that no other has more
    key fields than.
  * **`ofFilter_picks`**: an index is listed just if each of its key fields has an equality with a
    value that is neither null nor an array, and the way is by the index picked, unless none is
    listed or they are to be skipped.
-/
import DocumentDb.Proofs.Collection.Probe
import DocumentDb.Proofs.Filter.Reach
import DocumentDb.Proofs.Lists
import DocumentDb.Proofs.Outcome

namespace DocumentDb

/-- An index can serve a filter: every key field has an equality with a value other than
    null and the arrays. -/
def Index.CanServe (i : Index) (filter : Document) : Prop :=
  ∀ f ∈ i.spec.fields, ∃ e ∈ filter.constraints, e.1 = f.path ∧ e.2.kind ≠ .null ∧ e.2.kind ≠ .array

instance (filter : Document) : DecidablePred (Index.CanServe · filter) := fun i =>
  inferInstanceAs (Decidable (∀ f ∈ i.spec.fields,
    ∃ e ∈ filter.constraints, e.1 = f.path ∧ e.2.kind ≠ .null ∧ e.2.kind ≠ .array))

namespace Plan

/-! ## The indexes listed -/

theorem serves_usable_iff {filter : Document} {i : Index} :
    serves filter.usable i = true ↔ i.CanServe filter := by
  unfold serves Index.CanServe
  rw [List.all_eq_true]
  refine forall₂_congr fun f _ => ?_
  rw [lookup_isSome_iff, List.mem_map]
  refine exists_congr fun e => ?_
  rw [Document.usable, List.mem_filter, Value.isUsable_iff]
  tauto

/-! ## The index picked -/

/-- The first of some indexes that have most key fields: those before it have less, those
    after it no more. -/
def IsFirstWidest (indexes : List Index) (i : Index) : Prop :=
  ∃ before after, indexes = before ++ i :: after ∧
    (∀ j ∈ before, j.spec.fields.length < i.spec.fields.length) ∧
    ∀ j ∈ after, j.spec.fields.length ≤ i.spec.fields.length

theorem widest?_eq_none_iff {indexes : List Index} : widest? indexes = none ↔ indexes = [] := by
  cases indexes with
  | nil => exact iff_of_true rfl rfl
  | cons i rest =>
    refine iff_of_false (fun h => ?_) (List.cons_ne_nil i rest)
    rw [widest?] at h
    split at h
    · split at h <;> cases h
    · cases h

theorem widest?_eq_some_iff : ∀ {indexes : List Index} {i : Index},
    widest? indexes = some i ↔ IsFirstWidest indexes i
  | [], i => by
    refine iff_of_false nofun ?_
    rintro ⟨before, after, h, -⟩
    cases before <;> cases h
  | j :: rest, i => by
    rw [widest?]
    constructor
    · intro h
      split at h
      · next best hbest =>
        obtain ⟨before, after, hrest, hless, hno⟩ := widest?_eq_some_iff.1 hbest
        split at h
        · next hlt =>
          cases h
          exact ⟨j :: before, after, by rw [hrest]; rfl, List.forall_mem_cons.2 ⟨hlt, hless⟩, hno⟩
        · next hge =>
          cases h
          have hbound : ∀ k ∈ rest, k.spec.fields.length ≤ best.spec.fields.length := by
            intro k hk
            rw [hrest, List.mem_append, List.mem_cons] at hk
            rcases hk with hk | rfl | hk
            · exact Nat.le_of_lt (hless k hk)
            · exact Nat.le_refl _
            · exact hno k hk
          refine ⟨[], rest, rfl, nofun, fun k hk => ?_⟩
          have hk := hbound k hk
          omega
      · next hnone =>
        cases h
        rw [widest?_eq_none_iff.1 hnone]
        exact ⟨[], [], rfl, nofun, nofun⟩
    · rintro ⟨before, after, h, hless, hno⟩
      cases before with
      | nil =>
        -- no index after the first has more key fields
        cases h
        split
        · next best hbest =>
          obtain ⟨before', after', hrest, -⟩ := widest?_eq_some_iff.1 hbest
          have hmem : best ∈ rest := hrest ▸ List.mem_append_right before' List.mem_cons_self
          exact if_neg (Nat.not_lt.2 (hno best hmem))
        · rfl
      | cons k before =>
        obtain ⟨rfl, hrest⟩ := List.cons.inj h
        obtain ⟨hlt, hless⟩ := List.forall_mem_cons.1 hless
        rw [widest?_eq_some_iff.2 ⟨before, after, hrest, hless, hno⟩]
        exact if_pos hlt

theorem mem_of_widest? {indexes : List Index} {i : Index} (h : widest? indexes = some i) :
    i ∈ indexes := by
  obtain ⟨before, after, rfl, -⟩ := widest?_eq_some_iff.1 h
  exact List.mem_append_right before List.mem_cons_self

/-! ## The way taken -/

/-- The paths of key fields are valid, so a probe can be made over any of them. -/
theorem exists_probe (equalities : List (String × Value)) : ∀ (fields : List KeyField)
    (d : Document), ∃ p, probe equalities d fields = .ok p
  | [], d => ⟨d, rfl⟩
  | f :: rest, d => by
    cases hv : equalities.lookup f.path with
    | none =>
      rw [probe, hv]
      exact exists_probe equalities rest d
    | some value =>
      rw [probe_cons hv]
      exact exists_probe equalities rest _

/-- What has to hold of the way that a plan takes which lists some indexes. -/
def Takes (filter : Document) (options : FindOptions) (potential : List Index) : Access → Prop
  | .byIndex i d => options.skipIndex = false ∧ widest? potential = some i ∧
      probe filter.usable .empty i.spec.fields = .ok d
  | .byId id => options.skipIndex = false ∧ widest? potential = none ∧
      (filter.usable.lookup idKey).bind Value.text? = some id
  | .scan => options.skipIndex = true ∨
      widest? potential = none ∧ (filter.usable.lookup idKey).bind Value.text? = none

variable {filter : Document} {options : FindOptions} {r : Registry} {plan : Plan}

theorem ofFilter_eq_ok_iff : ofFilter filter options r = .ok plan ↔
    plan.potential = r.indexes.filter (serves filter.usable) ∧
      Takes filter options plan.potential plan.access := by
  unfold ofFilter
  dsimp only
  constructor
  · intro h
    split at h
    · next hskip =>
      cases h
      exact ⟨rfl, Or.inl hskip⟩
    · next hskip =>
      have huse : options.skipIndex = false := Bool.eq_false_iff.2 hskip
      split at h
      · next i hi =>
        obtain ⟨d, hd, h⟩ := bind_eq_ok_iff.1 h
        cases h
        exact ⟨rfl, huse, hi, hd⟩
      · next hnone =>
        split at h
        · next id hid =>
          cases h
          exact ⟨rfl, huse, hnone, hid⟩
        · next hid =>
          cases h
          exact ⟨rfl, Or.inr ⟨hnone, hid⟩⟩
  · obtain ⟨potential, access⟩ := plan
    rintro ⟨rfl, h⟩
    cases access with
    | byIndex i d =>
      obtain ⟨huse, hi, hd⟩ := h
      rw [huse, if_neg Bool.false_ne_true, hi]
      exact bind_eq_ok_iff.2 ⟨d, hd, rfl⟩
    | byId id =>
      obtain ⟨huse, hnone, hid⟩ := h
      rw [huse, if_neg Bool.false_ne_true, hnone]
      dsimp only
      rw [hid]
    | scan =>
      rcases h with hskip | ⟨hnone, hid⟩
      · rw [hskip, if_pos rfl]
      · split
        · rfl
        · rw [hnone]
          dsimp only
          rw [hid]

/-- Every find has a plan. -/
theorem exists_ofFilter (filter : Document) (options : FindOptions) (r : Registry) :
    ∃ plan, ofFilter filter options r = .ok plan := by
  let potential := r.indexes.filter (serves filter.usable)
  have hway : ∃ access, Takes filter options potential access := by
    cases hskip : options.skipIndex with
    | true => exact ⟨.scan, Or.inl hskip⟩
    | false =>
      cases hi : widest? potential with
      | some i =>
        obtain ⟨d, hd⟩ := exists_probe filter.usable i.spec.fields .empty
        exact ⟨.byIndex i d, hskip, hi, hd⟩
      | none =>
        cases hid : (filter.usable.lookup idKey).bind Value.text? with
        | some id => exact ⟨.byId id, hskip, hi, hid⟩
        | none => exact ⟨.scan, Or.inr ⟨hi, hid⟩⟩
  obtain ⟨access, h⟩ := hway
  exact ⟨⟨potential, access⟩, ofFilter_eq_ok_iff.2 ⟨rfl, h⟩⟩

theorem ofFilter_ne_error (fault : Fault) : ofFilter filter options r ≠ .error fault := by
  intro h
  obtain ⟨plan, hplan⟩ := exists_ofFilter filter options r
  cases hplan.symm.trans h

theorem Takes.index?_eq {potential : List Index} {access : Access}
    (h : Takes filter options potential access) (huse : options.skipIndex = false) :
    access.index? = widest? potential := by
  cases access with
  | byIndex i d => exact h.2.1.symm
  | byId id => exact h.2.1.symm
  | scan =>
    rcases h with hskip | ⟨hnone, -⟩
    · rw [huse] at hskip
      cases hskip
    · exact hnone.symm

theorem Takes.eq_scan {potential : List Index} {access : Access}
    (h : Takes filter options potential access) (hskip : options.skipIndex = true) :
    access = .scan := by
  cases access with
  | byIndex i d => exact absurd (hskip.symm.trans h.1) nofun
  | byId id => exact absurd (hskip.symm.trans h.1) nofun
  | scan => rfl

/-- **A find always has a plan.  It lists the indexes that can serve the filter, in order of
    registration.  If indexes are to be skipped, all documents are tried; else the index used is the
    first of those with most key fields, and there is none only if none is listed.** -/
theorem ofFilter_picks (filter : Document) (options : FindOptions) (r : Registry) :
    ∃ plan, ofFilter filter options r = .ok plan ∧
      plan.potential = r.indexes.filter (fun i => decide (i.CanServe filter)) ∧
      (options.skipIndex = true → plan.access = .scan) ∧
      (options.skipIndex = false →
        (∀ i, plan.access.index? = some i ↔ IsFirstWidest plan.potential i) ∧
        (plan.access.index? = none ↔ plan.potential = [])) := by
  obtain ⟨plan, hplan⟩ := exists_ofFilter filter options r
  obtain ⟨hpotential, htakes⟩ := ofFilter_eq_ok_iff.1 hplan
  refine ⟨plan, hplan, ?_, htakes.eq_scan, fun huse => ?_⟩
  · rw [hpotential]
    refine List.filter_congr fun i _ => ?_
    rw [Bool.eq_iff_iff, serves_usable_iff, decide_eq_true_iff]
  · rw [htakes.index?_eq huse]
    exact ⟨fun i => widest?_eq_some_iff, widest?_eq_none_iff⟩

/-- Of the indexes that can serve a filter, the last two have two key fields, and the first
    of these is used. -/
example :
    let index (name : String) (paths : List String) :=
      (KeySpec.build (paths.map (·, .ascending)) ⟨false, some name⟩).toOption.map (Index.new 0)
    let indexes := [index "a" ["name"], index "b" ["orgId"], index "c" ["orgId", "arr.val"],
      index "d" ["arr.val", "orgId"]].filterMap id
    let filter : Document :=
      .ofList [("arr", .document (Document.ofList [("val", .int 5)])), ("orgId", .int 1)]
    (ofFilter filter {} (indexes.foldl Registry.register .empty)).toOption.map
      (fun plan => (plan.potential.map (·.name), plan.access.index?.map (·.name))) =
        some (["b", "c", "d"], some "c") := by
  decide +kernel

end Plan

end DocumentDb
