/-
  DocumentDb — storing a batch of documents.

  * `Collection.Accepts c source d id`: a document may go in under an id.  The id is its own
    or one that is made for it, no document is stored under it, and no other id has one of
    its keys in a unique index.
  * `Insertion` is what becomes of one document of a batch: it goes in last and every index records
    its keys, or nothing changes.
  * **`insertMany_one_by_one`**: storing a batch never fails; each document is judged at its own
    turn, and the report lists which went in and which did not.
-/
import DocumentDb.Proofs.Collection.Anchored
import DocumentDb.Proofs.Collection.Batch.Basic
import DocumentDb.Proofs.Collection.Consistency

namespace DocumentDb

namespace Collection

section

variable [Collator]

/-! ## One document -/

/-- A document may go in under an id. -/
structure Accepts (c : Collection) (source : IdSource) (d : Document) (id : String) : Prop where
  named : source.Names d id
  /-- No document is stored under the id. -/
  fresh : id ∉ c.stored.map (·.1)
  /-- No other id has, in a unique index, a key of the document. -/
  admitted : c.registry.Admits id (d.set idKey (.text id))

/-- What becomes of one document of a batch that is stored: it goes in last, with its id, and every
    index records its keys; or nothing changes. -/
inductive Insertion : Collection × IdSource → Document → Option String →
    Collection × IdSource → Prop where
  | stored {c : Collection} {source : IdSource} {d : Document} {id : String}
    (accepts : c.Accepts source d id)
    (records : c.registry.Records (c.place id (d.set idKey (.text id))).registry id
      (d.set idKey (.text id))) :
    Insertion (c, source) d (some id)
      (c.place id (d.set idKey (.text id)), (source.identify true d).2)
  | refused {c : Collection} {source : IdSource} {d : Document}
    (refuses : ∀ id, ¬ c.Accepts source d id) :
    Insertion (c, source) d none (c, (source.identify true d).2)

section

variable [Std.TransCmp Collator.weigh] {c : Collection} {source : IdSource} {d : Document}
    {id : String}

theorem Insertion.of_fresh (hs : c.Sound) (ha : c.Anchored) (hnames : source.Names d id)
    (hfresh : c.cell? id = none)
    (hvalid : c.registry.validate id (d.set idKey (.text id)) = .ok ()) :
    Insertion (c, source) d (some id)
      (c.place id (d.set idKey (.text id)), (source.identify true d).2) := by
  have hadmits := (Registry.validate_eq_ok_iff_admits hs).1 hvalid
  have hrecords := Registry.records_record hs (fun i hi => ha.keysOf_eq_nil hfresh hi)
    (d.set idKey (.text id))
  exact .stored ⟨hnames, lookup_eq_none_iff.1 hfresh, hadmits⟩ hrecords

theorem Insertion.of_taken (hs : c.Sound)
    (hwhy : ∀ id, source.Names d id → (c.cell? id).isSome = true ∨
      c.registry.validate id (d.set idKey (.text id)) ≠ .ok ()) :
    Insertion (c, source) d none (c, (source.identify true d).2) := by
  refine .refused fun id h => ?_
  rcases hwhy id h.named with hstored | hinvalid
  · exact h.fresh (lookup_isSome_iff.1 hstored)
  · exact hinvalid ((Registry.validate_eq_ok_iff_admits hs).2 h.admitted)

/-! ## The whole batch -/

theorem loadEach_handled (documents : List Document) (source : IdSource) (position : Nat)
    (hs : c.Sound) (ha : c.Anchored) :
    ∃ report outcomes, (c.loadEach {} source position documents).2.2 = .ok report ∧
      report.Tells position outcomes ∧
      Handled Insertion (c, source) documents outcomes
        ((c.loadEach {} source position documents).1,
          (c.loadEach {} source position documents).2.1) := by
  induction documents generalizing c source position with
  | nil => exact ⟨{}, [], rfl, .nil position, .nil _⟩
  | cons d rest ih =>
    rcases loadEach_cases {} c source position d rest with
      ⟨id, later, hnames, hfresh, hvalid, rfl, he⟩ | ⟨failure, later, rfl, -, hwhy, rfl, he⟩
    · obtain ⟨report, outcomes, hok, htells, hrun⟩ := ih (source.identify true d).2 (position + 1)
        (hs.place id (d.set idKey (.text id))) (ha.place hfresh (d.set idKey (.text id)))
      rw [he]
      exact ⟨report.accept id, some id :: outcomes, map_eq_ok_iff.2 ⟨report, hok, rfl⟩,
        htells.accept id, .cons (.of_fresh hs ha hnames hfresh (hvalid rfl)) hrun⟩
    · obtain ⟨report, outcomes, hok, htells, hrun⟩ :=
        ih (source.identify true d).2 (failure.position + 1) hs ha
      rw [he]
      exact ⟨report.refuse failure, none :: outcomes, map_eq_ok_iff.2 ⟨report, hok, rfl⟩,
        htells.refuse _ _,
        .cons (.of_taken hs fun id hid => (hwhy rfl id hid).imp_right And.right) hrun⟩

end

/-! ## What a batch adds -/

namespace Insertion

variable {s s' : Collection × IdSource} {documents : List Document}
    {outcomes : List (Option String)}
  {id : String}

/-- A document never goes in under an id that is in use. -/
theorem not_mem_outcomes (h : Handled Insertion s documents outcomes s')
    (known : id ∈ s.1.stored.map (·.1)) : some id ∉ outcomes := by
  induction h with
  | nil => exact List.not_mem_nil
  | cons hd _ ih =>
    cases hd with
    | stored haccepts =>
      refine List.not_mem_cons_of_ne_of_not_mem ?_ (ih ?_)
      · rintro he
        exact haccepts.fresh (Option.some.inj he ▸ known)
      · unfold Collection.place
        rw [List.map_append]
        exact List.mem_append_left _ known
    | refused => exact List.not_mem_cons_of_ne_of_not_mem nofun (ih known)

/-- A batch changes nothing in the indexes under an id that it does not write. -/
theorem keeps (h : Handled Insertion s documents outcomes s') (hid : some id ∉ outcomes) :
    s.1.registry.Keeps s'.1.registry id := by
  refine h.relate (R := fun s s' => s.1.registry.Keeps s'.1.registry id)
    (fun s => .refl s.1.registry id) (fun h h' => h.trans h') (fun hd hne => ?_) hid
  cases hd with
  | stored _ hrecords =>
    exact hrecords.others id fun he => hne (congrArg some he.symm)
  | refused => exact .refl _ id

/-- The documents that go in are stored last, in the order of the batch, and their keys are
    recorded. -/
theorem added (h : Handled Insertion s documents outcomes s') :
    ∃ added, s'.1.stored = s.1.stored ++ added ∧ added.map (·.1) = outcomes.reduceOption ∧
      ∀ e ∈ added, s.1.registry.Rekeyed s'.1.registry e.1 (·.entries e.2.document) := by
  induction h with
  | nil => exact ⟨[], (List.append_nil _).symm, rfl, nofun⟩
  | @cons _ _ _ d _ _ _ hd hrest ih =>
    obtain ⟨added, hstored, hids, hkeys⟩ := ih
    cases hd with
    | refused => exact ⟨added, hstored, hids, hkeys⟩
    | @stored c source _ id haccepts hrecords =>
      have hin : id ∈ (c.place id (d.set idKey (.text id))).stored.map (·.1) := by
        unfold Collection.place
        simp
      have hlast := not_mem_outcomes hrest hin
      refine ⟨(id, ⟨c.nextSerial, d.set idKey (.text id)⟩) :: added, ?_, ?_, ?_⟩
      · rw [hstored, List.append_cons]
        rfl
      · rw [List.map_cons, hids, List.reduceOption_cons_of_some]
      · refine List.forall_mem_cons.2 ⟨hrecords.here.keep (keeps hrest hlast), fun e he => ?_⟩
        -- an id that comes later in the batch is another one
        have hne : e.1 ≠ id := by
          rintro heq
          have hmem := List.mem_map_of_mem (f := fun e : String × Cell => e.1) he
          rw [hids, List.reduceOption_mem_iff, heq] at hmem
          exact hlast hmem
        exact (hrecords.others e.1 hne).rekey (hkeys e he)

end Insertion

/-- **Storing a batch never fails, and each of its documents is judged at its own turn: it goes in
    if it may, and else changes nothing.**  The report lists the ids of those that went in, in their
    order, and the positions of the others.  Those that went in are stored last, with their keys in
    every index, and no index changes under another id. -/
theorem insertMany_one_by_one [Std.TransCmp Collator.weigh] {c : Collection}
    (h : c.Reachable fun _ => True) (source : IdSource) (documents : List Document) :
    ∃ report outcomes, (c.insertMany source documents).2.2 = .ok report ∧
      Handled Insertion (c, source) documents outcomes
        ((c.insertMany source documents).1, (c.insertMany source documents).2.1) ∧
      report.Tells 0 outcomes ∧
      (∃ added, (c.insertMany source documents).1.stored = c.stored ++ added ∧
        added.map (·.1) = report.accepted ∧
        ∀ e ∈ added, c.registry.Rekeyed (c.insertMany source documents).1.registry e.1
          (·.entries e.2.document)) ∧
      ∀ id ∉ report.accepted, c.registry.Keeps (c.insertMany source documents).1.registry id := by
  unfold insertMany
  rw [insertEach_eq_loadEach]
  obtain ⟨report, outcomes, hok, htells, hrun⟩ :=
    loadEach_handled documents source 0 h.sound h.anchored
  obtain ⟨added, hstored, hids, hkeys⟩ := Insertion.added hrun
  refine ⟨report, outcomes, hok, hrun, htells, ⟨added, hstored, ?_, hkeys⟩, fun id hid => ?_⟩
  · rw [hids, htells.accepted]
  · exact Insertion.keeps hrun fun ho => hid (htells.mem_accepted_iff.2 ho)

end

/-- A document with a label that is taken, one with an id that is taken, and one without an id. -/
def newcomers : List Document :=
  [.ofList [("_id", .text "3"), ("label", .text "a")], .ofList [("_id", .text "2")],
    .ofList [("label", .text "b")]]

theorem labelled_newcomers_one_by_one : ∃ report outcomes,
    (labelled.insertMany ⟨fun _ => "made", 0⟩ newcomers).2.2 = .ok report ∧
      Handled Insertion (labelled, ⟨fun _ => "made", 0⟩) newcomers outcomes
        ((labelled.insertMany ⟨fun _ => "made", 0⟩ newcomers).1,
          (labelled.insertMany ⟨fun _ => "made", 0⟩ newcomers).2.1) ∧
      report.Tells 0 outcomes ∧ report.accepted = ["made"] ∧
          report.failures.map (·.position) = [0, 1] := by
  have hr : labelled.Reachable fun _ => True := labelled_reachable.mono fun _ _ => trivial
  obtain ⟨report, outcomes, hok, hrun, htells, -, -⟩ :=
    insertMany_one_by_one hr ⟨fun _ => "made", 0⟩ newcomers
  have htold : (labelled.insertMany ⟨fun _ => "made", 0⟩ newcomers).2.2.map
      (fun r => (r.accepted, r.failures.map (·.position))) = .ok (["made"], [0, 1]) := rfl
  rw [hok] at htold
  obtain ⟨haccepted, hfailures⟩ := Prod.mk.inj (Except.ok.inj htold)
  exact ⟨report, outcomes, hok, hrun, htells, haccepted, hfailures⟩

end Collection

end DocumentDb
