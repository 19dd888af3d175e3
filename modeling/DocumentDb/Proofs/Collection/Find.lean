/-
  DocumentDb — what a search gives.

  * `fetch_eq_ok_iff`: the documents of some ids, in their order, if all of them are stored.
  * `accepted_eq_ok_iff`: the documents that a matcher accepts, in their order, if it judges
    all of them.
  * `mem_stored_of_mem_found`: a search finds stored documents only.  Where no id is stored twice,
    it finds each at most once (`found_nodup`).
-/
import DocumentDb.Collection.Find
import DocumentDb.Proofs.Index.Lookup
import DocumentDb.Proofs.Lists
import DocumentDb.Proofs.Outcome

namespace DocumentDb

namespace Collection

/-! ## Documents by their ids -/

theorem fetch_eq_ok_iff {c : Collection} {i : Index} : ∀ {ids : List String}
    {found : List (String × Cell)}, c.fetch i ids = .ok found ↔
      List.Forall₂ (fun id e => e.1 = id ∧ c.cell? id = some e.2) ids found
  | [], found => by simp [fetch, eq_comm]
  | id :: rest, found => by
    rw [fetch, List.forall₂_cons_left_iff]
    cases hc : c.cell? id with
    | none => simp
    | some cell =>
      rw [bind_eq_ok_iff]
      constructor
      · rintro ⟨others, ho, h⟩
        exact ⟨(id, cell), others, ⟨rfl, rfl⟩, fetch_eq_ok_iff.1 ho, (Except.ok.inj h).symm⟩
      · rintro ⟨⟨id', cell'⟩, others, ⟨rfl, hcell⟩, ho, rfl⟩
        rw [Option.some.inj hcell]
        exact ⟨others, fetch_eq_ok_iff.2 ho, rfl⟩

theorem ids_of_fetch {c : Collection} {i : Index} {ids : List String} {found : List (String × Cell)}
    (h : c.fetch i ids = .ok found) : found.map (·.1) = ids := by
  have hf : List.Forall₂ (fun id e => id = e.1) ids found :=
    (fetch_eq_ok_iff.1 h).imp fun _ _ he => he.1.symm
  rw [← List.forall₂_map_right_iff, List.forall₂_eq_eq_eq] at hf
  exact hf.symm

theorem exists_fetch_eq_ok {c : Collection} (i : Index) : ∀ {ids : List String},
    (∀ id ∈ ids, (c.cell? id).isSome = true) → ∃ found, c.fetch i ids = .ok found
  | [], _ => ⟨[], rfl⟩
  | id :: rest, h => by
    obtain ⟨hid, hrest⟩ := List.forall_mem_cons.1 h
    obtain ⟨cell, hc⟩ := Option.isSome_iff_exists.1 hid
    obtain ⟨others, ho⟩ := exists_fetch_eq_ok i hrest
    exact ⟨(id, cell) :: others, by rw [fetch, hc, ho]; rfl⟩

/-! ## Documents that are accepted -/

/-- A matcher accepts a document. -/
def accepts (judge : Document → Except Fault Bool) (d : Document) : Bool :=
  match judge d with
  | .ok accept => accept
  | .error _ => false

theorem accepts_iff {judge : Document → Except Fault Bool} {d : Document} :
    accepts judge d = true ↔ judge d = .ok true := by
  unfold accepts
  cases judge d with
  | ok accept => simp
  | error fault => simp

theorem accepted_eq_ok_iff {judge : Document → Except Fault Bool} :
    ∀ {tried found : List (String × Cell)}, accepted judge tried = .ok found ↔
      (∀ e ∈ tried, ∃ accept, judge e.2.document = .ok accept) ∧
        found = tried.filter fun e => accepts judge e.2.document
  | [], found => by simp [accepted, eq_comm]
  | (id, cell) :: rest, found => by
    rw [accepted, List.forall_mem_cons, bind_eq_ok_iff, List.filter_cons]
    constructor
    · rintro ⟨accept, hj, h⟩
      obtain ⟨others, ho, he⟩ := bind_eq_ok_iff.1 h
      obtain ⟨hall, rfl⟩ := accepted_eq_ok_iff.1 ho
      refine ⟨⟨⟨accept, hj⟩, hall⟩, ?_⟩
      rw [accepts, hj]
      exact (Except.ok.inj he).symm
    · rintro ⟨⟨⟨accept, hj⟩, hall⟩, rfl⟩
      refine ⟨accept, hj, bind_eq_ok_iff.2 ⟨_, accepted_eq_ok_iff.2 ⟨hall, rfl⟩, ?_⟩⟩
      rw [accepts, hj]
      rfl

variable [Collator]

theorem search_eq_ok_iff {c : Collection} {filter : Document} {options : FindOptions}
    {m : Matches} :
    c.search filter options = .ok m ↔
      c.explain filter options = .ok m.plan ∧
        ∃ tried, c.candidates m.plan.access = .ok tried ∧ m.scanned = tried.length ∧
          accepted (c.matcher · filter) tried = .ok m.found := by
  unfold search
  simp only [bind_eq_ok_iff]
  constructor
  · rintro ⟨plan, hp, tried, ht, found, hf, h⟩
    cases h
    exact ⟨hp, tried, ht, rfl, hf⟩
  · rintro ⟨hp, tried, ht, hs, hf⟩
    exact ⟨m.plan, hp, tried, ht, m.found, hf, by rw [← hs]; rfl⟩

theorem search_of_find {c : Collection} {filter : Document} {options : FindOptions} {fault : Fault}
    (h : c.find filter options = .error fault) : c.search filter options = .error fault := by
  rcases bind_eq_error_iff.1 h with h | ⟨m, -, h⟩
  · exact h
  · cases h

theorem mem_stored_of_mem_candidates {c : Collection} {access : Access}
    {tried : List (String × Cell)} (h : c.candidates access = .ok tried) {e : String × Cell}
    (he : e ∈ tried) : e ∈ c.stored := by
  cases access with
  | byIndex i probe =>
    obtain ⟨id, -, rfl, hc⟩ := exists_of_mem_right (fetch_eq_ok_iff.1 h) he
    exact mem_of_lookup hc
  | byId id =>
    rw [← Except.ok.inj h] at he
    obtain ⟨cell, hc, rfl⟩ : ∃ cell, c.cell? id = some cell ∧ (id, cell) = e := by simpa using he
    exact mem_of_lookup hc
  | scan => rwa [← Except.ok.inj h] at he

theorem candidates_nodup {c : Collection} (distinct : (c.stored.map (·.1)).Nodup) {access : Access}
    {tried : List (String × Cell)} (h : c.candidates access = .ok tried) :
    (tried.map (·.1)).Nodup := by
  cases access with
  | byIndex i probe =>
    rw [ids_of_fetch h]
    exact Index.lookup_nodup i probe
  | byId id =>
    rw [← Except.ok.inj h]
    cases c.cell? id with
    | none => exact List.nodup_nil
    | some cell => exact List.nodup_singleton id
  | scan => rwa [← Except.ok.inj h]

variable {c : Collection} {filter : Document} {options : FindOptions} {m : Matches}

theorem mem_stored_of_mem_found (h : c.search filter options = .ok m) {e : String × Cell}
    (he : e ∈ m.found) : e ∈ c.stored := by
  obtain ⟨-, tried, ht, -, hf⟩ := search_eq_ok_iff.1 h
  rw [(accepted_eq_ok_iff.1 hf).2] at he
  exact mem_stored_of_mem_candidates ht (List.mem_of_mem_filter he)

theorem stored_of_mem_found (h : c.search filter options = .ok m) {e : String × Cell}
    (he : e ∈ m.found) : (c.cell? e.1).isSome = true :=
  lookup_isSome_iff.2 (List.mem_map_of_mem (mem_stored_of_mem_found h he))

theorem current_of_mem_found (distinct : (c.stored.map (·.1)).Nodup)
    (h : c.search filter options = .ok m) {e : String × Cell} (he : e ∈ m.found) :
    c.cell? e.1 = some e.2 := (mem_iff_lookup distinct).1 (mem_stored_of_mem_found h he)

theorem found_nodup (distinct : (c.stored.map (·.1)).Nodup) (h : c.search filter options = .ok m) :
    (m.found.map (·.1)).Nodup := by
  obtain ⟨-, tried, ht, -, hf⟩ := search_eq_ok_iff.1 h
  rw [(accepted_eq_ok_iff.1 hf).2]
  exact (candidates_nodup distinct ht).sublist (List.filter_sublist.map _)

end Collection

end DocumentDb
