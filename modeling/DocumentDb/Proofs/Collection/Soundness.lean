/-
  DocumentDb — taking documents out of the indexes never fails.

  * What `discard` and `replace` do to the stored documents, also where an index fails
    (`discard_cases`, `replace_cases`): then none is touched.
  * `Collection.Sound`: the two maps of every registered index agree.  Then no index fails, whatever
    the documents have become (`Sound.discard_eq`, `Sound.replace_eq`), and the maps still agree.
-/
import DocumentDb.Collection.Indexing
import DocumentDb.Proofs.Index.Only

namespace DocumentDb

namespace Collection

/-! ## Stored documents -/

theorem lookup_rewrite (id id' : String) (d : Document) (stored : List (String × Cell)) :
    (rewrite id d stored).lookup id' =
      (stored.lookup id').map fun cell =>
        if id' = id then { cell with document := d } else cell := by
  have hmap : rewrite id d stored = stored.map fun e =>
      (e.1, if e.1 = id then { e.2 with document := d } else e.2) := by
    refine List.map_congr_left ?_
    intro e _
    by_cases he : e.1 = id <;> simp [he]
  rw [hmap]
  exact lookup_map_value stored (fun other cell =>
    if other = id then { cell with document := d } else cell) id'

theorem ids_rewrite (id : String) (d : Document) (stored : List (String × Cell)) :
    (rewrite id d stored).map (·.1) = stored.map (·.1) := by
  unfold rewrite
  rw [List.map_map]
  refine List.map_congr_left ?_
  intro e _
  by_cases he : e.1 = id <;> simp [he]

variable [Collator] {c : Collection} {id : String} {cell : Cell} {d : Document}

theorem discard_cases (c : Collection) (id : String) :
    (∃ fault, (c.discard id).2 = .error fault) ∧ (c.discard id).1.stored = c.stored ∨
      (c.discard id).2 = .ok () ∧ (c.discard id).1.stored = c.stored.filter (·.1 != id) := by
  unfold discard
  split
  · next fault _ => exact Or.inl ⟨⟨fault, rfl⟩, rfl⟩
  · exact Or.inr ⟨rfl, rfl⟩

theorem replace_cases (c : Collection) (id : String) (d : Document) :
    (∃ fault, (c.replace id d).2 = .error fault) ∧ (c.replace id d).1.stored = c.stored ∨
      (c.replace id d).2 = .ok () ∧ (c.replace id d).1.stored = rewrite id d c.stored := by
  unfold replace
  split
  · next fault _ => exact Or.inl ⟨⟨fault, rfl⟩, rfl⟩
  · exact Or.inr ⟨rfl, rfl⟩

theorem stored_replace (hok : (c.replace id d).2 = .ok ()) :
    (c.replace id d).1.stored = rewrite id d c.stored := by
  rcases replace_cases c id d with ⟨⟨fault, hf⟩, -⟩ | ⟨-, hs⟩
  · cases hok.symm.trans hf
  · exact hs

theorem ids_replace (c : Collection) (id : String) (d : Document) :
    (c.replace id d).1.stored.map (·.1) = c.stored.map (·.1) := by
  rcases replace_cases c id d with ⟨-, hs⟩ | ⟨-, hs⟩
  · rw [hs]
  · rw [hs, ids_rewrite]

theorem lookup_replace_self (hok : (c.replace id d).2 = .ok ()) (h : c.cell? id = some cell) :
    (c.replace id d).1.stored.lookup id = some { cell with document := d } := by
  rw [stored_replace hok, lookup_rewrite, show c.stored.lookup id = some cell from h,
    Option.map_some, if_pos rfl]

theorem lookup_replace_ne {id' : String} (h : id' ≠ id) (d : Document) :
    (c.replace id d).1.stored.lookup id' = c.stored.lookup id' := by
  rcases replace_cases c id d with ⟨-, hs⟩ | ⟨-, hs⟩
  · rw [hs]
  · rw [hs, lookup_rewrite]
    simp [h]

theorem isSome_cell?_replace (c : Collection) (id id' : String) (d : Document) :
    ((c.replace id d).1.cell? id').isSome = (c.cell? id').isSome := by
  unfold cell?
  rcases replace_cases c id d with ⟨-, hs⟩ | ⟨-, hs⟩
  · rw [hs]
  · rw [hs, lookup_rewrite, Option.isSome_map]

/-! ## Sound indexes -/

/-- The two maps of every index agree. -/
def Sound (c : Collection) : Prop := ∀ i ∈ c.registry.indexes, i.Consistent

variable [Std.TransCmp Collator.weigh]

theorem consistent_recordEach {documents : List (String × Cell)} {i : Index} (h : i.Consistent) :
    (recordEach i documents).Consistent := by
  induction documents generalizing i with
  | nil => exact h
  | cons e rest ih => exact ih (h.record e.1 fun _ => KeySpec.directions_of_mem_entries)

theorem consistent_record {r : Registry} (h : ∀ i ∈ r.indexes, i.Consistent) (id : String)
    (d : Document) : ∀ i ∈ (r.record id d).indexes, i.Consistent :=
  List.forall_mem_map.2 fun i hi => (h i hi).record id fun _ => KeySpec.directions_of_mem_entries

namespace Sound

/-- **Sound indexes give up the keys of every id, so a document that is discarded goes.** -/
theorem discard_eq (h : c.Sound) (id : String) : c.discard id =
    ({ c with
        stored := c.stored.filter (·.1 != id)
        registry := c.registry.only (· != id)
        retired := c.retired ++ (c.cell? id).toList }, .ok ()) := by
  unfold Collection.discard
  rw [Registry.remove_eq h]

/-- **Sound indexes give up the keys of every id, so its document can be replaced.** -/
theorem replace_eq (h : c.Sound) (id : String) (d : Document) : c.replace id d =
    ({ c with
        stored := rewrite id d c.stored
        registry := (c.registry.only (· != id)).record id d }, .ok ()) := by
  unfold Collection.replace
  rw [Registry.remove_eq h]

theorem discard_eq_ok (h : c.Sound) (id : String) : (c.discard id).2 = .ok () := by
  rw [h.discard_eq]

theorem cell?_discard (h : c.Sound) (id id' : String) :
    (c.discard id).1.cell? id' = if id' = id then none else c.cell? id' := by
  rw [h.discard_eq]
  exact lookup_filter_ne c.stored id id'

theorem replace_eq_ok (h : c.Sound) (id : String) (d : Document) : (c.replace id d).2 = .ok () := by
  rw [h.replace_eq]

theorem place (h : c.Sound) (id : String) (d : Document) : (c.place id d).Sound :=
  consistent_record h id d

theorem discard (h : c.Sound) (id : String) : (c.discard id).1.Sound := by
  rw [h.discard_eq]
  exact Registry.consistent_only h (· != id)

theorem replace (h : c.Sound) (id : String) (d : Document) : (c.replace id d).1.Sound := by
  rw [h.replace_eq]
  exact consistent_record (Registry.consistent_only h (· != id)) id d

theorem records_replace (h : c.Sound) (id : String) (d : Document) :
    c.registry.Records (c.replace id d).1.registry id d := by
  rw [h.replace_eq]
  exact Registry.records_only_record h id d

end Sound

end Collection

end DocumentDb
