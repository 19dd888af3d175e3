/-
  DocumentDb — indexes lead to stored documents.

  * `Collection.Anchored`: every id that an index has keys for is the id of a stored document.
    Moves keep it so, and a change through a live handle touches neither ids nor indexes
    (`Reachable.anchored`).
  * So what an index finds can be fetched (`Anchored.exists_fetch_lookup`), also where the documents
    have changed since they were recorded.
-/
import DocumentDb.Proofs.Collection.Move
import DocumentDb.Proofs.Index.Lookup

namespace DocumentDb

namespace Collection

variable [Collator]

/-- Every id that an index has keys for is the id of a stored document. -/
def Anchored (c : Collection) : Prop :=
  ∀ i ∈ c.registry.indexes, ∀ id, i.keysOf id ≠ [] → (c.cell? id).isSome = true

variable {checked : Prop} {c c' : Collection} {id : String}

theorem stored_of_keysOf_recordEach {documents : List (String × Cell)} {i : Index}
    (h : (recordEach i documents).keysOf id ≠ []) :
    i.keysOf id ≠ [] ∨ (documents.lookup id).isSome = true := by
  induction documents generalizing i with
  | nil => exact Or.inl h
  | cons e rest ih =>
    obtain ⟨other, cell⟩ := e
    rw [lookup_cons]
    split
    · exact Or.inr rfl
    · next hne =>
      refine (ih h).imp_left fun hk => ?_
      rwa [Index.keysOf_record, if_neg hne] at hk

omit [Collator] in
theorem keysOf_clear (i : Index) (id : String) : i.clear.keysOf id = [] := rfl

omit [Collator] in
theorem isSome_cell?_amend (c : Collection) (serial : Nat) (d : Document) (id : String) :
    ((c.amend serial d).cell? id).isSome = (c.cell? id).isSome := by
  have hmap := lookup_map_value c.stored (fun _ cell =>
    if cell.serial = serial then { cell with document := d } else cell) id
  unfold amend cell?
  rw [hmap, Option.isSome_map]

namespace Anchored

theorem place (h : c.Anchored) (fresh : c.cell? id = none) (d : Document) :
    (c.place id d).Anchored := by
  intro j hj other hk
  obtain ⟨i, hi, rfl⟩ := List.mem_map.1 hj
  have hl : (c.place id d).cell? other = _ := lookup_append_fresh fresh ⟨c.nextSerial, d⟩ other
  rw [hl]
  rw [Index.keysOf_record] at hk
  split
  · rfl
  · next hne =>
    rw [if_neg hne] at hk
    exact h i hi other hk

omit [Collator] in
theorem keysOf_only (h : c.Anchored) {i : Index} (hi : i ∈ c.registry.indexes)
    {kept : String → Bool} (hk : (i.only kept).keysOf id ≠ []) :
    kept id = true ∧ (c.cell? id).isSome = true := by
  rw [Index.keysOf_only] at hk
  split at hk
  · next hkept => exact ⟨hkept, h i hi id hk⟩
  · exact absurd rfl hk

section

variable [Std.TransCmp Collator.weigh]

theorem discard (h : c.Anchored) (hs : c.Sound) (id : String) : (c.discard id).1.Anchored := by
  intro j hj other hk
  rw [hs.cell?_discard]
  rw [hs.discard_eq] at hj
  obtain ⟨i, hi, rfl⟩ := List.mem_map.1 hj
  obtain ⟨hne, hstored⟩ := h.keysOf_only hi hk
  rwa [if_neg (bne_iff_ne.1 hne)]

theorem replace (h : c.Anchored) (hs : c.Sound) (known : (c.cell? id).isSome = true)
    (d : Document) : (c.replace id d).1.Anchored := by
  intro j hj other hk
  rw [isSome_cell?_replace]
  rw [hs.replace_eq] at hj
  obtain ⟨j', hj', rfl⟩ := List.mem_map.1 hj
  obtain ⟨i, hi, rfl⟩ := List.mem_map.1 hj'
  by_cases he : other = id
  · rw [he]
    exact known
  · rw [Index.keysOf_record, if_neg he] at hk
    exact (h.keysOf_only hi hk).2

end

theorem recorded (i : Index) {stored : List (String × Cell)}
    (hk : (recordEach i.clear stored).keysOf id ≠ []) : (stored.lookup id).isSome = true :=
  (stored_of_keysOf_recordEach hk).resolve_left fun hn => hn (keysOf_clear i id)

theorem move [Std.TransCmp Collator.weigh] (h : c.Anchored) (hs : c.Sound) (m : Move checked c c') :
    c'.Anchored := by
  cases m with
  | place id d fresh passes => exact h.place fresh d
  | discard id => exact h.discard hs id
  | replace id d known passes => exact h.replace hs known d
  | truncate =>
    intro j hj other hk
    obtain ⟨i, -, rfl⟩ := List.mem_map.1 hj
    exact absurd (keysOf_clear i other) hk
  | register spec i built =>
    intro j hj other hk
    rcases mem_register hj with hj | rfl
    · exact h j hj other hk
    · rw [Index.buildIndex_eq_recordEach built] at hk
      exact recorded (.new c.nextSerial spec) hk
  | withdraw registry kept => exact fun j hj => h j (kept j hj)
  | rebuild name c' rebuilt =>
    obtain ⟨hs, hr⟩ := rebuildIndex_cases rebuilt
    intro j hj other hk
    unfold cell?
    rw [hs]
    obtain ⟨i, hi, rfl | rfl⟩ := hr j hj
    · exact h j hi other hk
    · exact recorded i hk

theorem moves [Std.TransCmp Collator.weigh] (h : c.Anchored) (hs : c.Sound)
    (m : Moves checked c c') : c'.Anchored := by
  induction m with
  | refl => exact h
  | tail ms m ih => exact ih.move (hs.moves ms) m

omit [Collator] in
theorem keysOf_eq_nil (h : c.Anchored) (fresh : c.cell? id = none) {i : Index}
    (hi : i ∈ c.registry.indexes) : i.keysOf id = [] := by
  by_contra hk
  have := h i hi id hk
  rw [fresh] at this
  cases this

end Anchored

variable [Std.TransCmp Collator.weigh]

theorem Reachable.anchored {allowed : Step → Prop} (h : c.Reachable allowed) : c.Anchored := by
  induction h with
  | new name settings matcher => exact nofun
  | step s r _ ih =>
    cases s with
    | operation op => exact ih.moves r.sound (perform_moves _ op)
    | amend serial d =>
      intro i hi id hk
      show ((Collection.amend _ serial d).cell? id).isSome = true
      rw [isSome_cell?_amend]
      exact ih i hi id hk

theorem Anchored.exists_fetch_lookup (h : c.Anchored) (hs : c.Sound) {i : Index}
    (hi : i ∈ c.registry.indexes) (probe : Document) :
    ∃ tried, c.fetch i (i.lookup probe) = .ok tried := by
  refine exists_fetch_eq_ok i fun id hid => h i hi id fun hk => ?_
  obtain ⟨key, hholds, -⟩ := (Index.mem_lookup_iff (hs i hi)).1 hid
  have hc := ((hs i hi).holds_iff key id).1 hholds
  rw [hk] at hc
  cases hc

end Collection

end DocumentDb
