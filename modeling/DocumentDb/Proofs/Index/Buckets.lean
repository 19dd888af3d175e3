/-
  DocumentDb — the buckets of an index.

  * Buckets in order (`Ordered`) have ascending keys of the directions of one index, and each has
    ids, in ascending order.
  * `Holds buckets key id` is what buckets are about: an id is under a key.  `holds_insertEntry`
    says what a write does to it, whatever keys and ids.
-/
import DocumentDb.Index.Basic
import DocumentDb.Proofs.Key.Order

namespace DocumentDb

namespace Index

/-! ## Ascending ids -/

theorem mem_insertId {id id' : String} : ∀ {ids : List String},
    id' ∈ insertId id ids ↔ id' = id ∨ id' ∈ ids
  | [] => by simp [insertId]
  | other :: rest => by
    simp only [insertId]
    split
    · exact List.mem_cons
    · split
      · next e => simp [e]
      · rw [List.mem_cons, mem_insertId, List.mem_cons, or_left_comm]

theorem insertId_ne_nil (id : String) (ids : List String) : insertId id ids ≠ [] :=
  List.ne_nil_of_mem (mem_insertId.2 (Or.inl rfl))

theorem insertId_ascending {id : String} : ∀ {ids : List String}, ids.Pairwise (· < ·) →
    (insertId id ids).Pairwise (· < ·)
  | [], _ => List.pairwise_singleton _ _
  | other :: rest, h => by
    obtain ⟨hfirst, hrest⟩ := List.pairwise_cons.1 h
    simp only [insertId]
    split
    · next before =>
      refine List.pairwise_cons.2 ⟨fun x hx => ?_, h⟩
      rcases List.mem_cons.1 hx with rfl | hx
      · exact before
      · exact String.lt_trans before (hfirst x hx)
    · next notBefore =>
      split
      · exact h
      · next ne =>
        have after : other < id :=
          Std.lt_of_le_of_ne (String.not_lt.1 notBefore) (Ne.symm ne)
        refine List.pairwise_cons.2 ⟨fun x hx => ?_, insertId_ascending hrest⟩
        rcases mem_insertId.1 hx with rfl | hx
        · exact after
        · exact hfirst x hx

/-! ## Buckets in order -/

variable [Collator]

/-- Buckets of ascending keys of the given directions, each with ids, in ascending order. -/
structure Ordered (directions : List Direction) (buckets : List (CompositeKey × List String)) :
    Prop where
  sorted : buckets.Pairwise fun b b' => b.1.compare b'.1 = .lt
  shaped : ∀ b ∈ buckets, b.1.directions = directions
  filled : ∀ b ∈ buckets, b.2 ≠ []
  ascending : ∀ b ∈ buckets, b.2.Pairwise (· < ·)

namespace Ordered

variable {directions : List Direction} {b : CompositeKey × List String}
  {buckets : List (CompositeKey × List String)}

theorem nil : Ordered directions [] :=
  ⟨List.Pairwise.nil, nofun, nofun, nofun⟩

theorem cons_iff : Ordered directions (b :: buckets) ↔
    (∀ b' ∈ buckets, b.1.compare b'.1 = .lt) ∧
      (b.1.directions = directions ∧ b.2 ≠ [] ∧ b.2.Pairwise (· < ·)) ∧
      Ordered directions buckets := by
  constructor
  · rintro ⟨hs, hd, hf, ha⟩
    rw [List.pairwise_cons] at hs
    rw [List.forall_mem_cons] at hd hf ha
    exact ⟨hs.1, ⟨hd.1, hf.1, ha.1⟩, hs.2, hd.2, hf.2, ha.2⟩
  · rintro ⟨hb, ⟨hd, hf, ha⟩, h⟩
    exact ⟨List.pairwise_cons.2 ⟨hb, h.sorted⟩, List.forall_mem_cons.2 ⟨hd, h.shaped⟩,
      List.forall_mem_cons.2 ⟨hf, h.filled⟩, List.forall_mem_cons.2 ⟨ha, h.ascending⟩⟩

end Ordered

/-- An id is under a key. -/
def Holds (buckets : List (CompositeKey × List String)) (key : CompositeKey) (id : String) : Prop :=
  ∃ b ∈ buckets, (key == b.1) = true ∧ id ∈ b.2

variable {key key' : CompositeKey} {id id' : String} {buckets : List (CompositeKey × List String)}

theorem not_holds_nil : ¬ Holds [] key id := by
  rintro ⟨b, hb, -⟩
  exact List.not_mem_nil hb

theorem holds_cons {b : CompositeKey × List String} :
    Holds (b :: buckets) key id ↔ (key == b.1) = true ∧ id ∈ b.2 ∨ Holds buckets key id := by
  simp only [Holds, List.exists_mem_cons_iff]

variable [Std.TransCmp Collator.weigh]

theorem Holds.of_beq (hk : (key == key') = true) (h : Holds buckets key id) :
    Holds buckets key' id := by
  obtain ⟨b, hb, he, hid⟩ := h
  exact ⟨b, hb, BEq.trans (BEq.symm hk) he, hid⟩

/-- The bucket of a key comes before all that follow it, so no later one has the key. -/
theorem Ordered.not_holds_tail {directions : List Direction} {b : CompositeKey × List String}
    (h : Ordered directions (b :: buckets)) (hk : (key == b.1) = true) :
    ¬ Holds buckets key id := by
  rintro ⟨b', hb', he, -⟩
  exact CompositeKey.not_beq_of_compare_lt ((Ordered.cons_iff.1 h).1 b' hb')
    (BEq.trans (BEq.symm hk) he)

theorem mem_bucket_iff {i : Index} {directions : List Direction}
    (h : Ordered directions i.buckets) : id ∈ i.bucket key ↔ Holds i.buckets key id := by
  unfold bucket
  generalize i.buckets = buckets at h
  induction buckets with
  | nil => simp [Holds]
  | cons b rest ih =>
    rw [holds_cons, List.find?_cons]
    by_cases hk : (key == b.1) = true
    · simp [hk, h.not_holds_tail hk]
    · simp [hk, ih (Ordered.cons_iff.1 h).2.2]

theorem bucket_eq_of_mem {i : Index} {directions : List Direction}
    (h : Ordered directions i.buckets) {b : CompositeKey × List String} (hb : b ∈ i.buckets) :
    i.bucket b.1 = b.2 := by
  unfold bucket
  generalize i.buckets = buckets at h hb
  induction buckets with
  | nil => exact absurd hb List.not_mem_nil
  | cons b' rest ih =>
    obtain ⟨hfirst, -, hrest⟩ := Ordered.cons_iff.1 h
    rw [List.find?_cons]
    rcases List.mem_cons.1 hb with rfl | hb
    · simp
    · have hne : ¬ (b.1 == b'.1) = true := fun he =>
        CompositeKey.not_beq_of_compare_lt (hfirst b hb) (BEq.symm he)
      simp [hne, ih hrest hb]

omit [Std.TransCmp Collator.weigh] in
theorem bucket_ascending {i : Index} {directions : List Direction}
    (h : Ordered directions i.buckets) (key : CompositeKey) : (i.bucket key).Pairwise (· < ·) := by
  have hfound : ∀ p, (((i.buckets.find? p).map (·.2)).getD []).Pairwise (· < ·) := by
    intro p
    cases hf : i.buckets.find? p with
    | none => exact List.Pairwise.nil
    | some b => exact h.ascending b (List.mem_of_find?_eq_some hf)
  exact hfound _

/-! ## Writing -/

theorem holds_insertEntry : ∀ {buckets : List (CompositeKey × List String)},
    Holds (insertEntry key id buckets) key' id' ↔
      (key' == key) = true ∧ id' = id ∨ Holds buckets key' id'
  | [] => by simp [insertEntry, Holds]
  | (other, ids) :: rest => by
    simp only [insertEntry]
    split
    · simp [holds_cons]
    · next he =>
      have hk : (key' == key) = (key' == other) :=
        BEq.congr_right (CompositeKey.beq_iff_compare.2 he)
      simp only [holds_cons, mem_insertId, hk, and_or_left, or_assoc]
    · rw [holds_cons, holds_insertEntry, holds_cons, or_left_comm]

omit [Std.TransCmp Collator.weigh] in
theorem key_of_mem_insertEntry {b : CompositeKey × List String} :
    ∀ {buckets : List (CompositeKey × List String)}, b ∈ insertEntry key id buckets →
      b.1 = key ∨ ∃ b' ∈ buckets, b.1 = b'.1
  | [], h => Or.inl (congrArg Prod.fst (List.mem_singleton.1 h))
  | (other, ids) :: rest, h => by
    simp only [insertEntry] at h
    split at h
    · rcases List.mem_cons.1 h with rfl | h
      · exact Or.inl rfl
      · exact Or.inr ⟨b, h, rfl⟩
    · rcases List.mem_cons.1 h with rfl | h
      · exact Or.inr ⟨_, List.mem_cons_self, rfl⟩
      · exact Or.inr ⟨b, List.mem_cons_of_mem _ h, rfl⟩
    · rcases List.mem_cons.1 h with rfl | h
      · exact Or.inr ⟨_, List.mem_cons_self, rfl⟩
      · rcases key_of_mem_insertEntry h with he | ⟨b', hb', he⟩
        · exact Or.inl he
        · exact Or.inr ⟨b', List.mem_cons_of_mem _ hb', he⟩

theorem insertEntry_ordered {directions : List Direction} (hd : key.directions = directions) :
    ∀ {buckets : List (CompositeKey × List String)}, Ordered directions buckets →
      Ordered directions (insertEntry key id buckets)
  | [], h => Ordered.cons_iff.2 ⟨nofun, ⟨hd, by simp, List.pairwise_singleton _ _⟩, h⟩
  | (other, ids) :: rest, h => by
    obtain ⟨hfirst, ⟨hod, hof, hoa⟩, hrest⟩ := Ordered.cons_iff.1 h
    have hdo : key.directions = other.directions := hd.trans hod.symm
    simp only [insertEntry]
    split
    · next hlt =>
      refine Ordered.cons_iff.2 ⟨?_, ⟨hd, by simp, List.pairwise_singleton _ _⟩, h⟩
      intro b hb
      rcases List.mem_cons.1 hb with rfl | hb
      · exact hlt
      · exact CompositeKey.compare_lt_trans hdo (hod.trans (hrest.shaped b hb).symm) hlt
          (hfirst b hb)
    · exact Ordered.cons_iff.2
        ⟨hfirst, ⟨hod, insertId_ne_nil _ _, insertId_ascending hoa⟩, hrest⟩
    · next hgt =>
      refine Ordered.cons_iff.2 ⟨?_, ⟨hod, hof, hoa⟩, insertEntry_ordered hd hrest⟩
      intro b hb
      rcases key_of_mem_insertEntry hb with he | ⟨b', hb', he⟩
      · rw [he]; exact CompositeKey.compare_gt hdo hgt
      · rw [he]; exact hfirst b' hb'

end Index

end DocumentDb
