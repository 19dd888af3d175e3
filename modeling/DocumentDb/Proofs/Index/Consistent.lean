/-
  DocumentDb — the two maps of an index agree.

  * `Index.Consistent`: the buckets are in order, each recorded id has keys, no two of them equal,
    and an id is under a key just when the key is recorded for it.  Whatever keys are recorded, an
    index stays consistent (`Consistent.record`).
  * `contains_keysOf_record` says what a write does to the keys of every id.
  * `validate_eq_ok_iff` and `Consistent.verify`: when the two checks of an index let a
    document pass.
-/
import DocumentDb.Proofs.Index.Buckets
import DocumentDb.Proofs.Key.Realize
import DocumentDb.Proofs.Lists

namespace DocumentDb

namespace Index

variable [Collator]

/-! ## The keys of an id -/

theorem lookup_insertKeys (id id' : String) (keys : List CompositeKey) :
    ∀ recorded : List (String × List CompositeKey),
      (insertKeys id keys recorded).lookup id' =
        if id' = id then some (addKeys ((recorded.lookup id).getD []) keys) else recorded.lookup id'
  | [] => lookup_cons _ _ _ _
  | (other, known) :: rest => by
    simp only [insertKeys]
    split
    · next he =>
      subst he
      by_cases hid : id' = id <;> simp [lookup_cons, hid]
    · next hne =>
      rw [lookup_cons, lookup_insertKeys id id' keys rest, lookup_cons, lookup_cons, if_neg hne]
      by_cases hid : id' = id
      · rw [if_neg (hid ▸ hne), if_pos hid, if_pos hid]
      · rw [if_neg hid, if_neg hid]

theorem mem_insertKeys {id : String} {keys : List CompositeKey} {e : String × List CompositeKey} :
    ∀ {recorded : List (String × List CompositeKey)}, e ∈ insertKeys id keys recorded →
      (e.1 = id ∧ ∃ known, (known = [] ∨ (id, known) ∈ recorded) ∧ e.2 = addKeys known keys) ∨
        e ∈ recorded
  | [], h => by
    rw [List.mem_singleton.1 h]
    exact Or.inl ⟨rfl, [], Or.inl rfl, rfl⟩
  | (other, known) :: rest, h => by
    simp only [insertKeys] at h
    split at h
    · next he =>
      subst he
      rcases List.mem_cons.1 h with rfl | h
      · exact Or.inl ⟨rfl, known, Or.inr List.mem_cons_self, rfl⟩
      · exact Or.inr (List.mem_cons_of_mem _ h)
    · rcases List.mem_cons.1 h with rfl | h
      · exact Or.inr List.mem_cons_self
      · rcases mem_insertKeys h with ⟨he, known', hk, hv⟩ | h
        · exact Or.inl ⟨he, known', hk.imp_right (List.mem_cons_of_mem _), hv⟩
        · exact Or.inr (List.mem_cons_of_mem _ h)

theorem insertKeys_nodup {id : String} {keys : List CompositeKey} :
    ∀ {recorded : List (String × List CompositeKey)}, (recorded.map (·.1)).Nodup →
      ((insertKeys id keys recorded).map (·.1)).Nodup
  | [], _ => List.nodup_singleton _
  | (other, known) :: rest, h => by
    obtain ⟨hfresh, hrest⟩ := List.nodup_cons.1 h
    simp only [insertKeys]
    split
    · exact h
    · next hne =>
      refine List.nodup_cons.2 ⟨fun hm => ?_, insertKeys_nodup hrest⟩
      obtain ⟨e, he, heq⟩ := List.mem_map.1 hm
      rcases mem_insertKeys he with ⟨hid, -⟩ | he
      · exact hne (hid.symm.trans heq)
      · exact hfresh (List.mem_map.2 ⟨e, he, heq⟩)

theorem contains_iff {keys : List CompositeKey} {key : CompositeKey} :
    keys.contains key = true ↔ ∃ k ∈ keys, (key == k) = true := by
  simp [List.contains_iff_exists_mem_beq]

variable [Std.TransCmp Collator.weigh]

theorem contains_addKey {known : List CompositeKey} {key k : CompositeKey} :
    (if known.contains k then known else known ++ [k]).contains key = true ↔
      known.contains key = true ∨ (key == k) = true := by
  split
  · next hk =>
    refine (or_iff_left_of_imp fun he => ?_).symm
    obtain ⟨k', hk', he'⟩ := contains_iff.1 hk
    exact contains_iff.2 ⟨k', hk', BEq.trans he he'⟩
  · simp only [contains_iff, List.mem_append, List.mem_singleton, or_and_right, exists_or,
      exists_eq_left]

theorem contains_addKeys {key : CompositeKey} : ∀ {keys known : List CompositeKey},
    (addKeys known keys).contains key = true ↔
      known.contains key = true ∨ keys.contains key = true
  | [], known => by simp [addKeys]
  | k :: keys, known => by
    rw [addKeys, List.foldl_cons, ← addKeys, contains_addKeys, contains_addKey, or_assoc]
    simp [contains_iff]

theorem addKeys_pairwise : ∀ {keys known : List CompositeKey},
    known.Pairwise (fun a b => (a == b) = false) →
    (addKeys known keys).Pairwise fun a b => (a == b) = false
  | [], _, h => h
  | k :: keys, known, h => by
    rw [addKeys, List.foldl_cons, ← addKeys]
    refine addKeys_pairwise ?_
    split
    · exact h
    · next hk =>
      refine List.pairwise_append.2 ⟨h, List.pairwise_singleton _ _, ?_⟩
      intro a ha b hb
      rw [List.mem_singleton.1 hb]
      exact Bool.eq_false_iff.2 fun he => hk (contains_iff.2 ⟨a, ha, BEq.symm he⟩)

omit [Std.TransCmp Collator.weigh] in
theorem keysOf_record (i : Index) (id id' : String) (keys : List CompositeKey) :
    (i.record id keys).keysOf id' =
      if id' = id then addKeys (i.keysOf id) keys else i.keysOf id' := by
  unfold record
  split
  · next he =>
    rw [List.isEmpty_iff.1 he]
    split
    · next hid => rw [hid]; rfl
    · rfl
  · unfold keysOf
    rw [lookup_insertKeys]
    split <;> rfl

theorem contains_keysOf_record {i : Index} {id id' : String} {keys : List CompositeKey}
    {key : CompositeKey} :
    ((i.record id keys).keysOf id').contains key = true ↔
      id' = id ∧ keys.contains key = true ∨ (i.keysOf id').contains key = true := by
  rw [keysOf_record]
  split
  · next hid => rw [contains_addKeys, hid, or_comm]; simp
  · next hid => simp [hid]

/-! ## Both maps together -/

/-- The buckets of an index hold what it records, and each id recorded has keys, each once. -/
structure Consistent (i : Index) : Prop where
  ordered : Ordered i.spec.directions i.buckets
  distinct : (i.recorded.map (·.1)).Nodup
  keyed : ∀ e ∈ i.recorded, e.2 ≠ []
  once : ∀ e ∈ i.recorded, e.2.Pairwise fun a b => (a == b) = false
  holds_iff : ∀ key id, Holds i.buckets key id ↔ (i.keysOf id).contains key = true

theorem mem_bucket_iff_contains {i : Index} (h : i.Consistent) {key : CompositeKey} {id : String} :
    id ∈ i.bucket key ↔ (i.keysOf id).contains key = true :=
  (mem_bucket_iff h.ordered).trans (h.holds_iff key id)

omit [Std.TransCmp Collator.weigh] in
theorem mem_recorded_iff {i : Index} (h : i.Consistent) {id : String} :
    id ∈ i.recorded.map (·.1) ↔ i.keysOf id ≠ [] := by
  rw [← lookup_isSome_iff]
  unfold keysOf
  cases hl : i.recorded.lookup id with
  | none => simp
  | some keys =>
    have := h.keyed _ ((mem_iff_lookup h.distinct).2 hl)
    simpa using this

omit [Std.TransCmp Collator.weigh] in
theorem Consistent.once_keysOf {i : Index} (h : i.Consistent) (id : String) :
    (i.keysOf id).Pairwise fun a b => (a == b) = false := by
  unfold keysOf
  cases hl : i.recorded.lookup id with
  | none => exact List.Pairwise.nil
  | some keys =>
    have hmem := (mem_iff_lookup h.distinct).2 hl
    exact h.once _ hmem

/-- An id is recorded if it is in some bucket. -/
theorem contains_iff_mem_bucket {i : Index} (h : i.Consistent) {id : String} :
    i.contains id = true ↔ ∃ b ∈ i.buckets, id ∈ b.2 := by
  have hkeys : i.contains id = true ↔ i.keysOf id ≠ [] :=
    lookup_isSome_iff.trans (mem_recorded_iff h)
  rw [hkeys]
  constructor
  · intro hne
    obtain ⟨key, hk⟩ := List.exists_mem_of_ne_nil _ hne
    obtain ⟨b, hb, -, hid⟩ := (h.holds_iff key id).2 (contains_iff.2 ⟨key, hk, BEq.rfl⟩)
    exact ⟨b, hb, hid⟩
  · rintro ⟨b, hb, hid⟩ hnone
    have hkey := (h.holds_iff b.1 id).1 ⟨b, hb, BEq.rfl, hid⟩
    rw [hnone] at hkey
    cases hkey

/-! ## Writing -/

theorem holds_insertEntries {key' : CompositeKey} {id id' : String} :
    ∀ {keys : List CompositeKey} {buckets : List (CompositeKey × List String)},
      Holds (keys.foldl (fun buckets key => insertEntry key id buckets) buckets) key' id' ↔
        id' = id ∧ keys.contains key' = true ∨ Holds buckets key' id'
  | [], _ => by simp
  | k :: keys, buckets => by
    rw [List.foldl_cons, holds_insertEntries, holds_insertEntry, ← or_assoc]
    refine or_congr_left ?_
    rw [← and_comm (a := id' = id), ← and_or_left, contains_iff, contains_iff,
      List.exists_mem_cons_iff, or_comm]

theorem insertEntries_ordered {directions : List Direction} {id : String} :
    ∀ {keys : List CompositeKey} {buckets : List (CompositeKey × List String)},
      (∀ key ∈ keys, key.directions = directions) → Ordered directions buckets →
      Ordered directions (keys.foldl (fun buckets key => insertEntry key id buckets) buckets)
  | [], _, _, h => h
  | _ :: _, _, hd, h => by
    obtain ⟨hk, hkeys⟩ := List.forall_mem_cons.1 hd
    rw [List.foldl_cons]
    exact insertEntries_ordered hkeys (insertEntry_ordered hk h)

namespace Consistent

variable {i : Index}

omit [Std.TransCmp Collator.weigh] in
theorem clear (i : Index) : i.clear.Consistent := by
  refine ⟨Ordered.nil, List.nodup_nil, nofun, nofun, fun _ _ => iff_of_false not_holds_nil ?_⟩
  simp [keysOf, Index.clear]

theorem record (h : i.Consistent) (id : String) {keys : List CompositeKey}
    (hd : ∀ key ∈ keys, key.directions = i.spec.directions) : (i.record id keys).Consistent := by
  by_cases he : keys.isEmpty
  · rwa [Index.record, if_pos he]
  have hrec : i.record id keys = { i with
      buckets := keys.foldl (fun buckets key => insertEntry key id buckets) i.buckets
      recorded := insertKeys id keys i.recorded } := if_neg he
  refine ⟨?_, ?_, ?_, ?_, fun key id' => ?_⟩
  · rw [hrec]
    exact insertEntries_ordered hd h.ordered
  · rw [hrec]
    exact insertKeys_nodup h.distinct
  · rw [hrec]
    intro e hm
    rcases mem_insertKeys hm with ⟨-, known, -, hv⟩ | hm
    · obtain ⟨key, hkey⟩ := List.exists_mem_of_ne_nil keys fun hn => he (List.isEmpty_iff.2 hn)
      obtain ⟨k, hk, -⟩ := contains_iff.1
        (contains_addKeys.2 (Or.inr (contains_iff.2 ⟨key, hkey, BEq.rfl⟩)) :
          (addKeys known keys).contains key)
      exact List.ne_nil_of_mem (hv ▸ hk)
    · exact h.keyed e hm
  · rw [hrec]
    intro e hm
    rcases mem_insertKeys hm with ⟨-, known, hknown, hv⟩ | hm
    · rw [hv]
      refine addKeys_pairwise ?_
      rcases hknown with rfl | hknown
      · exact List.Pairwise.nil
      · exact h.once _ hknown
    · exact h.once e hm
  · rw [contains_keysOf_record, ← h.holds_iff, hrec]
    exact holds_insertEntries

/-- **A consistent index leads back to every id that it records.** -/
theorem verify (h : i.Consistent) (id : String) : i.verify id = .ok () := by
  unfold Index.verify
  have hnone : (i.keysOf id).find? (fun key => !(i.bucket key).contains id) = none := by
    refine List.find?_eq_none.2 fun key hk => ?_
    have : id ∈ i.bucket key := (mem_bucket_iff_contains h).2 (contains_iff.2 ⟨key, hk, BEq.rfl⟩)
    simpa using this
  rw [hnone]

end Consistent

/-! ## Whether a document may have some keys -/

omit [Std.TransCmp Collator.weigh] in
theorem validate_eq_ok_iff {i : Index} {id : String} {keys : List CompositeKey} :
    i.validate id keys = .ok () ↔
      (i.spec.unique = true → ∀ key ∈ keys, ∀ owner ∈ i.bucket key, owner = id) := by
  have hc : i.conflict? id keys = none ↔
      (i.spec.unique = true → ∀ key ∈ keys, ∀ owner ∈ i.bucket key, owner = id) := by
    unfold conflict?
    split
    · next hu => simp [hu, List.findSome?_eq_none_iff]
    · next hu => simp [hu]
  rw [← hc]
  unfold validate
  cases i.conflict? id keys with
  | none => simp
  | some owner => simp

end Index

end DocumentDb
