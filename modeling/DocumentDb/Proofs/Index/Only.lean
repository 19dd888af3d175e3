/-
  DocumentDb — what is left of an index when documents go.

  * `Index.only i kept`: the index with the entries of some ids only.  A key that is left without
    ids goes.  Whatever goes, a consistent index stays consistent (`Consistent.only`).
  * **`Consistent.remove_eq`**, **`Registry.remove_eq`**: removing an id from consistent indexes
    never fails, and leaves exactly the entries of the other ids.
  * In a registry, the ids that are kept have the keys that they had, and the others have none
    (`Registry.keeps_only`, `Registry.rekeyed_only`), so the keys of a document can take the place
    of what was recorded for its id (`Registry.records_only_record`).
  * Recording keys for an id does not touch the entries of the others (`only_record`), so an id that
    was not recorded leaves no trace when its keys come in and are taken away again
    (`Consistent.only_record`).
-/
import DocumentDb.Proofs.Index.Rekeyed

namespace DocumentDb

namespace Index

/-- The buckets with only those ids that are kept under their key; a key without ids goes. -/
def restrict (kept : CompositeKey → String → Bool) (buckets : List (CompositeKey × List String)) :
    List (CompositeKey × List String) :=
  (buckets.map fun b => (b.1, b.2.filter (kept b.1))).filter fun b => !b.2.isEmpty

/-- The index with the entries of some ids only. -/
def only (i : Index) (kept : String → Bool) : Index :=
  { i with
    buckets := restrict (fun _ => kept) i.buckets
    recorded := i.recorded.filter fun e => kept e.1 }

/-! ## Buckets with fewer ids -/

variable {kept kept' : CompositeKey → String → Bool} {id : String} {key : CompositeKey}
  {buckets : List (CompositeKey × List String)}

theorem restrict_cons (kept : CompositeKey → String → Bool) (b : CompositeKey × List String)
    (buckets : List (CompositeKey × List String)) :
    restrict kept (b :: buckets) = if (b.2.filter (kept b.1)).isEmpty then restrict kept buckets
      else (b.1, b.2.filter (kept b.1)) :: restrict kept buckets := by
  unfold restrict
  rw [List.map_cons, List.filter_cons]
  cases (b.2.filter (kept b.1)).isEmpty <;> rfl

theorem restrict_congr (h : ∀ b ∈ buckets, ∀ id ∈ b.2, kept b.1 id = kept' b.1 id) :
    restrict kept buckets = restrict kept' buckets := by
  unfold restrict
  refine congrArg _ (List.map_congr_left fun b hb => ?_)
  rw [List.filter_congr (h b hb)]

theorem restrict_restrict (kept kept' : CompositeKey → String → Bool)
    (buckets : List (CompositeKey × List String)) :
    restrict kept' (restrict kept buckets) =
      restrict (fun key id => kept' key id && kept key id) buckets := by
  induction buckets with
  | nil => rfl
  | cons b rest ih =>
    rw [restrict_cons kept, restrict_cons, ← List.filter_filter, ← ih]
    split
    · next hempty => rw [List.isEmpty_iff.1 hempty]; rfl
    · rw [restrict_cons]

theorem restrict_eq_self (h : ∀ b ∈ buckets, b.2 ≠ [] ∧ ∀ id ∈ b.2, kept b.1 id = true) :
    restrict kept buckets = buckets := by
  have hmap : (buckets.map fun b => (b.1, b.2.filter (kept b.1))) = buckets := by
    refine (List.map_congr_left fun b hb => ?_).trans (List.map_id buckets)
    rw [List.filter_eq_self.2 (h b hb).2]
    rfl
  unfold restrict
  rw [hmap, List.filter_eq_self]
  intro b hb
  simpa using (h b hb).1

variable [Collator]

theorem restrict_insertEntry (hid : ∀ key, kept key id = false) (key : CompositeKey) :
    ∀ buckets : List (CompositeKey × List String),
      restrict kept (insertEntry key id buckets) = restrict kept buckets
  | [] => by simp [insertEntry, restrict, hid]
  | (other, ids) :: rest => by
    have hinsert : (insertId id ids).filter (kept other) = ids.filter (kept other) := by
      induction ids with
      | nil => simp [insertId, hid]
      | cons first rest ih =>
        rw [insertId]
        split
        · simp [hid]
        · split
          · rfl
          · rw [List.filter_cons, List.filter_cons, ih]
    rw [insertEntry]
    split
    · rw [restrict_cons]
      simp [hid]
    · simp only [restrict_cons, hinsert]
    · simp only [restrict_cons, restrict_insertEntry hid key rest]

theorem restrict_insertEntries (hid : ∀ key, kept key id = false) :
    ∀ (keys : List CompositeKey) (buckets : List (CompositeKey × List String)),
      restrict kept (keys.foldl (fun buckets key => insertEntry key id buckets) buckets) =
        restrict kept buckets
  | [], _ => rfl
  | key :: keys, buckets => by
    rw [List.foldl_cons, restrict_insertEntries hid keys, restrict_insertEntry hid]

variable {directions : List Direction}

theorem holds_restrict {id' : String} : Holds (restrict kept buckets) key id' ↔
    ∃ b ∈ buckets, (key == b.1) = true ∧ id' ∈ b.2 ∧ kept b.1 id' = true := by
  constructor
  · rintro ⟨b', hb', hk, hid⟩
    obtain ⟨b, hb, rfl⟩ := List.mem_map.1 (List.mem_of_mem_filter hb')
    exact ⟨b, hb, hk, List.mem_filter.1 hid⟩
  · rintro ⟨b, hb, hk, hid⟩
    have hleft : id' ∈ b.2.filter (kept b.1) := List.mem_filter.2 hid
    refine ⟨(b.1, b.2.filter (kept b.1)), List.mem_filter.2 ⟨List.mem_map_of_mem hb, ?_⟩, hk, hleft⟩
    simpa using List.ne_nil_of_mem hleft

theorem restrict_ordered (h : Ordered directions buckets) :
    Ordered directions (restrict kept buckets) := by
  have hmem : ∀ b' ∈ restrict kept buckets, b'.2 ≠ [] ∧
      ∃ b ∈ buckets, b' = (b.1, b.2.filter (kept b.1)) := by
    intro b' hb'
    obtain ⟨hb', hne⟩ := List.mem_filter.1 hb'
    obtain ⟨b, hb, rfl⟩ := List.mem_map.1 hb'
    exact ⟨by simpa using hne, b, hb, rfl⟩
  refine ⟨(List.pairwise_map.2 h.sorted).filter _, ?_, fun b' hb' => (hmem b' hb').1, ?_⟩
  · intro b' hb'
    obtain ⟨-, b, hb, rfl⟩ := hmem b' hb'
    exact h.shaped b hb
  · intro b' hb'
    obtain ⟨-, b, hb, rfl⟩ := hmem b' hb'
    exact (h.ascending b hb).filter _

variable [Std.TransCmp Collator.weigh]

/-- Taking an id away from a key that it is under keeps everything else. -/
theorem eraseEntry_eq_restrict : ∀ {buckets : List (CompositeKey × List String)},
    Ordered directions buckets → Holds buckets key id →
      eraseEntry id key buckets =
        some (restrict (fun k other => !(key == k && other == id)) buckets)
  | [], _, hheld => absurd hheld not_holds_nil
  | (other, ids) :: rest, h, hheld => by
    obtain ⟨hfirst, ⟨-, hfilled, hascending⟩, hrest⟩ := Ordered.cons_iff.1 h
    rw [holds_cons] at hheld
    rw [eraseEntry, restrict_cons]
    dsimp only at hheld ⊢
    cases hk : key == other with
    | true =>
      have hid : id ∈ ids := (hheld.resolve_right (h.not_holds_tail hk)).2
      have hids : ids.filter (fun o => !(true && o == id)) = ids.erase id := by
        have hnodup : ids.Nodup := hascending.imp fun hlt => String.ne_of_lt hlt
        rw [hnodup.erase_eq_filter]
        rfl
      -- the keys that follow are greater, so they are left alone
      have hlater : restrict (fun k o => !(key == k && o == id)) rest = rest := by
        refine restrict_eq_self fun b hb => ⟨hrest.filled b hb, fun o _ => ?_⟩
        have hne : (key == b.1) = false := Bool.eq_false_iff.2 fun he =>
          CompositeKey.not_beq_of_compare_lt (hfirst b hb) (BEq.trans (BEq.symm hk) he)
        rw [hne]
        rfl
      rw [hids, hlater, if_pos rfl, if_pos (List.contains_iff_mem.2 hid)]
    | false =>
      have htail : Holds rest key id := hheld.resolve_left fun hhead => by
        rw [hk] at hhead
        cases hhead.1
      have hids : ids.filter (fun o => !(false && o == id)) = ids :=
        List.filter_eq_self.2 fun _ _ => rfl
      rw [hids, if_neg fun hempty => hfilled (List.isEmpty_iff.1 hempty),
        eraseEntry_eq_restrict hrest htail]
      rfl

/-- Taking an id away from different keys that it is under passes over none of them. -/
theorem eraseEntries_eq_restrict : ∀ {keys : List CompositeKey}
    {buckets : List (CompositeKey × List String)}, Ordered directions buckets →
      keys.Pairwise (fun a b => (a == b) = false) → (∀ key ∈ keys, Holds buckets key id) →
      eraseEntries id keys buckets =
        (restrict (fun k other => !(keys.any (· == k) && other == id)) buckets, none)
  | [], buckets, h, _, _ => by
    rw [restrict_eq_self fun b hb => ⟨h.filled b hb, fun _ _ => rfl⟩]
    rfl
  | key :: keys, buckets, h, hdistinct, hheld => by
    obtain ⟨hfirst, hdistinct⟩ := List.pairwise_cons.1 hdistinct
    obtain ⟨hkey, hkeys⟩ := List.forall_mem_cons.1 hheld
    -- a key that is still to come differs from the one that is gone, so the id is still under it
    have hlater : ∀ k ∈ keys,
        Holds (restrict (fun k other => !(key == k && other == id)) buckets) k id := by
      intro k hk
      obtain ⟨b, hb, he, hid⟩ := hkeys k hk
      refine holds_restrict.2 ⟨b, hb, he, hid, ?_⟩
      have hne : (key == b.1) = false := by
        rw [← BEq.congr_right he]
        exact hfirst k hk
      rw [hne]
      rfl
    rw [eraseEntries, eraseEntry_eq_restrict h hkey]
    dsimp only
    rw [eraseEntries_eq_restrict (restrict_ordered h) hdistinct hlater, restrict_restrict]
    refine congrArg (·, none) (restrict_congr fun b _ other _ => ?_)
    rw [List.any_cons]
    cases key == b.1 <;> cases keys.any (· == b.1) <;> cases other == id <;> rfl

/-! ## Indexes with fewer ids -/

omit [Std.TransCmp Collator.weigh] in
theorem filter_insertKeys {kept : String → Bool} (hid : kept id = false)
    (keys : List CompositeKey) : ∀ recorded : List (String × List CompositeKey),
      (insertKeys id keys recorded).filter (fun e => kept e.1) = recorded.filter fun e => kept e.1
  | [] => by simp [insertKeys, hid]
  | (other, known) :: rest => by
    rw [insertKeys]
    split
    · next he => simp [← he, hid]
    · rw [List.filter_cons, List.filter_cons, filter_insertKeys hid keys rest]

variable {i : Index} {keys : List CompositeKey}

omit [Collator] [Std.TransCmp Collator.weigh] in
theorem only_only (i : Index) (kept kept' : String → Bool) :
    (i.only kept).only kept' = i.only fun id => kept' id && kept id := by
  unfold only
  rw [restrict_restrict, List.filter_filter]

omit [Collator] [Std.TransCmp Collator.weigh] in
theorem keysOf_only (i : Index) (kept : String → Bool) (id : String) :
    (i.only kept).keysOf id = if kept id then i.keysOf id else [] := by
  unfold keysOf only
  rw [lookup_filter]
  split <;> rfl

omit [Std.TransCmp Collator.weigh] in
theorem only_record {kept : String → Bool} (hid : kept id = false) (i : Index)
    (keys : List CompositeKey) : (i.record id keys).only kept = i.only kept := by
  unfold record
  split
  · rfl
  · unfold only
    rw [restrict_insertEntries (fun _ => hid), filter_insertKeys hid]

namespace Consistent

theorem only_eq_self (h : i.Consistent) {kept : String → Bool}
    (hkept : ∀ id, i.keysOf id ≠ [] → kept id = true) : i.only kept = i := by
  have hbuckets : restrict (fun _ => kept) i.buckets = i.buckets := by
    refine restrict_eq_self fun b hb => ⟨h.ordered.filled b hb, fun id hid => hkept id ?_⟩
    exact (mem_recorded_iff h).1 (lookup_isSome_iff.1 ((contains_iff_mem_bucket h).2 ⟨b, hb, hid⟩))
  have hrecorded : i.recorded.filter (fun e => kept e.1) = i.recorded :=
    List.filter_eq_self.2 fun e he => hkept e.1 ((mem_recorded_iff h).1 (List.mem_map_of_mem he))
  unfold only
  rw [hbuckets, hrecorded]

omit [Std.TransCmp Collator.weigh] in
/-- **Whatever documents go, an index stays consistent.** -/
theorem only (h : i.Consistent) (kept : String → Bool) : (i.only kept).Consistent := by
  have hordered : Ordered i.spec.directions (restrict (fun _ => kept) i.buckets) :=
    restrict_ordered h.ordered
  refine ⟨hordered, h.distinct.sublist (List.filter_sublist.map _),
    fun e he => h.keyed e (List.mem_of_mem_filter he),
    fun e he => h.once e (List.mem_of_mem_filter he), ?_⟩
  intro key id
  have hholds : Holds (restrict (fun _ => kept) i.buckets) key id ↔
      Holds i.buckets key id ∧ kept id = true := by
    refine holds_restrict.trans ⟨?_, ?_⟩
    · rintro ⟨b, hb, hk, hid, hkept⟩
      exact ⟨⟨b, hb, hk, hid⟩, hkept⟩
    · rintro ⟨⟨b, hb, hk, hid⟩, hkept⟩
      exact ⟨b, hb, hk, hid, hkept⟩
  rw [keysOf_only]
  refine hholds.trans ?_
  rw [h.holds_iff]
  split
  · next hkept => exact and_iff_left hkept
  · next hkept => simp [hkept]

/-- **A consistent index gives up the keys of an id without fail, and what is left are exactly the
    entries of the others.** -/
theorem remove_eq (h : i.Consistent) (id : String) :
    i.remove id = (i.only (· != id), .ok (i.keysOf id)) := by
  have hheld : ∀ key ∈ i.keysOf id, Holds i.buckets key id := fun key hkey =>
    (h.holds_iff key id).2 (contains_iff.2 ⟨key, hkey, BEq.rfl⟩)
  have hbuckets : restrict (fun k other => !((i.keysOf id).any (· == k) && other == id)) i.buckets =
      restrict (fun _ => (· != id)) i.buckets := by
    refine restrict_congr fun b hb other hother => ?_
    by_cases he : other = id
    · -- the id is under the key, so the key is one of those recorded for it
      have hk := (h.holds_iff b.1 id).1 ⟨b, hb, BEq.rfl, he ▸ hother⟩
      obtain ⟨k, hmem, hbk⟩ := contains_iff.1 hk
      have hany : (i.keysOf id).any (· == b.1) = true := List.any_eq_true.2 ⟨k, hmem, BEq.symm hbk⟩
      rw [hany, Bool.true_and]
      rfl
    · have hne : (other == id) = false := beq_eq_false_iff_ne.2 he
      rw [hne, Bool.and_false, bne, hne]
  unfold Index.remove Index.only
  dsimp only
  rw [eraseEntries_eq_restrict h.ordered (h.once_keysOf id) hheld, hbuckets]

-- an index that records a key which does not lead back to the id does fail
example (spec : KeySpec) (key : CompositeKey) :
    (Index.remove ⟨0, spec, [], [("1", [key])]⟩ "1").2 =
      .error (.indexOutOfStep spec.name "1" key) := rfl

/-- **The keys of an id that was not recorded, recorded and taken away again, leave no trace.** -/
theorem only_record (h : i.Consistent) (hid : i.keysOf id = []) (d : Document) :
    (i.record id (i.spec.entries d)).only (· != id) = i := by
  rw [Index.only_record (by simp)]
  refine h.only_eq_self fun other hother => bne_iff_ne.2 ?_
  rintro rfl
  exact hother hid

end Consistent

end Index

/-! ## All indexes -/

namespace Registry

/-- The registry with the entries of some ids only in every index. -/
def only (r : Registry) (kept : String → Bool) : Registry := r.map (·.only kept) fun _ => rfl

theorem map_eq_self {r : Registry} {f : Index → Index} {hf : ∀ i, (f i).name = i.name}
    (h : ∀ i ∈ r.indexes, f i = i) : r.map f hf = r := by
  obtain ⟨indexes, distinct⟩ := r
  unfold map
  rw [Registry.mk.injEq]
  exact (List.map_congr_left h).trans (List.map_id indexes)

theorem only_only (r : Registry) (kept kept' : String → Bool) :
    (r.only kept).only kept' = r.only fun id => kept' id && kept id := by
  unfold only map
  rw [Registry.mk.injEq, List.map_map]
  exact List.map_congr_left fun i _ => i.only_only kept kept'

variable [Collator] [Std.TransCmp Collator.weigh] {r : Registry} {id : String}

theorem only_eq_self (h : ∀ i ∈ r.indexes, i.Consistent) {kept : String → Bool}
    (hkept : ∀ i ∈ r.indexes, ∀ id, i.keysOf id ≠ [] → kept id = true) : r.only kept = r :=
  map_eq_self fun i hi => (h i hi).only_eq_self (hkept i hi)

omit [Std.TransCmp Collator.weigh] in
theorem consistent_only (h : ∀ i ∈ r.indexes, i.Consistent) (kept : String → Bool) :
    ∀ i ∈ (r.only kept).indexes, i.Consistent :=
  List.forall_mem_map.2 fun i hi => (h i hi).only kept

/-- The ids that are kept have the keys that they had. -/
theorem keeps_only {kept : String → Bool} (h : ∀ i ∈ r.indexes, i.Consistent)
    (hid : kept id = true) : r.Keeps (r.only kept) id := by
  refine forall₂_map (f := (·.only kept)) (fun _ => rfl) fun i hi => ?_
  refine (h i hi).keeps ((h i hi).only kept) rfl rfl ?_
  rw [Index.keysOf_only, if_pos hid]

/-- The ids that are not kept have no keys. -/
theorem rekeyed_only {kept : String → Bool} (h : ∀ i ∈ r.indexes, i.Consistent)
    (hid : kept id = false) : r.Rekeyed (r.only kept) id fun _ => [] := by
  refine forall₂_map (f := (·.only kept)) (fun _ => rfl) fun i hi => ?_
  have hkeys : (i.only kept).keysOf id = [] := by
    rw [Index.keysOf_only, if_neg (by simp [hid])]
  refine ⟨rfl, rfl, hkeys, fun key => ?_⟩
  rw [Index.mem_bucket_iff_contains ((h i hi).only kept), hkeys]

/-! ## Taking a document away -/

theorem verify_eq_ok (h : ∀ i ∈ r.indexes, i.Consistent) (id : String) : r.verify id = .ok () :=
  forM_eq_ok_iff.2 fun i hi => (h i hi).verify id

theorem removeEach_eq : ∀ {indexes : List Index}, (∀ i ∈ indexes, i.Consistent) →
    removeEach id indexes = (indexes.map (·.only (· != id)), .ok ())
  | [], _ => rfl
  | i :: rest, h => by
    obtain ⟨hi, hrest⟩ := List.forall_mem_cons.1 h
    rw [removeEach, hi.remove_eq]
    dsimp only
    rw [removeEach_eq hrest]
    rfl

/-- **Consistent indexes give up the keys of an id without fail, and keep all others.** -/
theorem remove_eq (h : ∀ i ∈ r.indexes, i.Consistent) (id : String) :
    r.remove id = (r.only (· != id), .ok ()) := by
  unfold remove only map
  rw [verify_eq_ok h]
  simp only [removeEach_eq h]

/-- The keys of a document take the place of those that its id had. -/
theorem records_only_record (h : ∀ i ∈ r.indexes, i.Consistent) (id : String) (d : Document) :
    r.Records ((r.only (· != id)).record id d) id d := by
  have hgone : ∀ i ∈ (r.only (· != id)).indexes, i.keysOf id = [] := by
    refine List.forall_mem_map.2 fun i _ => ?_
    rw [Index.keysOf_only, if_neg (by simp)]
  have hin := records_record (consistent_only h (· != id)) hgone d
  constructor
  · -- taking the id away leaves every specification, so the keys to come stay those of the index
    refine (List.forall₂_map_left_iff.1 hin.here).imp fun i j hij => ?_
    exact ⟨hij.serial, hij.spec, hij.recorded, hij.buckets⟩
  · intro other hne
    have hout : r.Keeps (r.only (· != id)) other := keeps_only h (bne_iff_ne.2 hne)
    exact hout.trans (hin.others other hne)

theorem only_record (h : ∀ i ∈ r.indexes, i.Consistent) (hid : ∀ i ∈ r.indexes, i.keysOf id = [])
    (d : Document) : (r.record id d).only (· != id) = r := by
  have hmap : (r.record id d).only (· != id) =
      r.map (fun i => (i.record id (i.spec.entries d)).only (· != id))
        fun i => by simp [Index.name, Index.only] := by
    unfold only record map
    rw [Registry.mk.injEq, List.map_map]
    rfl
  rw [hmap]
  exact map_eq_self fun i hi => (h i hi).only_record (hid i hi) d

end Registry

end DocumentDb
