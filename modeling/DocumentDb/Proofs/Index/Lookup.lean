/-
  DocumentDb — what a lookup finds.

  * `KeySpec.Answers spec probe key`: in each key field that the probe supplies, the key has a value
    that the probe has there.  A document has such a key just when it has a value in some key field
    and shares one with the probe in each that the probe supplies (`exists_answer_iff`).
  * **`flatMap_bucket_eq`**: where the probe supplies every key field, the buckets of its own keys,
    read in order, hold what the buckets of all keys that fit it hold.  Both are in order and hold
    the same ids under the same keys.
  * **`mem_lookup_iff`**: so a lookup finds just the ids that are under a key that answers the
    probe, whichever way it goes.
-/
import DocumentDb.Proofs.Index.Alike

namespace DocumentDb

namespace KeySpec

/-! ## A key that answers a probe -/

/-- In each key field that a probe supplies, a key has one of the values that the probe has
    there. -/
def Answers (spec : KeySpec) (probe : Document) (key : CompositeKey) : Prop :=
  List.Forall₂ (fun p f => probe.containsField f.path = true →
    ∃ v ∈ probe.resolve f.segments, (p.value == v) = true) key.parts spec.fields

variable {spec : KeySpec} {d probe : Document}

/-- A document shares a value with a probe in each key field that the probe supplies. -/
def Shares (spec : KeySpec) (probe d : Document) : Prop :=
  ∀ f ∈ spec.fields, probe.containsField f.path = true →
    ∃ w ∈ d.resolve f.segments, ∃ v ∈ probe.resolve f.segments, (w == v) = true

theorem covers_of_mem_resolve {f : KeyField} (hf : f ∈ spec.fields) {w : Value}
    (hw : w ∈ d.resolve f.segments) (hnull : w.isNull = false) : spec.covers d = true :=
  List.any_eq_true.2 ⟨f, hf, List.any_eq_true.2 ⟨w, hw, by rw [hnull]; rfl⟩⟩

/-- **A document has a key that answers a probe just when it has a value in some key field and
    shares a value with the probe in each one that the probe supplies.** -/
theorem exists_answer_iff :
    (∃ key ∈ spec.entries d, spec.Answers probe key) ↔ spec.covers d = true ∧
    spec.Shares probe d := by
  constructor
  · rintro ⟨key, hkey, hans⟩
    have hcovers : spec.covers d = true := entries_ne_nil_iff.1 (List.ne_nil_of_mem hkey)
    refine ⟨hcovers, fun f hf hc => ?_⟩
    have hkeys := mem_keys_iff.1 (mem_keys_of_mem_entries hkey)
    unfold Answers at hans
    obtain ⟨position, hlt, rfl⟩ := List.getElem_of_mem hf
    rw [List.forall₂_iff_get] at hkeys hans
    have hlt' : position < key.parts.length := hkeys.1 ▸ hlt
    exact ⟨_, (hkeys.2 position hlt' hlt).1, hans.2 position hlt' hlt hc⟩
  · rintro ⟨hcovers, hshares⟩
    -- in a field that the probe does not supply any value will do
    obtain ⟨ps, hps⟩ := exists_forall₂_of_forall (R := fun (p : KeyPart) (f : KeyField) =>
        (p.value ∈ d.resolve f.segments ∧ p.direction = f.direction) ∧
          (probe.containsField f.path = true →
            ∃ v ∈ probe.resolve f.segments, (p.value == v) = true))
        fun f hf => by
      by_cases hc : probe.containsField f.path = true
      · obtain ⟨w, hw, hv⟩ := hshares f hf hc
        exact ⟨⟨w, f.direction⟩, ⟨hw, rfl⟩, fun _ => hv⟩
      · obtain ⟨w, hw⟩ := List.exists_mem_of_ne_nil _ (d.resolve_ne_nil f.segments)
        exact ⟨⟨w, f.direction⟩, ⟨hw, rfl⟩, fun hsupplied => absurd hsupplied hc⟩
    refine ⟨⟨ps⟩, ?_, hps.imp fun p f hp => hp.2⟩
    rw [entries_eq, if_pos hcovers]
    exact mem_keys_iff.2 (hps.imp fun p f hp => hp.1)

end KeySpec

variable [Collator] [Std.TransCmp Collator.weigh]

namespace Index

variable {i : Index} {probe : Document} {key : CompositeKey} {id : String}

omit [Collator] [Std.TransCmp Collator.weigh] in
theorem mem_supplied_iff {position : Nat} {values : List Value} :
    (position, values) ∈ i.supplied probe ↔ ∃ f, i.spec.fields[position]? = some f ∧
      probe.containsField f.path = true ∧ values = probe.resolve f.segments := by
  unfold supplied
  simp only [List.mem_map, List.mem_filter, List.mem_zipIdx_iff_getElem?, Prod.mk.injEq,
    Prod.exists]
  constructor
  · rintro ⟨f, p, ⟨hf, hc⟩, rfl, rfl⟩
    exact ⟨f, hf, hc, rfl⟩
  · rintro ⟨f, hf, hc, rfl⟩
    exact ⟨f, position, ⟨hf, hc⟩, rfl, rfl⟩

theorem fits_iff_answers (hlen : key.parts.length = i.spec.fields.length) :
    fits (i.supplied probe) key = true ↔ i.spec.Answers probe key := by
  unfold fits KeySpec.Answers
  rw [List.all_eq_true, List.forall₂_iff_get]
  constructor
  · intro h
    refine ⟨hlen, ?_⟩
    intro position hp hf hc
    have hm := h (position, probe.resolve i.spec.fields[position].segments)
      (mem_supplied_iff.2 ⟨_, List.getElem?_eq_getElem hf, hc, rfl⟩)
    obtain ⟨v, hv, hmatch⟩ := List.any_eq_true.1 hm
    obtain ⟨part, hpart, heq⟩ := CompositeKey.partMatches_iff.1 hmatch
    rw [List.getElem?_eq_getElem hp] at hpart
    cases hpart
    exact ⟨v, hv, heq⟩
  · rintro ⟨-, h⟩ ⟨position, values⟩ hm
    obtain ⟨f, hf, hc, rfl⟩ := mem_supplied_iff.1 hm
    obtain ⟨hlt, rfl⟩ := List.getElem?_eq_some_iff.1 hf
    obtain ⟨v, hv, heq⟩ := h position (hlen ▸ hlt) hlt hc
    exact List.any_eq_true.2 ⟨v, hv, CompositeKey.partMatches_iff.2
      ⟨key.parts[position], List.getElem?_eq_getElem (hlen ▸ hlt), heq⟩⟩

theorem answers_of_beq {key' : CompositeKey} {spec : KeySpec} (hk : (key' == key) = true)
    (h : spec.Answers probe key) : spec.Answers probe key' := by
  refine forall₂_comp (fun p q f hpq hq hc => ?_) (CompositeKey.beq_iff.1 hk) h
  obtain ⟨v, hv, heq⟩ := hq hc
  exact ⟨v, hv, BEq.trans hpq heq⟩

/-- If the probe supplies every key field, the keys that answer it are those equal to one of
    its own. -/
theorem exists_mem_keys_iff_answers {spec : KeySpec}
    (hall : ∀ f ∈ spec.fields, probe.containsField f.path = true) :
    (∃ k ∈ spec.keys probe, (key == k) = true) ↔ spec.Answers probe key := by
  constructor
  · rintro ⟨k, hk, heq⟩
    refine answers_of_beq heq ((KeySpec.mem_keys_iff.1 hk).imp ?_)
    intro p f hp _
    exact ⟨p.value, hp.1, BEq.rfl⟩
  · intro h
    have hboth : List.Forall₂ (fun p f => ∃ p' : KeyPart, (p.value == p'.value) = true ∧
        p'.value ∈ probe.resolve f.segments ∧
        p'.direction = f.direction) key.parts spec.fields := by
      unfold KeySpec.Answers at h
      rw [List.forall₂_iff_get] at h ⊢
      refine ⟨h.1, ?_⟩
      intro position hp hf
      obtain ⟨v, hv, heq⟩ := h.2 position hp hf (hall _ (List.getElem_mem hf))
      exact ⟨⟨v, spec.fields[position].direction⟩, heq, hv, rfl⟩
    obtain ⟨ps, heq, hps⟩ := exists_forall₂_comp hboth
    exact ⟨⟨ps⟩, KeySpec.mem_keys_iff.2 hps, CompositeKey.beq_iff.2 heq⟩

/-! ## Two ways to the buckets -/

/-- The buckets of the keys that fit a probe. -/
def fitting (i : Index) (probe : Document) : List (CompositeKey × List String) :=
  i.buckets.filter fun (key, _) => fits (i.supplied probe) key

/-- The buckets of the keys of a probe, in order of the keys. -/
def probed (i : Index) (probe : Document) : List (CompositeKey × List String) :=
  ((CompositeKey.sort (i.spec.keys probe)).map fun key => (key, i.bucket key)).filter (!·.2.isEmpty)

omit [Std.TransCmp Collator.weigh] in
theorem flatMap_probed (i : Index) (probe : Document) :
    (i.probed probe).flatMap (·.2) = (CompositeKey.sort (i.spec.keys probe)).flatMap i.bucket := by
  unfold probed
  induction CompositeKey.sort (i.spec.keys probe) with
  | nil => rfl
  | cons key rest ih =>
    rw [List.map_cons, List.flatMap_cons, ← ih, List.filter_cons]
    cases i.bucket key <;> rfl

omit [Std.TransCmp Collator.weigh] in
theorem fitting_ordered {directions : List Direction} (h : Ordered directions i.buckets) :
    Ordered directions (i.fitting probe) where
  sorted := h.sorted.sublist List.filter_sublist
  shaped b hb := h.shaped b (List.mem_of_mem_filter hb)
  filled b hb := h.filled b (List.mem_of_mem_filter hb)
  ascending b hb := h.ascending b (List.mem_of_mem_filter hb)

theorem holds_fitting_iff (h : Ordered i.spec.directions i.buckets) :
    Holds (i.fitting probe) key id ↔ Holds i.buckets key id ∧ i.spec.Answers probe key := by
  have hlen : ∀ b ∈ i.buckets, b.1.parts.length = i.spec.fields.length := fun b hb => by
    simpa [CompositeKey.directions, KeySpec.directions] using congrArg List.length (h.shaped b hb)
  constructor
  · rintro ⟨b, hb, heq, hid⟩
    obtain ⟨hb, hfits⟩ := List.mem_filter.1 hb
    exact ⟨⟨b, hb, heq, hid⟩, answers_of_beq heq ((fits_iff_answers (hlen b hb)).1 hfits)⟩
  · rintro ⟨⟨b, hb, heq, hid⟩, hans⟩
    have hfits := (fits_iff_answers (hlen b hb)).2 (answers_of_beq (BEq.symm heq) hans)
    exact ⟨b, List.mem_filter.2 ⟨hb, hfits⟩, heq, hid⟩

theorem probed_ordered (h : Ordered i.spec.directions i.buckets) :
    Ordered i.spec.directions (i.probed probe) := by
  have hmem : ∀ b ∈ i.probed probe, b.1 ∈ i.spec.keys probe ∧ b.2 = i.bucket b.1 ∧ b.2 ≠ [] := by
    intro b hb
    obtain ⟨hb, hfilled⟩ := List.mem_filter.1 hb
    obtain ⟨key, hkey, rfl⟩ := List.mem_map.1 hb
    exact ⟨List.mem_mergeSort.1 hkey, rfl, by simpa using hfilled⟩
  refine ⟨?_, ?_, fun b hb => (hmem b hb).2.2, ?_⟩
  · have hsorted := CompositeKey.sort_ascending (fun k hk => KeySpec.directions_of_mem_keys hk)
      (KeySpec.keys_pairwise i.spec probe)
    exact (List.pairwise_map.2 hsorted).sublist List.filter_sublist
  · intro b hb
    exact KeySpec.directions_of_mem_keys (hmem b hb).1
  · intro b hb
    rw [(hmem b hb).2.1]
    exact bucket_ascending h b.1

theorem holds_probed_iff (h : Ordered i.spec.directions i.buckets)
    (hall : ∀ f ∈ i.spec.fields, probe.containsField f.path = true) :
    Holds (i.probed probe) key id ↔ Holds i.buckets key id ∧ i.spec.Answers probe key := by
  rw [← exists_mem_keys_iff_answers hall]
  constructor
  · rintro ⟨b, hb, heq, hid⟩
    obtain ⟨k, hk, rfl⟩ := List.mem_map.1 (List.mem_of_mem_filter hb)
    have hholds := (mem_bucket_iff h).1 hid
    exact ⟨hholds.of_beq (BEq.symm heq), k, List.mem_mergeSort.1 hk, heq⟩
  · rintro ⟨hholds, k, hk, heq⟩
    have hid := (mem_bucket_iff h).2 (hholds.of_beq heq)
    refine ⟨(k, i.bucket k), List.mem_filter.2 ⟨?_, ?_⟩, heq, hid⟩
    · exact List.mem_map_of_mem (List.mem_mergeSort.2 hk)
    · simpa using List.ne_nil_of_mem hid

/-- **If the probe supplies every key field, reading the buckets of its own keys gives the same ids,
    in the same order, as trying every key.** -/
theorem flatMap_bucket_eq (h : Ordered i.spec.directions i.buckets)
    (hall : ∀ f ∈ i.spec.fields, probe.containsField f.path = true) :
    (CompositeKey.sort (i.spec.keys probe)).flatMap i.bucket = (i.fitting probe).flatMap (·.2) := by
  have hholds : ∀ key id, Holds (i.probed probe) key id ↔ Holds (i.fitting probe) key id :=
    fun _ _ => (holds_probed_iff h hall).trans (holds_fitting_iff h).symm
  have hsame := (probed_ordered h).forall₂ (fitting_ordered h) hholds
  have hids : (i.probed probe).map (·.2) = (i.fitting probe).map (·.2) :=
    map_eq_of_forall₂ (hsame.imp fun _ _ hb => hb.2)
  rw [← flatMap_probed, List.flatMap_def, List.flatMap_def, hids]

/-! ## The ids found -/

omit [Collator] [Std.TransCmp Collator.weigh] in
theorem containsField_of_length_supplied
    (h : (i.supplied probe).length = i.spec.fields.length) :
    ∀ f ∈ i.spec.fields, probe.containsField f.path = true := by
  intro f hf
  unfold supplied at h
  rw [List.length_map, ← List.length_zipIdx (l := i.spec.fields) (i := 0),
    List.length_filter_eq_length_iff] at h
  obtain ⟨position, hposition⟩ := List.mem_iff_getElem?.1 hf
  exact h (f, position) (List.mem_zipIdx_iff_getElem?.2 hposition)

/-- A lookup gives what trying every key gives, each id once. -/
theorem lookup_eq (h : Ordered i.spec.directions i.buckets) :
    i.lookup probe = ((i.fitting probe).flatMap (·.2)).eraseDups := by
  unfold lookup
  dsimp only
  split
  · next hlen => rw [flatMap_bucket_eq h (containsField_of_length_supplied hlen)]
  · rfl

/-- **A lookup finds the ids that are under a key that answers the probe.** -/
theorem mem_lookup_iff (h : i.Consistent) :
    id ∈ i.lookup probe ↔ ∃ key, Holds i.buckets key id ∧ i.spec.Answers probe key := by
  rw [lookup_eq h.ordered, List.mem_eraseDups, List.mem_flatMap]
  simp only [← holds_fitting_iff h.ordered]
  constructor
  · rintro ⟨b, hb, hid⟩
    exact ⟨b.1, b, hb, BEq.rfl, hid⟩
  · rintro ⟨key, b, hb, -, hid⟩
    exact ⟨b, hb, hid⟩

/-- It does not matter in which form the keys of an id are given. -/
theorem mem_lookup_iff_of_holds (h : i.Consistent) {keys : List CompositeKey}
    (hkeys : ∀ key, Holds i.buckets key id ↔ keys.contains key = true) :
    id ∈ i.lookup probe ↔ ∃ key ∈ keys, i.spec.Answers probe key := by
  simp only [mem_lookup_iff h, hkeys, contains_iff]
  constructor
  · rintro ⟨key, ⟨k, hk, heq⟩, hans⟩
    exact ⟨k, hk, answers_of_beq (BEq.symm heq) hans⟩
  · rintro ⟨key, hkey, hans⟩
    exact ⟨key, ⟨key, hkey, BEq.rfl⟩, hans⟩

omit [Std.TransCmp Collator.weigh] in
theorem lookup_nodup (i : Index) (probe : Document) : (i.lookup probe).Nodup := by
  unfold lookup
  refine (eraseDups_pairwise _).imp fun {a b} hne => ?_
  exact beq_eq_false_iff_ne.1 hne

end Index

end DocumentDb
