/-
  DocumentDb — the order of what a lookup finds.

  * An index is read as a list of entries, one for each id under each key.  They come in order of
    the keys and, under one key, of the ids (`entriesOf_pairwise`).
  * `Index.Leads`: a key is the least of those recorded for a document that answer a probe.
  * `exists_firsts_lookup`: a lookup keeps the first entry of each id, and the key of this
    entry leads the id.
  * **`lookup_by_least_key`**: so a lookup gives each id that has a key that answers the
    probe once, in order of the least such key and then of the ids, and both ways to the
    buckets give the same list.
-/
import DocumentDb.Proofs.Index.Lookup

namespace DocumentDb

namespace Index

section
variable [Collator]

/-! ## Entries -/

/-- The ids of some buckets, each with its key. -/
def entriesOf (buckets : List (CompositeKey × List String)) : List (CompositeKey × String) :=
  buckets.flatMap fun (key, ids) => ids.map fun id => (key, id)

/-- An entry comes before another one: its key does, or under equal keys its id. -/
def Before (e e' : CompositeKey × String) : Prop :=
  e.1.compare e'.1 = .lt ∨ e.1.compare e'.1 = .eq ∧ e.2 < e'.2

variable {buckets : List (CompositeKey × List String)}

omit [Collator] in
theorem map_entriesOf (buckets : List (CompositeKey × List String)) :
    (entriesOf buckets).map (·.2) = buckets.flatMap (·.2) := by
  rw [entriesOf, List.map_flatMap]
  refine List.flatMap_congr fun b _ => ?_
  rw [List.map_map]
  exact List.map_id _

omit [Collator] in
theorem mem_entriesOf {e : CompositeKey × String} :
    e ∈ entriesOf buckets ↔ ∃ b ∈ buckets, b.1 = e.1 ∧ e.2 ∈ b.2 := by
  unfold entriesOf
  rw [List.mem_flatMap]
  refine exists_congr fun b => and_congr_right fun _ => ?_
  rw [List.mem_map]
  constructor
  · rintro ⟨id, hid, rfl⟩
    exact ⟨rfl, hid⟩
  · rintro ⟨hkey, hid⟩
    exact ⟨e.2, hid, Prod.ext hkey rfl⟩

variable [Std.TransCmp Collator.weigh] {i : Index} {probe : Document}

/-- **The entries of buckets in order come in order of their keys, and under one key in
    order of their ids.** -/
theorem entriesOf_pairwise {directions : List Direction} (h : Ordered directions buckets) :
    (entriesOf buckets).Pairwise Before := by
  refine List.pairwise_flatMap.2 ⟨?_, ?_⟩
  · intro b hb
    have hself : b.1.compare b.1 = .eq := CompositeKey.beq_iff_compare.1 BEq.rfl
    exact List.pairwise_map.2 ((h.ascending b hb).imp fun hlt => Or.inr ⟨hself, hlt⟩)
  · refine h.sorted.imp fun {b b'} hlt => ?_
    intro e he e' he'
    obtain ⟨id, -, rfl⟩ := List.mem_map.1 he
    obtain ⟨id', -, rfl⟩ := List.mem_map.1 he'
    exact Or.inl hlt

/-! ## The least key that answers -/

/-- A key is the least of the keys recorded for a document that answer a probe. -/
structure Leads (i : Index) (probe : Document) (id : String) (key : CompositeKey) : Prop where
  shaped : key.directions = i.spec.directions
  recorded : (i.keysOf id).contains key = true
  answers : i.spec.Answers probe key
  least : ∀ key' ∈ i.keysOf id, i.spec.Answers probe key' → (key.compare key').isLE = true

/-- An entry that fits a probe leads its id if no other entry of the id that fits comes before
    it. -/
theorem leads_of_first (h : i.Consistent) {e : CompositeKey × String}
    (he : e ∈ entriesOf (i.fitting probe))
    (hfirst : ∀ e' ∈ entriesOf (i.fitting probe), e'.2 = e.2 → e' = e ∨ Before e e') :
    i.Leads probe e.2 e.1 := by
  obtain ⟨b, hb, hkey, hid⟩ := mem_entriesOf.1 he
  have hholds : Holds (i.fitting probe) e.1 e.2 := ⟨b, hb, hkey ▸ BEq.rfl, hid⟩
  obtain ⟨hholds, hans⟩ := (holds_fitting_iff h.ordered).1 hholds
  refine ⟨?_, (h.holds_iff _ _).1 hholds, hans, ?_⟩
  · rw [← hkey]
    exact (fitting_ordered h.ordered).shaped b hb
  · intro key' hkey' hans'
    have hholds' := (h.holds_iff key' e.2).2 (contains_iff.2 ⟨key', hkey', BEq.rfl⟩)
    obtain ⟨b', hb', heq, hid'⟩ := (holds_fitting_iff h.ordered).2 ⟨hholds', hans'⟩
    rw [CompositeKey.compare_congr_right heq]
    rcases hfirst (b'.1, e.2) (mem_entriesOf.2 ⟨b', hb', rfl, hid'⟩) rfl with hsame | hlt | ⟨-, hlt⟩
    · rw [← hsame, CompositeKey.beq_iff_compare.1 BEq.rfl]
      rfl
    · rw [hlt]
      rfl
    · exact absurd rfl (String.ne_of_lt hlt)

/-- A lookup gives the ids of some entries in order, of each id one with the key that leads it. -/
theorem exists_firsts_lookup (h : i.Consistent) (probe : Document) :
    ∃ firsts : List (CompositeKey × String), firsts.map (·.2) = i.lookup probe ∧
      firsts.Pairwise Before ∧ ∀ e ∈ firsts, i.Leads probe e.2 e.1 := by
  have hordered : (entriesOf (i.fitting probe)).Pairwise Before :=
    entriesOf_pairwise (fitting_ordered h.ordered)
  obtain ⟨firsts, hsub, hmap, hfirst⟩ := exists_firsts (·.2) hordered
  refine ⟨firsts, ?_, hordered.sublist hsub, fun e he =>
    leads_of_first h (hsub.subset he) (hfirst e he)⟩
  rw [hmap, map_entriesOf, lookup_eq h.ordered]

/-! ## The whole lookup -/

/-- **A lookup in an index whose maps agree gives the ids that have a recorded key that
    answers the probe, each once, in order of the least such key and then of the ids.  It
    gives what trying every key gives, and if the probe supplies every key field, the
    buckets of its own keys give the same list.** -/
theorem lookup_by_least_key (h : i.Consistent) (probe : Document) :
    let scanned := (i.buckets.filter fun (key, _) => fits (i.supplied probe) key).flatMap (·.2)
    (∀ id, id ∈ i.lookup probe ↔ ∃ key ∈ i.keysOf id, i.spec.Answers probe key) ∧
      (i.lookup probe).Nodup ∧
      (∃ firsts : List (CompositeKey × String), firsts.map (·.2) = i.lookup probe ∧
        firsts.Pairwise Before ∧ ∀ e ∈ firsts, i.Leads probe e.2 e.1) ∧
      i.lookup probe = scanned.eraseDups ∧
      ((∀ f ∈ i.spec.fields, probe.containsField f.path = true) →
        (CompositeKey.sort (i.spec.keys probe)).flatMap i.bucket = scanned) :=
  ⟨fun id => mem_lookup_iff_of_holds h (h.holds_iff · id), lookup_nodup i probe,
    exists_firsts_lookup h probe, lookup_eq h.ordered, flatMap_bucket_eq h.ordered⟩

end

/-- An index over a descending and an ascending field, with a document under two keys and another
    one under a key between them. -/
def spread : Index :=
  let spec : KeySpec :=
    ⟨[⟨"size", .descending, by decide⟩, ⟨"rank", .ascending, by decide⟩], false, "spread",
      by simp, by simp⟩
  let outer := Document.ofList [("size", .array [.int 1, .int 3]), ("rank", .int 1)]
  let inner := Document.ofList [("size", .int 2), ("rank", .int 1)]
  ((new 0 spec).record "1" (spec.entries outer)).record "2" (spec.entries inner)

/-- The key of size three does not answer a probe of the sizes one and two, so the document of the
    sizes one and three comes last. -/
theorem spread_by_least_key :
    let probe := Document.ofList [("size", .array [.int 1, .int 2]), ("rank", .int 1)]
    spread.Consistent ∧ (∀ f ∈ spread.spec.fields, probe.containsField f.path = true) ∧
      (CompositeKey.sort (spread.spec.keys probe)).flatMap spread.bucket = ["2", "1"] ∧
      ∃ firsts : List (CompositeKey × String), firsts.map (·.2) = ["2", "1"] ∧
        firsts.Pairwise Before ∧ ∀ e ∈ firsts, spread.Leads probe e.2 e.1 := by
  intro probe
  have hnew : ∀ spec, (new 0 spec).Consistent := fun spec => Consistent.clear (new 0 spec)
  have hconsistent : spread.Consistent :=
    ((hnew _).record _ fun _ => KeySpec.directions_of_mem_entries).record _
      fun _ => KeySpec.directions_of_mem_entries
  have hall : ∀ f ∈ spread.spec.fields, probe.containsField f.path = true := by decide +kernel
  have hscan :
      (spread.buckets.filter fun (key, _) => fits (spread.supplied probe) key).flatMap (·.2) =
      ["2", "1"] := by decide +kernel
  obtain ⟨-, -, hfirsts, hfound, hsame⟩ := lookup_by_least_key hconsistent probe
  have hids : spread.lookup probe = ["2", "1"] := by
    rw [hfound, hscan]
    decide
  rw [hids] at hfirsts
  exact ⟨hconsistent, hall, (hsame hall).trans hscan, hfirsts⟩

end Index

end DocumentDb
