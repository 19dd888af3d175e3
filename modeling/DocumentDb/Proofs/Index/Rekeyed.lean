/-
  DocumentDb — what a write changes in the indexes, id by id.

  * `Registry.Keeps r r' id`: the indexes of a registry have become those of another and say
    of an id what they said before; `Registry.Rekeyed r r' id keys`: they have for the id
    exactly the given keys.
  * `Registry.Records`: the keys of a document are those of its id, and nothing else changes.
    Recording a document under an id without keys does this (`Registry.records_record`).
  * `Registry.Admits` is what lets a document pass: no other id has one of its keys in a unique
    index (`Registry.validate_eq_ok_iff_admits`).
-/
import DocumentDb.Index.Registry
import DocumentDb.Proofs.Index.Consistent
import DocumentDb.Proofs.Outcome

namespace DocumentDb

variable [Collator]

/-! ## One index -/

namespace Index

/-- One index has become another, which says of an id, in both of its maps, what the first said. -/
structure Keeps (i j : Index) (id : String) : Prop where
  serial : j.serial = i.serial
  spec : j.spec = i.spec
  recorded : j.keysOf id = i.keysOf id
  buckets : ∀ key, id ∈ j.bucket key ↔ id ∈ i.bucket key

/-- One index has become another, which has for an id, in both of its maps, exactly the given
    keys. -/
structure Rekeyed (i j : Index) (id : String) (keys : List CompositeKey) : Prop where
  serial : j.serial = i.serial
  spec : j.spec = i.spec
  recorded : j.keysOf id = keys
  buckets : ∀ key, id ∈ j.bucket key ↔ keys.contains key = true

variable {i j k : Index} {id other : String} {keys : List CompositeKey}

theorem Keeps.refl (i : Index) (id : String) : i.Keeps i id := ⟨rfl, rfl, rfl, fun _ => Iff.rfl⟩

theorem Keeps.trans (h : i.Keeps j id) (h' : j.Keeps k id) : i.Keeps k id where
  serial := h'.serial.trans h.serial
  spec := h'.spec.trans h.spec
  recorded := h'.recorded.trans h.recorded
  buckets key := (h'.buckets key).trans (h.buckets key)

theorem Keeps.rekey (h : i.Keeps j id) (h' : j.Rekeyed k id keys) : i.Rekeyed k id keys where
  serial := h'.serial.trans h.serial
  spec := h'.spec.trans h.spec
  recorded := h'.recorded
  buckets := h'.buckets

theorem Rekeyed.keep (h : i.Rekeyed j id keys) (h' : j.Keeps k id) : i.Rekeyed k id keys where
  serial := h'.serial.trans h.serial
  spec := h'.spec.trans h.spec
  recorded := h'.recorded.trans h.recorded
  buckets key := (h'.buckets key).trans (h.buckets key)

theorem serial_record (i : Index) (id : String) (keys : List CompositeKey) :
    (i.record id keys).serial = i.serial := by
  unfold record
  split <;> rfl

variable [Std.TransCmp Collator.weigh]

theorem Consistent.keeps (h : i.Consistent) (h' : j.Consistent) (hserial : j.serial = i.serial)
    (hspec : j.spec = i.spec) (hk : j.keysOf id = i.keysOf id) : i.Keeps j id := by
  refine ⟨hserial, hspec, hk, fun key => ?_⟩
  rw [mem_bucket_iff_contains h, mem_bucket_iff_contains h', hk]

theorem Consistent.keeps_record (h : i.Consistent) (hne : other ≠ id) (d : Document) :
    i.Keeps (i.record id (i.spec.entries d)) other := by
  refine h.keeps (h.record id fun _ => KeySpec.directions_of_mem_entries) (serial_record ..)
    (spec_record ..) ?_
  rw [keysOf_record, if_neg hne]

/-- Keys of which no two are equal are added as they are. -/
theorem addKeys_of_pairwise : ∀ {keys known : List CompositeKey},
    (known ++ keys).Pairwise (fun a b => (a == b) = false) → addKeys known keys = known ++ keys
  | [], known, _ => (List.append_nil known).symm
  | key :: keys, known, h => by
    have hfresh : known.contains key = false := by
      refine Bool.eq_false_iff.2 fun hc => ?_
      obtain ⟨k, hk, heq⟩ := contains_iff.1 hc
      have hne := (List.pairwise_append.1 h).2.2 k hk key List.mem_cons_self
      rw [BEq.symm heq] at hne
      cases hne
    rw [List.append_cons] at h ⊢
    rw [addKeys, List.foldl_cons, ← addKeys, hfresh]
    exact addKeys_of_pairwise h

theorem Consistent.rekeyed_record (h : i.Consistent) (hid : i.keysOf id = []) (d : Document) :
    i.Rekeyed (i.record id (i.spec.entries d)) id (i.spec.entries d) := by
  have hc := h.record id fun _ => KeySpec.directions_of_mem_entries (d := d)
  have hk : (i.record id (i.spec.entries d)).keysOf id = i.spec.entries d := by
    rw [keysOf_record, if_pos rfl, hid]
    exact addKeys_of_pairwise (i.spec.entries_pairwise d)
  refine ⟨serial_record .., spec_record .., hk, fun key => ?_⟩
  rw [mem_bucket_iff_contains hc, hk]

end Index

/-! ## All indexes -/

namespace Registry

/-- The indexes of a registry have become those of another, which say of an id what they
    said before. -/
def Keeps (r r' : Registry) (id : String) : Prop :=
  List.Forall₂ (fun i j => i.Keeps j id) r.indexes r'.indexes

/-- The indexes of a registry have become those of another, which have for an id exactly the
    given keys. -/
def Rekeyed (r r' : Registry) (id : String) (keys : KeySpec → List CompositeKey) : Prop :=
  List.Forall₂ (fun i j => i.Rekeyed j id (keys i.spec)) r.indexes r'.indexes

/-- The keys of a document have become those of an id, and those of all other ids are what
    they were. -/
structure Records (r r' : Registry) (id : String) (d : Document) : Prop where
  here : r.Rekeyed r' id (·.entries d)
  others : ∀ other, other ≠ id → r.Keeps r' other

/-- No other id has, in a unique index, a key of the document. -/
def Admits (r : Registry) (id : String) (d : Document) : Prop :=
  ∀ i ∈ r.indexes, i.spec.unique = true → ∀ key ∈ i.spec.entries d,
    ∀ other, (i.keysOf other).contains key = true → other = id

variable {r r' r'' : Registry} {id : String} {keys : KeySpec → List CompositeKey}

theorem Keeps.refl (r : Registry) (id : String) : r.Keeps r id :=
  List.forall₂_same.2 fun i _ => Index.Keeps.refl i id

theorem Keeps.trans (h : r.Keeps r' id) (h' : r'.Keeps r'' id) : r.Keeps r'' id := by
  refine forall₂_comp (fun i j k hij hjk => ?_) h h'
  exact Index.Keeps.trans hij hjk

theorem Rekeyed.keep (h : r.Rekeyed r' id keys) (h' : r'.Keeps r'' id) : r.Rekeyed r'' id keys := by
  refine forall₂_comp (fun i j k hij hjk => ?_) h h'
  exact Index.Rekeyed.keep hij hjk

theorem Keeps.rekey (h : r.Keeps r' id) (h' : r'.Rekeyed r'' id keys) : r.Rekeyed r'' id keys := by
  refine forall₂_comp (fun i j k hij hjk => ?_) h h'
  rw [hij.spec] at hjk
  exact hij.rekey hjk

omit [Collator] in
theorem forall₂_map {R : Index → Index → Prop} {f : Index → Index}
    (keepsName : ∀ i, (f i).name = i.name) (h : ∀ i ∈ r.indexes, R i (f i)) :
    List.Forall₂ R r.indexes (r.map f keepsName).indexes :=
  List.forall₂_map_right_iff.2 (List.forall₂_same.2 h)

variable [Std.TransCmp Collator.weigh]

theorem records_record (h : ∀ i ∈ r.indexes, i.Consistent)
    (fresh : ∀ i ∈ r.indexes, i.keysOf id = []) (d : Document) :
    r.Records (r.record id d) id d where
  here := forall₂_map _ fun i hi => (h i hi).rekeyed_record (fresh i hi) d
  others _ hne := forall₂_map _ fun i hi => (h i hi).keeps_record hne d

/-! ## What lets a document pass -/

omit [Std.TransCmp Collator.weigh] in
theorem isRecoverable_of_validate {d : Document} {fault : Fault}
    (h : r.validate id d = .error fault) : fault.isRecoverable = true := by
  obtain ⟨i, -, hi⟩ := exists_of_forM_eq_error h
  unfold Index.validate at hi
  split at hi
  · cases hi
    rfl
  · cases hi

theorem validate_eq_ok_iff_admits (h : ∀ i ∈ r.indexes, i.Consistent) {d : Document} :
    r.validate id d = .ok () ↔ r.Admits id d := by
  unfold validate Admits
  rw [forM_eq_ok_iff]
  refine forall_congr' fun i => forall_congr' fun hi => ?_
  simp only [Index.validate_eq_ok_iff, Index.mem_bucket_iff_contains (h i hi)]

end Registry

end DocumentDb
