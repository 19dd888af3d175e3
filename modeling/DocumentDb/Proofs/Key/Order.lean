/-
  DocumentDb — keys are compared part by part.

  * `CompositeKey.beq_iff`: two keys are equal when they agree part by part in the native order,
    whatever the directions of their fields.  So equality of keys is an equivalence.
  * `CompositeKey.compare_swap` and `CompositeKey.compare_chain`: keys whose parts have the same
    directions, as all keys of one index do, are totally preordered.
  * `CompositeKey.sort_ascending`: so sorting such keys, no two of them equal, makes them ascend.
-/
import Mathlib.Data.List.Forall2
import DocumentDb.Key.Composite
import DocumentDb.Proofs.Value.Collated

namespace DocumentDb

/-! ## Directions -/

namespace Direction

@[simp] theorem apply_eq_iff (dir : Direction) {o : Ordering} : dir.apply o = .eq ↔ o = .eq := by
  cases dir with
  | ascending => exact Iff.rfl
  | descending => cases o <;> simp [apply]

theorem apply_swap (dir : Direction) (o : Ordering) : dir.apply o.swap = (dir.apply o).swap := by
  cases dir <;> rfl

theorem apply_chain (dir : Direction) {ab bc ac : Ordering} (h : Chain ab bc ac) :
    Chain (dir.apply ab) (dir.apply bc) (dir.apply ac) := by
  cases dir with
  | ascending => exact h
  | descending => exact h.swap

end Direction

namespace CompositeKey

/-- The directions of the parts of a key. -/
def directions (k : CompositeKey) : List Direction := k.parts.map (·.direction)

variable [Collator] [Std.TransCmp Collator.weigh]

/-! ## Equality -/

omit [Std.TransCmp Collator.weigh] in
theorem forall₂_of_compareParts : ∀ {l l' : List KeyPart}, compareParts l l' = .eq →
    List.Forall₂ (fun p p' => (p.value == p'.value) = true) l l'
  | [], [], _ => .nil
  | part :: rest, part' :: rest', h => by
    rw [compareParts, Ordering.then_eq_eq, Value.collateIn, Direction.apply_eq_iff] at h
    exact .cons (Value.beq_iff.2 (Value.compare_of_collate h.1)) (forall₂_of_compareParts h.2)

theorem compareParts_eq_iff : ∀ {l l' : List KeyPart},
    compareParts l l' = .eq ↔ List.Forall₂ (fun p p' => (p.value == p'.value) = true) l l'
  | [], [] => by simp [compareParts]
  | [], _ :: _ => by simp [compareParts]
  | _ :: _, [] => by simp [compareParts]
  | part :: rest, part' :: rest' => by
    simp only [compareParts, Ordering.then_eq_eq, Value.collateIn, Direction.apply_eq_iff,
      Value.collate_eq_iff_beq, compareParts_eq_iff, List.forall₂_cons]

omit [Std.TransCmp Collator.weigh] in
theorem beq_iff_compare {a b : CompositeKey} : (a == b) = true ↔ a.compare b = .eq :=
  beq_iff_eq (a := a.compare b)

omit [Std.TransCmp Collator.weigh] in
/-- Whatever the locale, equal keys agree part by part. -/
theorem forall₂_of_beq {a b : CompositeKey} (h : (a == b) = true) :
    List.Forall₂ (fun p p' => (p.value == p'.value) = true) a.parts b.parts :=
  forall₂_of_compareParts (beq_iff_compare.1 h)

/-- **Keys are equal when they agree part by part.** -/
theorem beq_iff {a b : CompositeKey} :
    (a == b) = true ↔ List.Forall₂ (fun p p' => (p.value == p'.value) = true) a.parts b.parts :=
  beq_iff_compare.trans compareParts_eq_iff

instance : EquivBEq CompositeKey where
  rfl := beq_iff.2 (List.forall₂_same.2 fun _ _ => BEq.rfl)
  symm h := beq_iff.2 ((beq_iff.1 h).flip.imp fun _ _ h => BEq.symm h)
  trans {a b c} h h' := by
    rw [beq_iff] at h h' ⊢
    rw [List.forall₂_iff_get] at h h' ⊢
    exact ⟨h.1.trans h'.1, fun i ha hc => BEq.trans (h.2 i ha (h.1 ▸ ha)) (h'.2 i (h.1 ▸ ha) hc)⟩

theorem partMatches_iff {k : CompositeKey} {position : Nat} {value : Value} :
    k.partMatches position value = true ↔
      ∃ part, k.parts[position]? = some part ∧ (part.value == value) = true := by
  unfold partMatches
  cases k.parts[position]? with
  | none => simp
  | some part => simp [← Value.collate_eq_iff_beq]

/-! ## Order -/

theorem compareParts_swap : ∀ {l l' : List KeyPart},
    l.map (·.direction) = l'.map (·.direction) → compareParts l l' = (compareParts l' l).swap
  | [], [], _ => rfl
  | part :: rest, part' :: rest', h => by
    simp only [List.map_cons, List.cons.injEq] at h
    simp only [compareParts, Value.collateIn, Ordering.swap_then, h.1]
    rw [Value.collate_swap part.value, Direction.apply_swap, compareParts_swap h.2]

theorem compareParts_chain : ∀ {l l' l'' : List KeyPart},
    l.map (·.direction) = l'.map (·.direction) → l'.map (·.direction) = l''.map (·.direction) →
    Chain (compareParts l l') (compareParts l' l'') (compareParts l l'')
  | [], [], [], _, _ => Chain.eq_left _
  | part :: rest, part' :: rest', part'' :: rest'', h, h' => by
    simp only [List.map_cons, List.cons.injEq] at h h'
    simp only [compareParts, Value.collateIn, h.1]
    exact Chain.thenIf (Direction.apply_chain _ (Value.collate_chain _ _ _)) fun _ _ =>
      compareParts_chain h.2 h'.2

variable {a b c : CompositeKey}

theorem compare_swap (h : a.directions = b.directions) : a.compare b = (b.compare a).swap :=
  compareParts_swap h

theorem compare_chain (h : a.directions = b.directions) (h' : b.directions = c.directions) :
    Chain (a.compare b) (b.compare c) (a.compare c) := compareParts_chain h h'

theorem compare_gt (h : a.directions = b.directions) (hab : a.compare b = .gt) :
    b.compare a = .lt := by
  rw [compare_swap h.symm, hab]; rfl

theorem compare_lt_trans (h : a.directions = b.directions) (h' : b.directions = c.directions)
    (hab : a.compare b = .lt) (hbc : b.compare c = .lt) : a.compare c = .lt :=
  (compare_chain h h').lt_trans hab hbc

theorem compare_isLE_total (h : a.directions = b.directions) :
    ((a.compare b).isLE || (b.compare a).isLE) = true := by
  rw [compare_swap h]
  cases b.compare a <;> rfl

/-- A key compares alike with equal keys, whatever their directions. -/
theorem compareParts_congr_right : ∀ {l m m' : List KeyPart},
    List.Forall₂ (fun p p' => (p.value == p'.value) = true) m m' →
    compareParts l m = compareParts l m'
  | [], _, _, .nil | [], _, _, .cons .. | _ :: _, _, _, .nil => rfl
  | part :: rest, _, _, .cons hpart hrest => by
    rw [compareParts, compareParts, Value.collateIn, Value.collateIn,
      (Value.collate_chain part.value _ _).2.1 (Value.collate_eq_iff_beq.2 hpart),
      compareParts_congr_right hrest]

theorem compare_congr_right (h : (b == c) = true) : a.compare b = a.compare c :=
  compareParts_congr_right (beq_iff.1 h)

omit [Std.TransCmp Collator.weigh] in
theorem not_beq_of_compare_lt (hab : a.compare b = .lt) : ¬ (a == b) = true := by
  rw [beq_iff_compare, hab]; exact nofun

/-! ## Sorting -/

/-- **Keys of the same directions, no two of them equal, ascend when they are sorted.** -/
theorem sort_ascending {directions : List Direction} {keys : List CompositeKey}
    (hd : ∀ k ∈ keys, k.directions = directions) (hne : keys.Pairwise fun a b => (a == b) = false) :
    (sort keys).Pairwise fun a b => a.compare b = .lt := by
  -- only among keys of these directions is the comparison total and transitive
  let le := fun a b : { k : CompositeKey // k.directions = directions } => (a.1.compare b.1).isLE
  have hsort : ((keys.attachWith _ hd).mergeSort le).map Subtype.val = sort keys := by
    refine (List.map_mergeSort (s := fun a b : CompositeKey => (a.compare b).isLE)
      fun _ _ _ _ => rfl).trans ?_
    rw [List.attachWith_map_subtype_val, sort]
  have hle : (sort keys).Pairwise fun a b => (a.compare b).isLE = true := by
    rw [← hsort]
    refine List.pairwise_map.2 (List.pairwise_mergeSort ?_ ?_ _)
    · intro a b c
      exact (compare_chain (a.2.trans b.2.symm) (b.2.trans c.2.symm)).isLE_trans
    · intro a b
      exact compare_isLE_total (a.2.trans b.2.symm)
  have hne' : (sort keys).Pairwise fun a b => (a == b) = false :=
    ((List.mergeSort_perm keys _).pairwise_iff fun h => BEq.comm.trans h).2 hne
  refine (hle.and hne').imp fun {a b} h => ?_
  have heq : a.compare b ≠ .eq := fun he => Bool.eq_false_iff.1 h.2 (beq_iff_compare.2 he)
  exact Ordering.isLE_iff_eq_lt_or_eq_eq.1 h.1 |>.resolve_right heq

end CompositeKey

end DocumentDb
