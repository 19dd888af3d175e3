/-
  DocumentDb — numbers on one line.

  * `Number.place?` is the place of a number on the line, in the unit of the smallest floats; a
    not-a-number has none.  `Number.comparePlaces` compares places, with not-a-number at the end.
  * **`Number.compare_eq_comparePlaces`**: numbers of either form compare as their places do.  An
    integer against a float is where this has to be shown: a float between the bounds loses nothing
    when its integer part is read as one of 64 bits (`Binary64.toInt_toInt64`), and an integer other
    than that part is on the same side of both (`Binary64.compare_whole`).
  * So the order of numbers is a total preorder.
-/
import DocumentDb.Proofs.Chain
import DocumentDb.Number.Basic
import Mathlib.Algebra.Group.Int.Defs
import Mathlib.Algebra.Group.Nat.Defs

namespace DocumentDb

namespace Binary64

variable {x : Binary64}

/-- The unit as a power of two.  The exponent has a name, so that nothing computes the power. -/
theorem exists_unitsPerOne_eq : ∃ k, k = 1074 ∧ unitsPerOne = 2 ^ k := by
  unfold unitsPerOne
  generalize 1074 = k
  exact ⟨k, rfl, rfl⟩

theorem unitsPerOne_pos : 0 < unitsPerOne := by
  obtain ⟨k, -, hunits⟩ := exists_unitsPerOne_eq
  rw [hunits]
  exact Nat.two_pow_pos k

theorem int_unitsPerOne_pos : (0 : Int) < unitsPerOne := Int.natCast_pos.2 unitsPerOne_pos

/-! ## The integer part -/

/-- The integer part is less than one away, on either side. -/
theorem whole_bounds (x : Binary64) :
    (x.whole - 1) * unitsPerOne < x.units ∧ x.units < (x.whole + 1) * unitsPerOne := by
  have hsum := Int.tdiv_mul_add_tmod x.units unitsPerOne
  have hlow := Int.lt_tmod_of_pos x.units int_unitsPerOne_pos
  have hhigh := Int.tmod_lt_of_pos x.units int_unitsPerOne_pos
  unfold whole
  rw [Int.sub_mul, Int.add_mul, Int.one_mul]
  omega

/-- An integer other than the integer part is on the same side of the part as of the float. -/
theorem compare_whole (n : Int) :
    (Ord.compare n x.whole).then (Ord.compare (x.whole * unitsPerOne) x.units) =
      Ord.compare (n * unitsPerOne) x.units := by
  obtain ⟨hlow, hhigh⟩ := x.whole_bounds
  rcases Int.lt_trichotomy n x.whole with h | rfl | h
  · have hle : n * unitsPerOne ≤ (x.whole - 1) * unitsPerOne :=
      Int.mul_le_mul_of_nonneg_right (by omega) (Int.le_of_lt int_unitsPerOne_pos)
    have hlt : n * unitsPerOne < x.units := by omega
    rw [Int.compare_eq_lt.2 h, Int.compare_eq_lt.2 hlt]
    rfl
  · rw [Std.ReflOrd.compare_self, Ordering.eq_then]
  · have hle : (x.whole + 1) * unitsPerOne ≤ n * unitsPerOne :=
      Int.mul_le_mul_of_nonneg_right (by omega) (Int.le_of_lt int_unitsPerOne_pos)
    have hlt : x.units < n * unitsPerOne := by omega
    rw [Int.compare_eq_gt.2 h, Int.compare_eq_gt.2 hlt]
    rfl

theorem whole_lt (h : x.units < int64Bound) : x.whole < 2 ^ 63 := by
  unfold whole
  by_cases hsign : 0 ≤ x.units
  · rw [Int.tdiv_eq_ediv_of_nonneg hsign]
    exact Int.ediv_lt_of_lt_mul int_unitsPerOne_pos h
  · have hle : x.units.tdiv unitsPerOne ≤ Int.tdiv 0 unitsPerOne :=
      Int.tdiv_le_tdiv int_unitsPerOne_pos (by omega)
    rw [Int.zero_tdiv] at hle
    omega

theorem le_whole (h : -int64Bound ≤ x.units) : -2 ^ 63 ≤ x.whole := by
  refine Int.le_tdiv_of_mul_le int_unitsPerOne_pos ?_
  rwa [Int.neg_mul]

/-- The integer part of a float between the bounds is one of 64 bits. -/
theorem toInt_toInt64 (hlow : -int64Bound ≤ x.units) (hhigh : x.units < int64Bound) :
    x.toInt64.toInt = x.whole := by
  refine Int64.toInt_ofIntClamp (le_whole hlow) ?_
  have := whole_lt hhigh
  rw [Int64.toInt_maxValue]
  omega

end Binary64

/-- The 64-bit integers are between the bounds. -/
theorem Int64.bounds (n : Int64) : -Binary64.int64Bound ≤ n.toInt * Binary64.unitsPerOne ∧
    n.toInt * Binary64.unitsPerOne < Binary64.int64Bound := by
  unfold Binary64.int64Bound
  constructor
  · rw [← Int.neg_mul]
    exact Int.mul_le_mul_of_nonneg_right n.le_toInt (Int.le_of_lt Binary64.int_unitsPerOne_pos)
  · exact Int.mul_lt_mul_of_pos_right n.toInt_lt Binary64.int_unitsPerOne_pos

namespace Number

/-! ## Places -/

/-- The place of a number on the line, in units of `2^-1074`; a not-a-number has none. -/
def place? : Number → Option Int
  | .int n => some (n.toInt * Binary64.unitsPerOne)
  | .float x => if x.isNaN then none else some x.units

/-- Numbers in the order of their places, with not-a-number at the end. -/
def comparePlaces (a b : Number) : Ordering :=
  match a.place?, b.place? with
  | none, none => .eq
  | none, some _ => .gt
  | some _, none => .lt
  | some p, some q => Ord.compare p q

theorem comparePlaces_int_float (n : Int64) (x : Binary64) : comparePlaces (.int n) (.float x) =
    if x.isNaN then .lt else Ord.compare (n.toInt * Binary64.unitsPerOne) x.units := by
  rw [comparePlaces, place?, place?]
  cases x.isNaN <;> rfl

theorem compareMixed_eq_comparePlaces (n : Int64) (x : Binary64) :
    compareMixed n x = comparePlaces (.int n) (.float x) := by
  obtain ⟨hlow, hhigh⟩ := Int64.bounds n
  rw [compareMixed, comparePlaces_int_float]
  by_cases hnan : x.isNaN = true
  · simp [hnan]
  · simp only [hnan, false_or, Bool.false_eq_true, if_false]
    split
    · exact (Int.compare_eq_lt.2 (by omega)).symm
    · split
      · exact (Int.compare_eq_gt.2 (by omega)).symm
      · rw [Binary64.toInt_toInt64 (by omega) (by omega), Binary64.compare_whole]

theorem comparePlaces_swap (a b : Number) : a.comparePlaces b = (b.comparePlaces a).swap := by
  unfold comparePlaces
  cases a.place? <;> cases b.place? <;> first | rfl | exact Chain.oriented Ord.compare _ _

theorem compare_mul_right (m n : Int) {u : Int} (hu : 0 < u) :
    Ord.compare (m * u) (n * u) = Ord.compare m n := by
  simp only [Int.compare_eq_ite_lt, Int.mul_lt_mul_right hu]

/-- **Numbers compare as their places on the line do.** -/
theorem compare_eq_comparePlaces (a b : Number) : a.compare b = a.comparePlaces b := by
  cases a with
  | int m =>
    cases b with
    | int n => exact (compare_mul_right m.toInt n.toInt Binary64.int_unitsPerOne_pos).symm
    | float y => exact compareMixed_eq_comparePlaces m y
  | float x =>
    cases b with
    | int n =>
      rw [comparePlaces_swap, ← compareMixed_eq_comparePlaces]
      rfl
    | float y =>
      simp only [compare, Binary64.compare, comparePlaces, place?]
      cases x.isNaN <;> cases y.isNaN <;> rfl

theorem comparePlaces_chain (a b c : Number) :
    Chain (a.comparePlaces b) (b.comparePlaces c) (a.comparePlaces c) := by
  unfold comparePlaces
  cases a.place? with
  | none =>
    cases b.place? with
    | none => exact Chain.eq_left _
    | some q => cases c.place? <;> first | exact Chain.gt_lt _ | exact Chain.gt_left _
  | some p =>
    cases b.place? with
    | none => cases c.place? <;> first | exact Chain.eq_right _ | exact Chain.lt_gt _
    | some q =>
      cases c.place? with
      | none => exact Chain.lt_right _
      | some r => exact Chain.of_trans Ord.compare p q r

/-- **The order of numbers is a total preorder.** -/
instance : Std.TransCmp compare := by
  have h : compare = comparePlaces := funext fun a => funext fun b => compare_eq_comparePlaces a b
  rw [h]
  exact Chain.transCmp comparePlaces_swap comparePlaces_chain

end Number

end DocumentDb
