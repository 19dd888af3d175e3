/-
  DocumentDb — numbers compare exactly, and the native order is a total order.

  * `Binary64.rational` reads the three fields of a finite float as a rational, and
    `Binary64.denoted` adds the two infinities; `Number.denoted` has the integers as well.
  * `valueAt` is the number at a place on the line.  It is strictly increasing between the
    infinities (`strictMonoOn_valueAt`), and every number is denoted at its place
    (`Number.denoted_eq_valueAt`), so numbers compare as what they denote (`Number.compare_eq_cmp`).
  * **`Value.compare_total_order`**: the native order of all values, with an integer against a float
    by what the bits denote.
-/
import DocumentDb.Proofs.Number.Magnitude
import DocumentDb.Proofs.Value.Order
import Mathlib

namespace DocumentDb

/-! ## What a number denotes -/

namespace Binary64

variable {x : Binary64}

/-- The absolute value that the bits of a finite float denote: the fraction with a leading one, and
    without it where no exponent bit is set. -/
def size (x : Binary64) : ℚ :=
  if x.exponentField = 0 then (x.fractionField : ℚ) / 2 ^ 52 * 2 ^ (-1022 : ℤ)
  else (1 + (x.fractionField : ℚ) / 2 ^ 52) * 2 ^ ((x.exponentField : ℤ) - 1023)

/-- The rational that the bits of a finite float denote. -/
def rational (x : Binary64) : ℚ := if x.isNegative then -x.size else x.size

/-- What the bits of a float denote, an infinity or a rational, unless it is not a number. -/
def denoted (x : Binary64) : WithBot (WithTop ℚ) :=
  if x.isInfinite then if x.isNegative then ⊥ else ⊤
  else ((x.rational : WithTop ℚ) : WithBot (WithTop ℚ))

theorem rat_unitsPerOne_pos : (0 : ℚ) < unitsPerOne := by exact_mod_cast unitsPerOne_pos

theorem size_mul_unitsPerOne (x : Binary64) : x.size * unitsPerOne = x.magnitude := by
  obtain ⟨k, hk, hunits⟩ := exists_unitsPerOne_eq
  -- in units the exponents are natural numbers, and the fraction counts units
  have hmerge (e : ℤ) : (2 : ℚ) ^ e * unitsPerOne = 2 ^ 52 * 2 ^ (e + 1022) := by
    have hsum : e + k = (52 : ℕ) + (e + 1022) := by omega
    rw [hunits, Nat.cast_pow, Nat.cast_ofNat, ← zpow_natCast, ← zpow_natCast,
      ← zpow_add₀ two_ne_zero, ← zpow_add₀ two_ne_zero, hsum]
  unfold size
  by_cases he : x.exponentField = 0
  · rw [if_pos he, magnitude_of_subnormal he, mul_assoc, hmerge]
    norm_num
  · have hpower : (x.exponentField : ℤ) - 1023 + 1022 = (x.exponentField - 1 : ℕ) := by omega
    rw [if_neg he, magnitude_of_normal he, mul_assoc, hmerge, hpower, zpow_natCast, Nat.cast_mul,
      Nat.cast_add, Nat.cast_pow, Nat.cast_pow, Nat.cast_ofNat]
    field_simp

theorem rational_mul_unitsPerOne (x : Binary64) : x.rational * unitsPerOne = x.units := by
  unfold rational units
  split
  · rw [neg_mul, size_mul_unitsPerOne, Int.cast_neg, Int.cast_natCast]
  · rw [size_mul_unitsPerOne, Int.cast_natCast]

/-! ## Places on the line -/

/-- The place of the positive infinity. -/
def infinity : Nat := Nat.pow 2 2098

theorem exists_infinity_eq : ∃ k, k = 2098 ∧ infinity = 2 ^ k := by
  unfold infinity
  generalize 2098 = k
  exact ⟨k, rfl, rfl⟩

theorem magnitude_of_isInfinite (h : x.isInfinite = true) : x.magnitude = infinity := by
  obtain ⟨k, hk, hinfinity⟩ := exists_infinity_eq
  obtain ⟨hexponent, hfraction⟩ : x.exponentField = 2047 ∧ x.fractionField = 0 := by
    simpa [isInfinite] using h
  have hsum : 52 + (x.exponentField - 1) = k := by omega
  rw [magnitude_of_normal (by omega), hfraction, Nat.add_zero, ← Nat.pow_add, hsum, hinfinity]

theorem magnitude_lt_infinity (h : x.exponentField < 2047) : x.magnitude < infinity := by
  obtain ⟨k, hk, hinfinity⟩ := exists_infinity_eq
  have hle : 52 + x.exponentField ≤ k := by omega
  rw [hinfinity]
  exact Nat.lt_of_lt_of_le x.magnitude_lt (Nat.pow_le_pow_right (by decide) hle)

theorem int64Bound_lt_infinity : int64Bound < infinity := by
  obtain ⟨k, hk, hunits⟩ := exists_unitsPerOne_eq
  obtain ⟨k', hk', hinfinity⟩ := exists_infinity_eq
  have hlt : 2 ^ 63 * 2 ^ k < 2 ^ k' := by
    rw [← Nat.pow_add]
    exact Nat.pow_lt_pow_right (by decide) (by omega)
  rw [int64Bound, Int.pow_eq, hunits, hinfinity]
  exact_mod_cast hlt

/-- The number at a place, from one infinity to the other. -/
def valueAt (place : Int) : WithBot (WithTop ℚ) :=
  if place ≤ -infinity then ⊥
  else if infinity ≤ place then ⊤
  else (((place : ℚ) / unitsPerOne : ℚ) : WithTop ℚ)

theorem strictMonoOn_valueAt : StrictMonoOn valueAt (Set.Icc (-infinity) infinity) := by
  intro p hp q hq hlt
  -- only the smaller place can be that of the negative infinity, and only the larger the other
  have hq' : ¬q ≤ -infinity := not_le.2 (lt_of_le_of_lt hp.1 hlt)
  have hp' : ¬(infinity : Int) ≤ p := not_le.2 (lt_of_lt_of_le hlt hq.2)
  unfold valueAt
  rw [if_neg hq', if_neg hp']
  by_cases hbot : p ≤ -infinity
  · rw [if_pos hbot]
    split
    · exact WithBot.bot_lt_coe _
    · exact WithBot.bot_lt_coe _
  · rw [if_neg hbot]
    split
    · exact WithBot.coe_lt_coe.2 (WithTop.coe_lt_top _)
    · refine WithBot.coe_lt_coe.2 (WithTop.coe_lt_coe.2 ?_)
      exact div_lt_div_of_pos_right (Int.cast_lt.2 hlt) rat_unitsPerOne_pos

theorem valueAt_of_lt {place : Int} (hlow : -infinity < place) (hhigh : place < infinity) :
    valueAt place = (((place : ℚ) / unitsPerOne : ℚ) : WithTop ℚ) := by
  rw [valueAt, if_neg (not_le.2 hlow), if_neg (not_le.2 hhigh)]

theorem infinity_pos : (0 : Int) < infinity := by
  obtain ⟨k, -, hinfinity⟩ := exists_infinity_eq
  rw [hinfinity]
  exact Int.natCast_pos.2 (Nat.two_pow_pos k)

theorem valueAt_infinity : valueAt infinity = ⊤ := by
  have hpos := infinity_pos
  rw [valueAt, if_neg (by omega), if_pos le_rfl]

theorem valueAt_neg_infinity : valueAt (-infinity) = ⊥ := if_pos le_rfl

/-- The exponent bits are not all set in a float that is neither infinite nor a not-a-number. -/
theorem exponentField_lt_of_finite (hnan : x.isNaN = false) (hinfinite : x.isInfinite = false) :
    x.exponentField < 2047 := by
  have hexponent := x.exponentField_lt
  have hfull : x.exponentField ≠ 2047 := by
    intro he
    simp only [isNaN, isInfinite, he, beq_self_eq_true, Bool.true_and] at hnan hinfinite
    rw [bne, hinfinite] at hnan
    cases hnan
  omega

/-- A float denotes the value at its place, which is between the infinities. -/
theorem denoted_eq_valueAt (hnan : x.isNaN = false) :
    x.units ∈ Set.Icc (-infinity : Int) infinity ∧ x.denoted = valueAt x.units := by
  have hpos := infinity_pos
  cases hinfinite : x.isInfinite with
  | true =>
    rw [denoted, hinfinite, if_pos rfl, units, magnitude_of_isInfinite hinfinite]
    split
    · exact ⟨⟨le_rfl, by omega⟩, valueAt_neg_infinity.symm⟩
    · exact ⟨⟨by omega, le_rfl⟩, valueAt_infinity.symm⟩
  | false =>
    have habs := x.natAbs_units
    have hlt := magnitude_lt_infinity (exponentField_lt_of_finite hnan hinfinite)
    have hlow : -(infinity : Int) < x.units := by omega
    have hhigh : x.units < infinity := by omega
    refine ⟨⟨hlow.le, hhigh.le⟩, ?_⟩
    rw [valueAt_of_lt hlow hhigh, denoted, hinfinite, if_neg Bool.false_ne_true,
      ← rational_mul_unitsPerOne, mul_div_cancel_right₀ _ rat_unitsPerOne_pos.ne']

end Binary64

namespace Number

open Binary64

/-- What a number denotes, unless it is not a number. -/
def denoted : Number → WithBot (WithTop ℚ)
  | .int n => ((n.toInt : ℚ) : WithTop ℚ)
  | .float x => x.denoted

/-- A number denotes the value at its place, which is between the infinities. -/
theorem denoted_eq_valueAt {a : Number} {p : Int} (h : a.place? = some p) :
    p ∈ Set.Icc (-infinity : Int) infinity ∧ a.denoted = valueAt p := by
  cases a with
  | int n =>
    obtain rfl : n.toInt * unitsPerOne = p := Option.some.inj h
    obtain ⟨hlow, hhigh⟩ := Int64.bounds n
    have hbound := int64Bound_lt_infinity
    have hlow' : -(infinity : Int) < n.toInt * unitsPerOne := by omega
    have hhigh' : n.toInt * unitsPerOne < infinity := by omega
    refine ⟨⟨hlow'.le, hhigh'.le⟩, ?_⟩
    rw [valueAt_of_lt hlow' hhigh', Int.cast_mul, Int.cast_natCast,
      mul_div_cancel_right₀ _ rat_unitsPerOne_pos.ne']
    rfl
  | float x =>
    cases hnan : x.isNaN <;> simp only [place?, hnan] at h
    · obtain rfl : x.units = p := Option.some.inj h
      exact Binary64.denoted_eq_valueAt hnan
    · cases h

/-- **Numbers compare as what they denote.** -/
theorem compare_eq_cmp {a b : Number} {p q : Int} (ha : a.place? = some p)
    (hb : b.place? = some q) : a.compare b = cmp a.denoted b.denoted := by
  obtain ⟨hp, hvalue⟩ := denoted_eq_valueAt ha
  obtain ⟨hq, hvalue'⟩ := denoted_eq_valueAt hb
  rw [compare_eq_comparePlaces, comparePlaces, ha, hb, hvalue, hvalue',
    strictMonoOn_valueAt.cmp_map_eq hp hq]
  exact (cmp_eq_compare p q).symm

theorem compare_int_float (n : Int64) {x : Binary64} (hnan : x.isNaN = false) :
    (int n).compare (float x) = cmp
    (((n.toInt : ℚ) : WithTop ℚ) : WithBot (WithTop ℚ)) x.denoted := by
  have hplace : (float x).place? = some x.units := by
    rw [place?, hnan, if_neg Bool.false_ne_true]
  exact compare_eq_cmp rfl hplace

end Number

/-! ## The order of all values -/

/-- **The native order is a total order of all values, and an integer against a float other than a
    not-a-number is the comparison of the integer with what the bits denote.** -/
theorem Value.compare_total_order :
    (∀ a : Value, a.compare a = .eq) ∧
    (∀ a b : Value, b.compare a = (a.compare b).swap) ∧
    (∀ a b : Value, (a.compare b).isLE ∨ (b.compare a).isLE) ∧
    (∀ a b : Value, (a.compare b).isLE → (b.compare a).isLE → (a == b) = true) ∧
    (∀ a b c : Value, (a.compare b).isLE → (b.compare c).isLE → (a.compare c).isLE) ∧
    ∀ (n : Int64) (x : Binary64), x.isNaN = false →
      (Value.int n).compare (.float x) =
        cmp (((n.toInt : ℚ) : WithTop ℚ) : WithBot (WithTop ℚ)) x.denoted := by
  refine ⟨fun a => Std.ReflCmp.compare_self, fun a b => compare_swap b a, fun a b => ?_,
    fun a b hab hba => ?_, fun a b c => Std.TransCmp.isLE_trans,
    fun n x hnan => Number.compare_int_float n hnan⟩
  · rw [compare_swap b a]
    exact Chain.isLE_or_isLE_swap _
  · rw [compare_swap b a] at hba
    exact beq_iff.2 (Ordering.eq_eq_of_isLE_of_isLE_swap hab hba)

/-- The float `2^53`, the first after which not every integer has one. -/
def largeFloat : Binary64 := ⟨0x4340000000000000⟩

/-- The integer one above it. -/
def largeInteger : Int64 := 9007199254740993

theorem large_numbers_compare :
    (largeFloat.isNaN = false ∧ (Value.int largeInteger).compare (.float largeFloat) = .gt ∧
      cmp (((largeInteger.toInt : ℚ) : WithTop ℚ) : WithBot (WithTop ℚ)) largeFloat.denoted = .gt) ∧
    ((Value.array [.float largeFloat]).compare (.array [.int largeInteger])).isLE ∧
    ((Value.array [.int largeInteger]).compare (.array [.float .nan])).isLE ∧
    ((Value.array [.float largeFloat]).compare (.array [.float .nan])).isLE := by
  obtain ⟨-, -, -, -, htrans, hexact⟩ := Value.compare_total_order
  have hnan : largeFloat.isNaN = false := by decide
  have habove : (Value.int largeInteger).compare (.float largeFloat) = .gt := by decide +kernel
  have hfirst : ((Value.array [.float largeFloat]).compare (.array [.int largeInteger])).isLE := by
    decide +kernel
  have hthen : ((Value.array [.int largeInteger]).compare (.array [.float .nan])).isLE := by
    decide +kernel
  have hmixed := hexact largeInteger largeFloat hnan
  exact ⟨⟨hnan, habove, hmixed.symm.trans habove⟩, hfirst, hthen, htrans _ _ _ hfirst hthen⟩

end DocumentDb
