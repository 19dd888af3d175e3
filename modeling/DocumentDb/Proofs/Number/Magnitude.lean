/-
  DocumentDb — the size of a float and its bits.

  * A float with exponent field `e` has a magnitude below `2^(52 + e)`, and one of at least `2^(51 +
    e)` unless it is subnormal (`magnitude_lt`, `le_magnitude`).  So the magnitude grows with the
    exponent field first (`magnitude_lt_magnitude`), infinities being the largest.
  * **`Binary64.eq_of_units`**: two floats of the same value other than zero have the same bits.
-/
import DocumentDb.Number.Binary64
import Mathlib.Algebra.Group.Nat.Defs

namespace DocumentDb.Binary64

variable {x y : Binary64}

theorem natAbs_units (x : Binary64) : x.units.natAbs = x.magnitude := by
  unfold units
  split <;> simp

/-! ## The fields -/

theorem fractionField_lt (x : Binary64) : x.fractionField < 2 ^ 52 := Nat.mod_lt _ (by decide)

theorem exponentField_lt (x : Binary64) : x.exponentField < 2 ^ 11 := Nat.mod_lt _ (by decide)

/-- The three fields make up the bits. -/
theorem toNat_bits (x : Binary64) : x.bits.toNat =
    (if x.isNegative then 2 ^ 63 else 0) + x.exponentField * 2 ^ 52 + x.fractionField := by
  have hsize := x.bits.toNat_lt
  simp only [isNegative, exponentField, fractionField, Nat.pow_eq, decide_eq_true_eq]
  split <;> omega

theorem eq_of_fields (hsign : x.isNegative = y.isNegative)
    (hexponent : x.exponentField = y.exponentField)
    (hfraction : x.fractionField = y.fractionField) : x = y := by
  have hbits : x.bits.toNat = y.bits.toNat := by
    rw [toNat_bits, toNat_bits, hsign, hexponent, hfraction]
  cases x
  cases y
  exact congrArg mk (UInt64.toNat_inj.1 hbits)

/-! ## The size -/

theorem magnitude_of_subnormal (h : x.exponentField = 0) : x.magnitude = x.fractionField := by
  simp [magnitude, significand, scale, h]

theorem magnitude_of_normal (h : x.exponentField ≠ 0) :
    x.magnitude = (2 ^ 52 + x.fractionField) * 2 ^ (x.exponentField - 1) := by
  simp only [magnitude, significand, scale, h, if_false, Nat.pow_eq]

theorem magnitude_lt (x : Binary64) : x.magnitude < 2 ^ (52 + x.exponentField) := by
  have hfraction := x.fractionField_lt
  by_cases he : x.exponentField = 0
  · rw [magnitude_of_subnormal he, he]
    exact hfraction
  · have hexponent : 52 + x.exponentField = 53 + (x.exponentField - 1) := by omega
    rw [magnitude_of_normal he, hexponent, Nat.pow_add]
    exact Nat.mul_lt_mul_of_pos_right (by omega) (Nat.two_pow_pos _)

theorem le_magnitude (h : x.exponentField ≠ 0) : 2 ^ (51 + x.exponentField) ≤ x.magnitude := by
  have hexponent : 51 + x.exponentField = 52 + (x.exponentField - 1) := by omega
  rw [magnitude_of_normal h, hexponent, Nat.pow_add]
  exact Nat.mul_le_mul_right _ (Nat.le_add_right _ _)

theorem magnitude_lt_magnitude (h : x.exponentField < y.exponentField) :
    x.magnitude < y.magnitude :=
  calc x.magnitude < 2 ^ (52 + x.exponentField) := x.magnitude_lt
    _ ≤ 2 ^ (51 + y.exponentField) := Nat.pow_le_pow_right (by decide) (by omega)
    _ ≤ y.magnitude := le_magnitude (by omega)

/-- The magnitude tells the exponent and the fraction. -/
theorem fields_of_magnitude (h : x.magnitude = y.magnitude) :
    x.exponentField = y.exponentField ∧ x.fractionField = y.fractionField := by
  have hexponent : x.exponentField = y.exponentField := by
    rcases Nat.lt_trichotomy x.exponentField y.exponentField with hlt | he | hlt
    · exact absurd h (Nat.ne_of_lt (magnitude_lt_magnitude hlt))
    · exact he
    · exact absurd h (Nat.ne_of_gt (magnitude_lt_magnitude hlt))
  refine ⟨hexponent, ?_⟩
  by_cases he : x.exponentField = 0
  · rwa [magnitude_of_subnormal he, magnitude_of_subnormal (hexponent ▸ he)] at h
  · rw [magnitude_of_normal he, magnitude_of_normal (hexponent ▸ he), hexponent] at h
    exact Nat.add_left_cancel (Nat.eq_of_mul_eq_mul_right (Nat.two_pow_pos _) h)

/-! ## The value -/

/-- Floats of the same value have the same exponent and fraction, so only their signs can differ. -/
theorem fields_of_units (h : x.units = y.units) :
    x.exponentField = y.exponentField ∧ x.fractionField = y.fractionField := by
  refine fields_of_magnitude ?_
  rw [← natAbs_units, ← natAbs_units, h]

/-- **Two floats of the same value other than zero are the same.** -/
theorem eq_of_units (h : x.units = y.units) (hne : x.units ≠ 0) : x = y := by
  obtain ⟨hexponent, hfraction⟩ := fields_of_units h
  refine eq_of_fields ?_ hexponent hfraction
  unfold units at h hne
  cases hx : x.isNegative <;> cases hy : y.isNegative <;>
    simp only [hx, hy, Bool.false_eq_true, ↓reduceIte] at h hne ⊢ <;> omega

theorem exponentField_of_units_eq_zero (h : x.units = 0) : x.exponentField = 0 := by
  rw [← Int.natAbs_eq_zero, natAbs_units] at h
  by_cases he : x.exponentField = 0
  · exact he
  · have hle := le_magnitude he
    have hpos := Nat.two_pow_pos (51 + x.exponentField)
    omega

end DocumentDb.Binary64
