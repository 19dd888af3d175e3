/-
  DocumentDb — floats that are integers.

  * **`Number.compare_float_int_eq_iff`**: a float equals a 64-bit integer just when it denotes that
    integer.  No infinity does, since it reads as a number far beyond 64 bits
    (`Binary64.units_ne_of_full`).
-/
import DocumentDb.Proofs.Number.Magnitude
import DocumentDb.Proofs.Number.Place

namespace DocumentDb

theorem Int64.natAbs_toInt_le (n : Int64) : n.toInt.natAbs ≤ Nat.pow 2 63 := by
  have hlow := n.le_toInt
  have hhigh := n.toInt_lt
  have hpow : Nat.pow 2 63 = 2 ^ 63 := rfl
  omega

/-! ## The integer that a float denotes -/

namespace Binary64

variable {x : Binary64}

/-- No float with full exponent reads as a 64-bit integer. -/
theorem units_ne_of_full (h : x.exponentField = 2047) (n : Int64) :
    x.units ≠ n.toInt * unitsPerOne := by
  intro he
  obtain ⟨k, hk, hunits⟩ := exists_unitsPerOne_eq
  have hsize : x.magnitude = n.toInt.natAbs * unitsPerOne := by
    rw [← natAbs_units, he, Int.natAbs_mul, Int.natAbs_natCast]
  have hlt : x.magnitude < x.magnitude :=
    calc x.magnitude ≤ 2 ^ 63 * 2 ^ k := by
          rw [hsize, hunits]
          exact Nat.mul_le_mul_right _ (Int64.natAbs_toInt_le n)
      _ = 2 ^ (63 + k) := (Nat.pow_add 2 63 k).symm
      _ < 2 ^ (51 + x.exponentField) := Nat.pow_lt_pow_right (by decide) (by omega)
      _ ≤ x.magnitude := le_magnitude (by omega)
  exact Nat.lt_irrefl _ hlt

/-- A finite float denotes the integer whose units it has. -/
theorem integer?_eq_some_iff (h : x.exponentField ≠ 2047) {m : Int} :
    x.integer? = some m ↔ x.units = m * unitsPerOne := by
  unfold integer?
  rw [if_neg h]
  constructor
  · intro hm
    split at hm
    · next hmod =>
      rw [← Option.some.inj hm]
      exact (Int.ediv_mul_cancel (Int.dvd_of_emod_eq_zero hmod)).symm
    · cases hm
  · intro hu
    rw [hu, if_pos (Int.mul_emod_left m _),
      Int.mul_ediv_cancel m (Int.ne_of_gt int_unitsPerOne_pos)]

end Binary64

/-- **A float equals a 64-bit integer just when it denotes that integer.** -/
theorem Number.compare_float_int_eq_iff {x : Binary64} {n : Int64} :
    (Number.float x).compare (.int n) = .eq ↔ x.integer? = some n.toInt := by
  rw [compare_eq_comparePlaces, comparePlaces_swap, comparePlaces_int_float]
  by_cases hfull : x.exponentField = 2047
  · have hinteger : x.integer? = none := if_pos hfull
    rw [hinteger]
    cases x.isNaN with
    | true => exact iff_of_false nofun nofun
    | false =>
      refine iff_of_false (fun he => ?_) nofun
      have hunits := Std.LawfulEqOrd.eq_of_compare (Ordering.swap_eq_eq.1 he)
      exact Binary64.units_ne_of_full hfull n hunits.symm
  · have hnan : x.isNaN = false := by simp [Binary64.isNaN, hfull]
    rw [hnan, Binary64.integer?_eq_some_iff hfull, eq_comm (a := x.units)]
    exact Ordering.swap_eq_eq.trans Std.LawfulEqOrd.compare_eq_iff_eq

end DocumentDb
