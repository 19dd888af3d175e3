/-
  DocumentDb — how many keys a generator says that it makes.

  * `Realization.rest` is a generator after one key was asked of it: of the keys that it makes, the
    first is gone (`Yields.rest`, `Yields.iterate_rest`).
  * The total is the number of choices of one value per field in 64-bit arithmetic (`total_eq`),
    however many keys were asked for (`total_iterate_rest`).
  * **`KeySpec.total_bounds_left_iff`**: it bounds the keys that are left, and counts those of a
    fresh generator, as long as there are fewer than `2^64`.
-/
import DocumentDb.Proofs.Key.Odometer
import Mathlib.Algebra.BigOperators.Group.List.Basic
import Mathlib.Logic.Function.Iterate

namespace DocumentDb

/-! ## The number of choices -/

theorem KeyChoice.length_product : ∀ choices : List KeyChoice,
    (product choices).length = (choices.map (·.values.length)).prod
  | [] => rfl
  | choice :: rest => by
    simp only [product, List.length_flatMap, List.length_map, List.map_const',
      List.sum_replicate_nat, length_product rest, parts, List.map_cons, List.prod_cons]

namespace Realization

variable {r : Realization} {keys : List CompositeKey}

theorem foldl_mul_ofNat : ∀ (fields : List KeyChoice) (n : Nat),
    fields.foldl (fun n choice => n * UInt64.ofNat choice.values.length) (UInt64.ofNat n) =
      UInt64.ofNat (n * (fields.map (·.values.length)).prod)
  | [], n => by simp
  | choice :: fields, n => by
    rw [List.foldl_cons, ← UInt64.ofNat_mul, foldl_mul_ofNat fields, List.map_cons, List.prod_cons,
      Nat.mul_assoc]

/-- The total is the number of choices in 64-bit arithmetic. -/
theorem total_eq (h : r.fields ≠ []) : r.total =
    UInt64.ofNat (KeyChoice.product r.fields).length := by
  have hempty : r.fields.isEmpty = false := by simpa using h
  have hfold := foldl_mul_ofNat r.fields 1
  rw [Nat.one_mul] at hfold
  rw [total, hempty, KeyChoice.length_product]
  exact hfold

/-! ## Asking for keys -/

/-- The generator after one key was asked of it.  One that makes no more keys stays as it is. -/
def rest (r : Realization) : Realization := (r.next?.map (·.2)).getD r

theorem fields_rest (r : Realization) : r.rest.fields = r.fields := by
  unfold rest next?
  split <;> rfl

/-- A key that was asked for is no longer among those to come. -/
theorem Yields.rest (h : r.Yields keys) : r.rest.Yields keys.tail := by
  cases h with
  | done hend =>
    rw [Realization.rest, hend]
    exact .done hend
  | next hnext hrest =>
    rw [Realization.rest, hnext]
    exact hrest

theorem fields_iterate_rest (r : Realization) (calls : Nat) :
    (rest^[calls] r).fields = r.fields := by
  induction calls with
  | zero => rfl
  | succ calls ih => rw [Function.iterate_succ_apply', fields_rest, ih]

/-- After any number of calls, the keys to come are those that were not asked for. -/
theorem Yields.iterate_rest (h : r.Yields keys) (calls : Nat) :
    (Realization.rest^[calls] r).Yields (keys.drop calls) := by
  induction calls with
  | zero => exact h
  | succ calls ih =>
    rw [Function.iterate_succ_apply', ← List.tail_drop]
    exact ih.rest

/-- The total does not change with the keys that are asked for. -/
theorem total_iterate_rest (r : Realization) (calls : Nat) : (rest^[calls] r).total = r.total := by
  unfold total
  rw [fields_iterate_rest]

end Realization

/-! ## The keys of a document -/

namespace KeySpec

theorem length_keys (spec : KeySpec) (d : Document) :
    (spec.keys d).length = (spec.fields.map fun f => (d.resolve f.segments).length).prod := by
  rw [keys, List.length_map, KeyChoice.length_product, choices, List.map_map]
  rfl

theorem total_realize (spec : KeySpec) (d : Document) :
    (spec.realize d).total = UInt64.ofNat (spec.keys d).length := by
  have hfields : (spec.realize d).fields ≠ [] := List.map_eq_nil_iff.not.2 spec.nonempty
  rw [Realization.total_eq hfields, keys, List.length_map]
  rfl

/-- **However many keys were asked of the generator of a document, those left to come are the later
    ones, and the total is the number `n` of all its keys modulo `2^64`.**  So the total bounds the
    keys left just when the largest multiple of `2^64` up to `n` was asked for; and it counts the
    keys of a fresh generator just when `n` is below `2^64`. -/
theorem total_bounds_left_iff (spec : KeySpec) (d : Document) (calls : Nat) :
    (∀ left, (Realization.rest^[calls] (spec.realize d)).Yields left ↔
      left = (spec.keys d).drop calls) ∧
    (spec.keys d).length = (spec.fields.map fun f => (d.resolve f.segments).length).prod ∧
    (Realization.rest^[calls] (spec.realize d)).total.toNat = (spec.keys d).length % 2 ^ 64 ∧
    (((spec.keys d).drop calls).length ≤ (Realization.rest^[calls] (spec.realize d)).total.toNat ↔
      2 ^ 64 * ((spec.keys d).length / 2 ^ 64) ≤ calls) ∧
    ((spec.realize d).total.toNat = (spec.keys d).length ↔ (spec.keys d).length < 2 ^ 64) := by
  have hyields := (spec.realize_yields d).iterate_rest calls
  have htotal : (spec.realize d).total.toNat = (spec.keys d).length % 2 ^ 64 := by
    rw [total_realize, UInt64.toNat_ofNat']
  rw [Realization.total_iterate_rest, htotal]
  refine ⟨fun left => ⟨fun h => h.unique hyields, fun h => h ▸ hyields⟩, spec.length_keys d,
    rfl, ?_, ?_⟩
  · rw [List.length_drop]
    omega
  · exact Nat.mod_eq_iff_lt (by decide)

/-- An index over sixteen fields. -/
def letters : KeySpec where
  fields := ["a", "b", "c", "d", "e", "f", "g", "h", "i", "j", "k", "l", "m", "n", "o", "p"].pmap
    (fun path h => ⟨path, .ascending, h⟩) (by decide)
  unique := false
  name := "letters"
  nonempty := by decide
  distinct := by decide

/-- A document with sixteen values in each of these fields. -/
def lettered : Document :=
  .ofList (letters.paths.map fun path =>
    (path, .array ((List.range 16).map fun n => .int (.ofNat n))))

/-- It has `2^64` keys, and the total of a fresh generator is zero. -/
theorem letters_total : (letters.realize lettered).Yields (letters.keys lettered) ∧
    (letters.keys lettered).length = 2 ^ 64 ∧ (letters.realize lettered).total = 0 := by
  have hlength : (letters.keys lettered).length = 2 ^ 64 := by
    rw [length_keys]
    decide +kernel
  refine ⟨letters.realize_yields lettered, hlength, ?_⟩
  rw [total_realize, hlength]
  rfl

end KeySpec

end DocumentDb
