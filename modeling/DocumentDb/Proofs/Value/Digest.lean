/-
  DocumentDb — equal values make the same digest.

  * A float that denotes a 64-bit integer is the part of that integer (`Binary64.part_of_integer?`),
    and two equal floats make one part (`Binary64.part_of_compare`): they are the same float, or
    both are zero, or neither is a number.
  * So two equal numbers make one part, whichever forms they have (`Number.part_of_compare`).
  * **`Value.equal_parts`**: equal values, and equal documents, have the same parts in the same
    order, at any depth.
-/
import DocumentDb.Document.Fields
import DocumentDb.Proofs.Number.Integer
import DocumentDb.Proofs.Value.Order
import DocumentDb.Value.Digest

namespace DocumentDb

/-! ## Numbers -/

namespace Binary64

variable {x y : Binary64}

theorem part_of_integer? {n : Int64} (h : x.integer? = some n.toInt) : x.part = .integer n := by
  have hfull : x.exponentField ≠ 2047 := by
    intro he
    simp [integer?, he] at h
  have hunits := (integer?_eq_some_iff hfull).1 h
  have hwhole : x.whole = n.toInt := by
    unfold whole
    rw [hunits, Int.mul_tdiv_cancel _ (Int.ne_of_gt int_unitsPerOne_pos)]
  obtain ⟨hlow, hhigh⟩ := Int64.bounds n
  rw [← hunits] at hlow hhigh
  have hint : x.toInt64 = n := Int64.toInt_inj.1 ((toInt_toInt64 hlow hhigh).trans hwhole)
  rw [part, if_pos ⟨by simp [h], hhigh, hlow⟩, hint]

theorem part_of_isNaN (h : x.isNaN = true) : x.part = .word nan.bits := by
  have hfull : x.exponentField = 2047 := by
    simp only [isNaN, Bool.and_eq_true, beq_iff_eq] at h
    exact h.1
  simp [part, integer?, hfull, h]

/-- Both zeros are the integer. -/
theorem part_of_units_eq_zero (h : x.units = 0) : x.part = .integer 0 := by
  have hexponent := exponentField_of_units_eq_zero h
  refine part_of_integer? ((integer?_eq_some_iff (by omega)).2 ?_)
  rw [h, Int64.toInt_zero, Int.zero_mul]

theorem part_of_compare (h : x.compare y = .eq) : x.part = y.part := by
  unfold compare at h
  cases hx : x.isNaN <;> cases hy : y.isNaN <;> rw [hx, hy] at h
  · have hunits : x.units = y.units := Std.LawfulEqOrd.eq_of_compare h
    by_cases hzero : x.units = 0
    · rw [part_of_units_eq_zero hzero, part_of_units_eq_zero (hunits ▸ hzero)]
    · rw [eq_of_units hunits hzero]
  · cases h
  · cases h
  · rw [part_of_isNaN hx, part_of_isNaN hy]

end Binary64

theorem Number.part_of_compare {a b : Number} (h : a.compare b = .eq) : a.part = b.part := by
  cases a with
  | int m =>
    cases b with
    | int n =>
      cases Int64.toInt_inj.1 (Std.LawfulEqOrd.eq_of_compare h)
      rfl
    | float y =>
      have hinteger := compare_float_int_eq_iff.1 (Std.OrientedCmp.eq_symm h)
      exact (Binary64.part_of_integer? hinteger).symm
  | float x =>
    cases b with
    | int n => exact Binary64.part_of_integer? (compare_float_int_eq_iff.1 h)
    | float y => exact Binary64.part_of_compare h

/-! ## Values -/

mutual
theorem Value.parts_of_compare : ∀ {a b : Value}, a.compare b = .eq → a.parts = b.parts
  | .null, b, h => by
    cases b <;> cases Value.kind_eq_of_compare h
    rfl
  | .bool x, b, h => by
    cases b <;> cases Value.kind_eq_of_compare h
    rw [Std.LawfulEqOrd.eq_of_compare h]
  | .number m, b, h => by
    cases b <;> cases Value.kind_eq_of_compare h
    rw [Value.parts, Value.parts, Number.part_of_compare h]
  | .text s, b, h => by
    cases b <;> cases Value.kind_eq_of_compare h
    rw [Std.LawfulEqOrd.eq_of_compare h]
  | .document d, b, h => by
    cases b <;> cases Value.kind_eq_of_compare h
    rw [Value.parts, Value.parts, Fields.parts_of_compare h]
  | .array l, b, h => by
    cases b <;> cases Value.kind_eq_of_compare h
    obtain ⟨hlength, hparts⟩ := Value.partsOfItems_of_compareItems h
    rw [Value.parts, Value.parts, hlength, hparts]
theorem Fields.parts_of_compare : ∀ {bound bound' : Option String} {d : Fields bound}
    {d' : Fields bound'}, d.compare d' = .eq → d.parts = d'.parts
  | _, _, .nil, .nil, _ => rfl
  | _, _, .cons key _ value rest, .cons key' _ value' rest', h => by
    rw [Fields.compare, Ordering.then_eq_eq, Ordering.then_eq_eq] at h
    obtain ⟨hkey, hvalue, hrest⟩ := h
    rw [Fields.parts, Fields.parts, Value.parts_of_compare hvalue, Fields.parts_of_compare hrest,
      Std.LawfulEqOrd.eq_of_compare hkey]
/-- Equal items are as many, so that the length of an array is the same too. -/
theorem Value.partsOfItems_of_compareItems : ∀ {l l' : List Value}, Value.compareItems l l' = .eq →
    l.length = l'.length ∧ Value.partsOfItems l = Value.partsOfItems l'
  | [], [], _ => ⟨rfl, rfl⟩
  | value :: rest, value' :: rest', h => by
    rw [Value.compareItems, Ordering.then_eq_eq] at h
    obtain ⟨hlength, hparts⟩ := Value.partsOfItems_of_compareItems h.2
    rw [Value.partsOfItems, Value.partsOfItems, Value.parts_of_compare h.1, hparts]
    exact ⟨congrArg (· + 1) hlength, rfl⟩
end

/-- **Equal values have the same parts**, and so have equal documents: whatever the forms of the
    numbers in them, and at any depth, the same is put into their digests in the same order. -/
theorem Value.equal_parts :
    (∀ a b : Value, (a == b) = true → a.parts = b.parts) ∧
      ∀ d d' : Document, (d == d') = true → d.parts = d'.parts :=
  ⟨fun _ _ h => parts_of_compare (beq_iff.1 h),
    fun d d' h => Fields.parts_of_compare (beq_iff_eq (a := d.compare d').1 h)⟩

/-- A value with floats throughout: one, a negative zero inside a document, and a not-a-number with
    bits of its own. -/
def floatForms : Value := .array
  [.float ⟨0x3ff0000000000000⟩, .document (Document.single "n" (.float ⟨0x8000000000000000⟩)),
    .float ⟨0xfff8000000000001⟩]

/-- The same value with integers where there are some. -/
def integerForms : Value := .array
  [.int 1, .document (Document.single "n" (.int 0)), .float .nan]

theorem forms_equal_parts :
    ((floatForms == integerForms) = true ∧ floatForms.parts = integerForms.parts) ∧
      (Document.single "in" floatForms == Document.single "in" integerForms) = true ∧
      (Document.single "in" floatForms).parts = (Document.single "in" integerForms).parts := by
  have hvalue : (floatForms == integerForms) = true := by decide +kernel
  have hdocument : (Document.single "in" floatForms == Document.single "in" integerForms) =
      true := by
    decide +kernel
  exact ⟨⟨hvalue, Value.equal_parts.1 _ _ hvalue⟩, hdocument, Value.equal_parts.2 _ _ hdocument⟩

end DocumentDb
