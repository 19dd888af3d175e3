/-
  DocumentDb — malformed filters.

  * `Value.Malformed`: a constraint has operators beside plain fields, an operator that
    there is not, or a membership test whose operand is no array, in itself or in a
    constraint embedded in it.  A filter is malformed if a constraint of it is, or if it has
    an operator in place of a path.
  * **`Document.Malformed.exists_defect`**: a malformed filter has a check that cannot be run, so it
    has a defect, and the fault is one of filters.
-/
import DocumentDb.Proofs.FaultKinds
import DocumentDb.Proofs.Filter.Checks

namespace DocumentDb

open DocumentDb.Filter (Check Operator isOperators isOperatorKey testFault?)

/-- A constraint that is no constraint, at its place or below. -/
inductive Value.Malformed : Value → Prop where
  /-- Operators stand beside plain fields. -/
  | mixed {constraint : Document} {key plain : String} {operand value : Value}
    (hoperator : (key, operand) ∈ constraint.toList) (hkey : isOperatorKey key = true)
    (hplain : (plain, value) ∈ constraint.toList) (hfield : isOperatorKey plain = false) :
    Malformed (.document constraint)
  /-- There is no such operator. -/
  | unsupported {constraint : Document} {key : String} {operand : Value}
    (hoperator : (key, operand) ∈ constraint.toList) (hkey : isOperatorKey key = true)
    (hnone : Operator.ofKey? key = none) : Malformed (.document constraint)
  /-- The options of a membership test are no array. -/
  | options {constraint : Document} {operand : Value}
    (hoperator : (Operator.oneOf.key, operand) ∈ constraint.toList)
    (hother : ∀ items, operand ≠ .array items) : Malformed (.document constraint)
  /-- A constraint on a field below is malformed. -/
  | embedded {constraint : Document} {key : String} {nested : Value}
    (hmem : (key, nested) ∈ constraint.toList) (hfield : isOperatorKey key = false)
    (hnested : nested.Malformed) : Malformed (.document constraint)

/-- A filter with an operator in place of a path, or with a malformed constraint. -/
def Document.Malformed (filter : Document) : Prop :=
  ∃ e ∈ filter.toList, isOperatorKey e.1 = true ∨ e.2.Malformed

/-! ## Operators among the keys of a constraint -/

namespace Filter

/-- A constraint is embedded if no key is an operator, made of operators if all are, and
    refused else. -/
theorem isOperators_cases (constraint : Document) :
    isOperators constraint = .ok false ∧ (∀ e ∈ constraint.toList, isOperatorKey e.1 = false) ∨
      isOperators constraint = .ok true ∧ (∀ e ∈ constraint.toList, isOperatorKey e.1 = true) ∨
      ∃ fault, isOperators constraint = .error fault := by
  unfold isOperators
  dsimp only
  split
  · next hzero => exact Or.inl ⟨rfl, by simpa [List.countP_eq_zero] using hzero⟩
  · split
    · next hall => exact Or.inr (Or.inl
        ⟨rfl, by simpa [Fields.size, List.countP_eq_length] using hall⟩)
    · exact Or.inr (Or.inr ⟨_, rfl⟩)

namespace Check

theorem exists_fault_operator {key : String} {operand : Value}
    (h : (testFault? key operand).isSome = true) (path : String) :
    ((operator path key operand).fault?).isSome = true := by
  rw [fault?]
  split
  · exact h
  · rfl

end Check

end Filter

/-! ## Malformed constraints -/

theorem Fields.mem_checksBelow {path key : String} {constraint : Value} {check : Check}
    {bound : Option String} {fields : Fields bound} (h : (key, constraint) ∈ fields.toList)
    (hc : check ∈ constraint.checksAt (Path.child path key)) : check ∈ fields.checksBelow path := by
  induction fields using Fields.ind with
  | nil => cases h
  | cons key' _ constraint' rest ih =>
    rw [Fields.checksBelow, List.mem_append]
    rcases List.mem_cons.1 h with he | h
    · cases he
      exact Or.inl hc
    · exact Or.inr (ih h)

theorem Filter.exists_faulty_of_error {constraint : Document} {fault : Fault}
    (ho : isOperators constraint = .error fault) (path : String) :
    ∃ check ∈ (Value.document constraint).checksAt path, (check.fault?).isSome = true := by
  rw [Value.checksAt, ho]
  exact ⟨_, List.mem_singleton_self _, rfl⟩

/-- An operator that cannot be applied makes such a check, beside fields as well as among
    operators. -/
theorem Filter.exists_faulty_of_operator {constraint : Document} {key : String} {operand : Value}
    (hmem : (key, operand) ∈ constraint.toList) (hkey : isOperatorKey key = true)
    (hfault : (testFault? key operand).isSome = true) (path : String) :
    ∃ check ∈ (Value.document constraint).checksAt path, (check.fault?).isSome = true := by
  rcases isOperators_cases constraint with ⟨-, hall⟩ | ⟨ho, -⟩ | ⟨fault, ho⟩
  · cases hkey.symm.trans (hall _ hmem)
  · rw [Value.checksAt, ho]
    exact ⟨_, List.mem_map_of_mem hmem, Check.exists_fault_operator hfault path⟩
  · exact exists_faulty_of_error ho path

/-- **A malformed constraint makes a check that cannot be run, at every path.** -/
theorem Value.Malformed.exists_faulty {constraint : Value} (h : constraint.Malformed)
    (path : String) : ∃ check ∈ constraint.checksAt path, (check.fault?).isSome = true := by
  induction h generalizing path with
  | @mixed constraint key plain operand value hoperator hkey hplain hfield =>
    rcases Filter.isOperators_cases constraint with ⟨-, hall⟩ | ⟨-, hall⟩ | ⟨fault, ho⟩
    · cases hkey.symm.trans (hall _ hoperator)
    · cases hfield.symm.trans (hall _ hplain)
    · exact Filter.exists_faulty_of_error ho path
  | @unsupported constraint key operand hoperator hkey hnone =>
    exact Filter.exists_faulty_of_operator hoperator hkey (by simp [testFault?, hnone]) path
  | @options constraint operand hoperator hother =>
    refine Filter.exists_faulty_of_operator hoperator rfl ?_ path
    cases operand with
    | array items => exact absurd rfl (hother items)
    | _ => rfl
  | @embedded constraint key nested hmem hfield hnested ih =>
    rcases Filter.isOperators_cases constraint with ⟨ho, -⟩ | ⟨-, hall⟩ | ⟨fault, ho⟩
    · obtain ⟨check, hcheck, hfault⟩ := ih (Path.child path key)
      rw [Value.checksAt, ho]
      exact ⟨check, Fields.mem_checksBelow hmem hcheck, hfault⟩
    · cases hfield.symm.trans (hall _ hmem)
    · exact Filter.exists_faulty_of_error ho path

/-! ## Malformed filters -/

theorem Fields.mem_checks {key : String} {constraint : Value} {check : Check}
    {bound : Option String} {fields : Fields bound} (h : (key, constraint) ∈ fields.toList)
    (hc : check ∈ if isOperatorKey key then [.stray key] else constraint.checksAt key) :
    check ∈ fields.checks := by
  induction fields using Fields.ind with
  | nil => cases h
  | cons key' _ constraint' rest ih =>
    rw [Fields.checks, List.mem_append]
    rcases List.mem_cons.1 h with he | h
    · cases he
      exact Or.inl hc
    · exact Or.inr (ih h)

namespace Filter.Check

theorem kind_of_fault? {check : Check} {fault : Fault} (h : check.fault? = some fault) :
    fault.kind = .filterError := by
  cases check with
  | equals path wanted =>
    rcases bind_eq_error_iff.1 (run_of_fault? h .empty) with hf | ⟨found, -, hf⟩
    · exact Document.kind_of_candidates hf
    · cases hf
  | operator path key operand =>
    rcases bind_eq_error_iff.1 (run_of_fault? h .empty) with hf | ⟨found, -, ht⟩
    · exact Document.kind_of_candidates hf
    · exact kind_of_test ht
  | mixed constraint | stray key =>
    cases h
    rfl

end Filter.Check

/-- **A malformed filter has a defect, and it is a fault of the filter.** -/
theorem Document.Malformed.exists_defect {filter : Document} (h : filter.Malformed) :
    ∃ fault, filter.defect? = some fault ∧ fault.kind = .filterError := by
  obtain ⟨⟨key, constraint⟩, he, hbad⟩ := h
  obtain ⟨check, hcheck, hfault⟩ : ∃ check ∈ if isOperatorKey key then [Check.stray key] else
      constraint.checksAt key, (check.fault?).isSome = true := by
    split
    · exact ⟨_, List.mem_singleton_self _, rfl⟩
    · next hkey => exact (hbad.resolve_left hkey).exists_faulty key
  have hsome : (filter.defect?).isSome = true :=
    List.findSome?_isSome_iff.2 ⟨check, Fields.mem_checks he hcheck, hfault⟩
  obtain ⟨fault, hdefect⟩ := Option.isSome_iff_exists.1 hsome
  obtain ⟨check', -, hcheck'⟩ := List.exists_of_findSome?_eq_some hdefect
  exact ⟨fault, hdefect, Check.kind_of_fault? hcheck'⟩

end DocumentDb
