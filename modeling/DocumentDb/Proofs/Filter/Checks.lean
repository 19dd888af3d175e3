/-
  DocumentDb — the checks that a filter makes.

  * A `Filter.Check` is one thing that a filter asks about one path, or a place where it asks for
    nothing that there is.  `Document.checks` lists the checks of a filter in the order of its keys,
    also those of embedded filters.
  * **`Fields.admits_eq_runAll`**: to evaluate a filter is to run its checks, up to the
    first that fails.
  * Whether a check can be run at all does not depend on the document (`Check.run_of_fault?`,
    `Check.exists_run_of_sound`).  So a filter with a check that cannot be run refuses a document,
    or is refused for that check, which documents that pass all checks before it bring out
    (`runAll_of_fault`).
-/
import DocumentDb.Proofs.Filter.Constraint

namespace DocumentDb

namespace Filter

/-- One question that a filter asks of a document. -/
inductive Check where
  /-- A value is found at a path. -/
  | equals (path : String) (wanted : Value)
  /-- The operator with a key holds at a path. -/
  | operator (path key : String) (operand : Value)
  /-- A constraint with operators beside plain fields. -/
  | mixed (constraint : Document)
  /-- An operator in place of a path. -/
  | stray (key : String)

/-- The fault for which an operator with its operand cannot be applied, whatever is found. -/
def testFault? (key : String) (operand : Value) : Option Fault :=
  match Operator.ofKey? key with
  | some .oneOf =>
    match operand with
    | .array _ => none
    | other => some (.optionsNotArray other)
  | some _ => none
  | none => some (.unsupportedOperator key)

namespace Check

/-- The outcome of a check for a document. -/
def run (d : Document) : Check → Except Fault Bool
  | equals path wanted => do
    let found ← d.candidates path
    return equalsAny found wanted
  | operator path key operand => do
    let found ← d.candidates path
    test found key operand
  | mixed constraint => .error (.mixedOperators constraint)
  | stray key => .error (.unsupportedOperator key)

/-- The fault for which a check cannot be run. -/
def fault? : Check → Option Fault
  | equals path _ => if Path.isValid path then none else some (.invalidFilterPath path)
  | operator path key operand =>
    if Path.isValid path then testFault? key operand else some (.invalidFilterPath path)
  | mixed constraint => some (.mixedOperators constraint)
  | stray key => some (.unsupportedOperator key)

/-- Whether a document passes some checks; the first that fails, or that cannot be run, decides. -/
def runAll (d : Document) : List Check → Except Fault Bool
  | [] => .ok true
  | check :: rest => do
    if ← check.run d then runAll d rest else return false

/-- The checks before the first that cannot be run. -/
def sound (checks : List Check) : List Check := checks.takeWhile (·.fault?.isNone)

end Check

end Filter

open DocumentDb.Filter (Check isOperators isOperatorKey test testAll testFault?)

mutual
/-- The checks that a constraint at a path makes. -/
def Value.checksAt (path : String) : Value → List Check
  | .document constraint =>
    match isOperators constraint with
    | .ok true => constraint.toList.map fun (key, operand) => .operator path key operand
    | .ok false => constraint.checksBelow path
    | .error _ => [.mixed constraint]
  | wanted => [.equals path wanted]
/-- The checks that the entries of a filter below a path make. -/
def Fields.checksBelow (path : String) : {bound : Option String} → Fields bound → List Check
  | _, .nil => []
  | _, .cons key _ constraint rest =>
    constraint.checksAt (Path.child path key) ++ rest.checksBelow path
end

/-- The checks that a filter makes. -/
def Fields.checks : {bound : Option String} → Fields bound → List Check
  | _, .nil => []
  | _, .cons key _ constraint rest =>
    (if isOperatorKey key then [.stray key] else constraint.checksAt key) ++ rest.checks

/-- The fault for which a filter may be refused: that of its first check that cannot be run. -/
def Document.defect? (filter : Document) : Option Fault := filter.checks.findSome? (·.fault?)

/-! ## Evaluation -/

namespace Filter.Check

variable {d : Document} {checks : List Check} {fault : Fault}

theorem runAll_append (d : Document) (checks checks' : List Check) :
    runAll d (checks ++ checks') =
      (do if ← runAll d checks then runAll d checks' else return false) := by
  induction checks with
  | nil => rfl
  | cons check rest ih =>
    rw [List.cons_append, runAll, runAll, ih]
    rcases check.run d with fault | holds
    · rfl
    · cases holds <;> rfl

theorem runAll_singleton (d : Document) (check : Check) : runAll d [check] = check.run d := by
  rw [runAll]
  rcases check.run d with fault | holds
  · rfl
  · cases holds <;> rfl

/-- Operators are tried one after the other, all on what is found at their path. -/
theorem runAll_operators {path : String} {found : List Value} (h : d.candidates path = .ok found) :
    ∀ tests : List (String × Value),
      runAll d (tests.map fun e => .operator path e.1 e.2) = testAll found tests
  | [] => rfl
  | (key, operand) :: rest => by
    rw [List.map_cons, runAll, testAll, runAll_operators h rest, run, h]
    rfl

end Filter.Check

open DocumentDb.Filter.Check (runAll runAll_append runAll_singleton runAll_operators)

theorem Filter.eq_of_isOperators_eq_error {constraint : Document} {fault : Fault}
    (h : isOperators constraint = .error fault) : fault = .mixedOperators constraint := by
  unfold isOperators at h
  dsimp only at h
  split at h
  · cases h
  · split at h
    · cases h
    · exact (Except.error.inj h).symm

/-- A constraint made of operators has some. -/
theorem Filter.toList_ne_nil_of_isOperators {constraint : Document}
    (h : isOperators constraint = .ok true) : constraint.toList ≠ [] := by
  intro hnil
  unfold isOperators at h
  rw [hnil] at h
  cases h

mutual
theorem Value.holdsAt_eq_runAll : ∀ (constraint : Value) (d : Document) (path : String),
    constraint.holdsAt d path = runAll d (constraint.checksAt path)
  | .document constraint, d, path => by
    rw [Value.holdsAt, Value.checksAt]
    cases ho : isOperators constraint with
    | error fault =>
      rw [Filter.eq_of_isOperators_eq_error ho]
      exact (runAll_singleton d (.mixed constraint)).symm
    | ok operators =>
      cases operators with
      | false => exact Fields.holdBelow_eq_runAll constraint d path
      | true =>
        cases hf : d.candidates path with
        | ok found => exact (runAll_operators hf constraint.toList).symm
        | error fault =>
          -- there is an operator, and the first one already stumbles over the path
          obtain ⟨e, rest, he⟩ :=
            List.exists_cons_of_ne_nil (Filter.toList_ne_nil_of_isOperators ho)
          simp only [he, List.map_cons, runAll, Filter.Check.run, hf]
          rfl
  | .null, d, path | .bool _, d, path | .number _, d, path | .text _, d, path
  | .array _, d, path => by
    rw [Value.holdsAt]
    · exact (runAll_singleton d (.equals path _)).symm
    · exact nofun
theorem Fields.holdBelow_eq_runAll :
    ∀ {bound : Option String} (constraints : Fields bound) (d : Document)
    (path : String), constraints.holdBelow d path = runAll d (constraints.checksBelow path)
  | _, .nil, _, _ => rfl
  | _, .cons key _ constraint rest, d, path => by
    rw [Fields.holdBelow, Fields.checksBelow, runAll_append, constraint.holdsAt_eq_runAll d,
      rest.holdBelow_eq_runAll d path]
end

/-- **To evaluate a filter is to run its checks.** -/
theorem Fields.admits_eq_runAll {bound : Option String} (filter : Fields bound) (d : Document) :
    filter.admits d = runAll d filter.checks := by
  induction filter using Fields.ind with
  | nil => rfl
  | cons key _ constraint rest ih =>
    rw [Fields.admits, Fields.checks]
    split
    · rfl
    · rw [runAll_append, constraint.holdsAt_eq_runAll d key, ih]

/-! ## Checks that cannot be run -/

theorem exists_candidates_of_isValid {path : String} (h : Path.isValid path = true) (d : Document) :
    ∃ found, d.candidates path = .ok found := by
  obtain ⟨first, rest, hs⟩ := Path.exists_segments path
  exact ⟨_, Document.candidates_eq_ok h hs⟩

namespace Filter

theorem test_of_testFault? {key : String} {operand : Value} {fault : Fault} (found : List Value)
    (h : testFault? key operand = some fault) : test found key operand = .error fault := by
  unfold testFault? at h
  unfold test
  split at h
  · next ho =>
    rw [ho]
    split at h
    · cases h
    · next hother =>
      cases h
      cases operand <;> first | rfl | exact absurd rfl (hother _)
  · cases h
  · next ho =>
    cases h
    rw [ho]

theorem exists_test_eq_ok {key : String} {operand : Value} (found : List Value)
    (h : testFault? key operand = none) : ∃ holds, test found key operand = .ok holds := by
  unfold testFault? at h
  unfold test
  split at h
  · next ho =>
    rw [ho]
    split at h
    · exact ⟨_, rfl⟩
    · cases h
  · next operator hne ho =>
    rw [ho]
    cases operator with
    | oneOf => exact absurd rfl hne
    | _ => exact ⟨_, rfl⟩
  · cases h

namespace Check

variable {check : Check} {checks : List Check} {fault : Fault}

/-- A check that cannot be run fails so on every document. -/
theorem run_of_fault? (h : check.fault? = some fault) (d : Document) :
    check.run d = .error fault := by
  cases check with
  | equals path wanted =>
    rw [fault?] at h
    split at h
    · cases h
    · next hp =>
      cases h
      rw [run, candidates_of_not_isValid (Bool.eq_false_iff.2 hp)]
      rfl
  | operator path key operand =>
    rw [fault?] at h
    split at h
    · next hp =>
      obtain ⟨found, hf⟩ := exists_candidates_of_isValid hp d
      rw [run, hf]
      exact test_of_testFault? found h
    · next hp =>
      cases h
      rw [run, candidates_of_not_isValid (Bool.eq_false_iff.2 hp)]
      rfl
  | mixed constraint | stray key =>
    cases h
    rfl

/-- Any other check is passed or failed by every document. -/
theorem exists_run_of_sound (h : check.fault? = none) (d : Document) :
    ∃ holds, check.run d = .ok holds := by
  cases check with
  | equals path wanted =>
    rw [fault?] at h
    split at h
    · next hp =>
      obtain ⟨found, hf⟩ := exists_candidates_of_isValid hp d
      exact ⟨_, by rw [run, hf]; rfl⟩
    · cases h
  | operator path key operand =>
    rw [fault?] at h
    split at h
    · next hp =>
      obtain ⟨found, hf⟩ := exists_candidates_of_isValid hp d
      obtain ⟨holds, ht⟩ := exists_test_eq_ok found h
      exact ⟨holds, by rw [run, hf]; exact ht⟩
    · cases h
  | mixed constraint | stray key => cases h

/-- Documents that pass the checks before the first that cannot be run bring its fault out,
    others are refused. -/
theorem runAll_of_fault (h : checks.findSome? (·.fault?) = some fault) (d : Document) :
    runAll d (sound checks) = .ok true ∧ runAll d checks = .error fault ∨
      runAll d (sound checks) = .ok false ∧ runAll d checks = .ok false := by
  induction checks with
  | nil => cases h
  | cons check rest ih =>
    rw [List.findSome?_cons] at h
    rw [sound, List.takeWhile_cons]
    cases hc : check.fault? with
    | some fault' =>
      rw [hc] at h
      cases h
      refine Or.inl ⟨rfl, ?_⟩
      rw [runAll, run_of_fault? hc]
      rfl
    | none =>
      rw [hc] at h
      obtain ⟨holds, hrun⟩ := exists_run_of_sound hc d
      simp only [Option.isNone_none, if_true, runAll, hrun]
      cases holds with
      | true => exact ih h
      | false => exact Or.inr ⟨rfl, rfl⟩

end Check

end Filter

/-- A filter with a defect admits no document; whether one brings the defect out depends on the
    checks before it. -/
theorem Document.admits_of_defect {filter : Document} {fault : Fault}
    (h : filter.defect? = some fault) (d : Document) :
    runAll d (Check.sound filter.checks) = .ok true ∧ filter.admits d = .error fault ∨
      runAll d (Check.sound filter.checks) = .ok false ∧ filter.admits d = .ok false := by
  rw [Fields.admits_eq_runAll]
  exact Check.runAll_of_fault h d

end DocumentDb
