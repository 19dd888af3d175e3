/-
  DocumentDb — the equalities of a filter are necessary.

  * **`meets_of_admits`**: a document that a filter admits meets every equality that the filter is
    said to ask for.  Paths through an empty key make a filter that admits nothing, so it does not
    matter that their equalities are listed at other paths (`constraintsAt_of_not_isValid`).
  * No equality is listed at a path that starts like an operator
    (`not_isOperatorKey_of_mem_constraints`).
  * An equality with a value other than null and the arrays is met just where an index finds an
    equal value (`meets_iff_exists_mem_resolve`).
-/
import DocumentDb.Collection.Plan
import DocumentDb.Filter.Match
import DocumentDb.Proofs.Document.Entries
import DocumentDb.Proofs.Filter.Reach
import DocumentDb.Proofs.Outcome
import DocumentDb.Proofs.Text.Path

namespace DocumentDb

open DocumentDb.Filter (isOperators isOperatorKey equalsAny test testAll)

/-- A document has a value at a path that is equal to a given one. -/
def Document.Meets (d : Document) (path : String) (wanted : Value) : Prop :=
  ∃ found, d.candidates path = .ok found ∧ equalsAny found wanted = true

/-! ## One constraint -/

theorem test_of_testAll {found : List Value} : ∀ {tests : List (String × Value)},
    testAll found tests = .ok true → ∀ t ∈ tests, test found t.1 t.2 = .ok true
  | [], _ => nofun
  | (key, operand) :: rest, h => by
    obtain ⟨holds, ht, h⟩ := bind_eq_ok_iff.1 h
    cases holds with
    | false => cases h
    | true =>
      refine List.forall_mem_cons.2 ⟨ht, test_of_testAll h⟩

/-- What it takes to meet a constraint made of operators. -/
theorem holdsAt_document_iff {constraint d : Document} {path : String} :
    (Value.document constraint).holdsAt d path = .ok true ↔
      (isOperators constraint = .ok true ∧ ∃ found, d.candidates path = .ok found ∧
        testAll found constraint.toList = .ok true) ∨
      (isOperators constraint = .ok false ∧ constraint.holdBelow d path = .ok true) := by
  rw [Value.holdsAt, bind_eq_ok_iff]
  constructor
  · rintro ⟨operators, ho, h⟩
    cases operators with
    | true => exact Or.inl ⟨ho, bind_eq_ok_iff.1 h⟩
    | false => exact Or.inr ⟨ho, h⟩
  · rintro (⟨ho, h⟩ | ⟨ho, h⟩)
    · exact ⟨true, ho, bind_eq_ok_iff.2 h⟩
    · exact ⟨false, ho, h⟩

theorem holdBelow_cons_iff {bound : Option String} {key : String} {follows : Follows bound key}
    {constraint : Value} {rest : Fields (some key)} {d : Document} {path : String} :
    (Fields.cons key follows constraint rest).holdBelow d path = .ok true ↔
      constraint.holdsAt d (Path.child path key) = .ok true ∧ rest.holdBelow d path = .ok true := by
  rw [Fields.holdBelow, bind_eq_ok_iff]
  constructor
  · rintro ⟨holds, hc, h⟩
    cases holds with
    | true => exact ⟨hc, h⟩
    | false => cases h
  · rintro ⟨hc, h⟩
    exact ⟨true, hc, h⟩

/-- A filter of one entry is judged by its constraint. -/
theorem Filter.admits_single {key : String} (hkey : isOperatorKey key = false) (constraint : Value)
    (d : Document) : (Document.single key constraint).admits d = constraint.holdsAt d key := by
  have hsingle : (Document.single key constraint).admits d =
      if isOperatorKey key then .error (.unsupportedOperator key)
      else do if ← constraint.holdsAt d key then .ok true else return false := rfl
  rw [hsingle, hkey, if_neg Bool.false_ne_true]
  cases constraint.holdsAt d key with
  | error fault => rfl
  | ok holds => cases holds <;> rfl

/-! ## Paths that cannot be met -/

theorem candidates_of_not_isValid {d : Document} {path : String} (h : Path.isValid path = false) :
    d.candidates path = .error (.invalidFilterPath path) := by
  unfold Document.candidates
  rw [h]
  rfl

theorem isValid_child_of_not {path : String} (h : Path.isValid path = false) (key : String) :
    Path.isValid (Path.child path key) = false := by
  rw [Path.isValid_child, h, Bool.false_and]

mutual
theorem Value.constraintsAt_of_not_isValid : ∀ {constraint : Value} {d : Document} {path : String},
    Path.isValid path = false → constraint.holdsAt d path = .ok true →
    ∀ listed, constraint.constraintsAt listed = []
  | .document constraint, d, path, hp, h, listed => by
    rcases holdsAt_document_iff.1 h with ⟨-, found, hf, -⟩ | ⟨ho, hb⟩
    · rw [candidates_of_not_isValid hp] at hf
      cases hf
    · rw [Value.constraintsAt, ho]
      exact Fields.constraintsBelow_of_not_isValid hp hb listed
  | .null, _, _, hp, h, _ | .bool _, _, _, hp, h, _ | .number _, _, _, hp, h, _
  | .text _, _, _, hp, h, _ | .array _, _, _, hp, h, _ => by
    obtain ⟨found, hf, -⟩ := bind_eq_ok_iff.1 h
    rw [candidates_of_not_isValid hp] at hf
    cases hf
theorem Fields.constraintsBelow_of_not_isValid : ∀ {bound : Option String} {fields : Fields bound}
    {d : Document} {path : String}, Path.isValid path = false → fields.holdBelow d path = .ok true →
    ∀ listed, fields.constraintsBelow listed = []
  | _, .nil, _, _, _, _, _ => rfl
  | _, .cons key _ constraint rest, d, path, hp, h, listed => by
    obtain ⟨hc, hrest⟩ := holdBelow_cons_iff.1 h
    have hchild := isValid_child_of_not hp key
    rw [Fields.constraintsBelow, Value.constraintsAt_of_not_isValid hchild hc,
      Fields.constraintsBelow_of_not_isValid hp hrest]
    split <;> rfl
end

/-! ## Every equality listed is met -/

mutual
theorem Value.meets_of_holdsAt : ∀ {constraint : Value} {d : Document} {path : String}, path ≠ "" →
    constraint.holdsAt d path = .ok true →
    ∀ e ∈ constraint.constraintsAt path, d.Meets e.1 e.2
  | .document constraint, d, path, hp, h, e, he => by
    rcases holdsAt_document_iff.1 h with ⟨ho, found, hf, ht⟩ | ⟨ho, hb⟩
    · rw [Value.constraintsAt, ho] at he
      dsimp only at he
      split at he
      · next operand hop =>
        have htest := test_of_testAll ht _ (Fields.mem_toList_iff.2 hop)
        rw [List.mem_singleton.1 he]
        exact ⟨found, hf, Except.ok.inj htest⟩
      · cases he
    · rw [Value.constraintsAt, ho] at he
      exact Fields.meets_of_holdBelow hp hb e he
  | .null, _, _, _, h, e, he | .bool _, _, _, _, h, e, he | .number _, _, _, _, h, e, he
  | .text _, _, _, _, h, e, he | .array _, _, _, _, h, e, he => by
    obtain ⟨found, hf, heq⟩ := bind_eq_ok_iff.1 h
    rw [List.mem_singleton.1 he]
    exact ⟨found, hf, Except.ok.inj heq⟩
theorem Fields.meets_of_holdBelow : ∀ {bound : Option String} {fields : Fields bound} {d : Document}
    {path : String}, path ≠ "" → fields.holdBelow d path = .ok true →
    ∀ e ∈ fields.constraintsBelow path, d.Meets e.1 e.2
  | _, .cons key _ constraint rest, d, path, hp, h, e, he => by
    obtain ⟨hc, hrest⟩ := holdBelow_cons_iff.1 h
    have hbelow : Path.below path key = Path.child path key :=
      if_neg fun hempty => hp (String.isEmpty_iff.1 hempty)
    rw [Fields.constraintsBelow, hbelow, List.mem_append] at he
    rcases he with he | he
    · split at he
      · cases he
      · exact Value.meets_of_holdsAt (Path.child_ne_empty path key) hc e he
    · exact Fields.meets_of_holdBelow hp hrest e he
end

/-- **A document that a filter admits meets every equality that the filter asks for.** -/
theorem meets_of_admits {bound : Option String} {filter : Fields bound} {d : Document}
    (h : filter.admits d = .ok true) : ∀ e ∈ filter.constraintsBelow "", d.Meets e.1 e.2 := by
  induction filter using Fields.ind with
  | nil => exact nofun
  | cons key _ constraint rest ih =>
    rw [Fields.admits] at h
    split at h
    · cases h
    · next hkey =>
      obtain ⟨holds, hc, h⟩ := bind_eq_ok_iff.1 h
      cases holds with
      | false => cases h
      | true =>
        intro e he
        rw [Fields.constraintsBelow, if_neg hkey, List.mem_append] at he
        rcases he with he | he
        · by_cases hempty : key = ""
          · subst hempty
            rw [Value.constraintsAt_of_not_isValid rfl hc] at he
            cases he
          · exact Value.meets_of_holdsAt hempty hc e he
        · exact ih h e he

/-! ## Where equalities are listed -/

theorem isOperatorKey_below {path key : String} (hp : isOperatorKey path = false)
    (hk : isOperatorKey key = false) : isOperatorKey (Path.below path key) = false := by
  unfold Path.below
  split
  · exact hk
  · next hne =>
    have hl : (Path.child path key).toList = path.toList ++ '.' :: key.toList := by
      simp [Path.child, String.toList_append]
    unfold isOperatorKey at hp ⊢
    rw [hl]
    cases hc : path.toList with
    | nil => exact absurd (String.isEmpty_iff.2 (String.toList_eq_nil_iff.1 hc)) hne
    | cons c cs => simpa [hc] using hp

mutual
theorem Value.not_isOperatorKey_constraintsAt : ∀ {constraint : Value} {path : String},
    isOperatorKey path = false → ∀ e ∈ constraint.constraintsAt path, isOperatorKey e.1 = false
  | .document constraint, path, hp, e, he => by
    rw [Value.constraintsAt] at he
    split at he
    · split at he
      · rw [List.mem_singleton.1 he]
        exact hp
      · cases he
    · exact Fields.not_isOperatorKey_constraintsBelow hp e he
    · cases he
  | .null, _, hp, e, he | .bool _, _, hp, e, he | .number _, _, hp, e, he | .text _, _, hp, e, he
  | .array _, _, hp, e, he => by
    rw [List.mem_singleton.1 he]
    exact hp
theorem Fields.not_isOperatorKey_constraintsBelow :
    ∀ {bound : Option String} {fields : Fields bound}
    {path : String}, isOperatorKey path = false →
    ∀ e ∈ fields.constraintsBelow path, isOperatorKey e.1 = false
  | _, .cons key _ constraint rest, path, hp, e, he => by
    rw [Fields.constraintsBelow, List.mem_append] at he
    rcases he with he | he
    · split at he
      · cases he
      · next hk =>
        exact Value.not_isOperatorKey_constraintsAt
          (isOperatorKey_below hp (Bool.eq_false_iff.2 hk)) e he
    · exact Fields.not_isOperatorKey_constraintsBelow hp e he
end

theorem not_isOperatorKey_of_mem_constraints {filter : Document} {e : String × Value}
    (h : e ∈ filter.constraints) : isOperatorKey e.1 = false :=
  Fields.not_isOperatorKey_constraintsBelow rfl e h

/-! ## Equalities and the values that an index finds -/

namespace Document

variable {d : Document} {path : String} {v : Value}

/-- Apart from null and the arrays, a document meets an equality just when an index finds an
    equal value. -/
theorem meets_iff_exists_mem_resolve (hv : v.isUsable = true) : d.Meets path v ↔
    Path.isValid path = true ∧ ∃ w ∈ d.resolve (Path.segments path), (w == v) = true := by
  obtain ⟨first, rest, hs⟩ := Path.exists_segments path
  rw [hs, exists_mem_resolve_iff hv]
  constructor
  · rintro ⟨found, hf, heq⟩
    cases hp : Path.isValid path with
    | false =>
      rw [candidates_of_not_isValid hp] at hf
      cases hf
    | true =>
      rw [candidates_eq_ok hp hs] at hf
      cases hf
      rw [equalsAny, Value.isNull_of_isUsable hv] at heq
      exact ⟨rfl, List.any_eq_true.1 heq⟩
  · rintro ⟨hp, hw⟩
    refine ⟨_, candidates_eq_ok hp hs, ?_⟩
    rw [equalsAny, Value.isNull_of_isUsable hv]
    exact List.any_eq_true.2 hw

theorem Meets.exists_mem_resolve (h : d.Meets path v) (hv : v.isUsable = true) :
    ∃ w ∈ d.resolve (Path.segments path), (w == v) = true :=
  ((meets_iff_exists_mem_resolve hv).1 h).2

end Document

end DocumentDb
