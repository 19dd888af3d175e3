/-
  DocumentDb — the kinds of the faults that data raise.

  A document refuses bad keys only (`Fields.kind_of_mergeInto`), a filter is refused as a filter
  (`Fields.kind_of_admits`), and so is what describes an index (`KeySpec.kind_of_ofDocument`).
-/
import DocumentDb.Filter.Match
import DocumentDb.Key.Spec
import DocumentDb.Proofs.Outcome

namespace DocumentDb

variable {d : Document} {key : String} {fault : Fault}

/-! ## Writing and merging -/

theorem Document.kind_of_put {value : Value} (h : d.put key value = .error fault) :
    fault.kind = .invalidFieldName := by
  unfold put at h
  split at h
  · cases h
    rfl
  · split at h
    · split at h
      · cases h
      · cases h
        rfl
    · cases h

mutual
theorem Document.kind_of_mergeEntry : ∀ {value : Value} {d : Document} {key : String},
    d.mergeEntry key value = .error fault → fault.kind = .invalidFieldName
  | .document theirs, d, key, h => by
    rw [Document.mergeEntry] at h
    split at h
    · rcases bind_eq_error_iff.1 h with h | ⟨merged, -, h⟩
      · exact Fields.kind_of_mergeInto h
      · cases h
    · exact Document.kind_of_put h
  | .null, _, _, h => Document.kind_of_put h
  | .bool _, _, _, h => Document.kind_of_put h
  | .number _, _, _, h => Document.kind_of_put h
  | .text _, _, _, h => Document.kind_of_put h
  | .array _, _, _, h => Document.kind_of_put h
theorem Fields.kind_of_mergeInto :
    ∀ {bound : Option String} {changes : Fields bound} {d : Document},
    changes.mergeInto d = .error fault → fault.kind = .invalidFieldName
  | _, .cons key _ value rest, d, h => by
    rcases bind_eq_error_iff.1 h with h | ⟨d', -, h⟩
    · exact Document.kind_of_mergeEntry h
    · exact Fields.kind_of_mergeInto h
end

/-! ## Filters -/

theorem Document.kind_of_candidates {path : String} (h : d.candidates path = .error fault) :
    fault.kind = .filterError := by
  unfold candidates at h
  split at h
  · split at h <;> cases h
  · cases h
    rfl

namespace Filter

variable {found : List Value}

theorem kind_of_test {operand : Value} (h : test found key operand = .error fault) :
    fault.kind = .filterError := by
  unfold test at h
  split at h
  · next operator _ =>
    cases operator with
    | oneOf =>
      unfold Operator.holds? at h
      dsimp only at h
      split at h
      · cases h
      · cases h
        rfl
    | _ => cases h
  · cases h
    rfl

theorem kind_of_testAll : ∀ {operators : List (String × Value)},
    testAll found operators = .error fault → fault.kind = .filterError
  | (key, operand) :: rest, h => by
    rcases bind_eq_error_iff.1 h with h | ⟨holds, -, h⟩
    · exact kind_of_test h
    · cases holds with
      | true => exact kind_of_testAll h
      | false => cases h

theorem kind_of_isOperators {constraint : Document} (h : isOperators constraint = .error fault) :
    fault.kind = .filterError := by
  unfold isOperators at h
  dsimp only at h
  split at h
  · cases h
  · split at h
    · cases h
    · cases h
      rfl

end Filter

mutual
theorem Value.kind_of_holdsAt : ∀ {constraint : Value} {path : String},
    constraint.holdsAt d path = .error fault → fault.kind = .filterError
  | .document constraint, path, h => by
    rw [Value.holdsAt] at h
    rcases bind_eq_error_iff.1 h with h | ⟨operators, -, h⟩
    · exact Filter.kind_of_isOperators h
    · cases operators with
      | true =>
        rcases bind_eq_error_iff.1 h with h | ⟨found, -, h⟩
        · exact Document.kind_of_candidates h
        · exact Filter.kind_of_testAll h
      | false => exact Fields.kind_of_holdBelow h
  | .null, path, h | .bool _, path, h | .number _, path, h | .text _, path, h
  | .array _, path, h => by
    rw [Value.holdsAt] at h
    · rcases bind_eq_error_iff.1 h with h | ⟨found, -, h⟩
      · exact Document.kind_of_candidates h
      · cases h
    · exact nofun
theorem Fields.kind_of_holdBelow :
    ∀ {bound : Option String} {constraints : Fields bound} {path : String},
    constraints.holdBelow d path = .error fault → fault.kind = .filterError
  | _, .cons key _ constraint rest, path, h => by
    rcases bind_eq_error_iff.1 h with h | ⟨holds, -, h⟩
    · exact Value.kind_of_holdsAt h
    · cases holds with
      | true => exact Fields.kind_of_holdBelow h
      | false => cases h
end

theorem Fields.kind_of_admits : ∀ {bound : Option String} {filter : Fields bound},
    filter.admits d = .error fault → fault.kind = .filterError
  | _, .cons key _ constraint rest, h => by
    rw [Fields.admits] at h
    split at h
    · cases h
      rfl
    · rcases bind_eq_error_iff.1 h with h | ⟨holds, -, h⟩
      · exact Value.kind_of_holdsAt h
      · cases holds with
        | true => exact Fields.kind_of_admits h
        | false => cases h

/-! ## Key documents -/

/-- The kinds of the faults for which what describes an index is refused. -/
def FaultKind.IsDescription (kind : FaultKind) : Prop :=
  kind = .validationError ∨ kind = .invalidFieldName

mutual
theorem Value.kind_of_keyFields : ∀ {value : Value} {path : String},
    value.keyFields path = .error fault → fault.kind.IsDescription
  | .document d, path, h => by
    rw [Value.keyFields] at h
    split at h
    · cases h
      exact Or.inl rfl
    · exact Fields.kind_of_keyFieldsBelow h
  | .null, path, h | .bool _, path, h | .number _, path, h | .text _, path, h
  | .array _, path, h => by
    rw [Value.keyFields] at h
    · split at h
      · cases h
      · cases h
        exact Or.inl rfl
    · exact nofun
theorem Fields.kind_of_keyFieldsBelow :
    ∀ {bound : Option String} {keys : Fields bound} {path : String},
    keys.keyFieldsBelow path = .error fault → fault.kind.IsDescription
  | _, .cons key _ value rest, path, h => by
    rcases bind_eq_error_iff.1 h with h | ⟨first, -, h⟩
    · exact Value.kind_of_keyFields h
    · rcases bind_eq_error_iff.1 h with h | ⟨others, -, h⟩
      · exact Fields.kind_of_keyFieldsBelow h
      · cases h
end

namespace KeySpec

theorem kind_of_addFields : ∀ {paths : List (String × Direction)} {fields : DistinctFields},
    addFields fields paths = .error fault → fault.kind.IsDescription
  | (path, direction) :: rest, fields, h => by
    rcases bind_eq_error_iff.1 h with h | ⟨fields', -, h⟩
    · unfold addField at h
      split at h
      · cases h
        exact Or.inl rfl
      · split at h
        · cases h
        · cases h
          exact Or.inr rfl
    · exact kind_of_addFields h

theorem kind_of_build {paths : List (String × Direction)} {options : IndexOptions}
    (h : build paths options = .error fault) : fault.kind.IsDescription := by
  rcases bind_eq_error_iff.1 h with h | ⟨fields, -, h⟩
  · exact kind_of_addFields h
  · split at h
    · cases h
      exact Or.inr rfl
    · split at h
      · split at h
        · cases h
          exact Or.inl rfl
        · cases h
      · cases h

theorem kind_of_ofDocument {keys : Document} {options : IndexOptions}
    (h : ofDocument keys options = .error fault) : fault.kind.IsDescription := by
  rcases bind_eq_error_iff.1 h with h | ⟨paths, -, h⟩
  · exact Fields.kind_of_keyFieldsBelow h
  · exact kind_of_build h

end KeySpec

end DocumentDb
