/-
  DocumentDb — what is read at a path and what an index finds there.

  * `Value.opened`: the values that something read stands for.  Reading the items of an
    array opens what it reads in each of them (`opened_collect`), so an array in an array is
    opened level by level.
  * `Value.Mark P`: equal values bear the mark `P` alike, and null does not bear it.  Then it does
    not matter that nulls are left out and that equal values are kept once.
  * **`Value.any_walk`**: an index finds a value with a mark at a path just when such a
    value is read there.
  * What is read at a path is the field whose key it is, if it has a dot, and otherwise what stands
    at its segments (`Document.get_eq`).
-/
import DocumentDb.Proofs.Document.Descend
import DocumentDb.Proofs.Document.ReadBack

namespace DocumentDb

namespace Value

/-- The values that something read stands for: none for null, and its items for an array. -/
def opened : Value → List Value
  | null => []
  | array items => items
  | value => [value]

theorem opened_collect (found : List Value) :
    (collect found).opened = (found.flatMap opened).eraseDups := by
  have hsame : opened = fun v => match v with
      | .null => []
      | .array items => items
      | value => [value] := by
    funext v
    cases v <;> rfl
  rw [hsame]
  rfl

/-- A value that is neither null nor an array stands for itself. -/
theorem opened_eq_singleton {v : Value} (hnull : v.kind ≠ .null) (harray : v.kind ≠ .array) :
    v.opened = [v] := by
  cases v with
  | null => exact absurd rfl hnull
  | array items => exact absurd rfl harray
  | _ => rfl

/-! ## Marks -/

/-- Equal values bear a mark alike, and null does not bear it. -/
structure Mark (P : Value → Bool) : Prop where
  congr : ∀ {v w : Value}, (v == w) = true → P v = P w
  null : P .null = false

theorem isMissing_of_beq {v w : Value} (h : (v == w) = true) : v.isMissing = w.isMissing := by
  have hkind := kind_eq_of_beq h
  cases v with
  | null => cases w <;> first | rfl | cases hkind
  | array items =>
    cases w with
    | array items' => cases items <;> cases items' <;> first | rfl | cases h
    | _ => cases hkind
  | _ => cases w <;> first | rfl | cases hkind

theorem mark_present : Mark fun v => !v.isMissing where
  congr h := by rw [isMissing_of_beq h]
  null := rfl

theorem mark_not_null : Mark fun v => !v.isNull where
  congr {v w} h := by
    have hkind := kind_eq_of_beq h
    cases v <;> cases w <;> first | rfl | cases hkind
  null := rfl

/-- To be equal to a value other than null is a mark. -/
theorem mark_beq {v : Value} (hnull : v.kind ≠ .null) : Mark (· == v) where
  congr h := BEq.congr_left h
  null := by
    refine Bool.eq_false_iff.2 fun h => hnull ?_
    rw [← kind_eq_of_beq h]
    rfl

end Value

/-! ## Along a path -/

section
variable {P : Value → Bool}

mutual
/-- **An index finds a value with a mark just when such a value is read.** -/
theorem Value.any_walk (h : Value.Mark P) : ∀ (value : Value) (path : List String),
    (value.walk path).any P = (value.at path).opened.any P
  | .array items, [] => by
    -- the index leaves out the nulls among the items
    rw [Value.walk, Value.at, Value.opened, List.any_filter]
    refine List.any_congr rfl fun w => ?_
    cases w with
    | null => exact h.null.symm
    | _ => rfl
  | .null, [] => by rw [Value.walk, Value.at, Value.opened]
  | .bool _, [] | .number _, [] | .text _, [] | .document _, [] => rfl
  | .document d, key :: path => by
    rw [Value.walk, Value.at]
    exact Fields.any_walk h d key path
  | .array items, segment :: path => by
    rw [Value.walk, Value.at]
    cases Path.position? segment with
    | some position => exact Value.any_walkItem h items position path
    | none =>
      show (Value.walkEach items (segment :: path)).any P =
        (Value.collect (Value.atEach items (segment :: path))).opened.any P
      rw [Value.opened_collect, any_eraseDups h.congr, List.any_flatMap]
      exact Value.any_walkEach h items (segment :: path)
  | .null, _ :: _ | .bool _, _ :: _ | .number _, _ :: _ | .text _, _ :: _ => rfl
theorem Fields.any_walk (h : Value.Mark P) : ∀ {bound : Option String} (fields : Fields bound)
    (wanted : String) (path : List String),
    (fields.walk wanted path).any P = (fields.at wanted path).opened.any P
  | _, .nil, _, _ => rfl
  | _, .cons key _ value rest, wanted, path => by
    rw [Fields.walk, Fields.at]
    split
    · exact Value.any_walk h value path
    · exact Fields.any_walk h rest wanted path
theorem Value.any_walkItem (h : Value.Mark P) : ∀ (items : List Value) (position : Nat)
    (path : List String),
    (Value.walkItem items position path).any P = (Value.atItem items position path).opened.any P
  | [], _, _ => rfl
  | value :: _, 0, path => by
    rw [Value.walkItem, Value.atItem]
    exact Value.any_walk h value path
  | _ :: rest, position + 1, path => by
    rw [Value.walkItem, Value.atItem]
    exact Value.any_walkItem h rest position path
theorem Value.any_walkEach (h : Value.Mark P) : ∀ (items : List Value) (path : List String),
    (Value.walkEach items path).any P =
      (Value.atEach items path).any fun found => found.opened.any P
  | [], _ => rfl
  | value :: rest, path => by
    rw [Value.walkEach, Value.atEach, List.any_append, List.any_cons, Value.any_walk h value path,
      Value.any_walkEach h rest path]
end

namespace Document

variable {d : Document}

/-- A value with a mark is among those that an index finds at the segments of a path just
    when it is read there. -/
theorem exists_mem_resolve_iff_opened (h : Value.Mark P) (path : String) :
    (∃ w ∈ d.resolve (Path.segments path), P w = true) ↔
      ∃ w ∈ ((Value.document d).at (Path.segments path)).opened, P w = true := by
  obtain ⟨first, rest, hs⟩ := Path.exists_segments path
  have hwalk : (d.walk first rest).any P =
      ((Value.document d).at (first :: rest)).opened.any P := by
    rw [Value.at]
    exact Fields.any_walk h d first rest
  rw [hs, ← List.any_eq_true, ← List.any_eq_true, ← hwalk, resolve_cons]
  split
  · next hnil =>
    -- the null that stands for nothing does not bear the mark
    rw [hnil, List.any_cons, h.null]
    rfl
  · rw [any_eraseDups h.congr]

end Document

end

/-! ## At a path -/

namespace Document

variable {d : Document} {path : String}

/-- What is read at a path without empty segments. -/
theorem get_eq (hvalid : Path.isValid path = true) : d.get path = .ok
    ((if Path.isDotted path then d.field? path else none).getD
      ((Value.document d).at (Path.segments path))) := by
  cases hdotted : Path.isDotted path with
  | false => exact get_of_not_isDotted hdotted
  | true =>
    cases hold : d.field? path with
    | some old => exact get_of_field? hold
    | none => exact get_of_isDotted hdotted hvalid hold

end Document

end DocumentDb
