/-
  DocumentDb — a matcher and an index see the same values.

  * What a matcher reaches at a path and what an index finds there differ in nulls and arrays only,
    so an equality with any other value looks at the same list (`Value.filter_isUsable_walk`).
  * `Document.exists_mem_resolve_iff`: keeping each value once does not change which values are
    equal to one of them.
  * **`Document.candidate_iff_resolved`**: a value other than null and the arrays is equal to a
    candidate of the matcher, in native order, just when it is equal to a value that an index
    records, in index order.
-/
import DocumentDb.Collection.Plan
import DocumentDb.Filter.Match
import DocumentDb.Proofs.Key.Realize
import DocumentDb.Proofs.Text.Path

namespace DocumentDb

/-! ## Values that an index can serve -/

namespace Value

theorem isUsable_iff {v : Value} : v.isUsable = true ↔ v.kind ≠ .null ∧ v.kind ≠ .array := by
  cases v <;> simp [isUsable, kind]

theorem isNull_of_isUsable {v : Value} (h : v.isUsable = true) : v.isNull = false := by
  cases v <;> first | rfl | cases h

theorem isUsable_of_beq {v w : Value} (h : (w == v) = true) (hv : v.isUsable = true) :
    w.isUsable = true := by
  rw [isUsable_iff] at hv ⊢
  rwa [kind_eq_of_beq h]

theorem walk_nil_of_isUsable {v : Value} (h : v.isUsable = true) : v.walk [] = [v] := by
  cases v <;> first | rfl | cases h

end Value

/-! ## Two ways down a path -/

mutual
/-- An index finds at a path what a matcher reaches there, apart from nulls and arrays. -/
theorem Value.filter_isUsable_walk : ∀ (value : Value) (path : List String),
    (value.walk path).filter (·.isUsable) = (value.reach path).filter (·.isUsable)
  | .array items, [] => by
    -- the index leaves out the nulls among the items, the matcher adds the array
    rw [Value.walk, Value.reach, List.filter_filter,
      List.filter_cons_of_neg (by simp [Value.isUsable])]
    refine List.filter_congr fun w _ => ?_
    cases hw : w.isUsable with
    | false => rfl
    | true => rw [Value.isNull_of_isUsable hw]; rfl
  | .null, [] => rfl
  | .bool _, [] | .number _, [] | .text _, [] | .document _, [] => rfl
  | .document d, key :: path => by
    rw [Value.walk, Value.reach]
    exact Fields.filter_isUsable_walk d key path
  | .array items, segment :: path => by
    rw [Value.walk, Value.reach]
    cases Path.position? segment with
    | some position => exact Value.filter_isUsable_walkItem items position path
    | none => exact Value.filter_isUsable_walkEach items (segment :: path)
  | .null, _ :: _ | .bool _, _ :: _ | .number _, _ :: _ | .text _, _ :: _ => rfl
theorem Fields.filter_isUsable_walk : ∀ {bound : Option String} (fields : Fields bound)
    (wanted : String) (path : List String),
    (fields.walk wanted path).filter (·.isUsable) = (fields.reach wanted path).filter (·.isUsable)
  | _, .nil, _, _ => rfl
  | _, .cons key _ value rest, wanted, path => by
    rw [Fields.walk, Fields.reach]
    split
    · exact Value.filter_isUsable_walk value path
    · exact Fields.filter_isUsable_walk rest wanted path
theorem Value.filter_isUsable_walkItem :
    ∀ (items : List Value) (position : Nat) (path : List String),
    (Value.walkItem items position path).filter (·.isUsable) =
      (Value.reachItem items position path).filter (·.isUsable)
  | [], _, _ => rfl
  | value :: _, 0, path => by
    rw [Value.walkItem, Value.reachItem]
    exact Value.filter_isUsable_walk value path
  | _ :: rest, position + 1, path => by
    rw [Value.walkItem, Value.reachItem]
    exact Value.filter_isUsable_walkItem rest position path
theorem Value.filter_isUsable_walkEach : ∀ (items : List Value) (path : List String),
    (Value.walkEach items path).filter (·.isUsable) =
      (Value.reachEach items path).filter (·.isUsable)
  | [], _ => rfl
  | value :: rest, path => by
    rw [Value.walkEach, Value.reachEach, List.filter_append, List.filter_append,
      Value.filter_isUsable_walk value path, Value.filter_isUsable_walkEach rest path]
end

namespace Document

variable {d : Document} {first : String} {path : List String} {v w : Value}

theorem mem_walk_iff_mem_reach (hw : w.isUsable = true) :
    w ∈ d.walk first path ↔ w ∈ d.reach first path := by
  have hsame := Fields.filter_isUsable_walk d first path
  rw [← and_iff_left (a := w ∈ d.walk first path) hw, ← List.mem_filter, hsame, List.mem_filter,
    and_iff_left hw]

/-- A value is equal to one that an index finds just when it is equal to one that a matcher
    reaches. -/
theorem exists_mem_resolve_iff (hv : v.isUsable = true) :
    (∃ w ∈ d.resolve (first :: path), (w == v) = true) ↔
      ∃ w ∈ d.reach first path, (w == v) = true := by
  constructor
  · rintro ⟨w, hw, heq⟩
    have hu := Value.isUsable_of_beq heq hv
    have hnull : w ≠ .null := by
      rintro rfl
      cases hu
    exact ⟨w, (mem_walk_iff_mem_reach hu).1 (mem_walk_of_mem_resolve hw hnull), heq⟩
  · rintro ⟨w, hw, heq⟩
    have hwalk := (mem_walk_iff_mem_reach (Value.isUsable_of_beq heq hv)).2 hw
    rw [resolve_cons, if_neg (List.ne_nil_of_mem hwalk)]
    obtain ⟨w', hw', hww'⟩ := exists_mem_eraseDups hwalk
    exact ⟨w', hw', BEq.trans (BEq.symm hww') heq⟩

theorem candidates_eq_ok {path : String} {rest : List String} (h : Path.isValid path = true)
    (hs : Path.segments path = first :: rest) : d.candidates path = .ok (d.reach first rest) := by
  unfold candidates
  rw [if_pos h, hs]

/-- **A value other than null and the arrays is equal to a candidate of the matcher just when it is
    equal, in index order of any direction, to a value that an index finds.** -/
theorem candidate_iff_resolved [Collator] [Std.TransCmp Collator.weigh] (d : Document)
    {path : String} (hpath : Path.isValid path = true) {v : Value} (hnull : v.kind ≠ .null)
    (harray : v.kind ≠ .array) : ∃ found, d.candidates path = .ok found ∧ ∀ direction,
      ((∃ w ∈ found, (w == v) = true) ↔
        ∃ w ∈ d.resolve (Path.segments path), w.collateIn direction true v = .eq) := by
  obtain ⟨first, rest, hs⟩ := Path.exists_segments path
  refine ⟨d.reach first rest, candidates_eq_ok hpath hs, fun direction => ?_⟩
  simp only [Value.collateIn, Direction.apply_eq_iff, Value.collate_eq_iff_beq]
  rw [hs]
  exact (exists_mem_resolve_iff (Value.isUsable_iff.2 ⟨hnull, harray⟩)).symm

/-- The integer one, in a document in an array beside a null, is the float one to matcher and
    index. -/
theorem one_found_resolved :
    let d := single "a" (.array [.null, .document (single "b" (.array [.null, .int 1]))])
    let one := Value.float (.ofInt 1)
    Path.isValid "a.b" = true ∧ one.kind ≠ .null ∧ one.kind ≠ .array ∧
      ∃ found, d.candidates "a.b" = .ok found ∧ (∃ w ∈ found, (w == one) = true) ∧
        ∃ w ∈ d.resolve ["a", "b"], w.collateIn .descending true one = .eq := by
  intro d one
  have hpath : Path.isValid "a.b" = true := by decide
  have hsegments : Path.segments "a.b" = ["a", "b"] := by decide
  obtain ⟨found, hfound, hsame⟩ :=
    candidate_iff_resolved d hpath (v := one) Kind.noConfusion Kind.noConfusion
  obtain ⟨items, hitems, hmem⟩ : ∃ items, d.candidates "a.b" = .ok items ∧ .int 1 ∈ items :=
    ⟨_, rfl, List.mem_cons_of_mem _ (List.mem_cons_of_mem _ List.mem_cons_self)⟩
  rw [hfound] at hitems
  cases hitems
  have hone : ∃ w ∈ found, (w == one) = true := ⟨.int 1, hmem, by decide +kernel⟩
  exact ⟨hpath, Kind.noConfusion, Kind.noConfusion, found, hfound, hone,
    hsegments ▸ (hsame .descending).1 hone⟩

end Document

end DocumentDb
