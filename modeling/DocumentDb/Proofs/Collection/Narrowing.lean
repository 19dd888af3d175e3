/-
  DocumentDb — narrowing by the equalities of a filter.

  * `Document.meets_iff`: an equality is met where an equal value is found at its path.  Null is
    also met where nothing is found.
  * `accepted_filter`: documents that would not be accepted need not be judged.
  * **`narrow_keeps_accepted`**: so a matcher that accepts only what meets the equalities of a
    filter may be given what meets any of them.
-/
import DocumentDb.Proofs.Collection.Find
import DocumentDb.Proofs.Filter.Constraint

namespace DocumentDb

open DocumentDb.Filter (equalsAny)

theorem Filter.equalsAny_iff {found : List Value} {wanted : Value} : equalsAny found wanted = true ↔
    (∃ v ∈ found, (v == wanted) = true) ∨ wanted = .null ∧ found = [] := by
  unfold equalsAny
  split
  · next hnull =>
    rw [Value.isNull_iff] at hnull
    subst hnull
    rw [Bool.or_eq_true, List.isEmpty_iff, List.any_eq_true, or_comm]
    refine or_congr (exists_congr fun v => and_congr_right fun _ => ?_) (and_iff_right rfl).symm
    rw [Value.isNull_iff, Value.beq_null]
  · next hsome =>
    rw [List.any_eq_true]
    refine (or_iff_left ?_).symm
    rintro ⟨rfl, -⟩
    exact hsome rfl

namespace Document

variable {d : Document} {path : String} {wanted : Value}

theorem meets_iff : d.Meets path wanted ↔ ∃ found, d.candidates path = .ok found ∧
    ((∃ v ∈ found, (v == wanted) = true) ∨ wanted = .null ∧ found = []) :=
  exists_congr fun _ => and_congr_right fun _ => Filter.equalsAny_iff

instance : Decidable (d.Meets path wanted) :=
  match h : d.candidates path with
  | .ok found => decidable_of_iff (equalsAny found wanted = true)
    ⟨fun heq => ⟨found, h, heq⟩, fun ⟨_, hf, heq⟩ => Except.ok.inj (h.symm.trans hf) ▸ heq⟩
  | .error _ => .isFalse fun ⟨_, hf, _⟩ => nomatch h.symm.trans hf

end Document

namespace Collection

/-- The documents that meet some equalities. -/
def narrow (equalities : List (String × Value)) (tried : List (String × Cell)) :
    List (String × Cell) :=
  tried.filter fun t => ∀ e ∈ equalities, t.2.document.Meets e.1 e.2

theorem mem_narrow_iff {equalities : List (String × Value)} {tried : List (String × Cell)}
    {t : String × Cell} : t ∈ narrow equalities tried ↔
      t ∈ tried ∧ ∀ e ∈ equalities, t.2.document.Meets e.1 e.2 := by
  rw [narrow, List.mem_filter, decide_eq_true_iff]

/-- Documents that would not be accepted need not be judged. -/
theorem accepted_filter {judge : Document → Except Fault Bool} {tried found : List (String × Cell)}
    {keep : String × Cell → Bool} (h : accepted judge tried = .ok found)
    (hkeep : ∀ t ∈ tried, judge t.2.document = .ok true → keep t = true) :
    accepted judge (tried.filter keep) = .ok found := by
  obtain ⟨hjudged, rfl⟩ := accepted_eq_ok_iff.1 h
  refine accepted_eq_ok_iff.2 ⟨fun t ht => hjudged t (List.mem_of_mem_filter ht), ?_⟩
  rw [List.filter_filter]
  refine List.filter_congr fun t ht => ?_
  rw [Bool.eq_iff_iff, Bool.and_eq_true]
  refine ⟨fun hacc => ⟨hacc, hkeep t ht (accepts_iff.1 hacc)⟩, fun hboth => hboth.1⟩

/-- **Every document that the matcher accepts has, at the path of each equality of the
    filter, an equal value, or null for nothing.  So to try only what meets some of the
    equalities loses no match.** -/
theorem narrow_keeps_accepted (filter : Document) {chosen : List (String × Value)}
    (h : chosen ⊆ filter.constraints) :
    (∀ d, Matcher.equality d filter = .ok true → ∀ e ∈ chosen,
      ∃ found, d.candidates e.1 = .ok found ∧
      ((∃ v ∈ found, (v == e.2) = true) ∨ e.2 = .null ∧ found = [])) ∧
    ∀ tried : List (String × Cell),
      (∀ t ∈ tried, Matcher.equality t.2.document filter = .ok true → t ∈ narrow chosen tried) ∧
      ∀ found, accepted (Matcher.equality · filter) tried = .ok found →
        accepted (Matcher.equality · filter) (narrow chosen tried) = .ok found := by
  have hmeets : ∀ d, Matcher.equality d filter = .ok true → ∀ e ∈ chosen, d.Meets e.1 e.2 :=
    fun d hd e he => meets_of_admits hd e (h he)
  refine ⟨fun d hd e he => Document.meets_iff.1 (hmeets d hd e he), fun tried => ⟨?_, ?_⟩⟩
  · intro t ht hacc
    exact mem_narrow_iff.2 ⟨ht, hmeets _ hacc⟩
  · intro found hfound
    exact accepted_filter hfound fun t _ hacc => decide_eq_true (hmeets _ hacc)

/-- A filter that asks for a value below a key, for nothing, and for a value among operators. -/
def threefold : Document :=
  .ofList [("a", .document (Document.single "b" (.int 1))), ("c", .null),
    ("d", .document (Document.ofList [("$eq", .text "x"), ("$exists", .bool true)]))]

/-- Two documents, of which the filter admits the first. -/
def offered : List (String × Cell) :=
  [("1", ⟨1, .ofList [("a", .array [.document (Document.single "b" (.float (.ofInt 1)))]),
      ("d", .array [.text "x"])]⟩),
    ("2", ⟨2, .ofList [("a", .document (Document.single "b" (.int 2))), ("d", .text "x")]⟩)]

/-- Narrowed by all three equalities, the documents give the same. -/
theorem threefold_narrowed : threefold.constraints.map (·.1) = ["a.b", "c", "d"] ∧
    ∃ found, accepted (Matcher.equality · threefold) (narrow threefold.constraints offered) =
      .ok found ∧ found.map (·.1) = ["1"] := by
  have hall : (accepted (Matcher.equality · threefold) offered).toOption.map (·.map (·.1)) =
      some ["1"] := by
    decide +kernel
  obtain ⟨found, hfound, hids⟩ := exists_of_toOption_map hall
  exact ⟨by decide +kernel,
    found, ((narrow_keeps_accepted threefold fun _ => id).2 offered).2 found hfound, hids⟩

end Collection

end DocumentDb
