/-
  DocumentDb — reading at a path and asking for a value there.

  * `Value.Gives found v`: what was read is the value, or it is an array with the value
    among its items.
  * What stands at the segments of a path gives a value other than null and the arrays just when a
    document meets the equality with it (`Document.meets_iff_gives`).
  * **`Document.admits_equal_iff_gives`**: so the filter of the equality agrees with a read of the
    path, unless the path has a dot and is itself the key of a field.  A read takes the value of
    that field, which the filter passes by.
-/
import DocumentDb.Proofs.Filter.Asking
import DocumentDb.Proofs.Key.Read

namespace DocumentDb

namespace Value

/-- What was read is equal to a value, or it is an array with an item equal to it. -/
def Gives (found v : Value) : Prop :=
  (found == v) = true ∨ ∃ items, found = .array items ∧ ∃ item ∈ items, (item == v) = true

variable {found v : Value}

theorem gives_iff_opened (hnull : v.kind ≠ .null) (harray : v.kind ≠ .array) :
    found.Gives v ↔ ∃ w ∈ found.opened, (w == v) = true := by
  constructor
  · rintro (heq | ⟨items, rfl, hitem⟩)
    · have hkind := kind_eq_of_beq heq
      rw [opened_eq_singleton (hkind ▸ hnull) (hkind ▸ harray)]
      exact ⟨found, List.mem_singleton_self found, heq⟩
    · exact hitem
  · rintro ⟨w, hw, heq⟩
    cases found with
    | null => cases hw
    | array items => exact Or.inr ⟨items, rfl, w, hw, heq⟩
    | _ => exact Or.inl (List.mem_singleton.1 hw ▸ heq)

end Value

namespace Document

variable {d : Document} {path : String} {v : Value}

theorem meets_iff_gives (hvalid : Path.isValid path = true) (hnull : v.kind ≠ .null)
    (harray : v.kind ≠ .array) :
    d.Meets path v ↔ ((Value.document d).at (Path.segments path)).Gives v := by
  rw [meets_iff_exists_mem_resolve (Value.isUsable_iff.2 ⟨hnull, harray⟩), and_iff_right hvalid,
    exists_mem_resolve_iff_opened (Value.mark_beq hnull), Value.gives_iff_opened hnull harray]

/-- **A filter that asks for a value other than null and the arrays admits a document just when what
    stands at the segments of the path gives the value.  So it agrees with a read of the path if and
    only if the path has no dot, or it is no key of the document, or the value under it gives the
    value asked for just when what stands at its segments does.** -/
theorem admits_equal_iff_gives (d : Document) {path : String} (hvalid : Path.isValid path = true)
    (hkey : Filter.isOperatorKey path = false) {v : Value} (hnull : v.kind ≠ .null)
    (harray : v.kind ≠ .array) :
    ∃ found holds, d.get path = .ok found ∧ Matcher.equality d (Filter.equal path v) = .ok holds ∧
      (holds = true ↔ ((Value.document d).at (Path.segments path)).Gives v) ∧
      ((holds = true ↔ found.Gives v) ↔
        ∀ old, Path.isDotted path = true → d.field? path = some old →
          (old.Gives v ↔ ((Value.document d).at (Path.segments path)).Gives v)) := by
  obtain ⟨holds, hjudged⟩ : ∃ holds, (Filter.equal path v).admits d = .ok holds :=
    Filter.exists_admits_equal hvalid hkey
  have hholds : holds = true ↔ ((Value.document d).at (Path.segments path)).Gives v := by
    rw [← meets_iff_gives hvalid hnull harray, ← Filter.admits_equal_iff hkey, hjudged,
      Except.ok.injEq]
  -- the read is at the segments as well, unless the path has a dot and is a key
  refine ⟨_, holds, get_eq hvalid, hjudged, hholds, ?_⟩
  rw [hholds]
  split
  · next hdotted =>
    cases hold : d.field? path with
    | none => simp
    | some old => simp [hdotted, iff_comm]
  · next hplain => simp [hplain]

/-- Documents with a value under a key in an array: one with an array there, and one in an array. -/
def arraysBelow : Document :=
  single "a" (.array [.null, .document (single "b" (.array [.null, .int 1])),
    .array [.document (single "b" (.int 2))]])

theorem at_arraysBelow : (Value.document arraysBelow).at (Path.segments "a.b") =
    .array [.null, .int 1, .int 2] := rfl

/-- The integer two in an array in an array is read and asked for as the float two. -/
theorem admits_equal_two_arraysBelow :
    Path.isValid "a.b" = true ∧ Filter.isOperatorKey "a.b" = false ∧
      arraysBelow.get "a.b" = .ok (.array [.null, .int 1, .int 2]) ∧
      Matcher.equality arraysBelow (Filter.equal "a.b" (.float ⟨0x4000000000000000⟩)) = .ok true ∧
      (Value.array [.null, .int 1, .int 2]).Gives (.float ⟨0x4000000000000000⟩) := by
  have hvalid : Path.isValid "a.b" = true := by decide +kernel
  have hkey : Filter.isOperatorKey "a.b" = false := by decide +kernel
  obtain ⟨found, holds, hget, hjudged, hholds, hagree⟩ :=
    admits_equal_iff_gives arraysBelow hvalid hkey
    (v := .float ⟨0x4000000000000000⟩) Kind.noConfusion Kind.noConfusion
  rw [at_arraysBelow] at hholds hagree
  have hgives : (Value.array [.null, .int 1, .int 2]).Gives (.float ⟨0x4000000000000000⟩) :=
    Or.inr ⟨_, rfl, .int 2, by simp, by decide +kernel⟩
  have htrue : holds = true := hholds.2 hgives
  have hnone : arraysBelow.field? "a.b" = none := by
    rw [arraysBelow, field?_single, if_neg (by decide)]
  have hfound : found = .array [.null, .int 1, .int 2] := by
    rw [get_eq hvalid, hnone, ite_self, Option.getD_none, at_arraysBelow] at hget
    exact (Except.ok.inj hget).symm
  exact ⟨hvalid, hkey, hfound ▸ hget, htrue ▸ hjudged, hgives⟩

/-- The filter passes by the entry that a read takes. -/
theorem not_admits_equal_dottedEntry : ¬∀ (d : Document) (path : String) (v : Value),
    Path.isValid path = true → Filter.isOperatorKey path = false → v.kind ≠ .null →
    v.kind ≠ .array →
    ∃ found holds, d.get path = .ok found ∧ Matcher.equality d (Filter.equal path v) = .ok holds ∧
      (holds = true ↔ found.Gives v) := by
  intro h
  obtain ⟨found, holds, hget, hjudged, hiff⟩ := h dottedEntry "a.b" (.int 1) (by decide +kernel)
    (by decide +kernel) Kind.noConfusion Kind.noConfusion
  have hread : dottedEntry.get "a.b" = .ok (.int 1) := rfl
  have hrefused : Matcher.equality dottedEntry (Filter.equal "a.b" (.int 1)) = .ok false := rfl
  rw [hread] at hget
  rw [hrefused] at hjudged
  cases hget
  cases hjudged
  exact Bool.false_ne_true (hiff.2 (Or.inl BEq.rfl))

end Document

end DocumentDb
