/-
  DocumentDb — the key fields that a probe supplies.

  * A probe supplies a key field where something other than null is read
    (`Document.containsField_iff`), and its values there are those that an index finds.  What was
    read may be an array of which the index finds nothing (`Value.opens_iff`).
  * **`Document.supplied_iff_resolved`**: so the fields that a probe supplies are those in which it
    has a value, unless all items of an array that is read are missing, or a field whose key is the
    whole path is read in place of what stands at its segments.
-/
import DocumentDb.Proofs.Index.Lookup
import DocumentDb.Proofs.Key.Read

namespace DocumentDb

namespace Value

variable {missing : Value → Bool}

/-- Either null alone counts as missing, or an array without items as well.  No other value does. -/
theorem not_missing_of_kind (h : missing = isNull ∨ missing = isMissing) {v : Value}
    (hnull : v.kind ≠ .null) (harray : v.kind ≠ .array) : missing v = false := by
  rcases h with rfl | rfl
  · cases v <;> first | rfl | exact absurd rfl hnull
  · cases v <;> first | rfl | exact absurd rfl hnull | exact absurd rfl harray

theorem mark_of_missing (h : missing = isNull ∨ missing = isMissing) :
    Mark fun v => !missing v := by
  rcases h with rfl | rfl
  · exact mark_not_null
  · exact mark_present

/-- A value other than null opens to something that is not missing, unless it is an array
    without such items. -/
theorem opens_iff (h : missing = isNull ∨ missing = isMissing) {v : Value} :
    (v ≠ .null ↔ ∃ w ∈ v.opened, missing w = false) ↔
      ∀ items, v = .array items → ∃ item ∈ items, missing item = false := by
  cases v with
  | null => simp [opened]
  | array items => simp [opened]
  | bool _ | number _ | text _ | document _ =>
    exact ⟨fun _ => nofun, fun _ =>
      ⟨fun _ => ⟨_, List.mem_singleton_self _, not_missing_of_kind h nofun nofun⟩,
      fun _ => nofun⟩⟩

end Value

namespace Document

variable {d : Document} {path : String}

theorem containsField_iff (hvalid : Path.isValid path = true) : d.containsField path = true ↔
    (if Path.isDotted path then d.field? path else none).getD
      ((Value.document d).at (Path.segments path)) ≠ .null := by
  rw [containsField, get_eq hvalid]
  simp [← Value.isNull_iff]

/-- **A lookup is confined in the key fields that a document contains, to the values that an index
    finds there.  The document contains a field just when one of these values is not missing, unless
    an array stands at the segments of the path of which all items are missing, or the path has a
    dot and is itself a key.  In that case the value under the key counts, which may be null where
    something stands at the segments, or something where nothing does.** -/
theorem supplied_iff_resolved (d : Document) (f : KeyField) {missing : Value → Bool}
    (hmissing : missing = Value.isNull ∨ missing = Value.isMissing) :
    (∀ (i : Index) (position : Nat) (values : List Value), i.spec.fields[position]? = some f →
      ((position, values) ∈ i.supplied d ↔
        d.containsField f.path = true ∧ values = d.resolve f.segments)) ∧
    ((d.containsField f.path = true ↔ ∃ w ∈ d.resolve f.segments, missing w = false) ↔
      (∀ old, Path.isDotted f.path = true → d.field? f.path = some old →
        (old ≠ .null ↔ ∃ w ∈ ((Value.document d).at f.segments).opened, missing w = false)) ∧
      ((Path.isDotted f.path = true → d.field? f.path = none) →
        ∀ items, (Value.document d).at f.segments = .array items →
        ∃ item ∈ items, missing item = false)) := by
  constructor
  · intro i position values hf
    rw [Index.mem_supplied_iff]
    constructor
    · rintro ⟨f', hf', h⟩
      cases hf.symm.trans hf'
      exact h
    · intro h
      exact ⟨f, hf, h⟩
  · unfold KeyField.segments
    have hresolved : (∃ w ∈ d.resolve (Path.segments f.path), missing w = false) ↔
        ∃ w ∈ ((Value.document d).at (Path.segments f.path)).opened, missing w = false := by
      have hmarked := exists_mem_resolve_iff_opened (d := d) (Value.mark_of_missing hmissing) f.path
      simpa only [Bool.not_eq_true'] using hmarked
    have hstands := Value.opens_iff hmissing (v := (Value.document d).at (Path.segments f.path))
    rw [containsField_iff f.valid, hresolved]
    -- both sides are about what stands at the segments, unless the path is a key with a dot
    cases hdotted : Path.isDotted f.path with
    | false => simpa using hstands
    | true =>
      cases hold : d.field? f.path with
      | none => simpa using hstands
      | some old => simp

/-- Of two items of an array, one has a value under a key. -/
def oneItemBelow : Document :=
  single "arr" (.array [.document empty, .document (single "val" (.array [.null, .int 1]))])

theorem supplied_oneItemBelow :
    (Value.isMissing = Value.isNull ∨ Value.isMissing = Value.isMissing) ∧
    oneItemBelow.containsField "arr.val" = true ∧
      ∃ w ∈ oneItemBelow.resolve ["arr", "val"], w.isMissing = false := by
  have hmissing : Value.isMissing = Value.isNull ∨ Value.isMissing = Value.isMissing := Or.inr rfl
  have hat : (Value.document oneItemBelow).at ["arr", "val"] = .array [.null, .int 1] := rfl
  obtain ⟨-, hagree⟩ :=
    supplied_iff_resolved oneItemBelow ⟨"arr.val", .ascending, by decide +kernel⟩ hmissing
  have hcontains : oneItemBelow.containsField "arr.val" = true := by decide +kernel
  refine ⟨hmissing, hcontains, (hagree.2 ⟨?_, ?_⟩).1 hcontains⟩
  · intro old _ hold
    have hnone : oneItemBelow.field? "arr.val" = none := by
      rw [oneItemBelow, field?_single, if_neg (by decide)]
    rw [hnone] at hold
    cases hold
  · intro _ items hitems
    cases hat.symm.trans hitems
    exact ⟨.int 1, by simp, rfl⟩

/-- The tags of a document as a key field. -/
def tagField : KeyField := ⟨"tags", .ascending, by decide +kernel⟩

/-- A document without any tags. -/
def withoutTags : Document := single "tags" (.array [])

/-- An index over the tags, with one document. -/
def tagged : Index :=
  let spec : KeySpec := ⟨[tagField], false, "tagged", List.cons_ne_nil _ _, by decide⟩
  (Index.new 0 spec).record "1" (spec.entries (single "tags" (.array [.text "x"])))

/-- An array without items confines a lookup to nothing. -/
theorem not_supplied_iff_resolved :
    (∀ w ∈ withoutTags.resolve tagField.segments, w.isMissing = true) ∧
    tagged.lookup empty = ["1"] ∧ tagged.lookup withoutTags = [] ∧
    ¬∀ (d : Document) (f : KeyField),
      (d.containsField f.path = true ↔ ∃ w ∈ d.resolve f.segments, w.isMissing = false) := by
  have hnothing : ∀ w ∈ withoutTags.resolve tagField.segments, w.isMissing = true := by
    decide +kernel
  refine ⟨hnothing, by decide +kernel, by decide +kernel, fun h => ?_⟩
  obtain ⟨w, hw, hpresent⟩ := (h withoutTags tagField).1 (by decide +kernel)
  rw [hnothing w hw] at hpresent
  cases hpresent

end Document

end DocumentDb
