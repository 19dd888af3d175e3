/-
  DocumentDb — what a merge does in one place, and doing it twice.

  * An `Edit` merges a value into what stands in a place, and then writes values inside it.  To
    merge changes into a document is one edit at the top, and one under each key
    (`Edit.exists_run_document`), as the spelled keys of the changes become writes there.
  * An edit `Repeats` if running it a second time changes nothing.  One that puts a value in the
    place as a whole does (`Edit.Whole.repeats`), and in a document any other does if it does under
    each key (`Edit.repeats_document`): keys with a dot are then read as before.
-/
import DocumentDb.Proofs.Document.Writes

namespace DocumentDb

/-- What a merge does in one place: a value that is merged into what stands there, if there is one,
    and values that are then written inside. -/
structure Edit where
  merged : Option Value
  written : Writes

namespace Edit

open Value (held)

/-- The writes that an edit comes down to. -/
def writes (e : Edit) (current : Option Value) : Writes :=
  e.merged.elim [] (·.writesAt current) ++ e.written

/-- What stands in the place after the edit. -/
def run (e : Edit) (current : Option Value) : Option Value :=
  Value.writeAll current (e.writes current)

/-- What an edit of a document does under a key. -/
def under (e : Edit) (d : Document) (key : String) : Edit where
  merged := (held e.merged).mergedUnder d key
  written := writesUnder key ((held e.merged).spelled d ++ e.written)

/-- Running the edit a second time changes nothing. -/
def Repeats (e : Edit) (current : Option Value) : Prop := e.run (e.run current) = e.run current

/-- The edit puts a value in the place as a whole. -/
def Whole (e : Edit) : Prop :=
  (∃ value, e.merged = some value ∧ ∀ d, value ≠ .document d) ∨ ∃ w ∈ e.written, w.1 = []

variable {e : Edit} {current current' : Option Value} {d d' : Document} {key : String}

theorem Repeats.of_run_eq (h : e.Repeats current') (hrun : e.run current = e.run current') :
    e.Repeats current := by
  rw [Repeats, hrun]
  exact h

/-! ## Edits of a whole place -/

/-- After a value was put as a whole it does not matter what stood there before. -/
theorem Whole.run_congr (h : e.Whole) (current current' : Option Value) :
    e.run current = e.run current' := by
  rw [run, run, writes, writes, Value.writeAll_append, Value.writeAll_append]
  rcases h with ⟨value, hm, hn⟩ | ⟨w, hw, hnil⟩
  · have hwrites : ∀ current, value.writesAt current = [([], value)] := fun current =>
      Value.writesAt_of_not_both (Value.bothDocuments_of_no_document (Or.inl hn))
    rw [hm, Option.elim_some, Option.elim_some, hwrites, hwrites]
    rfl
  · exact foldl_eq_of_mem hw (fun _ _ => by rw [hnil, Value.write, Value.write]) _ _

theorem Whole.repeats (h : e.Whole) (current : Option Value) : e.Repeats current :=
  h.run_congr _ _

/-! ## Edits of a document -/

theorem writes_document (h : ¬ e.Whole) (d : Document) :
    e.writes (some (.document d)) = (held e.merged).writesInto d ++ e.written := by
  rw [writes]
  cases hm : e.merged with
  | none => rfl
  | some value =>
    cases value with
    | document changes => rfl
    | _ => exact absurd (Or.inl ⟨_, hm, fun _ he => by cases he⟩) h

theorem ne_nil_of_mem_writes (h : ¬ e.Whole) {w : List String × Value}
    (hw : w ∈ e.writes (some (.document d))) : w.1 ≠ [] := by
  rw [writes_document h] at hw
  rcases List.mem_append.1 hw with hw | hw
  · exact Fields.ne_nil_of_mem_writesInto hw
  · exact fun hnil => h (Or.inr ⟨w, hw, hnil⟩)

theorem writesUnder_writes (h : ¬ e.Whole) (d : Document) (key : String) :
    writesUnder key (e.writes (some (.document d))) = (e.under d key).writes (d.field? key) := by
  rw [writes_document h, writesUnder_append, Fields.writesUnder_writesInto, List.append_assoc,
    ← writesUnder_append]
  rfl

/-- **An edit of a document that puts no value in its place is an edit under each key.** -/
theorem exists_run_document (h : ¬ e.Whole) (d : Document) : ∃ d', e.run (some (.document d)) =
    some (.document d') ∧ ∀ key, d'.field? key = (e.under d key).run (d.field? key) := by
  refine ⟨d.writeAll (e.writes (some (.document d))),
    Value.writeAll_document d fun w hw => ne_nil_of_mem_writes h hw, fun key => ?_⟩
  rw [Document.field?_writeAll, writesUnder_writes h, run]

/-! ## Keys with a dot -/

theorem cut_under (h : Cut e.written) (d : Document) (key : String) : Cut (e.under d key).written :=
  Cut.inside (fun w hw => (List.mem_append.1 hw).elim (Fields.cut_spelled w) (h w)) (· == key)

theorem under_written_of_isDotted (h : Cut e.written) (hdotted : Path.isDotted key = true) :
    (e.under d key).written = [] := by
  refine (writesUnder_append key _ _).trans ?_
  rw [Fields.cut_spelled.writesUnder_eq_nil hdotted, h.writesUnder_eq_nil hdotted, List.nil_append]

/-- A key of the changes is read as a path after the edit just if it was before. -/
theorem isSpelled_run (h : Cut e.written) (d : Document) {value : Value}
    (hv : (held e.merged).field? key = some value) :
    isSpelled key value ((e.under d key).run (d.field? key)) =
      isSpelled key value (d.field? key) := by
  cases hdotted : Path.isDotted key with
  | false => rw [isSpelled, isSpelled, hdotted, Bool.false_and, Bool.false_and]
  | true =>
    rw [run, writes, under_written_of_isDotted h hdotted, List.append_nil]
    cases hs : isSpelled key value (d.field? key) with
    | true =>
      have hmerged : (e.under d key).merged = none :=
        Fields.mergedUnder_eq_none fun value' hv' => by
        rw [hv] at hv'
        cases hv'
        exact hs
      rw [hmerged]
      exact hs
    | false =>
      -- documents on both sides, which are merged to a document
      obtain ⟨theirs, mine, rfl, hmine⟩ := isSpelled_eq_false_iff.1 hs hdotted
      have hmerged : (e.under d key).merged = some (.document theirs) :=
        Fields.mergedUnder_eq_some_iff.2 ⟨hv, hs⟩
      rw [hmerged, Option.elim_some, hmine, Value.writesAt,
        Value.writeAll_document mine fun w hw => Fields.ne_nil_of_mem_writesInto hw]
      exact isSpelled_eq_false_iff.2 fun _ => ⟨theirs, _, rfl, rfl⟩

theorem under_run (h : Cut e.written)
    (hd' : ∀ key, d'.field? key = (e.under d key).run (d.field? key)) (key : String) :
    e.under d' key = e.under d key := by
  have hspelled : ∀ key value, (held e.merged).field? key = some value →
      isSpelled key value (d'.field? key) = isSpelled key value (d.field? key) :=
      fun key value hv => by
    rw [hd' key, isSpelled_run h d hv]
  rw [under, under, Fields.mergedUnder_congr (hspelled key), Fields.spelled_congr hspelled]

/-- **An edit of a document repeats if it does under each key.** -/
theorem repeats_document (hcut : Cut e.written) (hn : ¬ e.Whole)
    (h : ∀ key, (e.under d key).Repeats (d.field? key)) : e.Repeats (some (.document d)) := by
  obtain ⟨d', hrun, hd'⟩ := exists_run_document hn d
  obtain ⟨d'', hrun', hd''⟩ := exists_run_document hn d'
  have hsame : d'' = d' := Fields.ext _ _ fun key => by
    rw [hd'', under_run hcut hd', hd', h key]
  rw [Repeats, hrun, hrun', hsame]

end Edit

end DocumentDb
