/-
  DocumentDb — merging the same changes twice.

  * What is merged where there is no document is stored as it is, with the keys that it has.
    Merging it into itself changes nothing if no key with a dot has a value other than a document
    (`Value.plain`): such a key would now be read as a path.
  * **`Edit.repeats_merged`**: an edit repeats if what it stores in this way is plain
    (`Value.storesPlain`) and its writes keep the arrays that they enter.  The induction is on the
    value that is merged; where there is none left, the writes alone repeat.
  * `Document.exists_merge_again`: if the first merge succeeds then so does the second, as each key
    without empty segments can be put, and under any other one there are documents on both sides
    before and after.
  * **`Document.merge_again`**: so the second merge gives the same document.
-/
import DocumentDb.Proofs.Document.Items

namespace DocumentDb

/-! ## What is stored as it is -/

mutual
/-- No key with a dot has a value other than a document, at any depth of embedded documents. -/
def Value.plain : Value → Bool
  | .document d => d.plain
  | _ => true
/-- No key with a dot has a value other than a document, here or in the embedded documents. -/
def Fields.plain : {bound : Option String} → Fields bound → Bool
  | _, .nil => true
  | _, .cons key _ value rest =>
    (!Path.isDotted key || value.kind == .document) && value.plain && rest.plain
end

mutual
/-- What a merge into a place stores as it is, is plain. -/
def Value.storesPlain : Value → Option Value → Bool
  | .document theirs, some (.document mine) => theirs.storesPlain mine
  | value, _ => value.plain
/-- Each document that a merge of the fields stores as it is, under a key that is not read as a
    path, is plain. -/
def Fields.storesPlain : {bound : Option String} → Fields bound → Document → Bool
  | _, .nil, _ => true
  | _, .cons key _ value rest, d =>
    (isSpelled key value (d.field? key) || value.storesPlain (d.field? key)) && rest.storesPlain d
end

theorem Value.storesPlain_of_no_document {d : Document} {current : Option Value}
    (h : ∀ mine, current ≠ some (document mine)) : (document d).storesPlain current = d.plain := by
  match current, h with
  | some (document mine), h => exact absurd rfl (h mine)
  | none, _ | some null, _ | some (bool _), _ | some (number _), _ | some (text _), _
  | some (array _), _ => rfl

namespace Fields

variable {bound : Option String} {key : String} {value : Value}

theorem plain_of_field? {d : Fields bound} (h : d.plain = true) (hv : d.field? key = some value) :
    (Path.isDotted key = true → ∃ t, value = .document t) ∧ value.plain = true := by
  induction d using Fields.ind with
  | nil => cases hv
  | cons first _ value' rest ih =>
    simp only [plain, Bool.and_eq_true, Bool.or_eq_true, Bool.not_eq_true', beq_iff_eq] at h
    obtain ⟨⟨hfirst, hvalue⟩, hrest⟩ := h
    rw [field?] at hv
    split at hv
    · next he =>
      cases hv
      subst he
      refine ⟨fun hdotted => ?_, hvalue⟩
      cases value with
      | document t => exact ⟨t, rfl⟩
      | _ => simp [hdotted, Value.kind] at hfirst
    · exact ih hrest hv

theorem storesPlain_of_mergedUnder {changes : Fields bound} {d : Document}
    (h : changes.storesPlain d = true) (hm : changes.mergedUnder d key = some value) :
    value.storesPlain (d.field? key) = true := by
  induction changes using Fields.ind with
  | nil => cases hm
  | cons first hfirst value' rest ih =>
    simp only [storesPlain, Bool.and_eq_true, Bool.or_eq_true] at h
    by_cases he : first = key
    · subst he
      obtain ⟨hv, hspelled⟩ := mergedUnder_eq_some_iff.1 hm
      rw [field?, if_pos rfl] at hv
      cases hv
      exact h.1.resolve_left (Bool.eq_false_iff.1 hspelled)
    · rw [mergedUnder_cons_of_ne he] at hm
      exact ih h.2 hm

/-- Plain fields merge into themselves under their own keys. -/
theorem isSpelled_self {d : Document} (h : d.plain = true) (hv : d.field? key = some value) :
    isSpelled key value (d.field? key) = false :=
  isSpelled_eq_false_iff.2 fun hdotted => by
    obtain ⟨t, rfl⟩ := (plain_of_field? h hv).1 hdotted
    exact ⟨t, t, rfl, hv⟩

end Fields

/-! ## Edits that merge a value -/

namespace Edit

open Value (Kept)

/-- An edit that merges a plain document into itself does so with the values under its keys. -/
theorem under_self {d : Document} (h : d.plain = true) (written : Writes) (key : String) :
    under ⟨some (.document d), written⟩ d key = ⟨d.field? key, writesUnder key written⟩ := by
  have hmerged : d.mergedUnder d key = d.field? key := by
    cases hv : d.field? key with
    | none => exact Fields.mergedUnder_of_none hv
    | some value => exact Fields.mergedUnder_eq_some_iff.2 ⟨hv, Fields.isSpelled_self h hv⟩
  have hspelled : d.spelled d = [] := List.eq_nil_iff_forall_not_mem.2 fun w hw => by
    obtain ⟨key, value, hv, hs, -⟩ := Fields.mem_spelled_iff.1 hw
    rw [Fields.isSpelled_self h hv] at hs
    cases hs
  show Edit.mk (d.mergedUnder d key) (writesUnder key (d.spelled d ++ written)) = _
  rw [hmerged, hspelled, List.nil_append]

theorem run_append (merged : Option Value) (written : Writes) (current : Option Value) :
    run ⟨merged, written⟩ current = Value.writeAll (run ⟨merged, []⟩ current) written := by
  rw [run, run, writes, writes, Value.writeAll_append, List.append_nil]

/-- Where there are no documents on both sides, the value is stored as it is. -/
theorem run_of_not_both {value : Value} {current : Option Value}
    (h : (∀ d, value ≠ .document d) ∨ ∀ d, current ≠ some (.document d)) :
    run ⟨some value, []⟩ current = some value := by
  rw [run, writes, Option.elim_some,
    Value.writesAt_of_not_both (Value.bothDocuments_of_no_document h)]
  rfl

/-- What is plain and merged into itself does not change. -/
theorem run_self (value : Value) : value.plain = true →
    run ⟨some value, []⟩ (some value) = some value := by
  induction value using Value.ind_fields with
  | leaf value hn => exact fun _ => run_of_not_both (Or.inl hn)
  | document d ih =>
    intro h
    have hn : ¬ Whole ⟨some (.document d), []⟩ := by
      rintro (⟨value, hv, hn⟩ | ⟨w, hw, -⟩)
      · exact hn d (Option.some.inj hv).symm
      · cases hw
    obtain ⟨d', hrun, hd'⟩ := exists_run_document hn d
    have hsame : d' = d := Fields.ext _ _ fun key => by
      rw [hd', under_self h]
      cases hv : d.field? key with
      | none => rfl
      | some value => exact ih key value hv (Fields.plain_of_field? h hv).2
    rw [hrun, hsame]

theorem repeats_self (value : Value) : value.plain = true → ∀ {written : Writes}, Cut written →
    Repeats ⟨some value, written⟩ (some value) := by
  induction value using Value.ind_fields with
  | leaf value hn => exact fun _ _ _ => Whole.repeats (Or.inl ⟨value, rfl, hn⟩) _
  | document d ih =>
    intro h written hcut
    by_cases hwhole : Whole ⟨some (.document d), written⟩
    · exact hwhole.repeats _
    refine repeats_document hcut hwhole fun key => ?_
    rw [under_self h]
    cases hv : d.field? key with
    | none => exact repeats_written (hcut.inside _) (Value.kept_none _)
    | some value => exact ih key value hv (Fields.plain_of_field? h hv).2 (hcut.inside _)

/-- To store a plain document as it is, is to merge it into itself. -/
theorem run_document {d : Document} (h : d.plain = true) {current : Option Value}
    (hn : ∀ mine, current ≠ some (.document mine)) (written : Writes) :
    run ⟨some (.document d), written⟩ current =
      run ⟨some (.document d), written⟩ (some (.document d)) := by
  rw [run_append, run_append _ written, run_of_not_both (Or.inr hn), run_self (.document d) h]

/-- **An edit repeats if what it stores as it is, is plain, and each of its writes keeps the arrays
    that it enters for those after it.** -/
theorem repeats_merged (value : Value) : ∀ {current : Option Value} {written : Writes},
    value.storesPlain current = true → Cut written →
    Kept current (writes ⟨some value, written⟩ current) →
    Repeats ⟨some value, written⟩ current := by
  induction value using Value.ind_fields with
  | leaf value hn => exact fun _ _ _ => Whole.repeats (Or.inl ⟨value, rfl, hn⟩) _
  | document d ih =>
    intro current written hplain hcut hkept
    by_cases hwhole : Whole ⟨some (.document d), written⟩
    · exact hwhole.repeats _
    by_cases hdoc : ∃ mine, current = some (.document mine)
    · obtain ⟨mine, rfl⟩ := hdoc
      refine repeats_document hcut hwhole fun key => ?_
      have hbelow := hkept.under key
      rw [writesUnder_writes hwhole] at hbelow
      have hcutbelow := cut_under (e := ⟨some (.document d), written⟩) hcut mine key
      generalize hunder : under ⟨some (.document d), written⟩ mine key = e at hbelow hcutbelow ⊢
      obtain ⟨merged, written'⟩ := e
      have hm : d.mergedUnder mine key = merged := congrArg Edit.merged hunder
      cases merged with
      | none => exact repeats_written hcutbelow hbelow
      | some value =>
        exact ih key value (Fields.mergedUnder_eq_some_iff.1 hm).1
          (Fields.storesPlain_of_mergedUnder hplain hm) hcutbelow hbelow
    · have hn : ∀ mine, current ≠ some (.document mine) := fun mine he => hdoc ⟨mine, he⟩
      have hd : d.plain = true := by rwa [Value.storesPlain_of_no_document hn] at hplain
      exact (repeats_self (.document d) hd hcut).of_run_eq (run_document hd hn written)

end Edit

/-! ## The second merge -/

namespace Document

variable {d changes r : Document}

theorem run_merge (h : d.merge changes = .ok r) :
    Edit.run ⟨some (.document changes), []⟩ (some (.document d)) = some (.document r) := by
  rw [Fields.mergeInto_eq h, ← Value.writeAll_document d fun w hw =>
    Fields.ne_nil_of_mem_writesInto hw]
  exact congrArg (Value.writeAll _) (List.append_nil _)

/-- A merge leaves a document where it has merged two under a key with an empty segment. -/
theorem exists_field?_merge (h : d.merge changes = .ok r) {key : String} {theirs mine : Document}
    (hinvalid : ¬ Path.isValid key = true) (hv : changes.field? key = some (.document theirs))
    (hmine : d.field? key = some (.document mine)) :
    ∃ merged, r.field? key = some (.document merged) := by
  have hspelled : writesUnder key (changes.spelled d) = [] := writesUnder_eq_nil fun w hw hkey => by
    obtain ⟨key', value, hv', hs, rfl⟩ := Fields.mem_spelled_iff.1 hw
    obtain ⟨d', hd'⟩ := (exists_mergeInto_iff changes d).1 ⟨r, h⟩ key' value hv'
    rcases d.mergeEntry_cases key' value with hput | ⟨mine', theirs', hmine', rfl⟩
    · have hvalid := (put_eq_ok_iff.1 (hput.symm.trans hd')).1
      exact hinvalid (Path.isValid_of_mem_segments hvalid hkey)
    · rw [isSpelled_eq_false_iff.2 fun _ => ⟨theirs', mine', rfl, hmine'⟩] at hs
      cases hs
  have hmerged : changes.mergedUnder d key = some (.document theirs) :=
    Fields.mergedUnder_eq_some_iff.2 ⟨hv,
      isSpelled_eq_false_iff.2 fun _ => ⟨theirs, mine, rfl, hmine⟩⟩
  rw [Fields.mergeInto_eq h, field?_writeAll, Fields.writesUnder_writesInto, hspelled,
    hmerged, hmine, List.append_nil, Option.elim_some, Value.writesAt]
  exact ⟨_, Value.writeAll_document mine fun w hw => Fields.ne_nil_of_mem_writesInto hw⟩

/-- If no key of an embedded document of the changes has an empty segment, they can be merged
    again. -/
theorem exists_merge_again (h : d.merge changes = .ok r)
    (hm : ∀ key value, changes.field? key = some value → value.mergeable = true) :
    ∃ r', r.merge changes = .ok r' := by
  refine (exists_mergeInto_iff changes r).2 fun key value hv => ?_
  by_cases hvalid : Path.isValid key = true
  · exact Value.exists_mergeEntry_of_mergeable (hm key value hv) hvalid r
  · obtain ⟨d', hd'⟩ := (exists_mergeInto_iff changes d).1 ⟨r, h⟩ key value hv
    rcases d.mergeEntry_cases key value with hput | ⟨mine, theirs, hmine, rfl⟩
    · exact absurd (put_eq_ok_iff.1 (hput.symm.trans hd')).1 hvalid
    · obtain ⟨merged, hmerged⟩ := exists_field?_merge h hvalid hv hmine
      obtain ⟨merged', h'⟩ := Fields.exists_mergeInto_of_mergeable (hm key _ hv) merged
      exact ⟨_, (mergeEntry_eq_ok_iff hmerged).2 ⟨merged', h', rfl⟩⟩

/-- **Changes that were merged into a document can be merged again, and change nothing then, if the
    keys of their embedded documents have no empty segments, what the first merge stores as it is
    has no value other than a document under a key with a dot, and each write of it keeps the arrays
    that it enters for those after it.** -/
theorem merge_again (h : d.merge changes = .ok r)
    (hm : ∀ key value, changes.field? key = some value → value.mergeable = true)
    (hplain : changes.storesPlain d = true)
    (hkept : Value.Kept (some (.document d)) (changes.writesInto d)) : r.merge changes = .ok r := by
  obtain ⟨r', hr'⟩ := exists_merge_again h hm
  have hwrites : Edit.writes ⟨some (.document changes), []⟩ (some (.document d)) =
      changes.writesInto d :=
    List.append_nil _
  have hrepeats : Edit.Repeats ⟨some (.document changes), []⟩ (some (.document d)) :=
    Edit.repeats_merged (.document changes) hplain nofun (hwrites.symm ▸ hkept)
  rw [Edit.Repeats, run_merge h, run_merge hr'] at hrepeats
  cases hrepeats
  exact hr'

/-- Two numbers in an array. -/
def twoItems : Document := single "a" (.array [.int 5, .int 6])

/-- New values for both, and an embedded document. -/
def itemChanges : Document :=
  ((single "a.0" (.int 1)).set "a.1" (.int 2)).set "b" (.document (single "c" (.int 3)))

/-- Both items are positions before and after. -/
theorem merge_again_twoItems : ∃ r, twoItems.merge itemChanges = .ok r ∧
    r.containsField "a.1" = true ∧ r.merge itemChanges = .ok r := by
  obtain ⟨r, hr, hfield⟩ := exists_of_toOption_map
    (show (twoItems.merge itemChanges).toOption.map (·.containsField "a.1") = some true by
      decide +kernel)
  have hpaths : (Fields.writesInto itemChanges twoItems).map Prod.fst =
      [["a", "0"], ["a", "1"], ["b"]] := by
    decide +kernel
  have hm : ∀ e ∈ itemChanges.toList, e.2.mergeable = true := by decide +kernel
  have hzero : Path.positionIn? "0" 2 = some 0 := by decide +kernel
  have hone : Path.positionIn? "1" 2 = some 1 := by decide +kernel
  refine ⟨r, hr, hfield,
    merge_again hr (fun key value hv => hm (key, value) (Fields.mem_toList_iff.2 hv))
    (by decide +kernel) ?_⟩
  rw [Value.Kept, hpaths]
  simp [Value.KeepsArrays, twoItems, hzero, hone]

/-- An item that is written at its position, and then a field in place of the array. -/
def clashingChanges : Document := (single "a.0" (.int 1)).set "a.b" (.int 2)

/-- A key with a dot in an embedded document. -/
def dottedBelow : Document := single "a" (.document (single "b.c" (.int 1)))

/-- An empty key in an embedded document. -/
def emptyBelow : Document := single "a" (.document (single "" (.int 1)))

theorem exists_merge_twice {p : Document → Bool} {b b' : Bool}
    (h : (d.merge changes).toOption.map p = some b)
    (h' : (d.merge changes >>= (·.merge changes)).toOption.map p = some b') :
    ∃ r r', d.merge changes = .ok r ∧ r.merge changes = .ok r' ∧ p r = b ∧ p r' = b' := by
  obtain ⟨r, hr, hp⟩ := exists_of_toOption_map h
  obtain ⟨r', hr', hp'⟩ := exists_of_toOption_map h'
  rw [hr] at hr'
  exact ⟨r, r', hr, hr', hp, hp'⟩

/-- The second merge writes a field where the first one has written an item, or reads a key as a
    path that the first one has stored as it is, or refuses it. -/
theorem merge_again_differs :
    (∃ r r', twoItems.merge clashingChanges = .ok r ∧ r.merge clashingChanges = .ok r' ∧
      r.containsField "a.0" = false ∧ r'.containsField "a.0" = true) ∧
    (∃ r r', empty.merge dottedBelow = .ok r ∧ r.merge dottedBelow = .ok r' ∧
      r.containsField "a.b" = false ∧ r'.containsField "a.b" = true) ∧
    (∃ r, empty.merge emptyBelow = .ok r ∧ ¬ ∃ r', r.merge emptyBelow = .ok r') ∧
    ¬ ∀ d changes r : Document, d.merge changes = .ok r → r.merge changes = .ok r := by
  have hclash : ∃ r r', twoItems.merge clashingChanges = .ok r ∧ r.merge clashingChanges = .ok r' ∧
      r.containsField "a.0" = false ∧ r'.containsField "a.0" = true :=
    exists_merge_twice (by decide +kernel) (by decide +kernel)
  refine ⟨hclash, exists_merge_twice (by decide +kernel) (by decide +kernel), ?_, fun h => ?_⟩
  · obtain ⟨r, hr, -⟩ := exists_of_toOption_map
      (show (empty.merge emptyBelow).toOption.map Fields.isEmpty = some false by decide +kernel)
    refine ⟨r, hr, fun ⟨r', hr'⟩ => ?_⟩
    have hfails : (empty.merge emptyBelow >>= (·.merge emptyBelow)).toOption.isSome = false := by
      decide +kernel
    have hboth : (empty.merge emptyBelow >>= (·.merge emptyBelow)) = .ok r' :=
      bind_eq_ok_iff.2 ⟨r, hr, hr'⟩
    rw [hboth] at hfails
    cases hfails
  · obtain ⟨r, r', hr, hr', hfield, hfield'⟩ := hclash
    rw [h _ _ _ hr] at hr'
    cases hr'
    rw [hfield] at hfield'
    cases hfield'

end Document

end DocumentDb
