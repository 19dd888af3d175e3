/-
  DocumentDb — what is read where something was removed.

  * `Document.at_prune_self`: nothing, where the path of the removal does not lead into an array; in
    any case nothing or what was read before (`Document.at_prune_self_cases`).
  * **`Document.get_remove`**: so a key whose field is removed by its path reads as null.  A key
    with a dot may also be the key of a field.  Then only that field is removed, and what the path
    leads to is read.
-/
import DocumentDb.Proofs.Document.Frame

namespace DocumentDb

namespace Document

open Value (Clear)

/-! ## Inside a document -/

/-- At the path of a removal that does not lead into an array nothing is left. -/
theorem at_prune_self :
    ∀ {path : List String} {d : Document}, path ≠ [] → Clear (some (.document d)) path →
    (Value.document (d.prune path)).at path = .null
  | [key], d, _, _ => by
    rw [prune, Value.at_document, Fields.field?_erase, if_pos rfl]
    rfl
  | key :: segment :: path, d, _, hc => by
    rw [Value.at_document]
    by_cases hdoc : ∃ nested, d.field? key = some (.document nested)
    · obtain ⟨nested, hnested⟩ := hdoc
      rw [Clear, hnested] at hc
      rw [field?_prune_self hnested]
      split
      · rfl
      · exact at_prune_self (List.cons_ne_nil segment path) hc
    · have hn : ∀ nested, d.field? key ≠ some (.document nested) :=
        fun nested hn => hdoc ⟨nested, hn⟩
      have hc : Clear (d.field? key) (segment :: path) := hc
      rw [prune_of_no_document hn, Value.elim_at_of_no_array hc.no_array,
        Value.held_of_no_document hn]
      rfl

/-- At the path of a removal nothing is left, or what was there before. -/
theorem at_prune_self_cases : ∀ (path : List String) (d : Document),
    (Value.document (d.prune path)).at path = .null ∨
      (Value.document (d.prune path)).at path = (Value.document d).at path
  | [], _ => Or.inr rfl
  | [key], d => Or.inl (at_prune_self (List.cons_ne_nil key []) (Value.clear_nil (d.field? key)))
  | key :: segment :: path, d => by
    by_cases hdoc : ∃ nested, d.field? key = some (.document nested)
    · obtain ⟨nested, hnested⟩ := hdoc
      rw [Value.at_document, Value.at_document, field?_prune_self hnested, hnested]
      split
      · exact Or.inl rfl
      · exact at_prune_self_cases (segment :: path) nested
    · rw [prune_of_no_document fun nested hnested => hdoc ⟨nested, hnested⟩]
      exact Or.inr rfl

/-! ## Keys of a document -/

variable {d d' : Document} {key : String}

theorem containsField_of_get_null (h : d.get key = .ok .null) : d.containsField key = false := by
  rw [containsField, h]
  rfl

/-- What is read at a path that is no key of a field. -/
theorem get_of_no_field (hdotted : Path.isDotted key = true) (hnone : d.field? key = none) :
    d.get key = if Path.isValid key then .ok ((Value.document d).at (Path.segments key))
      else .error (.invalidKey key) := by
  split
  · next hvalid => exact get_of_isDotted hdotted hvalid hnone
  · next hinvalid =>
    rw [get, hnone]
    dsimp only
    rw [if_pos hdotted, if_neg hinvalid]

/-- The field under a key with a dot is beside what the segments of the key lead to. -/
theorem at_erase_of_isDotted (hdotted : Path.isDotted key = true) :
    (Value.document (d.erase key)).at (Path.segments key) =
      (Value.document d).at (Path.segments key) := by
  obtain ⟨first, path, hs⟩ := Path.exists_segments key
  have hne : key ≠ first := fun he => Path.ne_of_isDotted hdotted (hs ▸ List.mem_cons_self) he.symm
  rw [hs, Value.at_document, Value.at_document, Fields.field?_erase, if_neg hne]

theorem field?_prune_of_isDotted (hdotted : Path.isDotted key = true) :
    (d.prune (Path.segments key)).field? key = d.field? key := by
  obtain ⟨first, path, hs⟩ := Path.exists_segments key
  rw [hs]
  exact field?_prune_of_ne (Path.ne_of_isDotted hdotted (hs ▸ List.mem_cons_self))

/-- A field is removed by its key, and what a key with a dot leads to by its segments. -/
theorem remove_cases (h : d.remove key = .ok d') :
    (Path.isDotted key = true → d.hasKey key = true) ∧ d' = d.erase key ∨
      Path.isDotted key = true ∧ d.hasKey key = false ∧ Path.isValid key = true ∧
        d' = d.prune (Path.segments key) := by
  rw [remove] at h
  split at h
  · next hfield =>
    refine Or.inl ⟨fun hdotted => ?_, (Except.ok.inj h).symm⟩
    rwa [hdotted, Bool.not_true, Bool.or_false] at hfield
  · next hpath =>
    split at h
    · next hvalid =>
      rw [Bool.or_eq_true, not_or, Bool.not_eq_true, Bool.not_eq_true, Bool.not_eq_false'] at hpath
      exact Or.inr ⟨hpath.2, hpath.1, hvalid, (Except.ok.inj h).symm⟩
    · cases h

/-- **What is removed reads as null, if its key has no dot, or is not the key of a field and does
    not lead into an array, or if it read as null before.  Where a key with a dot is the key of a
    field, only this field is removed, and what the segments of the key lead to is read.** -/
theorem get_remove (h : d.remove key = .ok d') :
    ((Path.isDotted key = true → d.hasKey key = false ∧
        (Clear (some (.document d)) (Path.segments key) ∨ d.get key = .ok .null)) →
      d'.get key = .ok .null ∧ d'.containsField key = false) ∧
    (Path.isDotted key = true → d.hasKey key = true → d' = d.erase key ∧ d'.get key =
      if Path.isValid key then .ok ((Value.document d).at (Path.segments key))
      else .error (.invalidKey key)) := by
  rcases remove_cases h with ⟨hfield, rfl⟩ | ⟨hdotted, hkey, hvalid, rfl⟩
  · have herased : (d.erase key).field? key = none := by rw [Fields.field?_erase, if_pos rfl]
    refine ⟨fun hread => ?_, fun hdotted _ => ?_⟩
    · have hplain : ¬ Path.isDotted key = true := fun hdotted => by
        rw [(hread hdotted).1] at hfield
        cases hfield hdotted
      suffices hnull : Document.get (d.erase key) key = .ok .null from
        ⟨hnull, containsField_of_get_null hnull⟩
      rw [get, herased]
      exact if_neg hplain
    · refine ⟨rfl, ?_⟩
      rw [get_of_no_field hdotted herased, at_erase_of_isDotted hdotted]
  · have hnone : d.field? key = none := Fields.hasKey_eq_false_iff.1 hkey
    refine ⟨fun hread => ?_, fun _ hheld => absurd (hkey.symm.trans hheld) Bool.false_ne_true⟩
    suffices hat : (Value.document (d.prune (Path.segments key))).at (Path.segments key) = .null by
      have hnull : (d.prune (Path.segments key)).get key = .ok .null := by
        rw [get_of_isDotted hdotted hvalid ((field?_prune_of_isDotted hdotted).trans hnone), hat]
      exact ⟨hnull, containsField_of_get_null hnull⟩
    rcases (hread hdotted).2 with hclear | hnull
    · exact at_prune_self (Path.segments_ne_nil key) hclear
    · rcases at_prune_self_cases (Path.segments key) d with hat | hat
      · exact hat
      · rw [get_of_isDotted hdotted hvalid hnone] at hnull
        rw [hat, Except.ok.inj hnull]

/-- A document in which a key with a dot is the key of a field, and its segments lead to
    another value. -/
def shadowed : Document := (single "a" (.document (single "b" (.int 2)))).set "a.b" (.int 1)

theorem remove_shadowed : shadowed.remove "a.b" = .ok (shadowed.erase "a.b") := by
  have hkey : shadowed.hasKey "a.b" = true := by decide +kernel
  rw [remove, hkey, Bool.true_or, if_pos rfl]

theorem at_shadowed : (Value.document shadowed).at (Path.segments "a.b") = .int 2 := by
  have hs : Path.segments "a.b" = ["a", "b"] := by decide +kernel
  rw [hs]
  simp [shadowed, Value.at_document, Value.at_nil]

/-- A second removal takes away what the first one brought to light. -/
theorem get_remove_shadowed : ∃ d d', shadowed.remove "a.b" = .ok d ∧ d = shadowed.erase "a.b" ∧
    d.get "a.b" = .ok (.int 2) ∧ d.remove "a.b" = .ok d' ∧ d'.get "a.b" = .ok .null ∧
      d'.containsField "a.b" = false := by
  have hdotted : Path.isDotted "a.b" = true := by decide +kernel
  have hvalid : Path.isValid "a.b" = true := by decide +kernel
  have hs : Path.segments "a.b" = ["a", "b"] := by decide +kernel
  have hkey : shadowed.hasKey "a.b" = true := by decide +kernel
  have hrest : (shadowed.erase "a.b").hasKey "a.b" = false := by decide +kernel
  obtain ⟨herase, hget⟩ := (get_remove remove_shadowed).2 hdotted hkey
  rw [if_pos hvalid, at_shadowed] at hget
  have hremove : Document.remove (shadowed.erase "a.b") "a.b" =
      .ok (Document.prune (shadowed.erase "a.b") (Path.segments "a.b")) := by
    rw [remove, hrest, hdotted, Bool.not_true, Bool.or_false, if_neg Bool.false_ne_true,
      if_pos hvalid]
  have hclear : Clear (some (.document (shadowed.erase "a.b"))) (Path.segments "a.b") := by
    rw [hs]
    simp [shadowed, Clear, Fields.field?_erase]
  obtain ⟨hnull, hfield⟩ := (get_remove hremove).1 fun _ => ⟨hrest, Or.inl hclear⟩
  exact ⟨_, _, remove_shadowed, herase, hget, hremove, hnull, hfield⟩

/-- The field that was removed had hidden a value, and nothing is removed from an array. -/
theorem not_get_remove : (∃ d, shadowed.remove "a.b" = .ok d ∧ d.get "a.b" = .ok (.int 2)) ∧
    (∃ d, mixedItems.remove "a.1.b" = .ok d ∧ d.get "a.1.b" = .ok (.int 1)) ∧
    ¬ ∀ (d d' : Document) (key : String), d.remove key = .ok d' → d'.get key = .ok .null := by
  have hshadowed : Document.get (shadowed.erase "a.b") "a.b" = .ok (.int 2) := by
    rw [get_of_no_field (by decide +kernel) (by rw [Fields.field?_erase, if_pos rfl]),
      at_erase_of_isDotted (by decide +kernel), at_shadowed, if_pos (by decide +kernel)]
  refine ⟨⟨_, remove_shadowed, hshadowed⟩, ?_, fun h => ?_⟩
  · have hs : Path.segments "a.1.b" = ["a", "1", "b"] := by decide +kernel
    have hone : Path.position? "1" = some 1 := by decide +kernel
    have hnone : mixedItems.field? "a.1.b" = none := by decide +kernel
    have hitems : ∀ nested, mixedItems.field? "a" ≠ some (.document nested) := by simp [mixedItems]
    refine ⟨mixedItems, ?_, ?_⟩
    · rw [remove, Fields.hasKey, hnone, if_neg (by decide +kernel), if_pos (by decide +kernel), hs,
        prune_of_no_document hitems]
    · rw [get_of_isDotted (by decide +kernel) (by decide +kernel) hnone, hs]
      simp [mixedItems, Value.at_document, Value.at_array _ hone, Value.atItem_eq_elim,
        Value.at_nil]
  · rw [h _ _ _ remove_shadowed] at hshadowed
    cases hshadowed

end Document

end DocumentDb
