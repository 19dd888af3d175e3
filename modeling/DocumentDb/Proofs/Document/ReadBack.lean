/-
  DocumentDb — reading back what was written.

  * `Value.at_write_append`: from the path of a write on the value that was written is read,
    whatever stood on the way.  The recursion is that of the write; a segment that selects
    an item for the write selects it for the read, and where the write makes a new document
    the read finds its entry.
  * `Document.get_put`: a dotted key that the document holds verbatim hides the value at its path,
    as a read asks for it first and a write never changes it.
  * **`Document.put_get_iff`**: so what was put is read back unless it is hidden.
-/
import DocumentDb.Proofs.Document.Entries
import DocumentDb.Proofs.Document.Write

namespace DocumentDb

/-! ## Inside a value -/

namespace Value

theorem at_nil (value : Value) : value.at [] = value := by
  cases value <;> rfl

theorem at_document (d : Document) (key : String) (path : List String) :
    (document d).at (key :: path) = (d.field? key).elim .null (·.at path) := by
  rw [Value.at]
  exact Fields.at_of_field? d key path

theorem at_array {items : List Value} {segment : String} {position : Nat} (path : List String)
    (h : Path.position? segment = some position) :
    (array items).at (segment :: path) = atItem items position path := by
  rw [Value.at, h]

theorem atItem_of_getElem? {value : Value} {path : List String} :
    ∀ {items : List Value} {position : Nat}, items[position]? = some value →
      atItem items position path = value.at path
  | _ :: _, 0, h => by
    rw [atItem, Option.some.inj h]
  | _ :: _, _ + 1, h => by
    rw [atItem]
    exact atItem_of_getElem? h

theorem at_document_single (key : String) (path : List String) (value : Value) :
    (document (Document.single key value)).at (key :: path) = value.at path := by
  rw [at_document, Document.field?_single, if_pos rfl]
  rfl

/-- **Below the path of a write is read what is below the value that was written.** -/
theorem at_write_append : ∀ (current : Option Value) (path rest : List String) (value : Value),
    (write current path value).at (path ++ rest) = value.at rest
  | _, [], rest, value => by
    rw [write, List.nil_append]
  | some (document d), key :: path, rest, value => by
    rw [write, List.cons_append, at_document, Document.field?_set, if_pos rfl]
    exact at_write_append (d.field? key) path rest value
  | some (array items), segment :: path, rest, value => by
    rw [write]
    cases hp : Path.positionIn? segment items.length with
    | none =>
      rw [List.cons_append, at_document_single]
      exact at_write_append none path rest value
    | some position =>
      obtain ⟨hposition, hlt⟩ := Option.filter_eq_some_iff.1 hp
      rw [List.cons_append, at_array _ hposition,
        atItem_of_getElem? (List.getElem?_set_self (of_decide_eq_true hlt))]
      exact at_write_append (asContainer items[position]?) path rest value
  | none, key :: path, rest, value | some null, key :: path, rest, value
  | some (bool _), key :: path, rest, value | some (number _), key :: path, rest, value
  | some (text _), key :: path, rest, value => by
    show (document (Document.single key (write none path value))).at (key :: (path ++ rest)) = _
    rw [at_document_single]
    exact at_write_append none path rest value

/-- At the path of a write stands what was written. -/
theorem at_write (current : Option Value) (path : List String) (value : Value) :
    (write current path value).at path = value := by
  have h := at_write_append current path [] value
  rwa [List.append_nil, at_nil] at h

end Value

/-! ## Inside a document -/

namespace Document

variable {d d' : Document} {key : String} {value : Value}

theorem get_of_field? (h : d.field? key = some value) : d.get key = .ok value := by
  rw [get, h]

/-- After a put a document holds a dotted key verbatim just as it did before. -/
theorem field?_put_of_isDotted (hdotted : Path.isDotted key = true) (h : d.put key value = .ok d') :
    d'.field? key = d.field? key := by
  obtain ⟨-, rfl⟩ := put_eq_ok_iff.1 h
  obtain ⟨first, path, hs⟩ := Path.exists_segments key
  have hne : first ≠ key := by
    rintro rfl
    have hplain := Path.isDotted_of_mem_segments
        (hs ▸ List.mem_cons_self : first ∈ Path.segments first)
    rw [hplain] at hdotted
    cases hdotted
  rw [hs, write, field?_set, if_neg hne]

/-- A read of a path that the document does not hold verbatim goes through its segments. -/
theorem get_of_isDotted (hdotted : Path.isDotted key = true) (hvalid : Path.isValid key = true)
    (hnone : d.field? key = none) :
    d.get key = .ok ((Value.document d).at (Path.segments key)) := by
  obtain ⟨first, path, hs⟩ := Path.exists_segments key
  rw [get, hnone, hs, Value.at]
  simp only [hdotted, hvalid, if_true]

/-- What is read under the key of a put. -/
theorem get_put (h : d.put key value = .ok d') :
    d'.get key = .ok (if Path.isDotted key then (d.field? key).getD value else value) := by
  obtain ⟨hvalid, hwritten⟩ := put_eq_ok_iff.1 h
  have hat : (Value.document d').at (Path.segments key) = value := by
    obtain ⟨first, path, hs⟩ := Path.exists_segments key
    rw [hwritten, hs]
    exact Value.at_write (some (.document d)) (first :: path) value
  cases hdotted : Path.isDotted key with
  | true =>
    have hkept := field?_put_of_isDotted hdotted h
    cases hold : d.field? key with
    | some old => exact get_of_field? (hkept.trans hold)
    | none =>
      rw [get_of_isDotted hdotted hvalid (hkept.trans hold), hat]
      rfl
  | false =>
    rw [Path.segments_of_not_isDotted hdotted] at hwritten
    refine get_of_field? ?_
    rw [hwritten, write, field?_set, if_pos rfl, Value.write]
    rfl

/-- **What was put under a key without empty segments is read back, unless the key has a dot and the
    document holds it verbatim with another value.  Then that value is read.** -/
theorem put_get_iff (d : Document) (key : String) (value : Value)
    (hvalid : Path.isValid key = true) :
    ∃ d', d.put key value = .ok d' ∧
      (d'.get key = .ok value ↔
        ∀ old, Path.isDotted key = true → d.field? key = some old → old = value) ∧
      ∀ old, Path.isDotted key = true → d.field? key = some old → d'.get key = .ok old := by
  obtain ⟨d', hput⟩ : ∃ d', d.put key value = .ok d' := exists_put_iff.2 hvalid
  have hget := get_put hput
  have hidden : ∀ old, Path.isDotted key = true → d.field? key = some old →
      d'.get key = .ok old := by
    intro old hdotted hold
    rw [hget, if_pos hdotted, hold]
    rfl
  refine ⟨d', hput, ⟨fun h old hdotted hold => ?_, fun h => ?_⟩, hidden⟩
  · exact Except.ok.inj ((hidden old hdotted hold).symm.trans h)
  · rw [hget]
    split
    · next hdotted =>
      cases hold : d.field? key with
      | some old => rw [h old hdotted hold]; rfl
      | none => rfl
    · rfl

/-- A scalar and a document in an array. -/
def mixedItems : Document :=
  single "a" (.array [.int 5, .document (single "b" (.int 1))])

theorem put_get_mixedItems : Path.isValid "a.0.b" = true ∧
    ∃ d', mixedItems.put "a.0.b" (.int 2) = .ok d' ∧ d'.get "a.0.b" = .ok (.int 2) := by
  have hvalid : Path.isValid "a.0.b" = true := by decide +kernel
  obtain ⟨d', hput, hget, -⟩ := put_get_iff mixedItems "a.0.b" (.int 2) hvalid
  refine ⟨hvalid, d', hput, hget.2 fun old _ hold => ?_⟩
  have hnone : mixedItems.field? "a.0.b" = none := by decide +kernel
  rw [hnone] at hold
  cases hold

/-- A key with a dot, as documents read from elsewhere have them. -/
def dottedEntry : Document := single "a.b" (.int 1)

/-- The entry hides what is put at the path. -/
theorem put_get_dottedEntry : ¬∀ (d : Document) (key : String) (value : Value),
    Path.isValid key = true → ∃ d', d.put key value = .ok d' ∧ d'.get key = .ok value := by
  intro h
  obtain ⟨d', hput, hget⟩ := h dottedEntry "a.b" (.int 2) (by decide +kernel)
  have hold : dottedEntry.field? "a.b" = some (.int 1) := by
    rw [dottedEntry, field?_single, if_pos rfl]
  have hdotted : Path.isDotted "a.b" = true := by decide +kernel
  rw [get_put hput, if_pos hdotted, hold] at hget
  cases hget

end Document

end DocumentDb
