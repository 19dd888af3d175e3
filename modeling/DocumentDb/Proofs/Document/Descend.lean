/-
  DocumentDb — writing and reading through embedded documents.

  * `Value.descend` is the value at a path that leads through documents only, as all paths do in a
    probe.  Reading and realizing agree on it (`at_of_descend`, `resolve_of_descend`), and it is
    equal in equal values (`descend_of_beq`).
  * `Value.Clear current path`: the path does not lead into an array.  Then a write at the
    path puts the value there (`descend_write`), and leaves alone every path of which it is
    no prefix and that is no prefix of it (`descend_write_of_apart`).  A value is `Open` if
    no path leads into an array.
-/
import DocumentDb.Proofs.Document.Entries
import DocumentDb.Proofs.Document.Write
import DocumentDb.Proofs.Key.Realize

namespace DocumentDb

namespace Value

/-- The value at a path through embedded documents. -/
def descend : Value → List String → Option Value
  | value, [] => some value
  | document d, key :: path =>
    match d.field? key with
    | some value => value.descend path
    | none => none
  | _, _ :: _ => none

/-- What a path leads to under a key of a document. -/
theorem descend_document {d : Document} {key : String} {path : List String} :
    (document d).descend (key :: path) = (d.field? key).bind (·.descend path) := by
  rw [descend]
  cases d.field? key <;> rfl

theorem exists_of_descend_cons {value found : Value} {key : String} {path : List String}
    (h : value.descend (key :: path) = some found) : ∃ d, value = .document d := by
  cases value with
  | document d => exact ⟨d, rfl⟩
  | _ => cases h

theorem descend_append : ∀ {path : List String} {value : Value} (rest : List String),
    value.descend (path ++ rest) = (value.descend path).bind (·.descend rest)
  | [], value, rest => by
    rw [descend]
    rfl
  | key :: path, document d, rest => by
    rw [List.cons_append, descend_document, descend_document, Option.bind_assoc]
    exact Option.bind_congr fun below _ => descend_append rest
  | _ :: _, null, _ | _ :: _, bool _, _ | _ :: _, number _, _ | _ :: _, text _, _
  | _ :: _, array _, _ => rfl

/-- A path does not lead into an array. -/
def Clear : Option Value → List String → Prop
  | _, [] => True
  | some (document d), key :: path => Clear (d.field? key) path
  | some (array _), _ :: _ => False
  | _, _ :: _ => True

/-- The document that stands in a place, without entries if there is none. -/
def held : Option Value → Document
  | some (document d) => d
  | _ => Document.empty

theorem held_of_no_document {current : Option Value} (h : ∀ d, current ≠ some (document d)) :
    held current = Document.empty := by
  match current, h with
  | some (document d), h => exact absurd rfl (h d)
  | none, _ | some null, _ | some (bool _), _ | some (number _), _ | some (text _), _
  | some (array _), _ => rfl

theorem clear_none (path : List String) : Clear none path := by
  cases path <;> trivial

theorem clear_nil (current : Option Value) : Clear current [] := by
  cases current with
  | none => trivial
  | some value => cases value <;> trivial

theorem Clear.below {current : Option Value} {key : String} {path : List String}
    (h : Clear current (key :: path)) : Clear ((held current).field? key) path := by
  match current, h with
  | some (document d), h => exact h
  | none, _ | some null, _ | some (bool _), _ | some (number _), _ | some (text _), _ =>
    exact clear_none path

theorem descend_held (current : Option Value) (key : String) (path : List String) :
    current.bind (·.descend (key :: path)) = ((held current).field? key).bind (·.descend path) := by
  match current with
  | some (document d) => exact descend_document
  | none | some null | some (bool _) | some (number _) | some (text _) | some (array _) => rfl

/-- Where no array stands, a write is one to an entry of the document that stands there. -/
theorem write_of_no_array {current : Option Value} (h : ∀ items, current ≠ some (array items))
    (key : String) (path : List String) (value : Value) : write current (key :: path) value =
      document ((held current).set key (write ((held current).field? key) path value)) := by
  match current, h with
  | some (array items), h => exact absurd rfl (h items)
  | some (document d), _ => rfl
  | none, _ | some null, _ | some (bool _), _ | some (number _), _ | some (text _), _ => rfl

theorem Clear.no_array {current : Option Value} {key : String} {path : List String}
    (h : Clear current (key :: path)) (items : List Value) : current ≠ some (array items) := by
  rintro rfl
  exact h

/-- A write that does not lead into an array writes an entry of the document that stands there. -/
theorem write_of_clear {current : Option Value} {key : String} {path : List String} (value : Value)
    (h : Clear current (key :: path)) : write current (key :: path) value =
      document ((held current).set key (write ((held current).field? key) path value)) :=
  write_of_no_array h.no_array key path value

/-- What a write that does not lead into an array puts in its place. -/
theorem descend_write : ∀ {path : List String} {current : Option Value} {value : Value},
    Clear current path → (write current path value).descend path = some value
  | [], _, _, _ => by rw [write, descend]
  | key :: path, current, value, h => by
    rw [write_of_clear value h, descend_document, Document.field?_set, if_pos rfl]
    exact descend_write h.below

/-- Neither of two paths is a prefix of the other. -/
def Apart (path other : List String) : Prop := ¬ path <+: other ∧ ¬ other <+: path

theorem Apart.symm {path other : List String} (h : Apart path other) : Apart other path :=
  ⟨h.2, h.1⟩

theorem Apart.of_cons {key : String} {path other : List String}
    (h : Apart (key :: path) (key :: other)) : Apart path other :=
  ⟨fun hp => h.1 (List.cons_prefix_cons.2 ⟨rfl, hp⟩),
    fun hp => h.2 (List.cons_prefix_cons.2 ⟨rfl, hp⟩)⟩

theorem descend_write_of_apart :
    ∀ {path other : List String} {current : Option Value} {value : Value},
    Clear current path → Apart path other →
    (write current path value).descend other = current.bind (·.descend other)
  | [], other, _, _, _, h => absurd List.nil_prefix h.1
  | _ :: _, [], _, _, _, h => absurd List.nil_prefix h.2
  | key :: path, key' :: other, current, value, hc, h => by
    rw [write_of_clear value hc, descend_document, Document.field?_set, descend_held]
    split
    · next he =>
      subst he
      exact descend_write_of_apart hc.below (Apart.of_cons h)
    · rfl

/-- A write apart from a path that does not lead into an array puts no array in its way. -/
theorem clear_write : ∀ {path other : List String} {current : Option Value} {value : Value},
    Clear current other → Apart path other → Clear (some (write current path value)) other
  | [], other, _, _, _, h => absurd List.nil_prefix h.1
  | _ :: _, [], _, _, _, h => absurd List.nil_prefix h.2
  | key :: path, key' :: other, current, value, hc, h => by
    rw [write_of_no_array hc.no_array, Clear, Document.field?_set]
    split
    · next he =>
      subst he
      exact clear_write hc.below (Apart.of_cons h)
    · exact hc.below

/-! ## Scalars only -/

/-- No path leads into an array. -/
def Open (current : Option Value) : Prop := ∀ path, Clear current path

theorem Open.below {current : Option Value} (h : Open current) (key : String) :
    Open ((held current).field? key) := fun path => (h (key :: path)).below

/-- A write of a value without arrays makes no array. -/
theorem Open.write : ∀ {path : List String} {current : Option Value} {value : Value},
    Open current → Open (some value) → Open (some (write current path value))
  | [], _, _, _, hv => hv
  | key :: path, current, value, h, hv => by
    rw [write_of_clear value (h (key :: path))]
    intro other
    cases other with
    | nil => trivial
    | cons key' other =>
      rw [Clear, Document.field?_set]
      split
      · exact Open.write (h.below key) hv other
      · exact h.below key' other

theorem open_bool (b : Bool) : Open (some (bool b)) := by
  intro path
  cases path <;> trivial

/-! ## Equal values -/

/-- A path leads to equal values in equal values. -/
theorem descend_of_beq : ∀ {path : List String} {value value' found : Value},
    (value == value') = true → value.descend path = some found →
    ∃ found', value'.descend path = some found' ∧ (found == found') = true
  | [], value, value', found, h, hf => by
    rw [descend] at hf
    cases hf
    exact ⟨value', by rw [descend], h⟩
  | key :: path, document d, value', found, h, hf => by
    cases value' with
    | document d' =>
      rw [descend_document] at hf ⊢
      obtain ⟨below, hb, hf⟩ := Option.bind_eq_some_iff.1 hf
      obtain ⟨below', hb', hbelow⟩ := Fields.field?_of_beq (beq_iff.1 h) hb
      rw [hb']
      exact descend_of_beq hbelow hf
    | _ => cases kind_eq_of_beq h

/-! ## Reading -/

theorem walk_of_descend : ∀ {path : List String} {value found : Value},
    value.descend path = some found → value.walk path = found.walk []
  | [], value, found, h => by
    rw [descend] at h
    rw [Option.some.inj h]
  | key :: path, document d, found, h => by
    rw [descend_document] at h
    obtain ⟨value, hv, hd⟩ := Option.bind_eq_some_iff.1 h
    show d.walk key path = _
    rw [Fields.walk_of_field?, hv]
    exact walk_of_descend hd

theorem at_of_descend : ∀ {path : List String} {value found : Value},
    value.descend path = some found → value.at path = found
  | [], value, found, h => by
    rw [descend] at h
    rw [Value.at, Option.some.inj h]
  | key :: path, document d, found, h => by
    rw [descend_document] at h
    obtain ⟨value, hv, hd⟩ := Option.bind_eq_some_iff.1 h
    rw [Value.at, Fields.at_of_field?, hv]
    exact at_of_descend hd

/-- A path that leads to nothing, and not into an array, reads as null. -/
theorem at_of_descend_none : ∀ {path : List String} {value : Value}, Clear (some value) path →
    value.descend path = none → value.at path = .null
  | [], _, _, h => by
    rw [descend] at h
    cases h
  | key :: path, document d, hc, h => by
    rw [descend_document] at h
    rw [Value.at, Fields.at_of_field?]
    cases hf : d.field? key with
    | none => rfl
    | some below =>
      rw [Clear, hf] at hc
      rw [hf] at h
      exact at_of_descend_none hc h
  | _ :: _, array _, hc, _ => hc.elim
  | _ :: _, null, _, _ | _ :: _, bool _, _, _ | _ :: _, number _, _, _ | _ :: _, text _, _, _ => rfl

end Value

namespace Document

variable {d : Document} {path : String} {value : Value}

/-- No entry is under a key with a dot. -/
def Plain (d : Document) : Prop := ∀ key, Path.isDotted key = true → d.field? key = none

theorem write_eq_document (d : Document) (key : String) (value : Value) :
    Value.write (some (.document d)) (Path.segments key) value =
      .document (d.write (Path.segments key) value) := by
  obtain ⟨first, path, hs⟩ := Path.exists_segments key
  rw [hs]
  rfl

theorem Plain.write (h : d.Plain) (key : String) (value : Value) :
    (d.write (Path.segments key) value).Plain := by
  intro dotted hdot
  obtain ⟨first, path, hs⟩ := Path.exists_segments key
  have hne : first ≠ dotted := by
    rintro rfl
    rw [Path.isDotted_of_mem_segments (hs ▸ List.mem_cons_self)] at hdot
    cases hdot
  rw [hs, Document.write, field?_set, if_neg hne]
  exact h dotted hdot

theorem get_of_not_isDotted (hdot : Path.isDotted path = false) :
    d.get path = .ok ((Value.document d).at (Path.segments path)) := by
  rw [get, hdot, Path.segments_of_not_isDotted hdot, Value.at, Fields.at_of_field?]
  cases d.field? path with
  | none => rfl
  | some value => rw [Option.elim_some, Value.at]

/-- Unless a path with a dot is the key of a field, it is read at its segments. -/
theorem get_of_plain (hp : Path.isDotted path = true → d.field? path = none)
    (hv : Path.isValid path = true) :
    d.get path = .ok ((Value.document d).at (Path.segments path)) := by
  by_cases hdot : Path.isDotted path = true
  · obtain ⟨first, rest, hs⟩ := Path.exists_segments path
    rw [get, hp hdot, if_pos hdot, if_pos hv, hs]
    rfl
  · exact get_of_not_isDotted (Bool.eq_false_iff.2 hdot)

theorem containsField_of_descend (hp : d.Plain) (hv : Path.isValid path = true)
    (h : (Value.document d).descend (Path.segments path) = some value)
    (hne : value.isNull = false) : d.containsField path = true := by
  unfold containsField
  rw [get_of_plain (hp path) hv, Value.at_of_descend h]
  simp [hne]

theorem containsField_of_descend_none (hp : d.Plain) (hv : Path.isValid path = true)
    (hc : Value.Clear (some (.document d)) (Path.segments path))
    (h : (Value.document d).descend (Path.segments path) = none) :
    d.containsField path = false := by
  unfold containsField
  rw [get_of_plain (hp path) hv, Value.at_of_descend_none hc h]
  rfl

theorem resolve_of_descend (h : (Value.document d).descend (Path.segments path) = some value) :
    d.resolve (Path.segments path) =
      if value.walk [] = [] then [.null] else (value.walk []).eraseDups := by
  obtain ⟨first, rest, hs⟩ := Path.exists_segments path
  rw [hs] at h ⊢
  rw [resolve_cons, show d.walk first rest = value.walk [] from Value.walk_of_descend h]

end Document

end DocumentDb
