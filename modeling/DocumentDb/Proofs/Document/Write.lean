/-
  DocumentDb — what writing at a path does to the fields of a document.

  * `put_eq_ok_iff`: a value is put at the segments of its key, if none of them is empty.
  * A put changes the field of the first segment only, so none that comes after its key
    (`field?_put_of_lt`).
-/
import DocumentDb.Document.Access
import DocumentDb.Proofs.Text.Path

namespace DocumentDb

namespace Document

@[simp] theorem field?_empty (key : String) : empty.field? key = none := rfl

@[simp] theorem field?_set (d : Document) (key wanted : String) (value : Value) :
    (d.set key value).field? wanted = if key = wanted then some value else d.field? wanted :=
  Fields.field?_insert d key wanted trivial value

@[simp] theorem field?_single (key wanted : String) (value : Value) :
    (single key value).field? wanted = if key = wanted then some value else none := by
  rw [single, field?_set, field?_empty]

/-- A text is no embedded document. -/
theorem field?_single_text_ne {key wanted t : String} {mine : Document} :
    (single key (.text t)).field? wanted ≠ some (.document mine) := by
  rw [field?_single]
  split <;> simp

theorem id?_set_id (d : Document) (id : String) : (d.set idKey (.text id)).id? = some id := by
  unfold id?
  rw [field?_set, if_pos rfl]
  rfl

theorem set_of_field? {d : Document} {key : String} {value : Value}
    (h : d.field? key = some value) : d.set key value = d := by
  refine Fields.ext _ _ fun wanted => ?_
  rw [field?_set]
  split
  · next he => rw [← he, h]
  · rfl

/-- **A value is put at the segments of its key, if none of them is empty.** -/
theorem put_eq_ok_iff {d d' : Document} {key : String} {value : Value} :
    d.put key value = .ok d' ↔
      Path.isValid key = true ∧ d' = d.write (Path.segments key) value := by
  unfold put
  split
  · next he =>
    have hv : Path.isValid key = false := by rw [String.isEmpty_iff.1 he]; rfl
    simp [hv]
  · next hne =>
    split
    · split
      · next hv => simp [hv, eq_comm]
      · next hv => simp [hv]
    · next hd =>
      have hs := Path.segments_of_not_isDotted (Bool.eq_false_iff.2 hd)
      have hv : Path.isValid key = true := by
        unfold Path.isValid
        rw [hs]
        simpa using hne
      rw [hs, write, Value.write]
      simp [hv, eq_comm]

theorem exists_put_iff {d : Document} {key : String} {value : Value} :
    (∃ d', d.put key value = .ok d') ↔ Path.isValid key = true := by
  constructor
  · rintro ⟨d', h⟩
    exact (put_eq_ok_iff.1 h).1
  · intro h
    exact ⟨_, put_eq_ok_iff.2 ⟨h, rfl⟩⟩

/-- A put leaves the fields alone that come after its key. -/
theorem field?_put_of_lt {d d' : Document} {key later : String} {value : Value}
    (h : d.put key value = .ok d') (hlt : key < later) : d'.field? later = d.field? later := by
  obtain ⟨-, rfl⟩ := put_eq_ok_iff.1 h
  obtain ⟨first, path, hs⟩ := Path.exists_segments key
  have hne : first ≠ later := by
    rintro rfl
    rcases Path.segments_eq_cons hs with ⟨-, rfl⟩ | hbefore
    · exact String.lt_irrefl _ hlt
    · exact String.lt_asymm hlt hbefore
  rw [hs, write, field?_set, if_neg hne]

end Document

end DocumentDb
