/-
  DocumentDb — indexes with the same contents.

  * `Index.Alike i j`: the two maps of one index are those of another, up to equality of keys, and
    its buckets come in the same order.
  * Buckets in order are determined by which ids are under which keys: the least key is in the first
    bucket of both lists (`Ordered.heads_beq`), so these agree bucket by bucket (`Ordered.forall₂`).
-/
import Mathlib.Data.List.Sort
import DocumentDb.Proofs.Index.Consistent

namespace DocumentDb

namespace Index

variable [Collator]

/-- Two indexes of one definition have the same ids under the same keys, in the same order of the
    keys, and the same keys for the same ids; keys may differ in form where they are equal. -/
structure Alike (i j : Index) : Prop where
  serial : i.serial = j.serial
  spec : i.spec = j.spec
  buckets : List.Forall₂ (fun b b' => (b.1 == b'.1) = true ∧ b.2 = b'.2) i.buckets j.buckets
  recorded : ∀ id key, (i.keysOf id).contains key = (j.keysOf id).contains key
  size : i.size = j.size

/-! ## Buckets in order -/

variable [Std.TransCmp Collator.weigh] {directions : List Direction}
    {b b' : CompositeKey × List String}
  {buckets buckets' : List (CompositeKey × List String)}

/-- A key under which there is an id is that of the first bucket or comes after it. -/
theorem Ordered.beq_or_lt (h : Ordered directions (b :: buckets)) {key : CompositeKey} {id : String}
    (hd : key.directions = directions) (hk : Holds (b :: buckets) key id) :
    (key == b.1) = true ∨ b.1.compare key = .lt := by
  obtain ⟨hfirst, ⟨hbd, -, -⟩, hrest⟩ := cons_iff.1 h
  rcases holds_cons.1 hk with ⟨he, -⟩ | ⟨b', hb', he, -⟩
  · exact Or.inl he
  · refine Or.inr ?_
    have hd' := hrest.shaped b' hb'
    have hchain := CompositeKey.compare_chain (hbd.trans hd'.symm) (hd'.trans hd.symm)
    rw [hchain.2.1 (CompositeKey.beq_iff_compare.1 (BEq.symm he))]
    exact hfirst b' hb'

/-- Each of the first buckets has a key that is in the other list, so neither comes before
    the other. -/
theorem Ordered.heads_beq (h : Ordered directions (b :: buckets))
    (h' : Ordered directions (b' :: buckets'))
    (same : ∀ key id, Holds (b :: buckets) key id ↔ Holds (b' :: buckets') key id) :
    (b.1 == b'.1) = true := by
  obtain ⟨-, ⟨hd, hf, -⟩, -⟩ := cons_iff.1 h
  obtain ⟨-, ⟨hd', hf', -⟩, -⟩ := cons_iff.1 h'
  obtain ⟨id, hid⟩ := List.exists_mem_of_ne_nil _ hf
  obtain ⟨id', hid'⟩ := List.exists_mem_of_ne_nil _ hf'
  have hin : Holds (b' :: buckets') b.1 id := (same b.1 id).1 (holds_cons.2 (Or.inl ⟨BEq.rfl, hid⟩))
  have hin' : Holds (b :: buckets) b'.1 id' :=
    (same b'.1 id').2 (holds_cons.2 (Or.inl ⟨BEq.rfl, hid'⟩))
  rcases h'.beq_or_lt hd hin with he | hlt
  · exact he
  · rcases h.beq_or_lt hd' hin' with he | hlt'
    · exact BEq.symm he
    · have hself := CompositeKey.compare_lt_trans (hd.trans hd'.symm) (hd'.trans hd.symm) hlt' hlt
      exact absurd BEq.rfl (CompositeKey.not_beq_of_compare_lt hself)

/-- **Buckets in order are determined by the ids that they hold under each key.** -/
theorem Ordered.forall₂ (h : Ordered directions buckets) (h' : Ordered directions buckets')
    (same : ∀ key id, Holds buckets key id ↔ Holds buckets' key id) :
    List.Forall₂ (fun b b' => (b.1 == b'.1) = true ∧ b.2 = b'.2) buckets buckets' := by
  induction buckets generalizing buckets' with
  | nil =>
    cases buckets' with
    | nil => exact .nil
    | cons b' rest' =>
      obtain ⟨id, hid⟩ := List.exists_mem_of_ne_nil _ (h'.filled b' List.mem_cons_self)
      exact absurd ((same b'.1 id).2 (holds_cons.2 (Or.inl ⟨BEq.rfl, hid⟩))) not_holds_nil
  | cons b rest ih =>
    cases buckets' with
    | nil =>
      obtain ⟨id, hid⟩ := List.exists_mem_of_ne_nil _ (h.filled b List.mem_cons_self)
      exact absurd ((same b.1 id).1 (holds_cons.2 (Or.inl ⟨BEq.rfl, hid⟩))) not_holds_nil
    | cons b' rest' =>
      have he := h.heads_beq h' same
      obtain ⟨-, ⟨-, -, ha⟩, hrest⟩ := cons_iff.1 h
      obtain ⟨-, ⟨-, -, ha'⟩, hrest'⟩ := cons_iff.1 h'
      have hids : ∀ id, id ∈ b.2 ↔ id ∈ b'.2 := by
        intro id
        have hs := same b.1 id
        rw [holds_cons, holds_cons, or_iff_left (h.not_holds_tail BEq.rfl),
          or_iff_left (h'.not_holds_tail he)] at hs
        simpa [he] using hs
      have hlater : ∀ key id, Holds rest key id ↔ Holds rest' key id := by
        intro key id
        have hk : (key == b.1) = (key == b'.1) := BEq.congr_right he
        have hs := same key id
        rw [holds_cons, holds_cons, hk] at hs
        by_cases hkey : (key == b'.1) = true
        · exact iff_of_false (h.not_holds_tail (hk.trans hkey)) (h'.not_holds_tail hkey)
        · simpa [hkey] using hs
      have hsame : b.2 = b'.2 := List.Pairwise.eq_of_mem_iff ha ha' hids
      exact .cons ⟨he, hsame⟩ (ih hrest hrest' hlater)

end Index

end DocumentDb
