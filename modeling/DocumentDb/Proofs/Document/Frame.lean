/-
  DocumentDb — what writes and removals leave alone.

  * `Value.at_write_of_spares`: a write at a path leaves alone what is read at a path apart from it,
    if it keeps the arrays on their common way (`Value.Spares`).  It does where the other path does
    not lead into an array, and where it enters each array at a position and the paths part at
    positions (`Value.spares_of_steady`).
  * `Document.at_prune_of_apart`: a removal does so without any condition, as it goes through
    documents only, and a path through a document that it drops led to nothing.
  * **`Document.get_of_apart`**: both for the keys of a document, where a key with a dot may also be
    the key of a field.
-/
import DocumentDb.Proofs.Document.Descend
import DocumentDb.Proofs.Document.ReadBack

namespace DocumentDb

namespace Value

/-! ## Ways into arrays -/

/-- Each array that the path meets is entered at one of its positions, and an item in which the path
    goes on is no array itself. -/
def Steady : Option Value → List String → Prop
  | some (document d), key :: path => Steady (d.field? key) path
  | some (array items), segment :: path =>
    ∃ position, Path.positionIn? segment items.length = some position ∧
      (path ≠ [] → ∀ inner, items[position]? ≠ some (array inner)) ∧ Steady items[position]? path
  | _, _ => True

/-- If the two paths part at an array, the other one goes on with a number that denotes another
    position. -/
def PartsAtPosition : Option Value → List String → List String → Prop
  | some (document d), key :: path, key' :: other =>
    key = key' → PartsAtPosition (d.field? key) path other
  | some (array items), segment :: path, segment' :: other =>
    if segment = segment' then
      ∀ position, Path.position? segment = some position →
      PartsAtPosition items[position]? path other
    else ∃ position, Path.position? segment' = some position ∧
      Path.position? segment ≠ some position
  | _, _, _ => True

/-- A write at the path keeps each array that the other path leads into: it writes one of the items,
    which is no array if the other path goes on in it, and is not the item that the other path goes
    on in if the paths part there. -/
def Spares : Option Value → List String → List String → Prop
  | some (document d), key :: path, key' :: other => key = key' → Spares (d.field? key) path other
  | some (array items), segment :: path, segment' :: other =>
    ∃ position, Path.positionIn? segment items.length = some position ∧
      if segment = segment' then
        (∀ inner, items[position]? ≠ some (array inner)) ∧ Spares items[position]? path other
      else ∃ position', Path.position? segment' = some position' ∧ position ≠ position'
  | _, _, _ => True

theorem spares_of_steady : ∀ {path other : List String} {current : Option Value},
    Steady current path → PartsAtPosition current path other → Apart path other →
    Spares current path other
  | [], _, _, _, _, h => absurd List.nil_prefix h.1
  | _ :: _, [], _, _, _, h => absurd List.nil_prefix h.2
  | key :: path, key' :: other, some (document d), hs, hp, h => fun he =>
    spares_of_steady hs (hp he) (Apart.of_cons (he ▸ h))
  | segment :: path, segment' :: other, some (array items), hs, hp, h => by
    obtain ⟨position, hin, hinner, hs⟩ := hs
    obtain ⟨hposition, -⟩ := Option.filter_eq_some_iff.1 hin
    refine ⟨position, hin, ?_⟩
    rw [PartsAtPosition] at hp
    split
    · next he =>
      rw [if_pos he] at hp
      have hrest : Apart path other := Apart.of_cons (he ▸ h)
      have hne : path ≠ [] := by
        rintro rfl
        exact hrest.1 List.nil_prefix
      exact ⟨hinner hne, spares_of_steady hs (hp position hposition) hrest⟩
    · next he =>
      rw [if_neg he] at hp
      obtain ⟨position', hp', hne⟩ := hp
      exact ⟨position', hp', fun he => hne (he ▸ hposition)⟩
  | _ :: _, _ :: _, none, _, _, _ | _ :: _, _ :: _, some null, _, _, _
  | _ :: _, _ :: _, some (bool _), _, _, _ | _ :: _, _ :: _, some (number _), _, _, _
  | _ :: _, _ :: _, some (text _), _, _, _ => trivial

/-- Where a path does not lead into an array, no write apart from it replaces one. -/
theorem Clear.spares : ∀ {path other : List String} {current : Option Value},
    Clear current other → Spares current path other
  | [], _, current, _ => by cases current with
    | none => trivial
    | some value => cases value <;> trivial
  | _ :: _, [], current, _ => by cases current with
    | none => trivial
    | some value => cases value <;> trivial
  | key :: path, key' :: other, some (document d), h => fun he => by
    subst he
    exact Clear.spares h.below
  | _ :: _, _ :: _, some (array _), h => h.elim
  | _ :: _, _ :: _, none, _ | _ :: _, _ :: _, some null, _ | _ :: _, _ :: _, some (bool _), _
  | _ :: _, _ :: _, some (number _), _ | _ :: _, _ :: _, some (text _), _ => trivial

/-! ## A write inside a value -/

theorem atItem_eq_elim (path : List String) : ∀ (items : List Value) (position : Nat),
    atItem items position path = items[position]?.elim .null (·.at path)
  | [], _ => by rw [atItem]; rfl
  | _ :: _, 0 => by rw [atItem]; rfl
  | _ :: rest, position + 1 => by
    rw [atItem, atItem_eq_elim path rest position]
    rfl

/-- An item that is no array is written to like a field. -/
theorem write_asContainer {current : Option Value} (h : ∀ inner, current ≠ some (array inner))
    (key : String) (path : List String) (value : Value) :
    write (asContainer current) (key :: path) value = write current (key :: path) value := by
  match current, h with
  | some (array inner), h => exact absurd rfl (h inner)
  | some (document d), _ => rfl
  | none, _ | some null, _ | some (bool _), _ | some (number _), _ | some (text _), _ => rfl

theorem elim_at_of_no_array {current : Option Value} (h : ∀ items, current ≠ some (array items))
    (key : String) (path : List String) : current.elim .null (·.at (key :: path)) =
      ((held current).field? key).elim .null (·.at path) := by
  match current, h with
  | some (array items), h => exact absurd rfl (h items)
  | some (document d), _ => exact at_document d key path
  | none, _ | some null, _ | some (bool _), _ | some (number _), _ | some (text _), _ => rfl

theorem Spares.below {current : Option Value} {key : String} {path other : List String}
    (h : Spares current (key :: path) (key :: other)) (hn : ∀ items, current ≠ some (array items)) :
    Spares ((held current).field? key) path other := by
  match current, h, hn with
  | some (array items), _, hn => exact absurd rfl (hn items)
  | some (document d), h, _ => exact h rfl
  | none, _, _ | some null, _, _ | some (bool _), _, _ | some (number _), _, _
  | some (text _), _, _ =>
    exact (clear_none other).spares

/-- **A write leaves alone what is read at a path apart from its own, if it keeps the arrays
    on the way.** -/
theorem at_write_of_spares : ∀ {path other : List String} {current : Option Value} {value : Value},
    Spares current path other → Apart path other →
    (write current path value).at other = current.elim .null (·.at other)
  | [], _, _, _, _, h => absurd List.nil_prefix h.1
  | _ :: _, [], _, _, _, h => absurd List.nil_prefix h.2
  | segment :: path, segment' :: other, current, value, hs, h => by
    by_cases harray : ∃ items, current = some (array items)
    · obtain ⟨items, rfl⟩ := harray
      obtain ⟨position, hin, hs⟩ := hs
      obtain ⟨hposition, hlt⟩ := Option.filter_eq_some_iff.1 hin
      rw [write, hin, Option.elim_some]
      show (array (items.set position _)).at _ = _
      split at hs
      · next he =>
        -- both go on in the same item, which the write takes for a field
        subst he
        obtain ⟨hinner, hs⟩ := hs
        have hrest : Apart path other := Apart.of_cons h
        rw [at_array other hposition, at_array other hposition, atItem_eq_elim, atItem_eq_elim,
          List.getElem?_set_self (of_decide_eq_true hlt), Option.elim_some]
        cases path with
        | nil => exact absurd List.nil_prefix hrest.1
        | cons key path =>
          rw [write_asContainer hinner]
          exact at_write_of_spares hs hrest
      · obtain ⟨position', hposition', hne⟩ := hs
        rw [at_array other hposition', at_array other hposition', atItem_eq_elim, atItem_eq_elim,
          List.getElem?_set_ne hne]
    · have hn : ∀ items, current ≠ some (array items) := fun items he => harray ⟨items, he⟩
      rw [write_of_no_array hn, at_document, Document.field?_set, elim_at_of_no_array hn]
      split
      · next he =>
        subst he
        exact at_write_of_spares (hs.below hn) (Apart.of_cons h)
      · rfl

end Value

/-! ## A removal inside a document -/

namespace Document

open Value (Apart)

variable {d : Document} {key : String} {path other : List String}

theorem field?_of_isEmpty (h : d.isEmpty = true) (key : String) : d.field? key = none := by
  cases d with
  | nil => rfl
  | cons => cases h

theorem field?_prune_of_ne {wanted : String} (h : key ≠ wanted) :
    (d.prune (key :: path)).field? wanted = d.field? wanted := by
  cases path with
  | nil =>
    rw [prune, Fields.field?_erase, if_neg h]
  | cons segment path =>
    rw [prune]
    cases d.field? key with
    | none => rfl
    | some value =>
      cases value with
      | document nested =>
        dsimp only
        split
        · rw [Fields.field?_erase, if_neg h]
        · rw [field?_set, if_neg h]
      | _ => rfl

/-- Nothing is removed where the first key of a path that goes on has no document. -/
theorem prune_of_no_document {segment : String}
    (h : ∀ nested, d.field? key ≠ some (.document nested)) :
    d.prune (key :: segment :: path) = d := by
  rw [prune]
  split
  · next nested hnested => exact absurd hnested (h nested)
  · rfl

/-- What is left under the first key of a path that goes on. -/
theorem field?_prune_self {nested : Document} {segment : String}
    (h : d.field? key = some (.document nested)) :
    (d.prune (key :: segment :: path)).field? key =
      if (nested.prune (segment :: path)).isEmpty then none
      else some (.document (nested.prune (segment :: path))) := by
  rw [prune, h]
  dsimp only
  split
  · rw [Fields.field?_erase, if_pos rfl]
  · rw [field?_set, if_pos rfl]

/-- **A removal leaves alone what is read at a path apart from its own.** -/
theorem at_prune_of_apart : ∀ {path other : List String} {d : Document}, Apart path other →
    (Value.document (d.prune path)).at other = (Value.document d).at other
  | [], _, _, h => absurd List.nil_prefix h.1
  | _ :: _, [], _, h => absurd List.nil_prefix h.2
  | key :: path, key' :: other, d, h => by
    rw [Value.at_document, Value.at_document]
    by_cases he : key = key'
    · subst he
      have hrest : Apart path other := Apart.of_cons h
      match path, other, hrest with
      | [], _, hrest => exact absurd List.nil_prefix hrest.1
      | _ :: _, [], hrest => exact absurd List.nil_prefix hrest.2
      | segment :: path, segment' :: other, hrest =>
        by_cases hdoc : ∃ nested, d.field? key = some (.document nested)
        · obtain ⟨nested, hnested⟩ := hdoc
          have ih := at_prune_of_apart (d := nested) hrest
          rw [field?_prune_self hnested, hnested, Option.elim_some]
          split
          · next hempty =>
            rw [← ih, Value.at_document, field?_of_isEmpty hempty]
            rfl
          · exact ih
        · rw [prune_of_no_document fun nested hnested => hdoc ⟨nested, hnested⟩]
    · rw [field?_prune_of_ne he]

/-! ## Keys of a document -/

variable {d' : Document} {value : Value}

/-- A read looks for the whole key, and then at its segments. -/
theorem get_congr (hfield : d'.field? key = d.field? key)
    (hat : Path.isDotted key = true →
      (Value.document d').at (Path.segments key) = (Value.document d).at (Path.segments key)) :
    d'.get key = d.get key := by
  cases hf : d.field? key with
  | some value => rw [get_of_field? hf, get_of_field? (hfield.trans hf)]
  | none =>
    by_cases hread : Path.isDotted key = true ∧ Path.isValid key = true
    · obtain ⟨hdotted, hvalid⟩ := hread
      rw [get_of_isDotted hdotted hvalid hf, get_of_isDotted hdotted hvalid (hfield.trans hf),
        hat hdotted]
    · rw [get, get, hfield, hf]
      dsimp only
      split
      · next hdotted =>
        have hinvalid : ¬ Path.isValid key = true := fun hvalid => hread ⟨hdotted, hvalid⟩
        rw [if_neg hinvalid, if_neg hinvalid]
      · rfl

/-- No key is the first segment of a path apart from it. -/
theorem ne_of_apart {key' first : String} {rest : List String}
    (hs : Path.segments key = first :: rest) (h : Apart (Path.segments key) (Path.segments key')) :
    first ≠ key' := by
  rintro rfl
  have hplain := Path.isDotted_of_mem_segments (hs ▸ List.mem_cons_self : first ∈ Path.segments key)
  rw [Path.segments_of_not_isDotted hplain, hs] at h
  exact h.2 (List.cons_prefix_cons.2 ⟨rfl, List.nil_prefix⟩)

theorem get_write_of_spares {key' : String} (h : Apart (Path.segments key) (Path.segments key'))
    (hs : Value.Spares (some (.document d)) (Path.segments key) (Path.segments key')) :
    (d.write (Path.segments key) value).get key' = d.get key' := by
  obtain ⟨first, rest, hfirst⟩ := Path.exists_segments key
  refine get_congr ?_ fun _ => ?_
  · rw [hfirst, write, field?_set, if_neg (ne_of_apart hfirst h)]
  · rw [← write_eq_document]
    exact Value.at_write_of_spares hs h

theorem get_prune_of_apart {key' : String} (h : Apart (Path.segments key) (Path.segments key')) :
    (d.prune (Path.segments key)).get key' = d.get key' := by
  obtain ⟨first, rest, hfirst⟩ := Path.exists_segments key
  refine get_congr ?_ fun _ => at_prune_of_apart h
  rw [hfirst]
  exact field?_prune_of_ne (ne_of_apart hfirst h)

theorem get_erase_of_apart {key' : String} (h : Apart (Path.segments key) (Path.segments key')) :
    Document.get (d.erase key) key' = d.get key' := by
  have hne : key ≠ key' := by
    rintro rfl
    exact h.1 List.prefix_rfl
  refine get_congr (by rw [Fields.field?_erase, if_neg hne]) fun _ => ?_
  obtain ⟨first, rest, hfirst⟩ := Path.exists_segments key'
  have hne' : key ≠ first := fun he => ne_of_apart hfirst h.symm he.symm
  rw [hfirst, Value.at_document, Value.at_document, Fields.field?_erase, if_neg hne']

theorem remove_of_isValid (hvalid : Path.isValid key = true) : d.remove key =
    .ok (if d.hasKey key || !Path.isDotted key then d.erase key
         else d.prune (Path.segments key)) := by
  rw [remove]
  split
  · rfl
  · rfl

/-- **What is read at a path does not change by a removal at a path apart from it, nor by a write
    there that enters each array on its way at a position, goes on in no array from there, and parts
    from the other path at no array, or where that goes on with another position.** -/
theorem get_of_apart (d : Document) (value : Value) {key key' : String}
    (hvalid : Path.isValid key = true) (h : Apart (Path.segments key) (Path.segments key')) :
    (Value.Steady (some (.document d)) (Path.segments key) →
      Value.PartsAtPosition (some (.document d)) (Path.segments key) (Path.segments key') →
      ∃ d', d.put key value = .ok d' ∧ d'.get key' = d.get key') ∧
    ∃ d', d.remove key = .ok d' ∧ d'.get key' = d.get key' := by
  refine ⟨fun hsteady hparts => ?_, ?_⟩
  · refine ⟨_, put_eq_ok_iff.2 ⟨hvalid, rfl⟩, ?_⟩
    exact get_write_of_spares h (Value.spares_of_steady hsteady hparts h)
  · refine ⟨_, remove_of_isValid hvalid, ?_⟩
    split
    · exact get_erase_of_apart h
    · exact get_prune_of_apart h

theorem get_of_apart_mixedItems : Path.isValid "a.1.b" = true ∧
    Apart (Path.segments "a.1.b") (Path.segments "a.0") ∧
    Value.Steady (some (.document mixedItems)) (Path.segments "a.1.b") ∧
    Value.PartsAtPosition (some (.document mixedItems)) (Path.segments "a.1.b")
    (Path.segments "a.0") ∧
    (∃ d', mixedItems.put "a.1.b" (.int 2) = .ok d' ∧ d'.get "a.0" = mixedItems.get "a.0") ∧
    ∃ d', mixedItems.remove "a.1.b" = .ok d' ∧ d'.get "a.0" = mixedItems.get "a.0" := by
  have hvalid : Path.isValid "a.1.b" = true := by decide +kernel
  have hpath : Path.segments "a.1.b" = ["a", "1", "b"] := by decide +kernel
  have hother : Path.segments "a.0" = ["a", "0"] := by decide +kernel
  have hitems : mixedItems.field? "a" =
      some (.array [.int 5, .document (single "b" (.int 1))]) := by
    rw [mixedItems, field?_single, if_pos rfl]
  have hone : Path.position? "1" = some 1 := by decide +kernel
  have hzero : Path.position? "0" = some 0 := by decide +kernel
  have hapart : Apart ["a", "1", "b"] ["a", "0"] := by
    unfold Apart
    decide
  have hsteady : Value.Steady (some (.document mixedItems)) ["a", "1", "b"] := by
    rw [Value.Steady, hitems]
    refine ⟨1, by rw [Path.positionIn?, hone]; rfl, fun _ inner h => ?_, trivial⟩
    cases h
  have hparts : Value.PartsAtPosition (some (.document mixedItems)) ["a", "1", "b"] ["a", "0"] := by
    rw [Value.PartsAtPosition, hitems]
    intro _
    rw [Value.PartsAtPosition, if_neg (by decide)]
    exact ⟨0, hzero, by rw [hone]; decide⟩
  have hframe := get_of_apart mixedItems (.int 2) hvalid (hpath ▸ hother ▸ hapart)
  rw [hpath, hother] at hframe ⊢
  exact ⟨hvalid, hapart, hsteady, hparts, hframe.1 hsteady hparts, hframe.2⟩

end Document

end DocumentDb
