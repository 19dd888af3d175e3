/-
  DocumentDb — documents that meet every equality.

  * `Value.wide keys found depth` is an array in which every path over some keys, up to a length,
    reaches each of some values (`mem_reach_wide`): it has the values, a document with the next
    array under every key, and the next array at every position that one of the keys denotes.
  * `Document.shelf keys value` has the value under every one of some keys.
  * The only documents that an index finds in such an array are its shelves
    (`eq_shelf_of_mem_walk`), and what a path leads to inside a shelf of arrays is an array
    (`kind_of_descend_shelf`).
-/
import DocumentDb.Filter.Match
import DocumentDb.Proofs.Document.Descend
import DocumentDb.Proofs.Lists

namespace DocumentDb

namespace Value

/-! ## Inside an array -/

theorem reachItem_of_getElem? {value : Value} {path : List String} :
    ∀ {items : List Value} {position : Nat}, items[position]? = some value →
      reachItem items position path = value.reach path
  | _ :: _, 0, h => by
    rw [reachItem, Option.some.inj h]
  | _ :: _, _ + 1, h => by
    rw [reachItem]
    exact reachItem_of_getElem? h

theorem mem_reachEach {item w : Value} {path : List String} (hw : w ∈ item.reach path) :
    ∀ {items : List Value}, item ∈ items → w ∈ reachEach items path
  | other :: rest, h => by
    rw [reachEach, List.mem_append]
    rcases List.mem_cons.1 h with rfl | h
    · exact Or.inl hw
    · exact Or.inr (mem_reachEach hw h)

theorem exists_of_mem_walkItem {w : Value} {path : List String} :
    ∀ {items : List Value} {position : Nat}, w ∈ walkItem items position path →
      ∃ item ∈ items, w ∈ item.walk path
  | item :: _, 0, h => by
    rw [walkItem] at h
    exact ⟨item, List.mem_cons_self, h⟩
  | _ :: rest, position + 1, h => by
    rw [walkItem] at h
    obtain ⟨item, hi, hw⟩ := exists_of_mem_walkItem h
    exact ⟨item, List.mem_cons_of_mem _ hi, hw⟩

theorem exists_of_mem_walkEach {w : Value} {path : List String} :
    ∀ {items : List Value}, w ∈ walkEach items path → ∃ item ∈ items, w ∈ item.walk path
  | item :: rest, h => by
    rw [walkEach, List.mem_append] at h
    rcases h with h | h
    · exact ⟨item, List.mem_cons_self, h⟩
    · obtain ⟨item, hi, hw⟩ := exists_of_mem_walkEach h
      exact ⟨item, List.mem_cons_of_mem _ hi, hw⟩

/-- What an index finds in an array is an item, or is found in one. -/
theorem mem_walk_array {items : List Value} {path : List String} {w : Value}
    (h : w ∈ (array items).walk path) : w ∈ items ∨ ∃ item ∈ items, ∃ rest, w ∈ item.walk rest := by
  cases path with
  | nil => exact Or.inl (List.mem_filter.1 h).1
  | cons segment path =>
    refine Or.inr ?_
    rw [walk] at h
    split at h
    · obtain ⟨item, hi, hw⟩ := exists_of_mem_walkItem h
      exact ⟨item, hi, path, hw⟩
    · obtain ⟨item, hi, hw⟩ := exists_of_mem_walkEach h
      exact ⟨item, hi, segment :: path, hw⟩

end Value

/-! ## Shelves -/

/-- The document with a value under each of some keys. -/
def Document.shelf (keys : List String) (value : Value) : Document :=
  keys.foldr (fun key d => d.set key value) .empty

theorem Document.field?_shelf (keys : List String) (value : Value) (key : String) :
    (shelf keys value).field? key = if key ∈ keys then some value else none := by
  induction keys with
  | nil => rfl
  | cons first rest ih =>
    have hcons : shelf (first :: rest) value = (shelf rest value).set first value := rfl
    rw [hcons, field?_set, ih]
    by_cases he : first = key
    · rw [if_pos he, if_pos (he ▸ List.mem_cons_self)]
    · simp [he, Ne.symm he]

namespace Value

open Document (shelf)

/-- A number above every position that one of some keys denotes. -/
def span (keys : List String) : Nat := (keys.filterMap Path.position?).max?.getD 0 + 1

theorem lt_span {keys : List String} {key : String} {position : Nat} (hk : key ∈ keys)
    (hp : Path.position? key = some position) : position < span keys :=
  Nat.lt_succ_of_le (List.le_max?_getD_of_mem (List.mem_filterMap.2 ⟨key, hk, hp⟩))

/-- An array in which every path over some keys, up to a length, reaches each of some values. -/
def wide (keys : List String) (found : List Value) : Nat → Value
  | 0 => .array found
  | depth + 1 =>
    let next := wide keys found depth
    .array (List.replicate (span keys) next ++ .document (shelf keys next) :: found)

theorem exists_wide_eq_array (keys : List String) (found : List Value) (depth : Nat) :
    ∃ items, wide keys found depth = .array items ∧ ∀ v ∈ found, v ∈ items := by
  cases depth with
  | zero => exact ⟨found, rfl, fun v hv => hv⟩
  | succ depth =>
    exact ⟨_, rfl, fun v hv => List.mem_append_right _ (List.mem_cons_of_mem _ hv)⟩

theorem mem_reach_wide {keys : List String} {found : List Value} {v : Value} (hv : v ∈ found) :
    ∀ {depth : Nat} {path : List String}, (∀ segment ∈ path, segment ∈ keys) → path.length ≤ depth →
      v ∈ (wide keys found depth).reach path
  | depth, [], _, _ => by
    obtain ⟨items, hw, hitems⟩ := exists_wide_eq_array keys found depth
    rw [hw]
    exact List.mem_cons_of_mem _ (hitems v hv)
  | depth + 1, segment :: path, hk, hl => by
    obtain ⟨hsegment, hpath⟩ := List.forall_mem_cons.1 hk
    have hnext : v ∈ (wide keys found depth).reach path :=
      mem_reach_wide hv hpath (Nat.le_of_succ_le_succ hl)
    rw [wide, reach]
    split
    · next position hp =>
      rw [reachItem_of_getElem? (getElem?_replicate_append (lt_span hsegment hp) _ _)]
      exact hnext
    · refine mem_reachEach ?_ (List.mem_append_right _ List.mem_cons_self)
      rw [reach, Fields.reach_of_field?, Document.field?_shelf, if_pos hsegment]
      exact hnext

/-! ## Documents in a wide array -/

theorem walk_bool {b : Bool} {path : List String} {d : Document} :
    .document d ∉ (bool b).walk path := by
  cases path with
  | nil => simp [walk]
  | cons segment path => simp [walk]

/-- What an index finds in a shelf is the shelf or is found in its value. -/
theorem mem_walk_shelf {keys path : List String} {value w : Value}
    (h : w ∈ (document (shelf keys value)).walk path) :
    w = .document (shelf keys value) ∨ ∃ rest, w ∈ value.walk rest := by
  cases path with
  | nil => exact Or.inl (List.mem_singleton.1 h)
  | cons key path =>
    rw [walk, Fields.walk_of_field?, Document.field?_shelf] at h
    split at h
    · exact Or.inr ⟨path, h⟩
    · cases h

/-- The documents that an index finds in a wide array are its shelves. -/
theorem eq_shelf_of_mem_walk {keys : List String} {b : Bool} {d : Document} :
    ∀ {depth : Nat} {path : List String}, .document d ∈ (wide keys [.bool b] depth).walk path →
      ∃ depth', d = shelf keys (wide keys [.bool b] depth')
  | 0, path, h => by
    rcases mem_walk_array h with h | ⟨item, hi, rest, h⟩
    · cases List.mem_singleton.1 h
    · rw [List.mem_singleton.1 hi] at h
      exact absurd h walk_bool
  | depth + 1, path, h => by
    obtain ⟨below, hbelow, -⟩ := exists_wide_eq_array keys [.bool b] depth
    rcases mem_walk_array h with h | ⟨item, hi, rest, h⟩
    · rcases List.mem_append.1 h with h | h
      · rw [hbelow] at h
        cases List.eq_of_mem_replicate h
      · rcases List.mem_cons.1 h with h | h
        · cases h
          exact ⟨depth, rfl⟩
        · cases List.mem_singleton.1 h
    · rcases List.mem_append.1 hi with hi | hi
      · rw [List.eq_of_mem_replicate hi] at h
        exact eq_shelf_of_mem_walk h
      · rcases List.mem_cons.1 hi with rfl | hi
        · rcases mem_walk_shelf h with h | ⟨path', h⟩
          · exact ⟨depth, Value.document.inj h⟩
          · exact eq_shelf_of_mem_walk h
        · rw [List.mem_singleton.1 hi] at h
          exact absurd h walk_bool

/-- What a path leads to inside a shelf of wide arrays is such an array. -/
theorem kind_of_descend_shelf {keys path : List String} {found : List Value} {depth : Nat}
    {key : String} {value : Value}
    (h : (document (shelf keys (wide keys found depth))).descend (key :: path) = some value) :
    value.kind = .array := by
  obtain ⟨items, hw, -⟩ := exists_wide_eq_array keys found depth
  rw [descend_document, Document.field?_shelf, hw] at h
  split at h
  · cases path with
    | nil => cases h; rfl
    | cons => cases h
  · cases h

end Value

end DocumentDb
