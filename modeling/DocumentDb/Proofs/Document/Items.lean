/-
  DocumentDb — writes into arrays, done twice.

  * Writes that enter an array at its positions are writes to each of its items
    (`Value.exists_writeAll_array`).  An item is not entered if it is an array itself; it gives way
    to a document, just as an array does that is not entered at a position
    (`Value.write_of_givesWay`).
  * `Value.KeepsArrays`: of two writes that enter one array the second enters it at a
    position if the first does.  Otherwise the second would put a document in its place, and
    drop what the first has written.
  * **`Edit.repeats_written`**: writes of which this holds, each with all after it, change nothing
    when they are done again.
-/
import DocumentDb.Proofs.Document.Edit
import DocumentDb.Proofs.Document.Frame

namespace DocumentDb

namespace Value

/-! ## Ways into arrays -/

/-- Each array that both paths enter, the first one at a position, the second one enters at
    a position too. -/
def KeepsArrays : Option Value → List String → List String → Prop
  | some (document d), key :: path, key' :: later => key = key' →
    KeepsArrays (d.field? key) path later
  | some (array items), segment :: path, segment' :: later =>
    ∀ position, Path.positionIn? segment items.length = some position →
      ∃ position', Path.positionIn? segment' items.length = some position' ∧
        (position = position' → KeepsArrays (asContainer items[position]?) path later)
  | _, _, _ => True

/-- Each of some writes keeps the arrays that it enters for those after it. -/
def Kept (current : Option Value) (writes : Writes) : Prop :=
  (writes.map Prod.fst).Pairwise (KeepsArrays current)

theorem keepsArrays_none (path later : List String) : KeepsArrays none path later := by
  cases path with
  | nil => trivial
  | cons => cases later <;> trivial

theorem kept_none (writes : Writes) : Kept none writes :=
  List.pairwise_of_forall keepsArrays_none

theorem kept_empty (writes : Writes) : Kept (some (document Document.empty)) writes :=
  List.pairwise_of_forall fun path later => by
    match path, later with
    | [], _ | _ :: _, [] => trivial
    | key :: path, key' :: later => exact fun _ => keepsArrays_none path later

theorem Kept.inside {current below : Option Value} {enters : String → Bool} {writes : Writes}
    (h : Kept current writes)
    (hbelow : ∀ key path key' later, enters key = true → enters key' = true →
      KeepsArrays current (key :: path) (key' :: later) → KeepsArrays below path later) :
    Kept below (writesInside enters writes) := by
  rw [Kept, List.pairwise_map] at h ⊢
  refine h.filterMap _ fun w w' hkeeps inside hw inside' hw' => ?_
  obtain ⟨key, hkey, rfl⟩ := writeInside?_eq_some_iff.1 hw
  obtain ⟨key', hkey', rfl⟩ := writeInside?_eq_some_iff.1 hw'
  exact hbelow key _ key' _ hkey hkey' hkeeps

theorem Kept.under {d : Document} {writes : Writes} (h : Kept (some (document d)) writes)
    (key : String) : Kept (d.field? key) (writesUnder key writes) :=
  h.inside fun first path first' later he he' hkeeps => by
    rw [beq_iff_eq] at he he'
    subst he he'
    exact hkeeps rfl

/-- A path enters an array of this length at one of its positions. -/
def Enters (length : Nat) : List String → Prop
  | segment :: _ => (Path.positionIn? segment length).isSome
  | [] => False

/-- If the first of the writes enters the array at a position, then so do all. -/
theorem Kept.enter {items : List Value} {w : List String × Value} {writes : Writes}
    (h : Kept (some (array items)) (w :: writes)) (hne : ∀ w' ∈ writes, w'.1 ≠ [])
    (hin : Enters items.length w.1) : ∀ w' ∈ w :: writes, Enters items.length w'.1 := by
  refine List.forall_mem_cons.2 ⟨hin, fun w' hw' => ?_⟩
  have hkeeps := List.rel_of_pairwise_cons h (List.mem_map_of_mem hw')
  obtain ⟨segment, path, hpath⟩ : ∃ segment path, w.1 = segment :: path :=
    List.exists_cons_of_ne_nil fun hnil => by
      rw [hnil] at hin
      exact hin
  obtain ⟨segment', later, hlater⟩ := List.exists_cons_of_ne_nil (hne w' hw')
  rw [hpath] at hin hkeeps
  rw [hlater] at hkeeps ⊢
  obtain ⟨position, hposition⟩ := Option.isSome_iff_exists.1 hin
  obtain ⟨position', hposition', -⟩ := hkeeps position hposition
  exact Option.isSome_iff_exists.2 ⟨position', hposition'⟩

/-! ## Several writes to an item -/

/-- What stands in the place of an item after several writes inside it. -/
def writeItem (current : Option Value) (writes : Writes) : Option Value :=
  writes.foldl (fun current write =>
    some (Value.write (asContainer current) write.1 write.2)) current

/-- The writes that enter an array at a position. -/
def writesAtPosition (length position : Nat) (writes : Writes) : Writes :=
  writesInside (Path.positionIn? · length == some position) writes

theorem Kept.atPosition {items : List Value} {writes : Writes}
    (h : Kept (some (array items)) writes) (position : Nat) :
    Kept (asContainer items[position]?) (writesAtPosition items.length position writes) :=
  h.inside fun segment path segment' later hin hin' hkeeps => by
    rw [beq_iff_eq] at hin hin'
    obtain ⟨position', hposition', hkeeps⟩ := hkeeps position hin
    exact hkeeps (Option.some.inj (hin'.symm.trans hposition'))

/-- Writes that enter an array at its positions are writes to its items. -/
theorem exists_writeAll_array : ∀ {writes : Writes} {items : List Value},
    (∀ w ∈ writes, Enters items.length w.1) →
    ∃ items', writeAll (some (array items)) writes = some (array items') ∧
      items'.length = items.length ∧
      ∀ position : Nat, items'[position]? =
        writeItem items[position]? (writesAtPosition items.length position writes)
  | [], items, _ => ⟨items, rfl, rfl, fun _ => rfl⟩
  | ([], _) :: _, _, h => (h _ List.mem_cons_self).elim
  | (segment :: path, value) :: writes, items, h => by
    obtain ⟨hfirst, hrest⟩ := List.forall_mem_cons.1 h
    obtain ⟨position, hin⟩ := Option.isSome_iff_exists.1 hfirst
    have hlt : position < items.length := of_decide_eq_true (Option.filter_eq_some_iff.1 hin).2
    have hwrite : write (some (array items)) (segment :: path) value =
        array (items.set position (write (asContainer items[position]?) path value)) := by
      rw [write, hin]
    have hlength : (items.set position (write (asContainer items[position]?) path value)).length =
        items.length := List.length_set
    obtain ⟨items', hall, hlength', hitems⟩ := exists_writeAll_array (hlength.symm ▸ hrest)
    refine ⟨items', ?_, hlength'.trans hlength, fun other => ?_⟩
    · rw [← hall, ← hwrite]
      rfl
    · rw [hitems, hlength, writesAtPosition, writesAtPosition, writesInside_cons, hin]
      by_cases he : position = other
      · subst he
        rw [List.getElem?_set_self hlt, if_pos (by simp)]
        rfl
      · rw [List.getElem?_set_ne he, if_neg (by simpa using he)]

/-- A document in the place of an item is written to like any other. -/
theorem writeItem_document : ∀ {writes : Writes} (d : Document), (∀ w ∈ writes, w.1 ≠ []) →
    writeItem (some (document d)) writes = writeAll (some (document d)) writes
  | [], _, _ => rfl
  | (path, value) :: writes, d, h => by
    obtain ⟨hfirst, hrest⟩ := List.forall_mem_cons.1 h
    obtain ⟨key, path, rfl⟩ := List.exists_cons_of_ne_nil hfirst
    exact writeItem_document (d.write (key :: path) value) hrest

/-- Writes inside an item leave a document in its place. -/
theorem exists_writeItem {w : List String × Value} {writes : Writes} (current : Option Value)
    (h : ∀ w' ∈ w :: writes, w'.1 ≠ []) : ∃ d, writeItem current (w :: writes) = some (document d) ∧
      writeAll (asContainer current) (w :: writes) = some (document d) := by
  obtain ⟨hfirst, hrest⟩ := List.forall_mem_cons.1 h
  obtain ⟨path, value⟩ := w
  obtain ⟨key, path, rfl⟩ := List.exists_cons_of_ne_nil hfirst
  have hn : ∀ items, asContainer current ≠ some (array items) := by
    intro items
    cases current with
    | none => exact nofun
    | some value => cases value <;> exact nofun
  show ∃ d, writeItem (some (write (asContainer current) (key :: path) value)) writes =
      some (document d) ∧
    writeAll (some (write (asContainer current) (key :: path) value)) writes = some (document d)
  rw [write_of_no_array hn]
  exact ⟨_, (writeItem_document _ hrest).trans (writeAll_document _ hrest),
    writeAll_document _ hrest⟩

theorem writeItem_writeItem {writes : Writes} {current : Option Value}
    (h : Edit.Repeats ⟨none, writes⟩ (asContainer current)) :
    writeItem (writeItem current writes) writes = writeItem current writes := by
  by_cases hnil : ∃ w ∈ writes, w.1 = []
  · obtain ⟨w, hw, hnil⟩ := hnil
    exact foldl_eq_of_mem hw (fun _ _ => by rw [hnil, write, write]) _ _
  · cases writes with
    | nil => rfl
    | cons w writes =>
      have hne : ∀ w' ∈ w :: writes, w'.1 ≠ [] := fun w' hw' he => hnil ⟨w', hw', he⟩
      obtain ⟨d, hitem, hall⟩ := exists_writeItem current hne
      have hagain : writeAll (writeAll (asContainer current) (w :: writes)) (w :: writes) =
        writeAll (asContainer current) (w :: writes) := h
      rw [hitem, writeItem_document d hne, ← hall, hagain]

/-! ## What gives way -/

/-- What stands in a place gives way to a document where a write enters it at the segment. -/
def GivesWay (current : Option Value) (segment : String) : Prop :=
  (∀ d, current ≠ some (document d)) ∧
    ∀ items, current = some (array items) → Path.positionIn? segment items.length = none

theorem write_of_givesWay {current : Option Value} {segment : String} (h : GivesWay current segment)
    (path : List String) (value : Value) : write current (segment :: path) value =
      write (some (document Document.empty)) (segment :: path) value := by
  match current, h with
  | some (document d), h => exact absurd rfl (h.1 d)
  | some (array items), h =>
    have hnone := h.2 items rfl
    simp only [write, hnone]
    rfl
  | none, _ | some null, _ | some (bool _), _ | some (number _), _ | some (text _), _ => rfl

theorem givesWay_or (current : Option Value) (segment : String) : GivesWay current segment ∨
    (∃ d, current = some (document d)) ∨
      ∃ items, current = some (array items) ∧ (Path.positionIn? segment items.length).isSome := by
  by_cases hgives : GivesWay current segment
  · exact Or.inl hgives
  · rw [GivesWay, not_and_or] at hgives
    push Not at hgives
    refine Or.inr (hgives.imp_right ?_)
    rintro ⟨items, he, hin⟩
    exact ⟨items, he, Option.isSome_iff_ne_none.2 hin⟩

end Value

namespace Edit

open Value (Kept Enters writesAtPosition GivesWay)

/-- Writes that enter an array at its positions repeat if they do in each of its items. -/
theorem repeats_items {items : List Value} {writes : Writes}
    (hin : ∀ w ∈ writes, Enters items.length w.1)
    (h : ∀ position, Repeats ⟨none, writesAtPosition items.length position writes⟩
      (Value.asContainer items[position]?)) : Repeats ⟨none, writes⟩ (some (.array items)) := by
  obtain ⟨items', hrun, hlength, hitems⟩ := Value.exists_writeAll_array hin
  obtain ⟨items'', hrun', -, hitems'⟩ := Value.exists_writeAll_array (hlength.symm ▸ hin)
  have hsame : items'' = items' := List.ext_getElem? fun position => by
    rw [hitems', hlength, hitems, Value.writeItem_writeItem (h position)]
  show Value.writeAll (Value.writeAll _ writes) writes = Value.writeAll _ writes
  rw [hrun, hrun', hsame]

theorem run_of_givesWay {current : Option Value} {segment : String} (h : GivesWay current segment)
    (path : List String) (value : Value) (writes : Writes) :
    run ⟨none, (segment :: path, value) :: writes⟩ current =
      run ⟨none, (segment :: path, value) :: writes⟩ (some (.document Document.empty)) := by
  show Value.writeAll (some (Value.write current (segment :: path) value)) writes = _
  rw [Value.write_of_givesWay h]
  rfl

theorem repeats_written_of_le : ∀ (bound : Nat) {writes : Writes} {current : Option Value},
    (∀ w ∈ writes, w.1.length ≤ bound) → Cut writes → Kept current writes →
    Repeats ⟨none, writes⟩ current
  | bound, writes, current, hbound, hcut, hkept => by
    by_cases hwhole : Whole ⟨none, writes⟩
    · exact hwhole.repeats current
    have hne : ∀ w ∈ writes, w.1 ≠ [] := fun w hw hnil => hwhole (Or.inr ⟨w, hw, hnil⟩)
    match writes, bound with
    | [], _ => rfl
    | ([], _) :: _, _ => exact absurd rfl (hne _ List.mem_cons_self)
    | (_ :: _, _) :: _, 0 => exact absurd (hbound _ List.mem_cons_self) (Nat.not_succ_le_zero _)
    | (segment :: path, value) :: writes, bound + 1 =>
      have hinside : ∀ enters, ∀ w ∈ writesInside enters ((segment :: path, value) :: writes),
          w.1.length ≤ bound := by
        intro enters w hw
        obtain ⟨first, -, hmem⟩ := mem_writesInside_iff.1 hw
        exact Nat.le_of_succ_le_succ (hbound _ hmem)
      have hdocument : ∀ d, Kept (some (.document d)) ((segment :: path, value) :: writes) →
          Repeats ⟨none, (segment :: path, value) :: writes⟩ (some (.document d)) := fun d hkept =>
        repeats_document hcut hwhole fun key =>
          repeats_written_of_le bound (hinside _) (hcut.inside _) (hkept.under key)
      rcases Value.givesWay_or current segment with hgives | ⟨d, rfl⟩ | ⟨items, rfl, hin⟩
      · exact (hdocument Document.empty (Value.kept_empty _)).of_run_eq
          (run_of_givesWay hgives _ _ _)
      · exact hdocument d hkept
      · have hall := hkept.enter (fun w hw => hne w (List.mem_cons_of_mem _ hw)) hin
        exact repeats_items hall fun position =>
          repeats_written_of_le bound (hinside _) (hcut.inside _) (hkept.atPosition position)

/-- **Writes that keep the arrays that they enter for those after them change nothing when
    they are done again.** -/
theorem repeats_written {writes : Writes} {current : Option Value} (hcut : Cut writes)
    (hkept : Kept current writes) : Repeats ⟨none, writes⟩ current :=
  repeats_written_of_le ((writes.map fun w => w.1.length).max?.getD 0)
    (fun _ hw => List.le_max?_getD_of_mem (List.mem_map_of_mem hw)) hcut hkept

end Edit

end DocumentDb
