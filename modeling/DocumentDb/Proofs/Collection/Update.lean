/-
  DocumentDb — when an update that fails has changed nothing.

  * An update ends with a fault midway only where changes cannot be merged into a document: the keys
    that a unique index refuses are reported, and a sound index leads back to its documents.
  * **`failed_update_unchanged_iff`**: the trial merge into an empty document finds the keys that
    are refused at the top of the changes, but not those of embedded documents.
-/
import DocumentDb.Proofs.Collection.Consistency
import DocumentDb.Proofs.Document.Merge

namespace DocumentDb

namespace Collection

section

variable [Collator] [Std.TransCmp Collator.weigh] {c c' : Collection}

/-! ## Updates that do not fail -/

omit [Std.TransCmp Collator.weigh] in
/-- An update is refused before anything changes, or the changes passed the trial merge and are
    merged into the documents found, one after the other. -/
theorem update_cases (c : Collection) (filter changes : Document) :
    (∃ fault, c.update filter changes = (c, .error fault)) ∨
      ∃ m : Matches, changes.hasKey idKey = false ∧
        (∃ trial, Document.empty.merge changes = .ok trial) ∧
        c.update filter changes = c.updateEach changes 0 m.found := by
  unfold update
  split
  · exact Or.inl ⟨_, rfl⟩
  · next hid =>
    split
    · exact Or.inl ⟨_, rfl⟩
    · next trial htrial =>
      split
      · exact Or.inl ⟨_, rfl⟩
      · next m _ => exact Or.inr ⟨m, Bool.eq_false_iff.2 hid, ⟨trial, htrial⟩, rfl⟩

theorem exists_updateEach_eq_ok {changes : Document} (hm : changes.mergeable = true)
    (targets : List (String × Cell)) (position : Nat) {c : Collection} (h : c.Sound) :
    ∃ report, (c.updateEach changes position targets).2 = .ok report := by
  induction targets generalizing c position with
  | nil => exact ⟨_, rfl⟩
  | cons e rest ih =>
    obtain ⟨id, cell⟩ := e
    obtain ⟨d', hd'⟩ := Fields.exists_mergeInto_of_mergeable hm cell.document
    rcases updateEach_cases changes c position id cell rest with
      ⟨fault, hd, -⟩ | ⟨d, -, ⟨fault, -, he⟩ | ⟨-, ⟨fault, hf, -⟩ | ⟨-, he⟩⟩⟩
    · cases hd'.symm.trans hd
    · rw [he]
      obtain ⟨report, hr⟩ := ih (position + 1) h
      exact ⟨_, map_eq_ok_iff.2 ⟨report, hr, rfl⟩⟩
    · cases (h.replace_eq_ok id d).symm.trans hf
    · rw [he]
      obtain ⟨report, hr⟩ := ih (position + 1) (h.replace id d)
      exact ⟨_, map_eq_ok_iff.2 ⟨report, hr, rfl⟩⟩

/-! ## An update that fails halfway -/

section

omit [Std.TransCmp Collator.weigh]

theorem enter_of_no_index (hr : c.registry = .empty) {id : String} (fresh : c.cell? id = none)
    (d : Document) : c.enter true id d = .ok (c.place id d) := by
  unfold enter
  rw [if_neg (by simp [fresh]), hr]
  rfl

/-- A document that has its id can be stored where no index keeps it out. -/
theorem Reachable.place_of_no_index {allowed : Step → Prop} (h : c.Reachable allowed)
    (hallowed : ∀ source documents, allowed (.operation (.insertMany source documents)))
    (hr : c.registry = .empty) {id : String} (fresh : c.cell? id = none) {d : Document}
    (hid : d.field? idKey = some (.text id)) : (c.place id d).Reachable allowed := by
  let source : IdSource := ⟨fun _ => "", 0⟩
  have hc : (c.insertEach source 0 [d]).1 = c.place id d := by
    rw [insertEach, IdSource.identify_of_text true hid]
    simp only [enter_of_no_index hr fresh d]
    rfl
  exact hc ▸ .step (.operation (.insertMany source [d])) h (hallowed source [d])

/-- Any two documents with different ids can be stored, one after the other. -/
theorem exists_reachable_pair {d d' : Document} {id id' : String}
    (hid : d.field? idKey = some (.text id)) (hid' : d'.field? idKey = some (.text id'))
    (hne : id ≠ id') :
    ∃ (c : Collection) (serial serial' : Nat), c.Reachable Step.IsChecked ∧ c.registry = .empty ∧
      c.matcher = .equality ∧ c.stored = [(id, ⟨serial, d⟩), (id', ⟨serial', d'⟩)] := by
  let c₀ := Collection.new "" {} .equality
  have hallowed : ∀ source documents, (Step.operation (.insertMany source documents)).IsChecked :=
    fun _ _ => trivial
  have h₀ : c₀.Reachable Step.IsChecked := .new "" {} .equality
  have h₁ : (c₀.place id d).Reachable Step.IsChecked := h₀.place_of_no_index hallowed rfl rfl hid
  have hfresh : (c₀.place id d).cell? id' = none :=
    (lookup_append_fresh rfl _ id').trans (if_neg (Ne.symm hne))
  exact ⟨_, 0, 1, h₁.place_of_no_index hallowed rfl hfresh hid', rfl, rfl, rfl⟩

theorem search_empty_filter (hr : c.registry = .empty) (hm : c.matcher = .equality) :
    ∃ m, c.search .empty {} = .ok m ∧ m.found = c.stored := by
  refine ⟨⟨c.stored, ⟨[], .scan⟩, c.stored.length⟩, search_eq_ok_iff.2 ⟨?_, c.stored,
    rfl, rfl, ?_⟩, rfl⟩
  · unfold explain
    rw [hr]
    rfl
  · rw [hm]
    refine accepted_eq_ok_iff.2 ⟨fun e _ => ⟨true, rfl⟩, ?_⟩
    exact (List.filter_eq_self.2 fun e _ => rfl).symm

theorem replace_of_no_index (hr : c.registry = .empty) (id : String) (d : Document) :
    (c.replace id d).2 = .ok () := by
  unfold replace
  rw [hr]
  rfl

/-- The first document found has the changes merged into it where no index refuses it. -/
theorem updateEach_of_no_index (hr : c.registry = .empty) {changes : Document} {e : String × Cell}
    {d : Document} (hd : e.2.document.merge changes = .ok d) (position : Nat)
    (rest : List (String × Cell)) :
    c.updateEach changes position (e :: rest) =
      (((c.replace e.1 d).1.updateEach changes (position + 1) rest).1,
        ((c.replace e.1 d).1.updateEach changes (position + 1) rest).2.map (.accept e.1)) := by
  have hv : c.registry.validate e.1 d = .ok () := by rw [hr]; rfl
  rcases updateEach_cases changes c position e.1 e.2 rest with
    ⟨fault, hm, -⟩ | ⟨d', hm, ⟨fault, hf, -⟩ | ⟨-, ⟨fault, hf, -⟩ | ⟨-, he⟩⟩⟩
  · cases hd.symm.trans hm
  · cases hd.symm.trans hm
    cases hv.symm.trans hf
  · cases (replace_of_no_index hr e.1 d').symm.trans hf
  · cases hd.symm.trans hm
    exact he

/-- The first document found is changed, and the changes cannot be merged into the second. -/
theorem update_halfway (hr : c.registry = .empty) (hm : c.matcher = .equality) {changes : Document}
    {e e' : String × Cell} (hs : c.stored = [e, e']) (hid : changes.hasKey idKey = false)
    {trial : Document} (htrial : Document.empty.merge changes = .ok trial) {d : Document}
    (hd : e.2.document.merge changes = .ok d) {fault : Fault}
    (hf : e'.2.document.merge changes = .error fault) :
    c.update .empty changes = ((c.replace e.1 d).1, .error fault) := by
  obtain ⟨m, hsearch, hfound⟩ := search_empty_filter hr hm
  unfold update
  rw [hid, htrial, hsearch]
  simp only [Bool.false_eq_true, if_false]
  rw [hfound, hs, updateEach_of_no_index hr hd, updateEach, hf]
  rfl

end

/-! ## The condition -/

omit [Std.TransCmp Collator.weigh] in
/-- Changes that pass the trial merge, and yet are not mergeable, can fail after a document
    has changed. -/
theorem exists_update_halfway {changes : Document} (hid : changes.hasKey idKey = false)
    (hvalid : ∀ key, changes.hasKey key = true → Path.isValid key = true)
    (hm : changes.mergeable = false) :
    ∃ c : Collection, c.Reachable Step.IsChecked ∧ ∃ fault,
      (c.update .empty changes).2 = .error fault ∧ (c.update .empty changes).1 ≠ c := by
  obtain ⟨d, key, value, hv, hn⟩ := Fields.exists_not_mergeEntry hm
  have hne : changes.isEmpty = false := by
    cases changes with
    | nil => cases hv
    | cons => rfl
  have hkey : idKey ≠ key := by
    rintro rfl
    rw [Fields.hasKey, hv] at hid
    cases hid
  -- the first document has nothing to merge with, the second what the changes fail on
  let first := Document.single idKey (.text "1")
  let second := d.set idKey (.text "2")
  have hfirst : first.field? idKey = some (.text "1") := by simp [first]
  have hsecond : second.field? idKey = some (.text "2") := by simp [second]
  obtain ⟨trial, htrial⟩ := (exists_merge_iff (d := .empty) (by simp) changes).2 hvalid
  obtain ⟨changed, hchanged⟩ :=
    (exists_merge_iff (d := first) (fun _ _ => Document.field?_single_text_ne) changes).2 hvalid
  have hfails : ¬ ∃ r, second.merge changes = .ok r := by
    intro hr
    have hentry := (exists_mergeInto_iff changes second).1 hr key value hv
    refine hn ((Document.exists_mergeEntry_congr ?_).1 hentry)
    rw [Document.field?_set, if_neg hkey]
  obtain ⟨fault, hfault⟩ : ∃ fault, second.merge changes = .error fault := by
    cases hr : second.merge changes with
    | error fault => exact ⟨fault, rfl⟩
    | ok r => exact absurd ⟨r, hr⟩ hfails
  obtain ⟨c, serial, serial', hc, hreg, hmatch, hs⟩ :=
    exists_reachable_pair hfirst hsecond (show "1" ≠ "2" by decide)
  have hu := update_halfway hreg hmatch hs hid htrial hchanged hfault
  refine ⟨c, hc, fault, by rw [hu], ?_⟩
  intro hsame
  rw [hu] at hsame
  have hcell : c.cell? "1" = some ⟨serial, first⟩ := by
    unfold cell?
    rw [hs, lookup_cons, if_pos rfl]
  have hcell' := lookup_replace_self (replace_of_no_index hreg "1" changed) hcell
  rw [show (c.replace "1" changed).1 = c from hsame] at hcell'
  have heq : first = changed := congrArg Cell.document (Option.some.inj (hcell.symm.trans hcell'))
  have hmarked := Document.marked_of_mergeInto hid hne hchanged
  rw [← heq] at hmarked
  exact Document.not_marked_single "1" hmarked

/-- **A failed update leaves everything as it was just where the changes name the id, or have a key
    with an empty segment at the top, or have no such key at any depth.** -/
theorem failed_update_unchanged_iff (changes : Document) :
    (∀ c : Collection, c.Reachable (fun _ => True) → ∀ filter fault,
      (c.update filter changes).2 = .error fault → (c.update filter changes).1 = c) ↔
    changes.hasKey idKey = true ∨
      (∃ key, changes.hasKey key = true ∧ Path.isValid key = false) ∨
      changes.mergeable = true := by
  constructor
  · intro h
    by_contra hno
    simp only [not_or, not_exists, not_and, Bool.not_eq_false, Bool.not_eq_true] at hno
    obtain ⟨hid, hvalid, hm⟩ := hno
    obtain ⟨c, hc, fault, hf, hne⟩ := exists_update_halfway hid hvalid hm
    exact hne (h c (hc.mono fun _ _ => trivial) .empty fault hf)
  · intro h c hc filter fault hf
    rcases update_cases c filter changes with ⟨fault', hu⟩ | ⟨m, hid, ⟨trial, htrial⟩, hu⟩
    · rw [hu]
    · rw [hu] at hf
      rcases h with h | ⟨key, hkey, hinvalid⟩ | hm
      · rw [hid] at h
        cases h
      · have hvalid := (exists_merge_iff (by simp) changes).1 ⟨trial, htrial⟩ key hkey
        rw [hinvalid] at hvalid
        cases hvalid
      · obtain ⟨report, hok⟩ := exists_updateEach_eq_ok hm m.found 0 (Reachable.sound hc)
        rw [hok] at hf
        cases hf

end

/-- A document with an embedded one that has an empty key. -/
def emptyKeyBelow : Document := .single "a" (.document (Document.single "" (.bool true)))

theorem emptyKeyBelow_not_atomic : ¬ ∀ c : Collection, c.Reachable (fun _ => True) → ∀ filter fault,
    (c.update filter emptyKeyBelow).2 = .error fault → (c.update filter emptyKeyBelow).1 = c := by
  rw [failed_update_unchanged_iff]
  rintro (hid | ⟨key, hkey, hinvalid⟩ | hm)
  · exact absurd hid (by decide)
  · rw [Fields.hasKey, emptyKeyBelow, Document.single, Document.field?_set] at hkey
    split at hkey
    · next he =>
      rw [← he] at hinvalid
      exact absurd hinvalid (by decide)
    · cases hkey
  · exact absurd hm (by decide)

/-- Two documents, of which the second has something to merge with. -/
def pair : Collection :=
  let documents : List Document :=
    [.ofList [("_id", .text "1")],
      .ofList [("_id", .text "2"), ("a", .document (Document.single "b" (.bool true)))]]
  (Collection.new "notes" {} .equality).step (.operation (.insertMany ⟨fun _ => "", 0⟩ documents))

/-- The update of the pair fails, and yet the first document has got the field `a`. -/
theorem pair_update_fails_halfway :
    faultOf (pair.update .empty emptyKeyBelow).2 ≠ none ∧
      pair.stored.map (fun e => e.2.document.hasKey "a") = [false, true] ∧
      (pair.update .empty emptyKeyBelow).1.stored.map (fun e => e.2.document.hasKey "a") =
        [true, true] := by
  refine ⟨?_, by decide, by decide⟩
  rw [show faultOf (pair.update .empty emptyKeyBelow).2 = some .emptyKey from rfl]
  exact nofun

end Collection

end DocumentDb
