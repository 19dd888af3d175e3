/-
  DocumentDb — what changes do to the id of a document.

  * Keys are paths, so the key `_id` is not the only one that leads to the id.  Changes without any
    that does leave it alone (`field?_id_of_mergeInto`).
  * A key that leads through the id puts a document in its place, and no later key puts a text there
    again (`id?_of_mergeInto_eq_none`).
  * `Document.SparesId`: an update refuses the changes before it writes, or they have no such key.
  * `Document.NamesOnly d id`: the document has the given id, or a document in its place.  Changes
    that do not name the id keep it so (`NamesOnly.mergeInto`).
-/
import DocumentDb.Proofs.Document.Merge

namespace DocumentDb

/-- A path leads to the id of a document, or through it. -/
def Path.LeadsToId (path : String) : Prop := (Path.segments path).head? = some idKey

namespace Document

/-- The changes name the id, or have a key with an empty segment, or have no key that leads
    to the id. -/
def SparesId (changes : Document) : Prop :=
  changes.hasKey idKey = true ∨ (∃ key, changes.hasKey key = true ∧ Path.isValid key = false) ∨
    ∀ key, changes.hasKey key = true → ¬ Path.LeadsToId key

variable {d d' : Document} {key : String} {value : Value}

theorem id?_eq_some_iff {id : String} : d.id? = some id ↔ d.field? idKey = some (.text id) := by
  unfold id?
  cases d.field? idKey with
  | none => simp
  | some value => cases value <;> simp [Value.text?]

theorem id?_congr (h : d'.field? idKey = d.field? idKey) : d'.id? = d.id? := by
  unfold id?
  rw [h]

/-! ## One entry -/

theorem field?_id_of_mergeEntry (hkey : ¬ Path.LeadsToId key)
    (h : d.mergeEntry key value = .ok d') : d'.field? idKey = d.field? idKey := by
  rcases d.mergeEntry_cases key value with hput | ⟨mine, theirs, hm, rfl⟩
  · obtain ⟨-, rfl⟩ := put_eq_ok_iff.1 (hput.symm.trans h)
    obtain ⟨first, path, hs⟩ := Path.exists_segments key
    have hne : first ≠ idKey := fun he => hkey (by rw [Path.LeadsToId, hs, he]; rfl)
    rw [hs, write, field?_set, if_neg hne]
  · obtain ⟨merged, -, rfl⟩ := (mergeEntry_eq_ok_iff hm).1 h
    have hne : key ≠ idKey := fun he => hkey (he ▸ rfl)
    rw [field?_set, if_neg hne]

/-- What is put below the id takes its place. -/
theorem id?_write_id (d : Document) (segment : String) (path : List String) (value : Value) :
    (d.write (idKey :: segment :: path) value).id? = none := by
  refine Option.eq_none_iff_forall_ne_some.2 fun t ht => ?_
  rw [id?_eq_some_iff, write, field?_set, if_pos rfl] at ht
  exact Value.write_ne_text _ _ _ _ _ (Option.some.inj ht)

theorem id?_of_mergeEntry_eq_none (hne : key ≠ idKey) (h : d.mergeEntry key value = .ok d')
    (hid : d.id? = none ∨ Path.LeadsToId key ∧ d.field? key = none) : d'.id? = none := by
  rcases d.mergeEntry_cases key value with hput | ⟨mine, theirs, hm, rfl⟩
  · obtain ⟨-, rfl⟩ := put_eq_ok_iff.1 (hput.symm.trans h)
    obtain ⟨first, path, hs⟩ := Path.exists_segments key
    by_cases hfirst : first = idKey
    · cases path with
      | nil => exact absurd ((Path.eq_of_segments_eq_singleton hs).trans hfirst) hne
      | cons segment path =>
        rw [hs, hfirst]
        exact id?_write_id ..
    · have hleads : ¬ Path.LeadsToId key := by
        rw [Path.LeadsToId, hs]
        exact fun he => hfirst (Option.some.inj he)
      rw [id?_congr (field?_id_of_mergeEntry hleads h)]
      exact hid.resolve_right fun h => hleads h.1
  · obtain ⟨merged, -, rfl⟩ := (mergeEntry_eq_ok_iff hm).1 h
    have hsame : (d.set key (.document merged)).field? idKey = d.field? idKey := by
      rw [field?_set, if_neg hne]
    rw [id?_congr hsame]
    refine hid.resolve_right fun h => ?_
    rw [hm] at h
    cases h.2

/-! ## All entries -/

theorem field?_id_of_mergeInto {bound : Option String} {changes : Fields bound} {d r : Document}
    (hspare : ∀ key, changes.hasKey key = true → ¬ Path.LeadsToId key)
    (h : changes.mergeInto d = .ok r) : r.field? idKey = d.field? idKey := by
  induction changes using Fields.ind generalizing d with
  | nil =>
    cases h
    rfl
  | cons key hfollows value rest ih =>
    obtain ⟨d', hd', hrest⟩ := bind_eq_ok_iff.1 h
    have hfirst : (Fields.cons key hfollows value rest).hasKey key = true := by
      simp [Fields.hasKey, Fields.field?]
    have hlater : ∀ later, rest.hasKey later = true → ¬ Path.LeadsToId later := by
      intro later hl
      refine hspare later ?_
      rw [Fields.hasKey, Fields.field?]
      split
      · rfl
      · exact hl
    rw [ih hlater hrest, field?_id_of_mergeEntry (hspare key hfirst) hd']

/-- A key that leads through the id, and is no field of its own, leaves no id behind. -/
theorem id?_of_mergeInto_eq_none {bound : Option String} {changes : Fields bound} {d r : Document}
    (hid : changes.hasKey idKey = false) (h : changes.mergeInto d = .ok r)
    (hlost : d.id? = none ∨
      ∃ key, changes.hasKey key = true ∧ Path.LeadsToId key ∧ d.field? key = none) :
    r.id? = none := by
  induction changes using Fields.ind generalizing d with
  | nil =>
    cases h
    rcases hlost with hlost | ⟨key, hk, -⟩
    · exact hlost
    · cases hk
  | cons key hfollows value rest ih =>
    obtain ⟨d', hd', hrest⟩ := bind_eq_ok_iff.1 h
    rw [Fields.hasKey, Fields.field?] at hid
    split at hid
    · cases hid
    · next hne =>
      refine ih hid hrest ?_
      rcases hlost with hlost | ⟨later, hk, hleads, hfree⟩
      · exact Or.inl (id?_of_mergeEntry_eq_none hne hd' (Or.inl hlost))
      · rw [Fields.hasKey, Fields.field?] at hk
        split at hk
        · next he =>
          subst he
          exact Or.inl (id?_of_mergeEntry_eq_none hne hd' (Or.inr ⟨hleads, hfree⟩))
        · -- the entries before this key leave the field of its name alone
          obtain ⟨v, hv⟩ := Option.isSome_iff_exists.1 hk
          have hlt : key < later := rest.follows_of_field? hv
          exact Or.inr ⟨later, hk, hleads, (field?_mergeEntry_of_lt hd' hlt).trans hfree⟩

/-! ## No other id -/

/-- The document has the given id, or an embedded document in its place. -/
def NamesOnly (d : Document) (id : String) : Prop :=
  d.field? idKey = some (.text id) ∨ ∃ nested, d.field? idKey = some (.document nested)

namespace NamesOnly

variable {id : String}

theorem of_id? (h : d.id? = some id) : d.NamesOnly id := Or.inl (id?_eq_some_iff.1 h)

theorem congr (hd : d.NamesOnly id) (h : d'.field? idKey = d.field? idKey) : d'.NamesOnly id := by
  unfold NamesOnly
  rw [h]
  exact hd

/-- What is put below the id leaves a document in its place. -/
theorem write (hd : d.NamesOnly id) (segment : String) (path : List String) (value : Value) :
    (d.write (idKey :: segment :: path) value).NamesOnly id := by
  refine Or.inr ?_
  rw [Document.write, field?_set, if_pos rfl]
  rcases hd with hd | ⟨nested, hd⟩
  · rw [hd]
    exact ⟨_, rfl⟩
  · rw [hd]
    exact ⟨_, rfl⟩

theorem mergeEntry (hd : d.NamesOnly id) (hne : key ≠ idKey) (h : d.mergeEntry key value = .ok d') :
    d'.NamesOnly id := by
  by_cases hleads : Path.LeadsToId key
  · rcases d.mergeEntry_cases key value with hput | ⟨mine, theirs, hm, rfl⟩
    · obtain ⟨-, rfl⟩ := put_eq_ok_iff.1 (hput.symm.trans h)
      obtain ⟨first, path, hs⟩ := Path.exists_segments key
      rw [Path.LeadsToId, hs] at hleads
      cases hleads
      cases path with
      | nil => exact absurd (Path.eq_of_segments_eq_singleton hs) hne
      | cons segment path =>
        rw [hs]
        exact hd.write segment path value
    · obtain ⟨merged, -, rfl⟩ := (mergeEntry_eq_ok_iff hm).1 h
      exact hd.congr (by rw [field?_set, if_neg hne])
  · exact hd.congr (field?_id_of_mergeEntry hleads h)

/-- Changes that do not name the id leave it where it is, or put a document in its place. -/
theorem mergeInto {bound : Option String} {changes : Fields bound} {d r : Document}
    (hid : changes.hasKey idKey = false) (hd : d.NamesOnly id) (h : changes.mergeInto d = .ok r) :
    r.NamesOnly id := by
  induction changes using Fields.ind generalizing d with
  | nil =>
    cases h
    exact hd
  | cons key hfollows value rest ih =>
    obtain ⟨d', hd', hrest⟩ := bind_eq_ok_iff.1 h
    rw [Fields.hasKey, Fields.field?] at hid
    split at hid
    · cases hid
    · next hne => exact ih hid (hd.mergeEntry hne hd') hrest

end NamesOnly

end Document

end DocumentDb
