/-
  DocumentDb — when changes can be merged into a document.

  * `exists_mergeInto_iff`: keys are taken in ascending order, and writing at a key disturbs no
    field after it, so each entry of the changes can be looked at on its own.
  * `Fields.mergeable`: no key of the changes, at any depth, has an empty segment.  Such changes
    merge into every document (`exists_mergeInto_of_mergeable`); any others fail on some document
    (`exists_not_mergeEntry`).
  * Into a document without embedded ones, changes merge if the keys at the top have no empty
    segment (`exists_merge_iff`).
-/
import DocumentDb.Proofs.Document.Write
import DocumentDb.Proofs.Outcome

namespace DocumentDb

/-! ## One entry -/

namespace Document

variable {d d' : Document} {key : String} {value : Value}

theorem mergeEntry_eq_put (h : ∀ mine, d.field? key ≠ some (.document mine)) :
    d.mergeEntry key value = d.put key value := by
  cases value with
  | document theirs =>
    rw [mergeEntry]
    split
    · next mine hm => exact absurd hm (h mine)
    · rfl
  | _ => rfl

theorem mergeEntry_eq_ok_iff {mine theirs : Document} (h : d.field? key = some (.document mine)) :
    d.mergeEntry key (.document theirs) = .ok d' ↔
      ∃ merged, theirs.mergeInto mine = .ok merged ∧ d' = d.set key (.document merged) := by
  rw [mergeEntry, h]
  refine bind_eq_ok_iff.trans (exists_congr fun merged => and_congr_right ?_)
  intro _
  exact ⟨fun he => (Except.ok.inj he).symm, fun he => congrArg Except.ok he.symm⟩

/-- An entry is put, or both sides have a document under its key, and these are merged. -/
theorem mergeEntry_cases (d : Document) (key : String) (value : Value) :
    d.mergeEntry key value = d.put key value ∨
      ∃ mine theirs, d.field? key = some (.document mine) ∧ value = .document theirs := by
  cases value with
  | document theirs =>
    by_cases h : ∃ mine, d.field? key = some (.document mine)
    · obtain ⟨mine, hm⟩ := h
      exact Or.inr ⟨mine, theirs, hm, rfl⟩
    · exact Or.inl (mergeEntry_eq_put fun mine hm => h ⟨mine, hm⟩)
  | _ => exact Or.inl rfl

theorem field?_mergeEntry_of_lt {later : String} (h : d.mergeEntry key value = .ok d')
    (hlt : key < later) : d'.field? later = d.field? later := by
  rcases d.mergeEntry_cases key value with hput | ⟨mine, theirs, hm, rfl⟩
  · exact field?_put_of_lt (hput.symm.trans h) hlt
  · obtain ⟨merged, -, rfl⟩ := (mergeEntry_eq_ok_iff hm).1 h
    rw [field?_set, if_neg (String.ne_of_lt hlt)]

theorem exists_mergeEntry_congr (h : d.field? key = d'.field? key) :
    (∃ r, d.mergeEntry key value = .ok r) ↔ ∃ r, d'.mergeEntry key value = .ok r := by
  by_cases hdoc : ∃ mine theirs, d.field? key = some (.document mine) ∧ value = .document theirs
  · obtain ⟨mine, theirs, hm, rfl⟩ := hdoc
    have hm' := h ▸ hm
    simp only [mergeEntry_eq_ok_iff hm, mergeEntry_eq_ok_iff hm', exists_comm (α := Document),
      exists_and_left, exists_eq, and_true]
  · rcases d.mergeEntry_cases key value with hput | hm
    · rcases d'.mergeEntry_cases key value with hput' | ⟨mine, theirs, hm', rfl⟩
      · rw [hput, hput', exists_put_iff, exists_put_iff]
      · exact absurd ⟨mine, theirs, h ▸ hm', rfl⟩ hdoc
    · exact absurd hm hdoc

end Document

/-! ## Entry by entry -/

/-- Changes can be merged just when each of their entries can. -/
theorem exists_mergeInto_iff {bound : Option String} (changes : Fields bound) (d : Document) :
    (∃ r, changes.mergeInto d = .ok r) ↔
      ∀ key value, changes.field? key = some value → ∃ r, d.mergeEntry key value = .ok r := by
  induction changes using Fields.ind generalizing d with
  | nil => simp [Fields.mergeInto, Fields.field?]
  | cons key _ value rest ih =>
    have hlater : ∀ later v, rest.field? later = some v → key < later :=
      fun _ _ hv => rest.follows_of_field? hv
    constructor
    · rintro ⟨r, hr⟩ key' value' hv
      obtain ⟨d', hd', hrest⟩ := bind_eq_ok_iff.1 hr
      rw [Fields.field?] at hv
      split at hv
      · next he =>
        cases hv
        exact ⟨d', he ▸ hd'⟩
      · have he := Document.field?_mergeEntry_of_lt hd' (hlater key' value' hv)
        exact (Document.exists_mergeEntry_congr he).1 ((ih d').1 ⟨r, hrest⟩ key' value' hv)
    · intro h
      obtain ⟨d', hd'⟩ := h key value (by rw [Fields.field?, if_pos rfl])
      obtain ⟨r, hr⟩ := (ih d').2 fun key' value' hv => by
        have hlt := hlater key' value' hv
        refine (Document.exists_mergeEntry_congr (Document.field?_mergeEntry_of_lt hd' hlt)).2 ?_
        exact h key' value' (by rw [Fields.field?, if_neg (String.ne_of_lt hlt), hv])
      exact ⟨r, bind_eq_ok_iff.2 ⟨d', hd', hr⟩⟩

/-- Into a document without embedded ones, changes merge if no key at the top has an empty
    segment. -/
theorem exists_merge_iff {d : Document} (h : ∀ key mine, d.field? key ≠ some (.document mine))
    (changes : Document) :
    (∃ r, d.merge changes = .ok r) ↔ ∀ key, changes.hasKey key = true →
    Path.isValid key = true := by
  refine (exists_mergeInto_iff changes d).trans ?_
  simp only [Document.mergeEntry_eq_put (h _), Document.exists_put_iff, Fields.hasKey,
    Option.isSome_iff_exists]
  exact ⟨fun hk key ⟨value, hv⟩ => hk key value hv, fun hk key value hv => hk key ⟨value, hv⟩⟩

/-! ## Changes that merge into every document -/

mutual
/-- No key of the documents embedded in a value, at any depth, has an empty segment. -/
def Value.mergeable : Value → Bool
  | .document d => d.mergeable
  | _ => true
/-- No key of the fields, nor of the documents embedded in them, has an empty segment. -/
def Fields.mergeable : {bound : Option String} → Fields bound → Bool
  | _, .nil => true
  | _, .cons key _ value rest => Path.isValid key && value.mergeable && rest.mergeable
end

mutual
theorem Value.exists_mergeEntry_of_mergeable : ∀ {value : Value}, value.mergeable = true →
    ∀ {key : String}, Path.isValid key = true → ∀ d : Document, ∃ r, d.mergeEntry key value = .ok r
  | .document theirs, h, key, hk, d => by
    by_cases hm : ∃ mine, d.field? key = some (.document mine)
    · obtain ⟨mine, hm⟩ := hm
      have ht : theirs.mergeable = true := h
      obtain ⟨merged, hmerged⟩ := Fields.exists_mergeInto_of_mergeable ht mine
      exact ⟨_, (Document.mergeEntry_eq_ok_iff hm).2 ⟨merged, hmerged, rfl⟩⟩
    · rw [Document.mergeEntry_eq_put fun mine he => hm ⟨mine, he⟩]
      exact Document.exists_put_iff.2 hk
  | .null, _, _, hk, _ => Document.exists_put_iff.2 hk
  | .bool _, _, _, hk, _ => Document.exists_put_iff.2 hk
  | .number _, _, _, hk, _ => Document.exists_put_iff.2 hk
  | .text _, _, _, hk, _ => Document.exists_put_iff.2 hk
  | .array _, _, _, hk, _ => Document.exists_put_iff.2 hk
theorem Fields.exists_mergeInto_of_mergeable : ∀ {bound : Option String} {changes : Fields bound},
    changes.mergeable = true → ∀ d : Document, ∃ r, changes.mergeInto d = .ok r
  | _, .nil, _, d => ⟨d, rfl⟩
  | _, .cons key _ value rest, h, d => by
    simp only [Fields.mergeable, Bool.and_eq_true] at h
    obtain ⟨⟨hk, hv⟩, hrest⟩ := h
    obtain ⟨d', hd'⟩ := Value.exists_mergeEntry_of_mergeable hv hk d
    obtain ⟨r, hr⟩ := Fields.exists_mergeInto_of_mergeable hrest d'
    exact ⟨r, bind_eq_ok_iff.2 ⟨d', hd', hr⟩⟩
end

mutual
theorem Value.exists_document_of_not_mergeable : ∀ {value : Value}, value.mergeable = false →
    ∃ mine theirs : Document, value = .document theirs ∧ ¬ ∃ r, theirs.mergeInto mine = .ok r
  | .document theirs, h => by
    have ht : theirs.mergeable = false := h
    obtain ⟨d, key, value, hv, hn⟩ := Fields.exists_not_mergeEntry ht
    exact ⟨d, theirs, rfl, fun hr => hn ((exists_mergeInto_iff theirs d).1 hr key value hv)⟩
  | .null, h | .bool _, h | .number _, h | .text _, h
  | .array _, h => by simp [Value.mergeable] at h
/-- Changes that are not mergeable have an entry that some document does not take. -/
theorem Fields.exists_not_mergeEntry : ∀ {bound : Option String} {changes : Fields bound},
    changes.mergeable = false → ∃ (d : Document) (key : String) (value : Value),
      changes.field? key = some value ∧ ¬ ∃ r, d.mergeEntry key value = .ok r
  | _, .nil, h => by simp [Fields.mergeable] at h
  | _, .cons key _ value rest, h => by
    simp only [Fields.mergeable, Bool.and_eq_false_iff] at h
    rcases h with (hk | hv) | hrest
    · refine ⟨Document.empty, key, value, if_pos rfl, ?_⟩
      rw [Document.mergeEntry_eq_put fun mine => by simp, Document.exists_put_iff, hk]
      exact nofun
    · obtain ⟨mine, theirs, rfl, hn⟩ := Value.exists_document_of_not_mergeable hv
      have hm : (Document.single key (.document mine)).field? key = some (.document mine) := by simp
      refine ⟨Document.single key (.document mine), key, .document theirs, if_pos rfl,
        fun hr => hn ?_⟩
      obtain ⟨r, hr⟩ := hr
      obtain ⟨merged, hmerged, -⟩ := (Document.mergeEntry_eq_ok_iff hm).1 hr
      exact ⟨merged, hmerged⟩
    · obtain ⟨d, later, value', hv', hn⟩ := Fields.exists_not_mergeEntry hrest
      have hne := String.ne_of_lt (rest.follows_of_field? hv')
      exact ⟨d, later, value', (if_neg hne).trans hv', hn⟩
end

/-! ## Changes that leave a mark -/

theorem Value.write_ne_text (current : Option Value) (segment : String) (path : List String)
    (value : Value) (t : String) : Value.write current (segment :: path) value ≠ .text t := by
  intro h
  cases current with
  | none => cases h
  | some current =>
    cases current with
    | array items =>
      rw [Value.write] at h
      cases hp : Path.positionIn? segment items.length <;> rw [hp] at h <;> cases h
    | _ => cases h

namespace Document

/-- A document has a field that a document with a text under its id key, and nothing else, does not
    have. -/
def Marked (d : Document) : Prop :=
  ∃ key value, d.field? key = some value ∧ (key = idKey → ∀ t, value ≠ .text t)

theorem marked_of_mergeEntry {d d' : Document} {key : String} {value : Value} (hne : key ≠ idKey)
    (h : d.mergeEntry key value = .ok d') : d'.Marked := by
  rcases d.mergeEntry_cases key value with hput | ⟨mine, theirs, hm, rfl⟩
  · obtain ⟨-, rfl⟩ := put_eq_ok_iff.1 (hput.symm.trans h)
    obtain ⟨first, path, hs⟩ := Path.exists_segments key
    rw [hs, write]
    refine ⟨first, _, by rw [field?_set, if_pos rfl], fun hid t => ?_⟩
    cases path with
    | nil =>
      exact absurd ((Path.eq_of_segments_eq_singleton hs).trans hid) hne
    | cons segment path => exact Value.write_ne_text _ _ _ _ _
  · obtain ⟨merged, -, rfl⟩ := (mergeEntry_eq_ok_iff hm).1 h
    exact ⟨key, _, by rw [field?_set, if_pos rfl], fun hid => absurd hid hne⟩

/-- The last entry of the changes leaves its mark, whatever the others have done. -/
theorem marked_of_mergeInto {bound : Option String} {changes : Fields bound} {d r : Document}
    (hid : changes.hasKey idKey = false) (hne : changes.isEmpty = false)
    (h : changes.mergeInto d = .ok r) : r.Marked := by
  induction changes using Fields.ind generalizing d with
  | nil => cases hne
  | cons key _ value rest ih =>
    obtain ⟨d', hd', hrest⟩ := bind_eq_ok_iff.1 h
    rw [Fields.hasKey, Fields.field?] at hid
    split at hid
    · cases hid
    · next hkey =>
      cases rest with
      | nil =>
        cases hrest
        exact marked_of_mergeEntry hkey hd'
      | cons => exact ih hid rfl hrest

theorem not_marked_single (id : String) : ¬ (single idKey (.text id)).Marked := by
  rintro ⟨key, value, hv, hm⟩
  rw [field?_single] at hv
  split at hv
  · next he => exact hm he.symm id (Option.some.inj hv).symm
  · cases hv

end Document

end DocumentDb
