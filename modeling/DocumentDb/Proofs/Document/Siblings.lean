/-
  DocumentDb — which fields a merge leaves alone.

  * `Path.spell`: the path that keys lead along if those with a dot are read as paths.  Each write
    of a merge leads to leaves of the changes (`Fields.exists_leaf_of_mem_writesInto`).
  * So a write is apart from a path that is apart from all leaves, or it puts a document in the way
    of the path, in which the path leads to nothing (`Fields.apart_or_above`).
  * **`Document.merge_keeps_iff`**: what is read at such a path is kept, unless there is a write in
    its way.  A key with a dot makes one if its value is a document, as this takes the place of the
    one at the path.
-/
import DocumentDb.Proofs.Document.Removal
import DocumentDb.Proofs.Document.Writes
import DocumentDb.Proofs.Key.Leaves

namespace DocumentDb

open Value (Apart Clear)

/-! ## Keys as paths -/

/-- The path that keys lead along, if those with a dot are read as paths. -/
def Path.spell (keys : List String) : List String := keys.flatMap Path.segments

theorem Path.spell_of_plain : ∀ {keys : List String}, (∀ key ∈ keys, Path.isDotted key = false) →
    Path.spell keys = keys
  | [], _ => rfl
  | key :: keys, h => by
    obtain ⟨hfirst, hrest⟩ := List.forall_mem_cons.1 h
    have hcons : spell (key :: keys) = segments key ++ spell keys := List.flatMap_cons
    rw [hcons, segments_of_not_isDotted hfirst, spell_of_plain hrest]
    rfl

theorem Path.spell_segments (path : String) :
    Path.spell (Path.segments path) = Path.segments path :=
  spell_of_plain fun _ hs => isDotted_of_mem_segments hs

theorem Path.spell_append (keys keys' : List String) :
    Path.spell (keys ++ keys') = Path.spell keys ++ Path.spell keys' := List.flatMap_append

/-- A path apart from all leaves of a value leads to nothing in it, and not into an array. -/
theorem Value.at_of_apart_leaves : ∀ {path : List String} {value : Value},
    (∀ segment ∈ path, Path.isDotted segment = false) →
    (∀ leaf ∈ value.leaves, Apart (Path.spell leaf.1) path) →
    Clear (some value) path ∧ value.at path = .null
  | [], value, _, h => by
    obtain ⟨leaf, hleaf⟩ := List.exists_mem_of_ne_nil _ value.leaves_ne_nil
    exact absurd List.nil_prefix (h leaf hleaf).2
  | segment :: path, .document d, hp, h => by
    obtain ⟨hsegment, hp⟩ := List.forall_mem_cons.1 hp
    rw [Clear, at_document]
    cases hf : d.field? segment with
    | none => exact ⟨clear_none path, rfl⟩
    | some value =>
      refine at_of_apart_leaves hp fun leaf hleaf => ?_
      have hne : ¬ d.isEmpty = true := fun hempty => by
        rw [Document.field?_of_isEmpty hempty] at hf
        cases hf
      have hbelow : (segment :: leaf.1, leaf.2) ∈ (document d).leaves := by
        rw [Value.leaves, if_neg hne]
        exact Fields.mem_leaves_iff.2 ⟨segment, value, hf, leaf, hleaf, rfl⟩
      have hapart := h _ hbelow
      have hcons : Path.spell (segment :: leaf.1) = segment :: Path.spell leaf.1 := by
        show Path.segments segment ++ _ = _
        rw [Path.segments_of_not_isDotted hsegment]
        rfl
      rw [hcons] at hapart
      exact Apart.of_cons hapart
  | _ :: _, .null, _, h | _ :: _, .bool _, _, h | _ :: _, .number _, _, h | _ :: _, .text _, _, h
  | _ :: _, .array _, _, h => absurd List.nil_prefix (h _ List.mem_cons_self).1

/-! ## The leaves that a write leads to -/

mutual
theorem Value.exists_leaf_of_mem_writesAt : ∀ {value : Value} {current : Option Value}
    {w leaf : List String × Value}, w ∈ value.writesAt current → leaf ∈ w.2.leaves →
    ∃ leaf' ∈ value.leaves, Path.spell leaf'.1 = Path.spell w.1 ++ Path.spell leaf.1
  | .document theirs, some (.document mine), w, leaf, hw, hleaf => by
    have hne : ¬ theirs.isEmpty = true := fun hempty => by
      cases theirs with
      | nil =>
        rw [Value.writesAt, Fields.writesInto] at hw
        cases hw
      | cons => cases hempty
    rw [Value.leaves, if_neg hne]
    exact Fields.exists_leaf_of_mem_writesInto hw hleaf
  | .document theirs, none, w, leaf, hw, hleaf | .document theirs, some .null, w, leaf, hw, hleaf
  | .document theirs, some (.bool _), w, leaf, hw, hleaf
  | .document theirs, some (.number _), w, leaf, hw, hleaf
  | .document theirs, some (.text _), w, leaf, hw, hleaf
  | .document theirs, some (.array _), w, leaf, hw, hleaf
  | .null, _, w, leaf, hw, hleaf | .bool _, _, w, leaf, hw, hleaf | .number _, _, w, leaf, hw, hleaf
  | .text _, _, w, leaf, hw, hleaf | .array _, _, w, leaf, hw, hleaf => by
    rw [Value.writesAt_of_not_both rfl] at hw
    rw [List.mem_singleton.1 hw] at hleaf ⊢
    exact ⟨leaf, hleaf, rfl⟩
/-- Below each write of a merge are leaves of the changes. -/
theorem Fields.exists_leaf_of_mem_writesInto : ∀ {bound : Option String} {changes : Fields bound}
    {d : Document} {w leaf : List String × Value}, w ∈ changes.writesInto d → leaf ∈ w.2.leaves →
    ∃ leaf' ∈ changes.leaves, Path.spell leaf'.1 = Path.spell w.1 ++ Path.spell leaf.1
  | _, .nil, _, _, _, hw, _ => by
    rw [Fields.writesInto] at hw
    cases hw
  | _, .cons key _ value rest, d, w, leaf, hw, hleaf => by
    rw [Fields.leaves]
    rw [Fields.writesInto_cons] at hw
    rcases List.mem_append.1 hw with hw | hw
    · suffices h : ∃ below ∈ value.leaves,
          Path.segments key ++ Path.spell below.1 = Path.spell w.1 ++ Path.spell leaf.1 by
        obtain ⟨below, hbelow, he⟩ := h
        exact ⟨_, List.mem_append_left _ (List.mem_map.2 ⟨below, hbelow, rfl⟩), he⟩
      unfold entryWrites at hw
      split at hw
      · rw [List.mem_singleton.1 hw] at hleaf ⊢
        exact ⟨leaf, hleaf, by rw [Path.spell_segments]⟩
      · obtain ⟨w', hw', rfl⟩ := List.mem_map.1 hw
        obtain ⟨below, hbelow, he⟩ := Value.exists_leaf_of_mem_writesAt hw' hleaf
        refine ⟨below, hbelow, ?_⟩
        rw [he, ← List.append_assoc]
        rfl
    · obtain ⟨leaf', hleaf', he⟩ := Fields.exists_leaf_of_mem_writesInto hw hleaf
      exact ⟨leaf', List.mem_append_right _ hleaf', he⟩
end

namespace Fields

variable {bound : Option String} {changes : Fields bound} {d : Document} {w : List String × Value}
  {path : String}

/-- No write goes beyond a path that is apart from all leaves. -/
theorem not_prefix_of_mem_writesInto (hapart : ∀ leaf ∈ changes.leaves, Apart (Path.spell leaf.1)
    (Path.segments path)) (hw : w ∈ changes.writesInto d) : ¬ Path.segments path <+: w.1 := by
  rintro ⟨rest, he⟩
  obtain ⟨leaf, hleaf⟩ := List.exists_mem_of_ne_nil _ w.2.leaves_ne_nil
  obtain ⟨leaf', hleaf', hspell⟩ := exists_leaf_of_mem_writesInto hw hleaf
  rw [← he, Path.spell_append, Path.spell_segments, List.append_assoc] at hspell
  exact (hapart leaf' hleaf').2 ⟨_, hspell.symm⟩

/-- Where a path is apart from all leaves of the changes, a write of the merge is apart from it, or
    puts in its way a value in which it leads to nothing. -/
theorem apart_or_above
    (hapart : ∀ leaf ∈ changes.leaves, Apart (Path.spell leaf.1) (Path.segments path))
    (hw : w ∈ changes.writesInto d) : Apart w.1 (Path.segments path) ∨
      ∃ rest, Path.segments path = w.1 ++ rest ∧ Clear (some w.2) rest ∧ w.2.at rest = .null := by
  by_cases habove : w.1 <+: Path.segments path
  · obtain ⟨rest, he⟩ := habove
    have hplain : ∀ segment ∈ w.1 ++ rest, Path.isDotted segment = false := fun _ hs =>
      Path.isDotted_of_mem_segments (he ▸ hs)
    refine Or.inr ⟨rest, he.symm, Value.at_of_apart_leaves (fun segment hs =>
      hplain segment (List.mem_append_right _ hs)) fun leaf hleaf => ?_⟩
    obtain ⟨leaf', hleaf', hspell⟩ := exists_leaf_of_mem_writesInto hw hleaf
    have h := hapart leaf' hleaf'
    rw [hspell, ← he, Path.spell_of_plain fun segment hs =>
      hplain segment (List.mem_append_left _ hs)] at h
    exact ⟨fun hp => h.1 ((List.prefix_append_right_inj _).2 hp),
      fun hp => h.2 ((List.prefix_append_right_inj _).2 hp)⟩
  · exact Or.inl ⟨habove, not_prefix_of_mem_writesInto hapart hw⟩

end Fields

/-! ## All writes -/

namespace Value

/-- What is put in the way of a path, and does not lead into an array there, does not lead into
    one. -/
theorem Clear.write_append : ∀ {path rest : List String} {current : Option Value} {value : Value},
    Clear current (path ++ rest) → Clear (some value) rest →
    Clear (some (write current path value)) (path ++ rest)
  | [], _, _, _, _, h => by rwa [write]
  | key :: path, rest, current, value, hc, h => by
    rw [List.cons_append] at hc ⊢
    rw [write_of_no_array hc.no_array, Clear, Document.field?_set, if_pos rfl]
    exact write_append hc.below h

/-- After several writes that are apart from a path or put something in its way where it leads to
    nothing, what was there is read if all are apart, and nothing otherwise. -/
theorem elim_at_writeAll {path : List String} : ∀ {writes : Writes} {current : Option Value},
    Clear current path → (∀ w ∈ writes, Apart w.1 path ∨
      ∃ rest, path = w.1 ++ rest ∧ Clear (some w.2) rest ∧ w.2.at rest = .null) →
    (∀ w ∈ writes, Apart w.1 path) ∧
        (writeAll current writes).elim .null (·.at path) = current.elim .null (·.at path) ∨
      (∃ w ∈ writes, w.1 <+: path) ∧ (writeAll current writes).elim .null (·.at path) = .null
  | [], _, _, _ => Or.inl ⟨nofun, rfl⟩
  | w :: writes, current, hc, h => by
    obtain ⟨hfirst, hrest⟩ := List.forall_mem_cons.1 h
    rcases hfirst with hapart | ⟨rest, he, hclear, hnull⟩
    · have hkept : (write current w.1 w.2).at path = current.elim .null (·.at path) :=
        at_write_of_spares hc.spares hapart
      rcases elim_at_writeAll (clear_write hc hapart) hrest with ⟨hall, hat⟩ | ⟨⟨w', hw', hp⟩, hat⟩
      · exact Or.inl ⟨List.forall_mem_cons.2 ⟨hapart, hall⟩, hat.trans hkept⟩
      · exact Or.inr ⟨⟨w', List.mem_cons_of_mem w hw', hp⟩, hat⟩
    · refine Or.inr ⟨⟨w, List.mem_cons_self, rest, he.symm⟩, ?_⟩
      subst he
      rcases elim_at_writeAll (hc.write_append hclear) hrest with ⟨-, hat⟩ | ⟨-, hat⟩
      · rw [Option.elim_some, at_write_append, hnull] at hat
        exact hat
      · exact hat

end Value

namespace Document

variable {d changes r : Document} {key : String}

/-- What is read after a merge at a path apart from all leaves of the changes. -/
theorem at_merge (h : d.merge changes = .ok r)
    (hclear : Clear (some (.document d)) (Path.segments key))
    (hapart : ∀ leaf ∈ changes.leaves, Apart (Path.spell leaf.1) (Path.segments key)) :
    (∀ w ∈ changes.writesInto d, Apart w.1 (Path.segments key)) ∧
        (Value.document r).at (Path.segments key) = (Value.document d).at (Path.segments key) ∨
      (∃ w ∈ changes.writesInto d, w.1 <+: Path.segments key) ∧
        (Value.document r).at (Path.segments key) = .null := by
  have hwritten := Value.elim_at_writeAll hclear fun w (hw : w ∈ changes.writesInto d) =>
    Fields.apart_or_above hapart hw
  rwa [Value.writeAll_document d fun w hw => Fields.ne_nil_of_mem_writesInto hw,
    ← Fields.mergeInto_eq h] at hwritten

/-- A merge makes no field under a key with a dot. -/
theorem field?_merge_of_isDotted (h : d.merge changes = .ok r) (hdotted : Path.isDotted key = true)
    (hnone : d.field? key = none) : r.field? key = none := by
  have hmerged : changes.mergedUnder d key = none := Fields.mergedUnder_eq_none fun value _ => by
    have hboth : value.bothDocuments none = false :=
      Value.bothDocuments_of_no_document (Or.inr nofun)
    rw [hnone, isSpelled, hdotted, hboth]
    rfl
  rw [Fields.mergeInto_eq h, field?_writeAll, Fields.writesUnder_writesInto, hmerged,
    Fields.cut_spelled.writesUnder_eq_nil hdotted, hnone]
  rfl

/-- A key with an empty segment reads as before. -/
theorem get_merge_of_not_isValid (h : d.merge changes = .ok r) (hinvalid : Path.isValid key = false)
    (hnone : Path.isDotted key = true → d.field? key = none)
    (hclear : Clear (some (.document d)) (Path.segments key))
    (hapart : ∀ leaf ∈ changes.leaves, Apart (Path.spell leaf.1) (Path.segments key)) :
    r.get key = d.get key := by
  cases hdotted : Path.isDotted key with
  | true =>
    rw [get_of_no_field hdotted (hnone hdotted),
      get_of_no_field hdotted (field?_merge_of_isDotted h hdotted (hnone hdotted)), hinvalid]
    rfl
  | false =>
    -- the empty key, which is written as a whole or not at all
    have hs := Path.segments_of_not_isDotted hdotted
    rcases at_merge h hclear hapart with ⟨-, hat⟩ | ⟨⟨w, hw, rest, he⟩, -⟩
    · rw [get_of_not_isDotted hdotted, get_of_not_isDotted hdotted, hat]
    · refine absurd ?_ (Fields.not_prefix_of_mem_writesInto hapart hw)
      rw [hs] at he
      rcases List.append_eq_singleton_iff.1 he with ⟨hnil, -⟩ | ⟨hwhole, -⟩
      · exact absurd hnil (Fields.ne_nil_of_mem_writesInto hw)
      · exact ⟨[], by rw [List.append_nil, hwhole, hs]⟩

/-- **What is read under a key that leads through embedded documents, apart from all leaves
    of the changes, is kept by a merge that writes nothing above it.  After one that does,
    the key reads as null.** -/
theorem merge_keeps_iff (h : d.merge changes = .ok r)
    (hplain : Path.isDotted key = true → d.hasKey key = false)
    (hclear : Clear (some (.document d)) (Path.segments key))
    (hapart : ∀ leaf ∈ changes.leaves, Apart (Path.spell leaf.1) (Path.segments key)) :
    (r.get key = d.get key ↔ Path.isValid key = false ∨ d.get key = .ok .null ∨
      ∀ w ∈ changes.writesInto d, ¬ w.1 <+: Path.segments key) ∧
    (Path.isValid key = true → (∃ w ∈ changes.writesInto d, w.1 <+: Path.segments key) →
      r.get key = .ok .null) := by
  have hnone : Path.isDotted key = true → d.field? key = none := fun hdotted =>
    Fields.hasKey_eq_false_iff.1 (hplain hdotted)
  have hnone' : Path.isDotted key = true → r.field? key = none := fun hdotted =>
    field?_merge_of_isDotted h hdotted (hnone hdotted)
  cases hvalid : Path.isValid key with
  | false =>
    exact ⟨iff_of_true (get_merge_of_not_isValid h hvalid hnone hclear hapart) (Or.inl rfl), nofun⟩
  | true =>
    rw [get_of_plain hnone hvalid, get_of_plain hnone' hvalid]
    rcases at_merge h hclear hapart with ⟨hall, hat⟩ | ⟨habove, hat⟩
    · have hbeside : ∀ w ∈ changes.writesInto d, ¬ w.1 <+: Path.segments key :=
        fun w hw => (hall w hw).1
      refine ⟨iff_of_true (by rw [hat]) (Or.inr (Or.inr hbeside)), fun _ habove => ?_⟩
      obtain ⟨w, hw, hp⟩ := habove
      exact absurd hp (hbeside w hw)
    · rw [hat]
      refine ⟨⟨fun heq => Or.inr (Or.inl heq.symm), ?_⟩, fun _ _ => rfl⟩
      rintro (hinvalid | hnull | hbeside)
      · cases hinvalid
      · exact hnull.symm
      · obtain ⟨w, hw, hp⟩ := habove
        exact absurd hp (hbeside w hw)

/-! ## One change in two spellings -/

/-- A document with two fields below `a.b`. -/
def twoBelow : Document :=
  single "a" (.document (single "b" (.document ((single "x" (.int 1)).set "y" (.int 2)))))

/-- A new value for the first of them, under a key with a dot. -/
def dottedChange : Document := single "a.b" (.document (single "x" (.int 3)))

/-- The same as embedded documents. -/
def nestedChange : Document := single "a" (.document (single "b" (.document (single "x" (.int 3)))))

theorem segments_y : Path.segments "a.b.y" = ["a", "b", "y"] := by decide +kernel

theorem spell_dottedChange : ∀ leaf ∈ dottedChange.leaves, Path.spell leaf.1 = ["a", "b", "x"] := by
  decide +kernel

theorem spell_nestedChange : ∀ leaf ∈ nestedChange.leaves, Path.spell leaf.1 = ["a", "b", "x"] := by
  decide +kernel

theorem apart_y : Apart ["a", "b", "x"] (Path.segments "a.b.y") := by
  rw [segments_y]
  unfold Apart
  decide

theorem merge_dottedChange : twoBelow.merge dottedChange =
    .ok (twoBelow.write (Path.segments "a.b") (.document (single "x" (.int 3)))) := by
  have hnone : twoBelow.field? "a.b" = none := by decide +kernel
  have hput : twoBelow.mergeEntry "a.b" (.document (single "x" (.int 3))) =
      .ok (twoBelow.write (Path.segments "a.b") (.document (single "x" (.int 3)))) := by
    rw [mergeEntry_eq_put fun mine hm => by rw [hnone] at hm; cases hm]
    exact put_eq_ok_iff.2 ⟨by decide +kernel, rfl⟩
  exact bind_eq_ok_iff.2 ⟨_, hput, rfl⟩

/-- The key with a dot drops the second field, the embedded documents keep it. -/
theorem merge_keeps_nested : ∃ r r', twoBelow.merge dottedChange = .ok r ∧
    r.get "a.b.y" = .ok .null ∧
    twoBelow.merge nestedChange = .ok r' ∧ r'.get "a.b.y" = twoBelow.get "a.b.y" := by
  have hplain : Path.isDotted "a.b.y" = true → twoBelow.hasKey "a.b.y" = false := by decide +kernel
  have hclear : Clear (some (.document twoBelow)) (Path.segments "a.b.y") := by
    rw [segments_y]
    simp [twoBelow, Clear]
  have habove : ∃ w ∈ dottedChange.writesInto twoBelow, w.1 <+: Path.segments "a.b.y" := by
    decide +kernel
  have hbeside : ∀ w ∈ nestedChange.writesInto twoBelow, ¬ w.1 <+: Path.segments "a.b.y" := by
    decide +kernel
  obtain ⟨r', hr'⟩ : ∃ r', twoBelow.merge nestedChange = .ok r' :=
    Fields.exists_mergeInto_of_mergeable (by decide +kernel) twoBelow
  obtain ⟨-, hnull⟩ := merge_keeps_iff merge_dottedChange hplain hclear fun leaf hleaf =>
    spell_dottedChange leaf hleaf ▸ apart_y
  obtain ⟨hkept, -⟩ := merge_keeps_iff hr' hplain hclear fun leaf hleaf =>
    spell_nestedChange leaf hleaf ▸ apart_y
  exact ⟨_, r', merge_dottedChange, hnull (by decide +kernel) habove, hr',
    hkept.2 (Or.inr (Or.inr hbeside))⟩

/-- A field apart from all leaves of the changes is lost. -/
theorem merge_drops_sibling : twoBelow.get "a.b.y" = .ok (.int 2) ∧
    (∃ r, twoBelow.merge dottedChange = .ok r ∧ r.get "a.b.y" = .ok .null) ∧
    ¬ ∀ (d changes r : Document) (key : String), d.merge changes = .ok r →
      (∃ value, (Value.document d).descend (Path.segments key) = some value) →
      (Path.isDotted key = true → d.hasKey key = false) →
      (∀ leaf ∈ changes.leaves, Apart (Path.spell leaf.1) (Path.segments key)) →
      r.get key = d.get key := by
  have hsegments : Path.segments "a.b" = ["a", "b"] := by decide +kernel
  have hdescend : (Value.document twoBelow).descend (Path.segments "a.b.y") = some (.int 2) := by
    rw [segments_y]
    simp [twoBelow, Value.descend]
  have hplain : Path.isDotted "a.b.y" = true → twoBelow.hasKey "a.b.y" = false := by decide +kernel
  have hbefore : twoBelow.get "a.b.y" = .ok (.int 2) := by
    rw [get_of_plain (fun _ => by decide +kernel) (by decide +kernel), Value.at_of_descend hdescend]
  have hafter :
      (twoBelow.write (Path.segments "a.b") (.document (single "x" (.int 3)))).get "a.b.y" =
      .ok .null := by
    rw [get_of_plain (fun _ => by decide +kernel) (by decide +kernel), segments_y, hsegments]
    simp [twoBelow, write, Value.write, Value.at_document]
  refine ⟨hbefore, ⟨_, merge_dottedChange, hafter⟩, fun h => ?_⟩
  have hkept := h _ _ _ _ merge_dottedChange ⟨_, hdescend⟩ hplain fun leaf hleaf =>
    spell_dottedChange leaf hleaf ▸ apart_y
  rw [hbefore, hafter] at hkept
  cases hkept

end Document

end DocumentDb
