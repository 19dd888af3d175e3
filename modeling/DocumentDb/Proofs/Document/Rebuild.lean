/-
  DocumentDb — a document is made up of what is read at its listed paths.

  * `Fields.segmented`: each key, at any depth of embedded documents, can be the segment of a path.
  * The listed paths lead to the leaves, but for those under the id: for any document without an
    empty key they are the keys to the leaves, joined (`Fields.leafPaths_root`), and of joined
    segments nothing is lost (`Document.segments_of_mem_leaves`).  So what is read at them are the
    leaves (`Document.map_leafPaths`).
  * `Document.copyAt_eq`: putting what is read at some paths is writing it at their segments.
  * **`Document.leafPaths_rebuild`**: so what is read at the listed paths, put there in any order,
    makes the document without its id.
-/
import DocumentDb.Proofs.Document.Leaves

namespace DocumentDb

/-! ## Keys that are segments -/

/-- Whether a key can be the segment of a path: it is not empty and has no dot. -/
def Path.isSegment (key : String) : Bool := !key.isEmpty && !Path.isDotted key

mutual
/-- Every key, at any depth of embedded documents, can be the segment of a path. -/
def Value.segmented : Value → Bool
  | .document d => d.segmented
  | _ => true
/-- Every key, here or in the embedded documents, can be the segment of a path. -/
def Fields.segmented : {bound : Option String} → Fields bound → Bool
  | _, .nil => true
  | _, .cons key _ value rest => Path.isSegment key && value.segmented && rest.segmented
end

theorem Path.isSegment_iff {key : String} : isSegment key = true ↔
    key ≠ "" ∧ isDotted key = false := by
  simp [isSegment]

theorem Path.isValid_join {keys : List String} (hne : keys ≠ [])
    (h : ∀ key ∈ keys, isSegment key = true) : isValid (join keys) = true := by
  rw [isValid, segments_join hne fun key hkey => (isSegment_iff.1 (h key hkey)).2, List.all_eq_true]
  intro key hkey
  simpa using (isSegment_iff.1 (h key hkey)).1

theorem Fields.segmented_of_field? {bound : Option String} {d : Fields bound} {key : String}
    {value : Value} (h : d.segmented = true) (hv : d.field? key = some value) :
    Path.isSegment key = true ∧ value.segmented = true := by
  induction d using Fields.ind with
  | nil => cases hv
  | cons first _ value' rest ih =>
    simp only [segmented, Bool.and_eq_true] at h
    obtain ⟨⟨hfirst, hvalue⟩, hrest⟩ := h
    rw [field?] at hv
    split at hv
    · next he =>
      cases hv
      exact ⟨he ▸ hfirst, hvalue⟩
    · exact ih hrest hv

theorem Value.isSegment_of_descend :
    ∀ {path : List String} {value leaf : Value}, value.segmented = true →
    value.descend path = some leaf → ∀ key ∈ path, Path.isSegment key = true
  | [], _, _, _, _ => nofun
  | key :: path, value, leaf, h, hd => by
    obtain ⟨d, rfl⟩ := exists_of_descend_cons hd
    rw [descend_document] at hd
    obtain ⟨below, hbelow, hd⟩ := Option.bind_eq_some_iff.1 hd
    obtain ⟨hkey, hsegmented⟩ := Fields.segmented_of_field? h hbelow
    exact List.forall_mem_cons.2 ⟨hkey, isSegment_of_descend hsegmented hd⟩

/-! ## The listed paths -/

mutual
theorem Value.leafPaths_eq : ∀ (value : Value) {path : String}, path ≠ "" →
    value.leafPaths path = value.leaves.map fun leaf => Path.join (path :: leaf.1)
  | .document d, path, hp => by
    rw [Value.leafPaths, Value.leaves]
    split
    · rw [List.map_singleton, Path.join_singleton]
    · exact Fields.leafPaths_eq d hp
  | .null, path, _ | .bool _, path, _ | .number _, path, _ | .text _, path, _
  | .array _, path, _ => by
    rw [Value.leafPaths, Value.leaves, List.map_singleton, Path.join_singleton]
    all_goals exact nofun
/-- The paths listed below a path lead on to the leaves. -/
theorem Fields.leafPaths_eq :
    ∀ {bound : Option String} (d : Fields bound) {path : String}, path ≠ "" →
    d.leafPaths path = d.leaves.map fun leaf => Path.join (path :: leaf.1)
  | _, .nil, _, _ => rfl
  | _, .cons key _ value rest, path, hp => by
    have hempty : path.isEmpty = false := by simpa using hp
    have hbelow : Path.below path key = Path.child path key := if_neg (by simpa using hp)
    rw [Fields.leafPaths, Fields.leaves, hempty, Bool.false_and, if_neg Bool.false_ne_true, hbelow,
      Value.leafPaths_eq value (Path.child_ne_empty path key), Fields.leafPaths_eq rest hp,
      List.map_append, List.map_map]
    simp only [Path.join_child_cons, Function.comp_def]
end

theorem Fields.leaves_relax {bound : Option String} {key : String} (h : Follows bound key)
    (d : Fields (some key)) : (d.relax h).leaves = d.leaves := by
  cases d with
  | nil => rfl
  | cons => rw [relax, leaves, leaves]

theorem Fields.erase_of_none {bound : Option String} {d : Fields bound} {key : String}
    (h : d.field? key = none) : d.erase key = d := by
  refine ext _ _ fun wanted => ?_
  rw [field?_erase]
  split
  · next he => rw [← he, h]
  · rfl

/-- From the root on, the paths lead to all leaves but those under the id. -/
theorem Fields.leafPaths_root : ∀ {bound : Option String} (d : Fields bound), d.field? "" = none →
    d.leafPaths "" = (d.erase idKey).leaves.map fun leaf => Path.join leaf.1
  | _, .nil, _ => rfl
  | _, .cons key _ value rest, h => by
    rw [field?] at h
    split at h
    · cases h
    · next hne =>
      have hrest := Fields.leafPaths_root rest h
      have hbelow : Path.below "" key = key := rfl
      -- the id is left out of the list, and of the entries where it is erased
      rw [Fields.leafPaths, hrest, erase, hbelow]
      by_cases hid : key = idKey
      · subst hid
        rw [if_pos rfl, leaves_relax, erase_of_none rest.field?_self]
        rfl
      · have hkept : (("" : String).isEmpty && key == idKey) = false := by simp [hid]
        rw [hkept, if_neg hid, if_neg Bool.false_ne_true, Value.leafPaths_eq value hne, leaves,
          List.map_append, List.map_map]
        rfl

namespace Document

variable {d : Document}

theorem leafPaths_eq (h : d.segmented = true) :
    d.leafPaths = (d.erase idKey).leaves.map fun leaf => Path.join leaf.1 := by
  refine Fields.leafPaths_root d (Option.eq_none_iff_forall_ne_some.2 fun value hvalue => ?_)
  exact (Path.isSegment_iff.1 (Fields.segmented_of_field? h hvalue).1).1 rfl

/-- The keys that lead to a leaf outside of the id. -/
theorem mem_leaves_erase_iff {path : List String} {leaf : Value} :
    (path, leaf) ∈ (d.erase idKey).leaves ↔
      path ≠ [] ∧ path.head? ≠ some idKey ∧ (Value.document d).descend path = some leaf ∧
      leaf.isLeaf = true := by
  rw [Fields.mem_leaves_iff]
  cases path with
  | nil => simp
  | cons key path =>
    rw [Value.descend_document, and_iff_right (List.cons_ne_nil key path), List.head?_cons]
    constructor
    · rintro ⟨key', value, hvalue, below, hbelow, heq⟩
      cases heq
      rw [Fields.field?_erase] at hvalue
      split at hvalue
      · cases hvalue
      · next hne =>
        rw [hvalue]
        exact ⟨fun he => hne (Option.some.inj he).symm, (Value.mem_leaves_iff value).1 hbelow⟩
    · rintro ⟨hne, hdescend, hleaf⟩
      obtain ⟨value, hvalue, hdescend⟩ := Option.bind_eq_some_iff.1 hdescend
      have hkept : (d.erase idKey).field? key = some value := by
        rw [Fields.field?_erase, if_neg fun he => hne (congrArg some he.symm), hvalue]
      exact ⟨key, value, hkept, (path, leaf), (Value.mem_leaves_iff value).2 ⟨hdescend, hleaf⟩, rfl⟩

/-- The keys that lead to a leaf are the segments of its path. -/
theorem segments_of_mem_leaves (h : d.segmented = true) {leaf : List String × Value}
    (hl : leaf ∈ (d.erase idKey).leaves) :
    Path.segments (Path.join leaf.1) = leaf.1 ∧ Path.isValid (Path.join leaf.1) = true := by
  obtain ⟨hne, -, hdescend, -⟩ := mem_leaves_erase_iff.1 hl
  have hd : (Value.document d).segmented = true := h
  have hsegments := Value.isSegment_of_descend hd hdescend
  exact ⟨Path.segments_join hne fun key hkey => (Path.isSegment_iff.1 (hsegments key hkey)).2,
    Path.isValid_join hne hsegments⟩

theorem mem_leafPaths_iff (h : d.segmented = true) {path : String} :
    path ∈ d.leafPaths ↔ (Path.segments path).head? ≠ some idKey ∧
      ∃ leaf, (Value.document d).descend (Path.segments path) = some leaf ∧ leaf.isLeaf = true := by
  rw [leafPaths_eq h, List.mem_map]
  constructor
  · rintro ⟨⟨keys, leaf⟩, hl, rfl⟩
    rw [(segments_of_mem_leaves h hl).1]
    obtain ⟨-, hid, hleaf⟩ := mem_leaves_erase_iff.1 hl
    exact ⟨hid, leaf, hleaf⟩
  · rintro ⟨hid, leaf, hleaf⟩
    exact ⟨(Path.segments path, leaf),
      mem_leaves_erase_iff.2 ⟨Path.segments_ne_nil path, hid, hleaf⟩, Path.join_segments path⟩

/-- What is read at the listed paths are the leaves. -/
theorem map_leafPaths (h : d.segmented = true) :
    d.leafPaths.map (fun path => (Path.segments path, (Value.document d).at (Path.segments path))) =
      (d.erase idKey).leaves := by
  rw [leafPaths_eq h, List.map_map]
  conv_rhs => rw [← List.map_id (d.erase idKey).leaves]
  refine List.map_congr_left fun leaf hl => ?_
  obtain ⟨-, -, hdescend, -⟩ := mem_leaves_erase_iff.1 hl
  rw [Function.comp_apply, (segments_of_mem_leaves h hl).1, Value.at_of_descend hdescend]
  rfl

theorem leafPaths_nodup (h : d.segmented = true) : d.leafPaths.Nodup := by
  have hkeys := Fields.leaves_nodup (d.erase idKey)
  rw [← map_leafPaths h, List.map_map] at hkeys
  exact hkeys.of_map

theorem plain_of_segmented (h : d.segmented = true) : d.Plain := by
  intro key hdotted
  refine Option.eq_none_iff_forall_ne_some.2 fun value hvalue => ?_
  rw [(Path.isSegment_iff.1 (Fields.segmented_of_field? h hvalue).1).2] at hdotted
  cases hdotted

theorem get_of_mem_leafPaths (h : d.segmented = true) {path : String} (hp : path ∈ d.leafPaths) :
    Path.isValid path = true ∧ d.get path = .ok ((Value.document d).at (Path.segments path)) := by
  rw [leafPaths_eq h] at hp
  obtain ⟨leaf, hl, rfl⟩ := List.mem_map.1 hp
  have hvalid := (segments_of_mem_leaves h hl).2
  exact ⟨hvalid, get_of_plain (plain_of_segmented h _) hvalid⟩

/-! ## Putting what is read -/

/-- What comes of putting into a document, one after the other, what is read at some paths
    of another. -/
def copyAt (d : Document) (paths : List String) (into : Document) : Except Fault Document :=
  paths.foldlM (fun into path => do into.put path (← d.get path)) into

theorem copyAt_eq : ∀ {paths : List String} {into : Document},
    (∀ path ∈ paths, Path.isValid path = true ∧
      d.get path = .ok ((Value.document d).at (Path.segments path))) →
    d.copyAt paths into = .ok (into.writeAll
      (paths.map fun path => (Path.segments path, (Value.document d).at (Path.segments path))))
  | [], _, _ => rfl
  | path :: rest, into, h => by
    obtain ⟨⟨hvalid, hget⟩, hrest⟩ := List.forall_mem_cons.1 h
    have hput : into.put path ((Value.document d).at (Path.segments path)) =
        .ok (into.write (Path.segments path) ((Value.document d).at (Path.segments path))) :=
      put_eq_ok_iff.2 ⟨hvalid, rfl⟩
    have hcons : d.copyAt (path :: rest) into =
        (do let into ← (do into.put path (← d.get path)); d.copyAt rest into) := List.foldlM_cons
    rw [hcons, hget]
    show (do let into ← into.put path _; d.copyAt rest into) = _
    rw [hput]
    exact copyAt_eq hrest

/-- **A document of which every key can be the segment of a path is made up of what is read at its
    listed paths.  Each path to a leaf outside of the id is listed once, and putting what is read at
    these paths, in any order, into an empty document makes the document without its id.** -/
theorem leafPaths_rebuild (d : Document) (h : d.segmented = true) :
    d.leafPaths.Nodup ∧
    (∀ path, path ∈ d.leafPaths ↔ (Path.segments path).head? ≠ some idKey ∧
      ∃ leaf, (Value.document d).descend (Path.segments path) = some leaf ∧ leaf.isLeaf = true) ∧
    ∀ paths : List String, paths.Perm d.leafPaths → d.copyAt paths empty = .ok (d.erase idKey) := by
  refine ⟨leafPaths_nodup h, fun path => mem_leafPaths_iff h, fun paths hp => ?_⟩
  rw [copyAt_eq fun path hpath => get_of_mem_leafPaths h (hp.mem_iff.1 hpath)]
  -- paths in another order are leaves in another order
  have hleaves := hp.map fun path =>
    (Path.segments path, (Value.document d).at (Path.segments path))
  rw [map_leafPaths h] at hleaves
  rw [writeAll_leaves hleaves]

/-- An id at the top and below, an embedded document without entries, and an array of a document
    whose key has a dot. -/
def mixed : Document :=
  .ofList [("_id", .text "1"),
    ("a", .document (Document.ofList [("_id", .document (single "c" .null)), ("b", .int 1)])),
    ("e", .document empty), ("l", .array [.document (single "x.y" (.int 2))])]

theorem mixed_rebuild : mixed.segmented = true ∧ ["l", "a.b", "e", "a._id.c"].Perm mixed.leafPaths ∧
    mixed.leafPaths.Nodup ∧
      mixed.copyAt ["l", "a.b", "e", "a._id.c"] empty = .ok (mixed.erase idKey) := by
  have hsegmented : mixed.segmented = true := by decide +kernel
  have hpaths : mixed.leafPaths = ["a._id.c", "a.b", "e", "l"] := by decide +kernel
  have hperm : ["l", "a.b", "e", "a._id.c"].Perm mixed.leafPaths := by
    rw [hpaths]
    decide +kernel
  obtain ⟨hnodup, -, hrebuild⟩ := leafPaths_rebuild mixed hsegmented
  exact ⟨hsegmented, hperm, hnodup, hrebuild _ hperm⟩

end Document

end DocumentDb
