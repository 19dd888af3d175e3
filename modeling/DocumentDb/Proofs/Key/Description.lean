/-
  DocumentDb — which key documents describe an index.

  * `KeySpec.build_eq_ok_iff`: an index can be built over just those paths that a specification can
    have, and those are valid and distinct paths (`KeySpec.exists_pairs_iff`).
  * `Document.Describes` says what a key document has to be like, given how the keys that lead to a
    leaf make a path.  **`KeySpec.ofDocument_describes`**: key documents are accepted just if they
    are like that for `Path.ofKeys`, which leaves out empty keys in front, and the fields are the
    paths and directions of the leaves.  For `Path.join`, which leaves out nothing, only those
    without an empty key at the top are like that.
-/
import DocumentDb.Key.Spec
import DocumentDb.Proofs.Key.Leaves
import DocumentDb.Proofs.Lists
import DocumentDb.Proofs.Outcome
import DocumentDb.Proofs.Text.Path

namespace DocumentDb

/-! ## Building -/

/-- The path and the direction of a key field, which are all of it. -/
def KeyField.pair (f : KeyField) : String × Direction := (f.path, f.direction)

theorem KeyField.pair_injective : Function.Injective KeyField.pair := by
  rintro ⟨path, direction, _⟩ ⟨path', direction', _⟩ h
  cases h
  rfl

namespace KeySpec

variable {paths : List (String × Direction)} {options : IndexOptions} {spec : KeySpec}

theorem map_path_eq (fields : List KeyField) :
    fields.map (·.path) = (fields.map KeyField.pair).map (·.1) := by
  rw [List.map_map]
  rfl

theorem isValid_of_mem_pairs {fields : List KeyField} {path : String} {direction : Direction}
    (h : (path, direction) ∈ fields.map KeyField.pair) : Path.isValid path = true := by
  obtain ⟨f, -, hf⟩ := List.mem_map.1 h
  cases hf
  exact f.valid

/-- A field can be added just when there are distinct fields of which it is the last. -/
theorem addField_eq_ok_iff {fields fields' : DistinctFields} {path : String}
    {direction : Direction} :
    addField fields path direction = .ok fields' ↔
      fields'.1.map KeyField.pair = fields.1.map KeyField.pair ++ [(path, direction)] := by
  unfold addField
  split
  · next hlisted =>
    refine iff_of_false nofun fun h => ?_
    have hdistinct := fields'.2
    rw [map_path_eq, h, List.map_append, ← map_path_eq] at hdistinct
    exact List.disjoint_of_nodup_append hdistinct hlisted (List.mem_singleton_self path)
  · split
    · next valid =>
      rw [Except.ok.injEq, eq_comm, Subtype.ext_iff, ← KeyField.pair_injective.list_map.eq_iff,
        List.map_append]
      rfl
    · next hinvalid =>
      refine iff_of_false nofun fun h => hinvalid ?_
      exact isValid_of_mem_pairs (h ▸ List.mem_append_right _ (List.mem_singleton_self _))

theorem addFields_eq_ok_iff :
    ∀ {paths : List (String × Direction)} {fields fields' : DistinctFields},
    addFields fields paths = .ok fields' ↔
      fields'.1.map KeyField.pair = fields.1.map KeyField.pair ++ paths
  | [], fields, fields' => by
    rw [addFields, Except.ok.injEq, eq_comm, Subtype.ext_iff, List.append_nil,
      KeyField.pair_injective.list_map.eq_iff]
  | (path, direction) :: rest, fields, fields' => by
    rw [addFields, bind_eq_ok_iff]
    simp only [addField_eq_ok_iff, @addFields_eq_ok_iff rest]
    constructor
    · rintro ⟨next, hnext, h⟩
      rw [h, hnext, List.append_assoc]
      rfl
    · intro h
      -- the fields that come before the rest
      have htake : (fields'.1.take (fields.1.length + 1)).map KeyField.pair =
          fields.1.map KeyField.pair ++ [(path, direction)] := by
        rw [List.map_take, h, ← List.length_map KeyField.pair, List.take_length_add_append]
        rfl
      refine ⟨⟨fields'.1.take (fields.1.length + 1), ?_⟩, htake, ?_⟩
      · exact fields'.2.sublist ((List.take_sublist ..).map _)
      · rw [h, htake, List.append_assoc]
        rfl

/-- An index can be built over just those paths that a specification can have. -/
theorem build_eq_ok_iff : build paths options = .ok spec ↔
    spec.fields.map KeyField.pair = paths ∧ spec.unique = options.unique ∧
      options.name? ≠ some "" ∧ spec.name = options.name?.getD spec.defaultName := by
  unfold build
  rw [bind_eq_ok_iff]
  simp only [addFields_eq_ok_iff, List.map_nil, List.nil_append]
  constructor
  · rintro ⟨fields, hpaths, h⟩
    split at h
    · cases h
    · split at h
      · next name hname =>
        split at h
        · cases h
        · next hne =>
          cases h
          refine ⟨hpaths, rfl, ?_, by rw [hname]; rfl⟩
          rw [hname]
          rintro he
          cases he
          exact hne rfl
      · next hname =>
        cases h
        exact ⟨hpaths, rfl, by rw [hname]; exact nofun, by rw [hname]; rfl⟩
  · rintro ⟨hpaths, hunique, hempty, hname⟩
    refine ⟨⟨spec.fields, spec.distinct⟩, hpaths, ?_⟩
    rw [dif_neg spec.nonempty]
    obtain ⟨fields, unique, name, _, _⟩ := spec
    replace hname : name = options.name?.getD (labels fields) := hname
    subst hname
    cases hunique
    cases ho : options.name? with
    | none => rfl
    | some name =>
      have hne : ¬ name.isEmpty = true := fun he => hempty (by rw [ho, String.isEmpty_iff.1 he])
      exact if_neg hne

/-- A specification can have any paths that are valid and distinct, if there is one. -/
theorem exists_pairs_iff : (∃ spec : KeySpec, spec.fields.map KeyField.pair = paths) ↔
    paths ≠ [] ∧ (∀ p ∈ paths, Path.isValid p.1 = true) ∧ (paths.map (·.1)).Nodup := by
  constructor
  · rintro ⟨spec, rfl⟩
    refine ⟨List.map_eq_nil_iff.not.2 spec.nonempty, fun p hp => isValid_of_mem_pairs hp, ?_⟩
    rw [← map_path_eq]
    exact spec.distinct
  · rintro ⟨hne, hvalid, hdistinct⟩
    let fields : List KeyField := paths.pmap (fun p h => ⟨p.1, p.2, h⟩) hvalid
    have hpairs : fields.map KeyField.pair = paths := by
      rw [List.map_pmap]
      exact List.pmap_eq_self.2 fun _ _ => rfl
    have hnonempty : fields ≠ [] := fun h => hne (by rw [← hpairs, h, List.map_nil])
    exact ⟨⟨fields, false, "", hnonempty, by rwa [map_path_eq, hpairs]⟩, hpairs⟩

end KeySpec

/-! ## Key documents -/

/-- What a key document has to be like to describe an index, if `path` is how keys make a path. -/
structure Document.Describes (keys : Document) (path : List String → String) : Prop where
  /-- There is an entry. -/
  nonempty : keys.isEmpty = false
  /-- No embedded document is empty. -/
  mappings : ∀ leaf ∈ keys.leaves, leaf.2.kind ≠ .document
  /-- Every other leaf is one or minus one. -/
  directions : ∀ leaf ∈ keys.leaves, leaf.2.kind ≠ .document →
    (leaf.2 == .int 1) = true ∨ (leaf.2 == .int (-1)) = true
  /-- No path of a leaf has an empty segment. -/
  valid : ∀ leaf ∈ keys.leaves, Path.isValid (path leaf.1) = true
  /-- No two leaves have the same path. -/
  distinct : (keys.leaves.map fun leaf => path leaf.1).Nodup

namespace KeySpec

variable {keys : Document} {options : IndexOptions} {spec : KeySpec}

/-- What is read from a key document: the paths and the directions of its leaves, in their order. -/
theorem ofDocument_eq_ok_iff : ofDocument keys options = .ok spec ↔
    List.Forall₂ (fun leaf f => Path.ofKeys leaf.1 = f.path ∧ (leaf.2 == f.direction.number) = true)
      keys.leaves spec.fields ∧
    spec.unique = options.unique ∧ options.name? ≠ some "" ∧
      spec.name = options.name?.getD spec.defaultName := by
  rw [ofDocument, bind_eq_ok_iff]
  simp only [Fields.keyFieldsBelow_eq, mapM_eq_ok_iff, Path.foldl_below_root,
    Value.keyField_eq_ok_iff, build_eq_ok_iff]
  constructor
  · rintro ⟨paths, hread, rfl, hrest⟩
    exact ⟨List.forall₂_map_right_iff.1 hread, hrest⟩
  · rintro ⟨hread, hrest⟩
    exact ⟨_, List.forall₂_map_right_iff.2 hread, rfl, hrest⟩

/-- The key documents that are accepted. -/
theorem exists_ofDocument_iff : (∃ spec, ofDocument keys options = .ok spec) ↔
    keys.Describes Path.ofKeys ∧ options.name? ≠ some "" := by
  constructor
  · rintro ⟨spec, h⟩
    obtain ⟨hread, -, hname, -⟩ := ofDocument_eq_ok_iff.1 h
    have hleaf : ∀ leaf ∈ keys.leaves, ∃ f ∈ spec.fields, Path.ofKeys leaf.1 = f.path ∧
        (leaf.2 == f.direction.number) = true :=
      fun leaf hl => exists_of_mem_right hread.flip hl
    have hdirection : ∀ leaf ∈ keys.leaves, leaf.2.kind ≠ .document ∧
        ((leaf.2 == .int 1) = true ∨ (leaf.2 == .int (-1)) = true) := fun leaf hl =>
      have ⟨f, _, _, hf⟩ := hleaf leaf hl
      Direction.beq_number_iff.1 ⟨f.direction, hf⟩
    refine ⟨⟨?_, fun leaf hl => (hdirection leaf hl).1, fun leaf hl _ => (hdirection leaf hl).2,
      fun leaf hl => ?_, ?_⟩, hname⟩
    · refine Bool.eq_false_iff.2 fun hempty => spec.nonempty ?_
      rw [Fields.leaves_of_isEmpty hempty] at hread
      exact List.forall₂_nil_left_iff.1 hread
    · obtain ⟨f, -, hpath, -⟩ := hleaf leaf hl
      rw [hpath]
      exact f.valid
    · have hpaths : keys.leaves.map (fun leaf => Path.ofKeys leaf.1) = spec.fields.map (·.path) :=
        map_eq_of_forall₂ (hread.imp fun _ _ h => h.1)
      rw [hpaths]
      exact spec.distinct
  · rintro ⟨hd, hname⟩
    have hleaf : ∀ leaf ∈ keys.leaves, ∃ p : String × Direction, Path.ofKeys leaf.1 = p.1 ∧
        (leaf.2 == p.2.number) = true := by
      intro leaf hl
      obtain ⟨direction, h⟩ := Direction.beq_number_iff.2
        ⟨hd.mappings leaf hl, hd.directions leaf hl (hd.mappings leaf hl)⟩
      exact ⟨(_, direction), rfl, h⟩
    obtain ⟨paths, hflip⟩ := exists_forall₂_of_forall hleaf
    have hread := hflip.flip
    have hpaths : keys.leaves.map (fun leaf => Path.ofKeys leaf.1) = paths.map (·.1) :=
      map_eq_of_forall₂ (hread.imp fun _ _ h => h.1)
    have hspec : ∃ spec : KeySpec, spec.fields.map KeyField.pair = paths := by
      refine exists_pairs_iff.2 ⟨?_, fun p hp => ?_, hpaths ▸ hd.distinct⟩
      · rintro rfl
        exact Fields.leaves_ne_nil hd.nonempty (List.forall₂_nil_right_iff.1 hread)
      · obtain ⟨leaf, hl, hpath, -⟩ := exists_of_mem_right hread hp
        exact hpath ▸ hd.valid leaf hl
    obtain ⟨spec, rfl⟩ := hspec
    exact ⟨⟨spec.fields, options.unique, options.name?.getD spec.defaultName, spec.nonempty,
      spec.distinct⟩, ofDocument_eq_ok_iff.2 ⟨List.forall₂_map_right_iff.1 hread, rfl, hname, rfl⟩⟩

end KeySpec

/-! ## Empty keys at the top -/

namespace Document

variable {keys : Document}

theorem Describes.congr {path path' : List String → String} (h : keys.Describes path)
    (hpath : ∀ leaf ∈ keys.leaves, path' leaf.1 = path leaf.1) : keys.Describes path' where
  nonempty := h.nonempty
  mappings := h.mappings
  directions := h.directions
  valid leaf hl := hpath leaf hl ▸ h.valid leaf hl
  distinct := List.map_congr_left hpath ▸ h.distinct

/-- Without an empty key at the top, no key is left out of the path of a leaf. -/
theorem ofKeys_of_mem_leaves (h : keys.field? "" = none) {leaf : List String × Value}
    (hl : leaf ∈ keys.leaves) : Path.ofKeys leaf.1 = Path.join leaf.1 := by
  obtain ⟨key, value, hvalue, below, -, rfl⟩ := Fields.mem_leaves_iff.1 hl
  refine Path.ofKeys_of_ne ?_ below.1
  rintro rfl
  rw [h] at hvalue
  cases hvalue

theorem describes_join_iff :
    keys.Describes Path.join ↔ keys.Describes Path.ofKeys ∧ keys.field? "" = none := by
  constructor
  · intro hd
    have hnone : keys.field? "" = none := by
      refine Option.eq_none_iff_forall_ne_some.2 fun value hvalue => ?_
      obtain ⟨below, hb⟩ := List.exists_mem_of_ne_nil _ (Value.leaves_ne_nil value)
      have hvalid := hd.valid _ (Fields.mem_leaves_iff.2 ⟨"", value, hvalue, below, hb, rfl⟩)
      rw [Path.isValid_join_empty_cons] at hvalid
      cases hvalid
    exact ⟨hd.congr fun leaf hl => ofKeys_of_mem_leaves hnone hl, hnone⟩
  · rintro ⟨hd, hnone⟩
    exact hd.congr fun leaf hl => (ofKeys_of_mem_leaves hnone hl).symm

end Document

/-- **A key document is accepted just if it describes an index, where empty keys in front of others
    leave no trace in a path, and the name given is not empty.  The fields are then the paths and
    the directions of its leaves, in their order.  Just where no key at the top is empty, all keys
    of a path are in it.** -/
theorem KeySpec.ofDocument_describes (keys : Document) (options : IndexOptions) :
    ((∃ spec, ofDocument keys options = .ok spec) ↔
      keys.Describes Path.ofKeys ∧ options.name? ≠ some "") ∧
    (∀ spec, ofDocument keys options = .ok spec →
      List.Forall₂ (fun leaf f => Path.ofKeys leaf.1 = f.path ∧
        (leaf.2 == f.direction.number) = true) keys.leaves spec.fields ∧
      spec.unique = options.unique ∧ spec.name = options.name?.getD spec.defaultName) ∧
    (keys.Describes Path.join ↔ keys.Describes Path.ofKeys ∧ keys.field? "" = none) ∧
    (keys.field? "" = none → ∀ leaf ∈ keys.leaves, Path.ofKeys leaf.1 = Path.join leaf.1) := by
  refine ⟨exists_ofDocument_iff, fun spec h => ?_, Document.describes_join_iff,
    fun hnone leaf hl => Document.ofKeys_of_mem_leaves hnone hl⟩
  obtain ⟨hread, hunique, -, hname⟩ := ofDocument_eq_ok_iff.1 h
  exact ⟨hread, hunique, hname⟩

/-- Fields come in the order of the keys, and a float may stand for a direction. -/
example :
    let keys : Document :=
      .ofList [("orgId", .int 1),
        ("arr", .document (Document.ofList [("val", .float (.ofInt (-1)))]))]
    (KeySpec.ofDocument keys {}).toOption.map (·.name) = some "arr.val:-1|orgId:1" := by
  decide +kernel

/-- A key document whose only path starts with an empty key. -/
def KeySpec.emptyAtTop : Document :=
  .ofList [("", .document (Document.ofList [("a", .int 1)]))]

/-- It is accepted as if the empty key were not there. -/
theorem KeySpec.emptyAtTop_accepted : ¬ ∀ (keys : Document) (options : IndexOptions),
    ((∃ spec, ofDocument keys options = .ok spec) ↔
      keys.Describes Path.join ∧ options.name? ≠ some "") ∧
    ∀ spec, ofDocument keys options = .ok spec →
      List.Forall₂ (fun leaf f => Path.join leaf.1 = f.path ∧ (leaf.2 == f.direction.number) = true)
        keys.leaves spec.fields := by
  intro h
  have haccepted : (ofDocument emptyAtTop {}).toOption.map (·.paths) = some ["a"] := by
    decide +kernel
  obtain ⟨spec, hspec, -⟩ := exists_of_toOption_map haccepted
  have hd := ((h emptyAtTop {}).1.1 ⟨spec, hspec⟩).1
  have hnone := (Document.describes_join_iff.1 hd).2
  exact absurd hnone (by decide)

end DocumentDb
