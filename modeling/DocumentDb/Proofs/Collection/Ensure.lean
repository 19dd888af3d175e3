/-
  DocumentDb — asking for an index.

  * An index is built over documents just when, if it is unique, no two of them have a key in common
    (`Index.exists_buildIndex_iff`), and then has for each id exactly the keys of its document
    (`Index.keysOf_recordEach`).  Neither depends on the order in which the documents are taken.
  * `ensureSpec_cases` is all that asking for an index can do.
  * **`ensureSpec_registers`**: it succeeds where an index of the name and definition is there, or
    the name is free and the documents fit.  Only in the second case anything changes: one index is
    registered last.
-/
import DocumentDb.Proofs.Collection.Uniqueness
import DocumentDb.Proofs.Index.Rekeyed

namespace DocumentDb

/-! ## Names -/

namespace Registry

variable {r : Registry} {i : Index} {name : String}

theorem get?_eq_none_iff : r.get? name = none ↔ name ∉ r.names := by
  unfold get? names
  rw [List.find?_eq_none, List.mem_map]
  simp [not_exists]

theorem get?_eq_some_iff : r.get? name = some i ↔ i ∈ r.indexes ∧ i.name = name := by
  constructor
  · intro h
    exact ⟨List.mem_of_find?_eq_some h, by simpa using List.find?_some h⟩
  · rintro ⟨hi, rfl⟩
    cases hg : r.get? i.name with
    | none => exact absurd (List.mem_map_of_mem hi) (get?_eq_none_iff.1 hg)
    | some j =>
      have hj := List.mem_of_find?_eq_some hg
      have hname : j.name = i.name := by simpa using List.find?_some hg
      exact congrArg some (List.inj_on_of_nodup_map r.distinct hj hi hname)

theorem indexes_register (h : i.name ∉ r.names) : (r.register i).indexes = r.indexes ++ [i] := by
  unfold register
  exact congrArg Registry.indexes (dif_neg h)

end Registry

section

variable [Collator] [Std.TransCmp Collator.weigh]

/-! ## Building an index -/

omit [Std.TransCmp Collator.weigh] in
theorem KeySpec.exclusive_perm {spec : KeySpec} {stored stored' : List (String × Cell)}
    (distinct : (stored.map (·.1)).Nodup) (hp : stored'.Perm stored) :
    spec.Exclusive stored' ↔ spec.Exclusive stored := by
  have hdue : ∀ id, spec.due stored' id = spec.due stored id := fun id =>
    due_congr (lookup_eq_of_perm distinct hp id)
  unfold KeySpec.Exclusive
  simp only [hdue]

omit [Std.TransCmp Collator.weigh] in
/-- What is due for an id stays due when other documents follow. -/
theorem KeySpec.contains_due_append {spec : KeySpec} {stored : List (String × Cell)} {id : String}
    {key : CompositeKey} (h : (spec.due stored id).contains key = true)
    (more : List (String × Cell)) : (spec.due (stored ++ more) id).contains key = true := by
  cases hl : stored.lookup id with
  | none =>
    rw [due_of_not_stored hl] at h
    cases h
  | some cell =>
    rw [due_of_lookup hl] at h
    rwa [due_of_lookup (List.lookup_append.trans (by rw [hl]; rfl))]

namespace Index

open Collection (buildIndex recordEach)

/-- An index is built if, should it be unique, no two documents have a key in common. -/
theorem exists_buildIndex : ∀ {documents done : List (String × Cell)} {i : Index},
    i.InStep done → ((done ++ documents).map (·.1)).Nodup →
    (i.spec.unique = true → i.spec.Exclusive (done ++ documents)) →
    ∃ j, buildIndex i documents = .ok j
  | [], done, i, _, _, _ => ⟨i, rfl⟩
  | (id, cell) :: rest, done, i, hi, hd, he => by
    have hfresh := lookup_of_nodup_append hd
    have hl := lookup_append_fresh hfresh cell
    have hnext := hi.record hfresh ((hl id).trans (if_pos rfl)) fun id' hid =>
      ((hl id').trans (if_neg hid)).symm
    -- whoever has a key of the document already has it among all documents as well
    have hvalid : i.validate id (i.spec.entries cell.document) = .ok () := by
      refine validate_eq_ok_iff.2 fun hu key hkey owner howner => ?_
      have hown := KeySpec.contains_due_append (hi.mem_bucket_iff.1 howner) ((id, cell) :: rest)
      have hlookup := (mem_iff_lookup hd).1 (List.mem_append_right done List.mem_cons_self)
      refine he hu owner id key hown ?_
      rw [KeySpec.due_of_lookup hlookup]
      exact contains_iff.2 ⟨key, hkey, BEq.rfl⟩
    rw [buildIndex, insert, hvalid]
    rw [List.append_cons] at hd he
    refine exists_buildIndex hnext hd ?_
    rwa [spec_record]

/-- **An index is built over documents just when, if it is unique, no two of them have a key
    in common.** -/
theorem exists_buildIndex_iff {documents : List (String × Cell)}
    (distinct : (documents.map (·.1)).Nodup) (serial : Nat) (spec : KeySpec) :
    (∃ i, buildIndex (.new serial spec) documents = .ok i) ↔
      (spec.unique = true → spec.Exclusive documents) := by
  have hnew : (Index.new serial spec).InStep [] := inStep_clear (.new serial spec)
  constructor
  · rintro ⟨i, hi⟩ hu
    exact exclusive_buildIndex hi hnew distinct hu .nil
  · exact exists_buildIndex hnew distinct

/-- Filling an index that has exactly the keys that are due gives one that has exactly those
    due then. -/
theorem keysOf_recordEach : ∀ {documents done : List (String × Cell)} {i : Index},
    (∀ id, i.keysOf id = i.spec.due done id) → ((done ++ documents).map (·.1)).Nodup →
    ∀ id, (recordEach i documents).keysOf id = i.spec.due (done ++ documents) id
  | [], done, i, h, _, id => by
    rw [List.append_nil]
    exact h id
  | (own, cell) :: rest, done, i, h, hd, id => by
    have hfresh := lookup_of_nodup_append hd
    have hl := lookup_append_fresh hfresh cell
    let next := i.record own (i.spec.entries cell.document)
    have hspec : next.spec = i.spec := spec_record ..
    have hnext : ∀ id, next.keysOf id = next.spec.due (done ++ [(own, cell)]) id := by
      intro id
      rw [keysOf_record, hspec]
      split
      · next he =>
        rw [he, h own, KeySpec.due_of_not_stored hfresh,
          KeySpec.due_of_lookup ((hl own).trans (if_pos rfl))]
        exact addKeys_of_pairwise (i.spec.entries_pairwise cell.document)
      · next he =>
        rw [h id]
        exact KeySpec.due_congr ((hl id).trans (if_neg he)).symm
    have hall := keysOf_recordEach hnext (List.append_cons .. ▸ hd) id
    rw [hspec] at hall
    rwa [recordEach, List.append_cons]

/-- An index that is built has exactly the keys of the documents, and those of the right ones. -/
theorem keysOf_buildIndex {documents : List (String × Cell)}
    (distinct : (documents.map (·.1)).Nodup) {serial : Nat} {spec : KeySpec} {i : Index}
    (h : buildIndex (.new serial spec) documents = .ok i) :
    i.spec = spec ∧ i.InStep documents ∧ ∀ id, i.keysOf id = spec.due documents id := by
  have hnew : ∀ id, (Index.new serial spec).keysOf id = spec.due [] id := fun _ => rfl
  rw [buildIndex_eq_recordEach h]
  exact ⟨Collection.spec_recordEach ..,
    inStep_recordEach (inStep_clear (.new serial spec)) distinct, keysOf_recordEach hnew distinct⟩

end Index

namespace Collection

variable {c : Collection} {spec : KeySpec}

/-! ## Asking for an index -/

/-- An index of the name and the definition is registered. -/
def HasIndex (c : Collection) (spec : KeySpec) : Prop :=
  ∃ i ∈ c.registry.indexes, i.name = spec.name ∧ i.spec.sameDefinition spec = true

omit [Std.TransCmp Collator.weigh] in
/-- The index is there, or one of its name is defined otherwise; or the name is free, and the index
    is built and registered, or cannot be built. -/
theorem ensureSpec_cases (c : Collection) (spec : KeySpec) :
    (∃ i ∈ c.registry.indexes, i.name = spec.name ∧ i.spec.sameDefinition spec = true ∧
      c.ensureSpec spec = (c, ⟨spec.name, none⟩)) ∨
    (∃ i ∈ c.registry.indexes, i.name = spec.name ∧ i.spec.sameDefinition spec = false ∧
      c.ensureSpec spec = (c, ⟨spec.name, some (.indexDefinedOtherwise spec.name)⟩)) ∨
    (spec.name ∉ c.registry.names ∧ ∃ i, buildIndex (.new c.nextSerial spec) c.stored = .ok i ∧
      c.ensureSpec spec =
        ({ c with registry := c.registry.register i, nextSerial := c.nextSerial + 1 },
        ⟨spec.name, none⟩)) ∨
    (spec.name ∉ c.registry.names ∧ ∃ fault,
      buildIndex (.new c.nextSerial spec) c.stored = .error fault ∧
      c.ensureSpec spec = (c, ⟨spec.name, some (.buildFailed spec.name fault)⟩)) := by
  unfold ensureSpec index?
  split
  · next existing hexisting =>
    obtain ⟨hi, hname⟩ := Registry.get?_eq_some_iff.1 hexisting
    cases hsame : existing.spec.sameDefinition spec with
    | true => exact Or.inl ⟨existing, hi, hname, hsame, rfl⟩
    | false => exact Or.inr (Or.inl ⟨existing, hi, hname, hsame, rfl⟩)
  · next hnone =>
    have hfree := Registry.get?_eq_none_iff.1 hnone
    cases hbuilt : buildIndex (.new c.nextSerial spec) c.stored with
    | ok i => exact Or.inr (Or.inr (Or.inl ⟨hfree, i, rfl, rfl⟩))
    | error fault => exact Or.inr (Or.inr (Or.inr ⟨hfree, fault, rfl, rfl⟩))

omit [Collator] [Std.TransCmp Collator.weigh] in
theorem HasIndex.name_mem (h : c.HasIndex spec) : spec.name ∈ c.registry.names := by
  obtain ⟨i, hi, hname, -⟩ := h
  exact List.mem_map.2 ⟨i, hi, hname⟩

/-- **Asking for an index succeeds if it is there, or if its name is free and, should it be unique,
    no two stored documents have a key in common.** -/
theorem isOk_ensureSpec_iff (distinct : (c.stored.map (·.1)).Nodup) (spec : KeySpec) :
    (c.ensureSpec spec).2.isOk = true ↔ c.HasIndex spec ∨
      spec.name ∉ c.registry.names ∧ (spec.unique = true → spec.Exclusive c.stored) := by
  have hbuild := Index.exists_buildIndex_iff distinct c.nextSerial spec
  rcases c.ensureSpec_cases spec with ⟨i, hi, hname, hsame, he⟩ | ⟨i, hi, hname, hother, he⟩ |
    ⟨hfree, i, hbuilt, he⟩ | ⟨hfree, fault, hbuilt, he⟩
  · rw [he]
    exact iff_of_true rfl (Or.inl ⟨i, hi, hname, hsame⟩)
  · rw [he]
    refine iff_of_false Bool.false_ne_true ?_
    rintro (⟨j, hj, hname', hsame⟩ | ⟨hfree, -⟩)
    · rw [List.inj_on_of_nodup_map c.registry.distinct hj hi (hname'.trans hname.symm),
        hother] at hsame
      cases hsame
    · exact hfree (List.mem_map.2 ⟨i, hi, hname⟩)
  · rw [he]
    exact iff_of_true rfl (Or.inr ⟨hfree, hbuild.1 ⟨i, hbuilt⟩⟩)
  · rw [he]
    refine iff_of_false Bool.false_ne_true ?_
    rintro (hindex | ⟨-, hfits⟩)
    · exact hfree hindex.name_mem
    · obtain ⟨i, hi⟩ := hbuild.2 hfits
      cases hi.symm.trans hbuilt

/-- The verdict does not depend on the order of the stored documents. -/
theorem isOk_ensureSpec_perm (distinct : (c.stored.map (·.1)).Nodup) (spec : KeySpec)
    {stored' : List (String × Cell)} (hp : stored'.Perm c.stored) :
    ({ c with stored := stored' }.ensureSpec spec).2.isOk = (c.ensureSpec spec).2.isOk := by
  have distinct' : (stored'.map (·.1)).Nodup := (hp.map _).nodup_iff.2 distinct
  rw [Bool.eq_iff_iff, isOk_ensureSpec_iff distinct spec,
    isOk_ensureSpec_iff (c := { c with stored := stored' }) distinct' spec]
  exact or_congr Iff.rfl (and_congr_right fun _ => imp_congr_right fun _ =>
    KeySpec.exclusive_perm distinct hp)

omit [Std.TransCmp Collator.weigh] in
/-- What does not bring in a new index changes nothing. -/
theorem ensureSpec_unchanged (h : (c.ensureSpec spec).2.isOk = false ∨ c.HasIndex spec) :
    (c.ensureSpec spec).1 = c := by
  rcases c.ensureSpec_cases spec with ⟨i, hi, hname, hsame, he⟩ | ⟨i, hi, hname, hother, he⟩ |
    ⟨hfree, i, hbuilt, he⟩ | ⟨hfree, fault, hbuilt, he⟩
  · rw [he]
  · rw [he]
  · rw [he] at h
    rcases h with h | h
    · cases h
    · exact absurd h.name_mem hfree
  · rw [he]

/-- A new index is registered last, over the stored documents. -/
theorem ensureSpec_new (distinct : (c.stored.map (·.1)).Nodup)
    (hok : (c.ensureSpec spec).2.isOk = true) (hnew : ¬ c.HasIndex spec) :
    ∃ i, (c.ensureSpec spec).1 =
        { c with registry := c.registry.register i, nextSerial := c.nextSerial + 1 } ∧
      (c.registry.register i).indexes = c.registry.indexes ++ [i] ∧ i.spec = spec ∧
      i.InStep c.stored ∧ ∀ id, i.keysOf id = spec.due c.stored id := by
  rcases c.ensureSpec_cases spec with ⟨i, hi, hname, hsame, he⟩ | ⟨i, hi, hname, hother, he⟩ |
    ⟨hfree, i, hbuilt, he⟩ | ⟨hfree, fault, hbuilt, he⟩
  · exact absurd ⟨i, hi, hname, hsame⟩ hnew
  · rw [he] at hok
    cases hok
  · obtain ⟨hspec, hinstep, hkeys⟩ := Index.keysOf_buildIndex distinct hbuilt
    have hname : i.name ∉ c.registry.names := by
      rw [Index.name, hspec]
      exact hfree
    rw [he]
    exact ⟨i, rfl, Registry.indexes_register hname, hspec, hinstep, hkeys⟩
  · rw [he] at hok
    cases hok

/-- **Asking for an index succeeds just when an index of its name and definition is registered, or
    the name is free and, should the index be unique, no two stored documents have a key in
    common.**  A failure changes nothing, and neither does asking for an index that is there;
    otherwise one index is registered last, and has exactly the keys of the stored documents.  The
    order of the documents does not matter to the verdict. -/
theorem ensureSpec_registers {allowed : Step → Prop} (h : c.Reachable allowed) (spec : KeySpec) :
    ((c.ensureSpec spec).2.isOk = true ↔ c.HasIndex spec ∨
      spec.name ∉ c.registry.names ∧ (spec.unique = true → spec.Exclusive c.stored)) ∧
    ((c.ensureSpec spec).2.isOk = false ∨ c.HasIndex spec → (c.ensureSpec spec).1 = c) ∧
    ((c.ensureSpec spec).2.isOk = true → ¬ c.HasIndex spec → ∃ i, (c.ensureSpec spec).1 =
        { c with registry := c.registry.register i, nextSerial := c.nextSerial + 1 } ∧
      (c.registry.register i).indexes = c.registry.indexes ++ [i] ∧ i.spec = spec ∧
      i.InStep c.stored ∧ ∀ id, i.keysOf id = spec.due c.stored id) ∧
    ∀ stored', stored'.Perm c.stored →
      ({ c with stored := stored' }.ensureSpec spec).2.isOk = (c.ensureSpec spec).2.isOk :=
  ⟨isOk_ensureSpec_iff h.distinct spec, ensureSpec_unchanged, ensureSpec_new h.distinct,
    fun _ hp => isOk_ensureSpec_perm h.distinct spec hp⟩

end Collection

end

namespace Collection

/-- A unique index of the ids. -/
def identities : KeySpec :=
  ⟨[⟨"_id", .descending, by decide⟩], true, "identities", List.cons_ne_nil _ _,
    List.nodup_singleton _⟩

theorem labelled_ensureSpec_registers :
    (labelled.ensureSpec identities).2.isOk = true ∧ ¬ labelled.HasIndex identities ∧
      ∃ i, (labelled.ensureSpec identities).1.registry.indexes = labelled.registry.indexes ++ [i] ∧
        i.spec = identities ∧ i.InStep labelled.stored ∧
        ∀ id, i.keysOf id = identities.due labelled.stored id := by
  have hok : (labelled.ensureSpec identities).2.isOk = true := by decide +kernel
  have hnew : ¬ labelled.HasIndex identities := by
    unfold HasIndex
    decide
  obtain ⟨-, -, hregisters, -⟩ := ensureSpec_registers labelled_reachable identities
  obtain ⟨i, hafter, hindexes, hspec, hinstep, hkeys⟩ := hregisters hok hnew
  rw [hafter]
  exact ⟨hok, hnew, i, hindexes, hspec, hinstep, hkeys⟩

end Collection

end DocumentDb
