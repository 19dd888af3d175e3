/-
  DocumentDb — a value is made up of its leaves.

  * The leaves of a value are the leaves that paths through embedded documents lead to
    (`Value.mem_leaves_iff`), and the keys to a leaf lead to no other one (`Value.leaves_nodup`).
  * **`Value.writeAll_leaves`**: written in any order into an empty place, the leaves of a
    value make the value.  The writes through one key are the leaves of the value under it
    (`Fields.writesUnder_leaves`), so the induction is on the embedded documents, whatever
    the order.
-/
import DocumentDb.Proofs.Document.Frame
import DocumentDb.Proofs.Document.Writes
import DocumentDb.Proofs.Key.Leaves

namespace DocumentDb

/-! ## The leaves of a value -/

/-- Whether a value is a leaf: all are but the documents with entries. -/
def Value.isLeaf : Value → Bool
  | .document d => d.isEmpty
  | _ => true

namespace Value

/-- What holds of every leaf, and of a document with entries if it does of the values under its
    keys, holds of all values. -/
@[elab_as_elim] theorem ind_leaves {motive : Value → Prop}
    (leaf : ∀ value, value.isLeaf = true → motive value)
    (node : ∀ d : Document, d.isEmpty = false →
      (∀ key value, d.field? key = some value → motive value) →
      motive (.document d)) (value : Value) : motive value := by
  induction value using ind_fields with
  | leaf value hvalue =>
    refine leaf value ?_
    cases value with
    | document d => exact absurd rfl (hvalue d)
    | _ => rfl
  | document d ih =>
    cases hd : d.isEmpty with
    | true => exact leaf (.document d) hd
    | false => exact node d hd ih

theorem leaves_of_isLeaf {value : Value} (h : value.isLeaf = true) :
    value.leaves = [([], value)] := by
  cases value with
  | document d => exact if_pos h
  | _ => rfl

theorem leaves_document {d : Document} (h : d.isEmpty = false) : (document d).leaves = d.leaves :=
  if_neg (Bool.eq_false_iff.1 h)

/-- No path leads on from a leaf. -/
theorem descend_of_isLeaf {value : Value} (h : value.isLeaf = true) (key : String)
    (path : List String) : value.descend (key :: path) = none := by
  cases value with
  | document d => rw [descend_document, Document.field?_of_isEmpty h, Option.bind_none]
  | _ => rfl

/-- **The leaves of a value are the leaves that paths through embedded documents lead to.** -/
theorem mem_leaves_iff (value : Value) : ∀ {path : List String} {leaf : Value},
    (path, leaf) ∈ value.leaves ↔ value.descend path = some leaf ∧ leaf.isLeaf = true := by
  induction value using ind_leaves with
  | leaf value hvalue =>
    intro path leaf
    rw [leaves_of_isLeaf hvalue, List.mem_singleton, Prod.mk.injEq]
    cases path with
    | nil =>
      rw [descend, Option.some.injEq]
      constructor
      · rintro ⟨-, rfl⟩
        exact ⟨rfl, hvalue⟩
      · rintro ⟨rfl, -⟩
        exact ⟨rfl, rfl⟩
    | cons key path => simp [descend_of_isLeaf hvalue]
  | node d hd ih =>
    intro path leaf
    rw [leaves_document hd, Fields.mem_leaves_iff]
    cases path with
    | nil =>
      rw [descend, Option.some.injEq]
      refine iff_of_false ?_ ?_
      · rintro ⟨key, value, -, below, -, heq⟩
        cases heq
      · rintro ⟨rfl, hleaf⟩
        rw [isLeaf, hd] at hleaf
        cases hleaf
    | cons key path =>
      rw [descend_document]
      constructor
      · rintro ⟨key, value, hvalue, below, hbelow, heq⟩
        cases heq
        rw [hvalue]
        exact (ih key value hvalue).1 hbelow
      · rintro ⟨hdescend, hleaf⟩
        obtain ⟨value, hvalue, hdescend⟩ := Option.bind_eq_some_iff.1 hdescend
        exact ⟨key, value, hvalue, (path, leaf), (ih key value hvalue).2 ⟨hdescend, hleaf⟩, rfl⟩

end Value

mutual
theorem Value.leaves_nodup : ∀ value : Value, (value.leaves.map (·.1)).Nodup
  | .document d => by
    rw [Value.leaves]
    split
    · exact List.nodup_singleton _
    · exact Fields.leaves_nodup d
  | .null | .bool _ | .number _ | .text _ | .array _ => List.nodup_singleton _
/-- The keys to a leaf lead to no other leaf. -/
theorem Fields.leaves_nodup :
    ∀ {bound : Option String} (d : Fields bound), (d.leaves.map (·.1)).Nodup
  | _, .nil => List.nodup_nil
  | _, .cons key _ value rest => by
    rw [Fields.leaves, List.map_append, List.map_map]
    have hfirst : (value.leaves.map fun leaf => key :: leaf.1).Nodup := by
      have hbelow := (Value.leaves_nodup value).map (List.cons_injective (a := key))
      rwa [List.map_map] at hbelow
    refine List.nodup_append'.2 ⟨hfirst, Fields.leaves_nodup rest, ?_⟩
    intro path hpath hrest
    obtain ⟨below, -, rfl⟩ := List.mem_map.1 hpath
    obtain ⟨leaf, hleaf, heq⟩ := List.mem_map.1 hrest
    obtain ⟨later, value', hvalue', below', -, rfl⟩ := Fields.mem_leaves_iff.1 hleaf
    have hkey : later = key := (List.cons.inj heq).1
    rw [hkey, rest.field?_self] at hvalue'
    cases hvalue'
end

/-! ## Writing the leaves -/

theorem Fields.writesUnder_leaves (key : String) : ∀ {bound : Option String} (d : Fields bound),
    writesUnder key d.leaves = (d.field? key).elim [] (·.leaves)
  | _, .nil => rfl
  | _, .cons first _ value rest => by
    have hcons : (Fields.cons first ‹_› value rest).leaves = writesBelow first value.leaves ++
        rest.leaves := by
      rw [Fields.leaves, writesBelow]
    rw [hcons, writesUnder_append, writesUnder_writesBelow, Fields.writesUnder_leaves key rest,
      field?]
    split
    · next he =>
      subst he
      rw [rest.field?_self]
      exact List.append_nil _
    · rfl

theorem Fields.ne_nil_of_mem_leaves {bound : Option String} {d : Fields bound}
    {leaf : List String × Value} (h : leaf ∈ d.leaves) : leaf.1 ≠ [] := by
  obtain ⟨key, value, -, below, -, rfl⟩ := Fields.mem_leaves_iff.1 h
  exact List.cons_ne_nil key below.1

/-- Where the leaves of each value under a key make up the value, those of the document make
    up the document. -/
theorem Document.writeAll_leaves_of_fields {d : Document} {writes : Writes}
    (hp : writes.Perm d.leaves)
    (h : ∀ key value, d.field? key = some value → ∀ writes' : Writes, writes'.Perm value.leaves →
      Value.writeAll none writes' = some value) : Document.empty.writeAll writes = d := by
  -- under each key the writes are the leaves of one value, in some order
  refine Fields.ext _ _ fun key => ?_
  have hunder : (writesUnder key writes).Perm ((d.field? key).elim [] (·.leaves)) := by
    rw [← Fields.writesUnder_leaves]
    exact hp.filterMap _
  rw [Document.field?_writeAll, Document.field?_empty]
  cases hvalue : d.field? key with
  | none =>
    rw [hvalue] at hunder
    rw [hunder.eq_nil]
    rfl
  | some value =>
    rw [hvalue] at hunder
    exact h key value hvalue _ hunder

/-- Writes further down make a document where there was nothing. -/
theorem Value.writeAll_none {writes : Writes} (hne : writes ≠ []) (h : ∀ w ∈ writes, w.1 ≠ []) :
    writeAll none writes = some (document (Document.empty.writeAll writes)) := by
  obtain ⟨⟨path, value⟩, rest, rfl⟩ := List.exists_cons_of_ne_nil hne
  obtain ⟨hfirst, hrest⟩ := List.forall_mem_cons.1 h
  obtain ⟨key, path, rfl⟩ := List.exists_cons_of_ne_nil hfirst
  exact writeAll_document (Document.empty.write (key :: path) value) hrest

/-- **Written in any order into an empty place, the leaves of a value make the value.** -/
theorem Value.writeAll_leaves (value : Value) : ∀ {writes : Writes}, writes.Perm value.leaves →
    writeAll none writes = some value := by
  induction value using ind_leaves with
  | leaf value hvalue =>
    intro writes hp
    rw [leaves_of_isLeaf hvalue, List.perm_singleton] at hp
    rw [hp]
    rfl
  | node d hd ih =>
    intro writes hp
    rw [leaves_document hd] at hp
    have hne : writes ≠ [] := by
      rintro rfl
      exact Fields.leaves_ne_nil hd hp.nil_eq.symm
    rw [writeAll_none hne fun w hw => Fields.ne_nil_of_mem_leaves (hp.mem_iff.1 hw),
      Document.writeAll_leaves_of_fields hp fun key value hvalue writes' => ih key value hvalue]

theorem Document.writeAll_leaves {d : Document} {writes : Writes} (hp : writes.Perm d.leaves) :
    Document.empty.writeAll writes = d :=
  writeAll_leaves_of_fields hp fun _ value _ _ => value.writeAll_leaves

end DocumentDb
