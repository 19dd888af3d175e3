/-
  DocumentDb — rebuilding an index.

  * Two indexes of one definition that are in step with the same documents are alike, however they
    came to be so (`Index.InStep.alike`).
  * `Collection.rebuildIndex_eq`: rebuilding fills one index anew, whatever it held, and
    leaves all the others.
  * **`rebuildIndex_repairs`**: it then has exactly the keys of the documents as they are now.
    Where nothing was changed through live handles, it had them before.
-/
import DocumentDb.Proofs.Collection.Ensure
import DocumentDb.Proofs.Index.Alike

namespace DocumentDb

/-! ## One index among others -/

namespace Registry

variable {r : Registry} {name name' : String} {f : Index → Index}
    (keepsName : ∀ i, (f i).name = i.name)

theorem names_modify : (r.modify name f keepsName).names = r.names := by
  refine (List.map_map ..).trans (List.map_congr_left fun i _ => ?_)
  by_cases hi : i.name = name <;> simp [hi, keepsName]

theorem get?_modify_self {i : Index} (hi : i ∈ r.indexes) :
    (r.modify i.name f keepsName).get? i.name = some (f i) := by
  refine get?_eq_some_iff.2 ⟨List.mem_map.2 ⟨i, hi, if_pos rfl⟩, keepsName i⟩

theorem get?_modify_ne (hne : name' ≠ name) :
    (r.modify name f keepsName).get? name' = r.get? name' := by
  refine Option.ext fun j => ?_
  rw [get?_eq_some_iff, get?_eq_some_iff]
  refine and_congr_left fun hj => ?_
  constructor
  · intro hm
    obtain ⟨i, hi, rfl⟩ := List.mem_map.1 hm
    split at hj
    · next he => exact absurd (hj.symm.trans ((keepsName i).trans he)) hne
    · next hi' => rwa [if_neg hi']
  · intro hm
    exact List.mem_map.2 ⟨j, hm, if_neg (hj ▸ hne)⟩

end Registry

section

variable [Collator]

/-- **Two indexes of one definition that are in step with the same documents are alike.** -/
theorem Index.InStep.alike [Std.TransCmp Collator.weigh] {i j : Index}
    {stored : List (String × Cell)} (h : i.InStep stored) (h' : j.InStep stored)
    (distinct : (stored.map (·.1)).Nodup) (hserial : i.serial = j.serial)
    (hspec : i.spec = j.spec) : i.Alike j where
  serial := hserial
  spec := hspec
  buckets := by
    refine Ordered.forall₂ (hspec ▸ h.consistent.ordered) h'.consistent.ordered fun key id => ?_
    rw [h.consistent.holds_iff, h'.consistent.holds_iff, h.records, h'.records, hspec]
  recorded id key := by
    rw [Bool.eq_iff_iff, h.records, h'.records, hspec]
  size := by
    rw [h.size_eq distinct, h'.size_eq distinct, hspec]

namespace Collection

variable {c : Collection} {i : Index}

/-! ## Rebuilding -/

theorem serial_recordEach (documents : List (String × Cell)) (i : Index) :
    (recordEach i documents).serial = i.serial := by
  induction documents generalizing i with
  | nil => rfl
  | cons entry rest ih => rw [recordEach, ih, Index.serial_record]

/-- Rebuilding an index fills it anew and changes nothing else. -/
theorem rebuildIndex_eq (hi : i ∈ c.registry.indexes) :
    ∃ c', c.rebuildIndex i.name = .ok c' ∧ c' = { c with registry := c'.registry } ∧
      c'.registry.names = c.registry.names ∧
      (∀ name, name ≠ i.name → c'.index? name = c.index? name) ∧
      c'.index? i.name = some (recordEach (.new i.serial i.spec) c.stored) := by
  have hname : c.registry.contains i.name = true := by
    unfold Registry.contains
    rw [Registry.get?_eq_some_iff.2 ⟨hi, rfl⟩]
    rfl
  have keeps : ∀ j : Index, (recordEach j.clear c.stored).name = j.name := by
    simp [Index.name, Index.clear]
  exact ⟨_, if_pos hname, rfl, Registry.names_modify keeps,
    fun name hne => Registry.get?_modify_ne keeps hne, Registry.get?_modify_self keeps hi⟩

variable [Std.TransCmp Collator.weigh]

/-- **Rebuilding an index always succeeds and touches no document and no other index.  The index
    then is the one that is filled afresh with the stored documents: it has for each id exactly the
    keys of its document as it is now, in both of its maps, whatever it held before.  Where the
    history has operations only, it is alike to the index before.** -/
theorem rebuildIndex_repairs {allowed : Step → Prop} (h : c.Reachable allowed)
    (hi : i ∈ c.registry.indexes) :
    ∃ c' j, c.rebuildIndex i.name = .ok c' ∧ c' = { c with registry := c'.registry } ∧
      c'.registry.names = c.registry.names ∧
      (∀ name, name ≠ i.name → c'.index? name = c.index? name) ∧
      c'.index? i.name = some j ∧ j = recordEach (.new i.serial i.spec) c.stored ∧ j.spec = i.spec ∧
      (∀ id, j.keysOf id = i.spec.due c.stored id) ∧
      (∀ key id, id ∈ j.bucket key ↔ (i.spec.due c.stored id).contains key = true) ∧
      j.InStep c'.stored ∧ (c.Reachable Step.IsOperation → i.Alike j) := by
  obtain ⟨c', hc', hframe, hnames, hothers, hj⟩ := rebuildIndex_eq hi
  have hstored : c'.stored = c.stored := by rw [hframe]
  have hspec : (recordEach (.new i.serial i.spec) c.stored).spec = i.spec := spec_recordEach ..
  have hempty : (Index.new i.serial i.spec).InStep [] := Index.inStep_clear (.new i.serial i.spec)
  have hstep : (recordEach (.new i.serial i.spec) c.stored).InStep c.stored :=
    Index.inStep_recordEach hempty h.distinct
  have hnew : ∀ id, (Index.new i.serial i.spec).keysOf id =
      (Index.new i.serial i.spec).spec.due [] id :=
    fun _ => rfl
  have hkeys : ∀ id, (recordEach (.new i.serial i.spec) c.stored).keysOf id =
      i.spec.due c.stored id :=
    Index.keysOf_recordEach hnew h.distinct
  refine ⟨c', _, hc', hframe, hnames, hothers, hj, rfl, hspec, hkeys, fun key id => ?_, ?_,
    fun hr => ?_⟩
  · rw [hstep.mem_bucket_iff, hspec]
  · rw [hstored]
    exact hstep
  · refine (hr.inStep.indexes i hi).alike hstep h.distinct ?_ hspec.symm
    rw [serial_recordEach]
    rfl

end Collection

end

/-- The labelled documents after the first has another label through a live handle. -/
def Collection.relabelled : Collection :=
  labelled.step (.amend 1 (.ofList [("_id", .text "1"), ("label", .text "b")]))

/-- The index still has the first label before it is rebuilt and the second one after.  Where
    nothing was changed through a live handle, it stays as it is. -/
theorem Collection.relabelled_rebuild :
    let key (label : String) : CompositeKey := ⟨[⟨.text label, .ascending⟩]⟩
    (∃ i ∈ relabelled.registry.indexes, i.keysOf "1" = [key "a"] ∧
      ∃ c' j, relabelled.rebuildIndex i.name = .ok c' ∧ c'.stored = relabelled.stored ∧
        c'.index? i.name = some j ∧ j.keysOf "1" = [key "b"]) ∧
    ∃ i ∈ labelled.registry.indexes, i.keysOf "1" = [key "a"] ∧
      ∃ c' j, labelled.rebuildIndex i.name = .ok c' ∧ c'.index? i.name = some j ∧ i.Alike j := by
  intro key
  constructor
  · obtain ⟨i, hi, hkeys, hdue⟩ : ∃ i ∈ relabelled.registry.indexes, i.keysOf "1" = [key "a"] ∧
        i.spec.due relabelled.stored "1" = [key "b"] := ⟨_, List.mem_singleton_self _, rfl, rfl⟩
    have hr : relabelled.Reachable fun _ => True :=
      .step _ (labelled_reachable.mono fun _ _ => trivial) trivial
    obtain ⟨c', j, hc', hframe, -, -, hj, -, -, hexact, -⟩ := rebuildIndex_repairs hr hi
    exact ⟨i, hi, hkeys, c', j, hc', by rw [hframe], hj, (hexact "1").trans hdue⟩
  · obtain ⟨i, hi, hkeys⟩ : ∃ i ∈ labelled.registry.indexes, i.keysOf "1" = [key "a"] :=
      ⟨_, List.mem_singleton_self _, rfl⟩
    have hr := labelled_reachable.mono fun _ => isOperation_of_isChecked
    obtain ⟨c', j, hc', -, -, -, hj, -, -, -, -, -, halike⟩ := rebuildIndex_repairs hr hi
    exact ⟨i, hi, hkeys, c', j, hc', hj, halike hr⟩

end DocumentDb
