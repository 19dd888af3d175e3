/-
  DocumentDb — what an operation may do to a collection.

  * A `Move` is one change of documents and indexes together.  A document goes in under a free id,
    and where moves are `checked` only if the unique indexes let it pass; a stored document changes
    only if they do.  A move may also be one that an index has ended with a fault.
  * `removeEach_cases` and `updateEach_cases` are all that one document of a removal or an
    update can do.
  * **`perform_moves`**: every operation is a run of moves, however it ends.  What moves preserve,
    all operations preserve.
  * **`Reachable.sound`**: moves keep indexes sound, so no index ever ends one with a fault.
-/
import Mathlib.Logic.Relation
import DocumentDb.Collection.Operation
import DocumentDb.Proofs.Collection.Enter
import DocumentDb.Proofs.Collection.Find
import DocumentDb.Proofs.Collection.InStep
import DocumentDb.Proofs.Collection.Soundness

namespace DocumentDb

namespace Collection

variable [Collator]

/-- One change of documents and indexes together. -/
inductive Move (checked : Prop) (c : Collection) : Collection → Prop where
  | place (id : String) (d : Document) (fresh : c.cell? id = none)
    (passes : checked → c.registry.validate id d = .ok ()) : Move checked c (c.place id d)
  | discard (id : String) : Move checked c (c.discard id).1
  | replace (id : String) (d : Document) (known : (c.cell? id).isSome = true)
    (passes : c.registry.validate id d = .ok ()) : Move checked c (c.replace id d).1
  | truncate : Move checked c c.truncate
  | register (spec : KeySpec) (i : Index)
    (built : buildIndex (.new c.nextSerial spec) c.stored = .ok i) :
    Move checked c { c with registry := c.registry.register i, nextSerial := c.nextSerial + 1 }
  | withdraw (registry : Registry) (kept : ∀ i ∈ registry.indexes, i ∈ c.registry.indexes) :
    Move checked c { c with registry := registry }
  | rebuild (name : String) (c' : Collection) (rebuilt : c.rebuildIndex name = .ok c') :
    Move checked c c'

/-- A run of moves. -/
abbrev Moves (checked : Prop) : Collection → Collection → Prop :=
  Relation.ReflTransGen (Move checked)

variable {checked : Prop} {c c' : Collection}

/-! ## Storing -/

theorem loadEach_moves {options : LoadOptions} (himp : checked → options.violationCheck = true)
    (documents : List Document) (source : IdSource) (position : Nat) (c : Collection) :
    Moves checked c (c.loadEach options source position documents).1 := by
  induction documents generalizing c source position with
  | nil => exact .refl
  | cons d rest ih =>
    rcases loadEach_cases options c source position d rest with
      ⟨id, later, -, hfresh, hvalid, rfl, he⟩ | ⟨failure, later, -, -, -, rfl, he⟩
    · rw [he]
      exact .head (.place id _ hfresh fun hc => hvalid (himp hc)) (ih ..)
    · rw [he]
      exact ih ..

theorem insertEach_moves (documents : List Document) (source : IdSource) (position : Nat)
    (c : Collection) : Moves checked c (c.insertEach source position documents).1 := by
  rw [insertEach_eq_loadEach]
  exact loadEach_moves (fun _ => rfl) documents source position c

/-! ## Removing -/

/-- The first document of a removal ends it, or is discarded. -/
theorem removeEach_cases (c : Collection) (id : String) (rest : List String) :
    (∃ fault, (c.discard id).2 = .error fault ∧
      c.removeEach (id :: rest) = ((c.discard id).1, .error fault)) ∨
    (c.discard id).2 = .ok () ∧ c.removeEach (id :: rest) =
      (((c.discard id).1.removeEach rest).1,
        ((c.discard id).1.removeEach rest).2.map (id :: ·)) := by
  rw [removeEach]
  cases hd : c.discard id with
  | mk c' outcome =>
    cases outcome with
    | error fault => exact Or.inl ⟨fault, rfl, rfl⟩
    | ok u => exact Or.inr ⟨rfl, rfl⟩

theorem Sound.removeEach_cons [Std.TransCmp Collator.weigh] (h : c.Sound) (id : String)
    (rest : List String) : c.removeEach (id :: rest) =
      (((c.discard id).1.removeEach rest).1,
        ((c.discard id).1.removeEach rest).2.map (id :: ·)) := by
  rcases removeEach_cases c id rest with ⟨fault, hf, -⟩ | ⟨-, he⟩
  · cases (h.discard_eq_ok id).symm.trans hf
  · exact he

theorem removeEach_moves (ids : List String) (c : Collection) :
    Moves checked c (c.removeEach ids).1 := by
  induction ids generalizing c with
  | nil => exact .refl
  | cons id rest ih =>
    rcases removeEach_cases c id rest with ⟨fault, -, he⟩ | ⟨-, he⟩
    · rw [he]
      exact .single (.discard id)
    · rw [he]
      exact .head (.discard id) (ih _)

theorem remove_moves (filter : Document) (c : Collection) :
    Moves checked c (c.remove filter).1 := by
  unfold remove
  split
  · exact removeEach_moves _ c
  · exact .refl

theorem removeDocument_moves (d : Document) (c : Collection) :
    Moves checked c (c.removeDocument d).1 := by
  unfold removeDocument
  split <;> exact remove_moves _ c

/-! ## Updating -/

/-- The first document of a batch of updates ends it, or is refused, or has the changes
    merged into it. -/
theorem updateEach_cases (changes : Document) (c : Collection) (position : Nat) (id : String)
    (cell : Cell) (rest : List (String × Cell)) :
    (∃ fault, cell.document.merge changes = .error fault ∧
      c.updateEach changes position ((id, cell) :: rest) = (c, .error fault)) ∨
    ∃ d, cell.document.merge changes = .ok d ∧
      ((∃ fault, c.registry.validate id d = .error fault ∧
        c.updateEach changes position ((id, cell) :: rest) =
          ((c.updateEach changes (position + 1) rest).1,
            (c.updateEach changes (position + 1) rest).2.map
              (.refuse ⟨position, some id, fault⟩))) ∨
      c.registry.validate id d = .ok () ∧
        ((∃ fault, (c.replace id d).2 = .error fault ∧
          c.updateEach changes position ((id, cell) :: rest) = ((c.replace id d).1, .error fault)) ∨
        (c.replace id d).2 = .ok () ∧ c.updateEach changes position ((id, cell) :: rest) =
          (((c.replace id d).1.updateEach changes (position + 1) rest).1,
            ((c.replace id d).1.updateEach changes (position + 1) rest).2.map (.accept id)))) := by
  rw [updateEach]
  cases cell.document.merge changes with
  | error fault => exact Or.inl ⟨fault, rfl, rfl⟩
  | ok d =>
    refine Or.inr ⟨d, rfl, ?_⟩
    dsimp only
    cases hv : c.registry.validate id d with
    | error fault =>
      refine Or.inl ⟨fault, rfl, ?_⟩
      dsimp only
      rw [if_pos (Registry.isRecoverable_of_validate hv)]
    | ok u =>
      refine Or.inr ⟨rfl, ?_⟩
      dsimp only
      cases hr : c.replace id d with
      | mk c' outcome =>
        cases outcome with
        | error fault => exact Or.inl ⟨fault, rfl, rfl⟩
        | ok u => exact Or.inr ⟨rfl, rfl⟩

theorem updateEach_moves (changes : Document) (targets : List (String × Cell)) (position : Nat)
    (c : Collection) (known : ∀ e ∈ targets, (c.cell? e.1).isSome = true) :
    Moves checked c (c.updateEach changes position targets).1 := by
  induction targets generalizing c position with
  | nil => exact .refl
  | cons e rest ih =>
    obtain ⟨id, cell⟩ := e
    obtain ⟨hid, hrest⟩ := List.forall_mem_cons.1 known
    rcases updateEach_cases changes c position id cell rest with
      ⟨fault, -, he⟩ | ⟨d, -, ⟨fault, -, he⟩ | ⟨hv, ⟨fault, -, he⟩ | ⟨-, he⟩⟩⟩
    · rw [he]
    · rw [he]
      exact ih _ _ hrest
    · rw [he]
      exact .single (.replace id d hid hv)
    · rw [he]
      refine .head (.replace id d hid hv) (ih _ _ ?_)
      intro e he
      rw [isSome_cell?_replace]
      exact hrest e he

theorem update_moves (filter changes : Document) (c : Collection) :
    Moves checked c (c.update filter changes).1 := by
  unfold update
  split
  · exact .refl
  · split
    · exact .refl
    · split
      · exact .refl
      · next hs => exact updateEach_moves _ _ _ c fun e he => stored_of_mem_found hs he

/-! ## Indexes -/

theorem ensureSpec_moves (spec : KeySpec) (c : Collection) :
    Moves checked c (c.ensureSpec spec).1 := by
  unfold ensureSpec
  split
  · split <;> exact .refl
  · split
    · next hb => exact .single (.register spec _ hb)
    · exact .refl

theorem ensureIndex_moves (keys : Document) (options : IndexOptions) (c : Collection) :
    Moves checked c (c.ensureIndex keys options).1 := by
  unfold ensureIndex
  split
  · exact ensureSpec_moves _ c
  · exact .refl

theorem dropIndex_move {name : String} (h : c.dropIndex name = .ok c') : Move checked c c' := by
  unfold dropIndex at h
  split at h
  · next hd =>
    rw [← Except.ok.inj h]
    obtain ⟨rfl, -⟩ := Prod.mk.inj hd
    exact .withdraw _ fun i hi => List.mem_of_mem_filter hi
  · cases h

theorem settle_moves {outcome : Except Fault Collection}
    (h : ∀ c', outcome = .ok c' → Move checked c c') : Moves checked c (c.settle outcome).1 := by
  cases outcome with
  | ok c' => exact .single (h c' rfl)
  | error fault => exact .refl

theorem rebuildIndex_cases {name : String} (h : c.rebuildIndex name = .ok c') :
    c'.stored = c.stored ∧ ∀ j ∈ c'.registry.indexes, ∃ i ∈ c.registry.indexes,
      j = i ∨ j = recordEach i.clear c.stored := by
  unfold rebuildIndex at h
  split at h
  · rw [← Except.ok.inj h]
    refine ⟨rfl, ?_⟩
    intro j hj
    obtain ⟨i, hi, rfl⟩ := List.mem_map.1 hj
    refine ⟨i, hi, ?_⟩
    dsimp only
    split
    · exact Or.inr rfl
    · exact Or.inl rfl
  · cases h

/-! ## Every operation -/

/-- **An operation is a run of moves, checked if the operation is.** -/
theorem perform_moves (c : Collection) (op : Operation) :
    Moves (Step.operation op).IsChecked c (c.perform op).1 := by
  cases op with
  | insertMany source documents => exact insertEach_moves documents source 0 c
  | remove filter => exact remove_moves filter c
  | removeDocument d => exact removeDocument_moves d c
  | update filter changes => exact update_moves filter changes c
  | load source documents options =>
    exact .head .truncate (loadEach_moves (fun h => h) documents source 0 c.truncate)
  | truncate => exact .single .truncate
  | ensureIndex keys options => exact ensureIndex_moves keys options c
  | ensureSpec spec => exact ensureSpec_moves spec c
  | dropIndex name => exact settle_moves fun c' h => dropIndex_move h
  | dropAllIndexes => exact .single (.withdraw .empty nofun)
  | rebuildIndex name => exact settle_moves fun c' h => .rebuild name c' h

/-! ## Sound indexes -/

omit [Collator] in
theorem mem_register {r : Registry} {i j : Index} (h : j ∈ (r.register i).indexes) :
    j ∈ r.indexes ∨ j = i := by
  unfold Registry.register at h
  split at h
  · exact Or.inl h
  · exact (List.mem_append.1 h).imp_right List.mem_singleton.1

variable [Std.TransCmp Collator.weigh]

/-- **A move keeps the two maps of every index in agreement.** -/
theorem Sound.move (h : c.Sound) (m : Move checked c c') : c'.Sound := by
  intro j hj
  cases m with
  | place id d fresh passes => exact h.place id d j hj
  | discard id => exact h.discard id j hj
  | replace id d known passes => exact h.replace id d j hj
  | truncate =>
    obtain ⟨i, -, rfl⟩ := List.mem_map.1 hj
    exact Index.Consistent.clear i
  | register spec i built =>
    rcases mem_register hj with hj | rfl
    · exact h j hj
    · rw [Index.buildIndex_eq_recordEach built]
      exact consistent_recordEach (Index.Consistent.clear (.new c.nextSerial spec))
  | withdraw registry kept => exact h j (kept j hj)
  | rebuild name c' rebuilt =>
    obtain ⟨-, hr⟩ := rebuildIndex_cases rebuilt
    obtain ⟨i, hi, rfl | rfl⟩ := hr j hj
    · exact h j hi
    · exact consistent_recordEach (Index.Consistent.clear i)

theorem Sound.moves (h : c.Sound) (m : Moves checked c c') : c'.Sound := by
  induction m with
  | refl => exact h
  | tail _ m ih => exact ih.move m

/-- **In every history the two maps of every index agree, whatever is changed through live
    handles.** -/
theorem Reachable.sound {allowed : Step → Prop} (h : c.Reachable allowed) : c.Sound := by
  induction h with
  | new name settings matcher => exact nofun
  | step s _ _ ih =>
    cases s with
    | operation op => exact ih.moves (perform_moves _ op)
    | amend serial d => exact ih

end Collection

end DocumentDb
