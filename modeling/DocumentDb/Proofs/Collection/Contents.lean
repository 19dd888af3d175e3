/-
  DocumentDb — what holds of every stored document.

  * `Collection.EachStored P`: the property `P` holds of every stored document and the id under
    which it is stored.
  * Whatever is stored anew has its id written in it (`EachStored.loadEach`), and an update only
    goes on with changes that do not name the id and whose keys have no empty segment
    (`EachStored.update`).
  * **`Reachable.eachStored`**: so `P` holds in every history if it holds of documents that have
    their id written in them and if merging such changes keeps it (`Document.Preserves`).
-/
import DocumentDb.Proofs.Collection.Update

namespace DocumentDb

/-- The step is an operation, and changes satisfy `P` if it is an update. -/
def Step.UpdatesOnly (P : Document → Prop) : Step → Prop
  | operation (.update _ changes) => P changes
  | operation _ => True
  | amend .. => False

/-- Merging changes, if an update goes on with them, keeps a property of an id and a document. -/
def Document.Preserves (changes : Document) (P : String → Document → Prop) : Prop :=
  changes.hasKey idKey = false → (∀ key, changes.hasKey key = true → Path.isValid key = true) →
    ∀ id d r, P id d → d.merge changes = .ok r → P id r

namespace Collection

variable {c c' : Collection} {P : String → Document → Prop} {id : String} {d : Document}

/-- A property holds of every stored document and the id under which it is stored. -/
def EachStored (c : Collection) (P : String → Document → Prop) : Prop :=
  ∀ e ∈ c.stored, P e.1 e.2.document

variable [Collator]

/-! ## One change -/

namespace EachStored

omit [Collator] in
theorem congr (h : c.EachStored P) (hs : c'.stored = c.stored) : c'.EachStored P := by
  unfold EachStored
  rw [hs]
  exact h

theorem place (h : c.EachStored P) (hd : P id d) : (c.place id d).EachStored P := by
  intro e he
  rcases List.mem_append.1 he with he | he
  · exact h e he
  · rw [List.mem_singleton.1 he]
    exact hd

theorem discard (h : c.EachStored P) (id : String) : (c.discard id).1.EachStored P := by
  rcases discard_cases c id with ⟨-, hs⟩ | ⟨-, hs⟩
  · exact h.congr hs
  · intro e he
    rw [hs] at he
    exact h e (List.mem_of_mem_filter he)

theorem replace (h : c.EachStored P) (hd : P id d) : (c.replace id d).1.EachStored P := by
  rcases replace_cases c id d with ⟨-, hs⟩ | ⟨-, hs⟩
  · exact h.congr hs
  · intro e' he'
    rw [hs] at he'
    obtain ⟨e, he, rfl⟩ := List.mem_map.1 he'
    dsimp only
    split
    · next heq => rwa [heq]
    · exact h e he

/-! ## Each operation -/

theorem loadEach (hid : ∀ id (d : Document), P id (d.set idKey (.text id)))
    {options : LoadOptions} (h : c.EachStored P) (documents : List Document) (source : IdSource)
    (position : Nat) :
    (c.loadEach options source position documents).1.EachStored P := by
  induction documents generalizing c source position with
  | nil => exact h
  | cons d rest ih =>
    rcases loadEach_cases options c source position d rest with
      ⟨id, later, -, -, -, rfl, he⟩ | ⟨failure, later, -, -, -, rfl, he⟩
    · rw [he]
      exact ih (h.place (hid id d)) _ _
    · rw [he]
      exact ih h _ _

theorem removeEach (h : c.EachStored P) (ids : List String) :
    (c.removeEach ids).1.EachStored P := by
  induction ids generalizing c with
  | nil => exact h
  | cons id rest ih =>
    rcases removeEach_cases c id rest with ⟨fault, -, he⟩ | ⟨-, he⟩
    · rw [he]
      exact h.discard id
    · rw [he]
      exact ih (h.discard id)

theorem remove (h : c.EachStored P) (filter : Document) : (c.remove filter).1.EachStored P := by
  unfold Collection.remove
  split
  · exact h.removeEach _
  · exact h

theorem removeDocument (h : c.EachStored P) (d : Document) :
    (c.removeDocument d).1.EachStored P := by
  unfold Collection.removeDocument
  split <;> exact h.remove _

theorem updateEach {changes : Document}
    (hmerge : ∀ id d r, P id d → d.merge changes = .ok r → P id r) (h : c.EachStored P)
    (targets : List (String × Cell)) (position : Nat)
    (htargets : ∀ e ∈ targets, P e.1 e.2.document) :
    (c.updateEach changes position targets).1.EachStored P := by
  induction targets generalizing c position with
  | nil => exact h
  | cons e rest ih =>
    obtain ⟨id, cell⟩ := e
    obtain ⟨hid, hrest⟩ := List.forall_mem_cons.1 htargets
    rcases updateEach_cases changes c position id cell rest with
      ⟨fault, -, he⟩ | ⟨d, hd, ⟨fault, -, he⟩ | ⟨-, ⟨fault, -, he⟩ | ⟨-, he⟩⟩⟩
    · rw [he]
      exact h
    · rw [he]
      exact ih h _ hrest
    · rw [he]
      exact h.replace (hmerge id _ d hid hd)
    · rw [he]
      exact ih (h.replace (hmerge id _ d hid hd)) _ hrest

theorem update {changes : Document} (hmerge : changes.Preserves P) (h : c.EachStored P)
    (filter : Document) : (c.update filter changes).1.EachStored P := by
  unfold Collection.update
  split
  · exact h
  · next hid =>
    split
    · exact h
    · next trial htrial =>
      split
      · exact h
      · next m hm =>
        -- the trial has merged the changes, so no key of theirs has an empty segment
        have hvalid := (exists_merge_iff (by simp) changes).1 ⟨trial, htrial⟩
        exact h.updateEach (hmerge (Bool.eq_false_iff.2 hid) hvalid) m.found 0 fun e he =>
          h e (mem_stored_of_mem_found hm he)

end EachStored

theorem stored_ensureSpec (c : Collection) (spec : KeySpec) :
    (c.ensureSpec spec).1.stored = c.stored := by
  unfold ensureSpec
  split
  · split <;> rfl
  · split <;> rfl

theorem stored_ensureIndex (c : Collection) (keys : Document) (options : IndexOptions) :
    (c.ensureIndex keys options).1.stored = c.stored := by
  unfold ensureIndex
  split
  · exact stored_ensureSpec ..
  · rfl

omit [Collator] in
theorem stored_settle {outcome : Except Fault Collection}
    (h : ∀ c', outcome = .ok c' → c'.stored = c.stored) :
    (c.settle outcome).1.stored = c.stored := by
  cases outcome with
  | ok c' => exact h c' rfl
  | error fault => rfl

omit [Collator] in
theorem stored_dropIndex {name : String} (h : c.dropIndex name = .ok c') :
    c'.stored = c.stored := by
  unfold dropIndex at h
  split at h
  · rw [← Except.ok.inj h]
  · cases h

theorem EachStored.perform (hid : ∀ id (d : Document), P id (d.set idKey (.text id)))
    {Q : Document → Prop} (hmerge : ∀ changes, Q changes → changes.Preserves P) (h : c.EachStored P)
    {op : Operation} (hop : (Step.operation op).UpdatesOnly Q) : (c.perform op).1.EachStored P := by
  cases op with
  | insertMany source documents =>
    show (c.insertEach source 0 documents).1.EachStored P
    rw [insertEach_eq_loadEach]
    exact h.loadEach hid documents source 0
  | load source documents options =>
    exact loadEach (c := c.truncate) hid nofun documents source 0
  | remove filter => exact h.remove filter
  | removeDocument d => exact h.removeDocument d
  | update filter changes => exact h.update (hmerge changes hop) filter
  | truncate => exact nofun
  | ensureIndex keys options => exact h.congr (stored_ensureIndex c keys options)
  | ensureSpec spec => exact h.congr (stored_ensureSpec c spec)
  | dropIndex name => exact h.congr (stored_settle fun c' h => stored_dropIndex h)
  | dropAllIndexes => exact h.congr rfl
  | rebuildIndex name => exact h.congr (stored_settle fun c' h => (rebuildIndex_cases h).1)

/-! ## Every history -/

/-- **A property of every document that has its id written in it, which merging keeps, holds of
    every stored document.** -/
theorem Reachable.eachStored (hid : ∀ id (d : Document), P id (d.set idKey (.text id)))
    {Q : Document → Prop} (hmerge : ∀ changes, Q changes → changes.Preserves P)
    (h : c.Reachable (Step.UpdatesOnly Q)) : c.EachStored P := by
  induction h with
  | new name settings matcher => exact nofun
  | step s _ hs ih =>
    cases s with
    | operation op => exact ih.perform hid hmerge hs
    | amend serial d => exact hs.elim

end Collection

end DocumentDb
