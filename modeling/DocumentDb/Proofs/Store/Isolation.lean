/-
  DocumentDb — the collections of a store do not reach into each other.

  * `Store.act_cases`: all that an action does to a store.
  * `Store.Numbered`: live collections have numbers given out, no two of them the same.  A number
    that was given out and is not live is `Retired`, and stays so (`Retired.act`).
  * `Numbered.lookup_run` and `Numbered.retired_run`: the number that asking for a name gives stays
    the live one of the name until the name is dropped, and is retired from then on.
  * `Numbered.get?_run`: what becomes of a live collection over a history that does not drop its
    name is what the steps on its own number make of it, whatever else is done in the store.
  * **`collections_isolated`** puts this together, for every history and every handle.
-/
import DocumentDb.Proofs.Store.History

namespace DocumentDb

namespace Action

/-- The step that an action takes in the collection of a number. -/
def stepOn? (number : Nat) : Action → Option Step
  | .step other taken => if other = number then some taken else none
  | _ => none

/-- The steps that some actions take in the collection of a number. -/
def stepsOn (number : Nat) (actions : List Action) : List Step := actions.filterMap (stepOn? number)

end Action

namespace Store

open DocumentDb.Action (Live MadeBefore stepOn? stepsOn)

variable {s : Store} {name : String} {number : Nat} {a : Action} {actions : List Action}

/-- Live collections have numbers given out, no two of them the same. -/
structure Numbered (s : Store) : Prop where
  distinct : (s.live.map (·.2)).Nodup
  given : ∀ e ∈ s.live, e.2 < s.pool.length

/-- A number was given out and is not live. -/
def Retired (s : Store) (number : Nat) : Prop := number < s.pool.length ∧ ∀ e ∈ s.live, e.2 ≠ number

theorem get?_modify_ne (s : Store) {number number' : Nat} (h : number ≠ number')
    (f : Collection → Collection) : (s.modify number f).get? number' = s.get? number' :=
  List.getElem?_modify_ne f s.pool h

theorem get?_modify_self (s : Store) (number : Nat) (f : Collection → Collection) :
    (s.modify number f).get? number = (s.get? number).map f := by
  simp [get?, modify]

theorem numbered_new (settings : Settings) : (new settings).Numbered := ⟨List.nodup_nil, nofun⟩

/-- A number is live under one name only. -/
theorem Numbered.ne_of_lookup (h : s.Numbered) {other : String} {number' : Nat}
    (hl : s.live.lookup name = some number) (hl' : s.live.lookup other = some number')
    (hne : other ≠ name) : number' ≠ number := by
  intro he
  have hsame := List.inj_on_of_nodup_map h.distinct (mem_of_lookup hl') (mem_of_lookup hl) he
  exact hne (congrArg Prod.fst hsame)

variable [Collator]

/-! ## One action -/

/-- An action leaves the store as it is and takes no step, makes a collection, drops one, or takes a
    step. -/
theorem act_cases (s : Store) (a : Action) :
    (s.act a = s ∧ ∀ number, stepOn? number a = none) ∨
      (∃ name, a = .collection name ∧ s.live.lookup name = none ∧ s.act a =
        { s with
            pool := s.pool ++ [.new name s.settings .equality]
            live := s.live ++ [(name, s.pool.length)] }) ∨
      (∃ name number, a = .drop name ∧ s.live.lookup name = some number ∧ s.act a =
        { s.modify number fun c => c.truncate.dropAllIndexes with
            live := s.live.filter (·.1 != name) }) ∨
      ∃ number step, a = .step number step ∧ s.act a = s.modify number fun c => c.step step := by
  cases a with
  | collection name =>
    rcases collection_cases s name with ⟨number, -, hc⟩ | ⟨hl, hc⟩
    · exact Or.inl ⟨congrArg Prod.fst hc, fun _ => rfl⟩
    · exact Or.inr (Or.inl ⟨name, rfl, hl, congrArg Prod.fst hc⟩)
  | drop name =>
    cases hl : s.live.lookup name with
    | none => exact Or.inl ⟨act_drop_of_not_live hl, fun _ => rfl⟩
    | some number =>
      refine Or.inr (Or.inr (Or.inl ⟨name, number, rfl, hl, ?_⟩))
      simp only [act, drop, hl]
  | step number step => exact Or.inr (Or.inr (Or.inr ⟨number, step, rfl, rfl⟩))

theorem length_pool_act (s : Store) (a : Action) : s.pool.length ≤ (s.act a).pool.length := by
  rcases s.act_cases a with ⟨hs, -⟩ | ⟨name, -, -, hs⟩ | ⟨name, number, -, -, hs⟩ |
    ⟨number, step, -, hs⟩
  all_goals simp [hs, modify]

/-- The numbers stay distinct. -/
theorem Numbered.act (h : s.Numbered) (a : Action) : (s.act a).Numbered := by
  rcases s.act_cases a with ⟨hs, -⟩ | ⟨name, -, -, hs⟩ | ⟨name, number, -, -, hs⟩ |
    ⟨number, step, -, hs⟩
  · rwa [hs]
  · rw [hs]
    refine ⟨?_, fun e he => ?_⟩
    · have hfresh : s.pool.length ∉ s.live.map (·.2) := by
        intro hm
        obtain ⟨e, he, heq⟩ := List.mem_map.1 hm
        exact Nat.lt_irrefl _ (heq ▸ h.given e he)
      simpa using h.distinct.concat hfresh
    · rw [List.length_append]
      rcases List.mem_append.1 he with he | he
      · exact Nat.lt_add_right _ (h.given e he)
      · rw [List.mem_singleton.1 he]
        exact Nat.lt_succ_self _
  · rw [hs]
    refine ⟨h.distinct.sublist (List.filter_sublist.map _), fun e he => ?_⟩
    simpa [modify] using h.given e (List.mem_of_mem_filter he)
  · rw [hs]
    refine ⟨h.distinct, fun e he => ?_⟩
    simpa [modify] using h.given e he

/-- A retired number never becomes live again. -/
theorem Retired.act (h : s.Retired number) (a : Action) : (s.act a).Retired number := by
  refine ⟨Nat.lt_of_lt_of_le h.1 (s.length_pool_act a), ?_⟩
  rcases s.act_cases a with ⟨hs, -⟩ | ⟨name, -, -, hs⟩ | ⟨name, number', -, -, hs⟩ |
    ⟨number', step, -, hs⟩
  · rw [hs]
    exact h.2
  · rw [hs]
    intro e he
    rcases List.mem_append.1 he with he | he
    · exact h.2 e he
    · rw [List.mem_singleton.1 he]
      exact (Nat.ne_of_lt h.1).symm
  · rw [hs]
    exact fun e he => h.2 e (List.mem_of_mem_filter he)
  · rw [hs]
    exact h.2

/-- A name keeps its collection as long as it is not dropped. -/
theorem lookup_act (hl : s.live.lookup name = some number) (ha : a ≠ .drop name) :
    (s.act a).live.lookup name = some number := by
  rcases s.act_cases a with ⟨hs, -⟩ | ⟨other, -, hfree, hs⟩ | ⟨other, number', rfl, -, hs⟩ |
    ⟨number', step, -, hs⟩
  · rwa [hs]
  · have hne : name ≠ other := by
      rintro rfl
      rw [hl] at hfree
      cases hfree
    rw [hs, lookup_append_fresh hfree, if_neg hne]
    exact hl
  · have hne : name ≠ other := by
      rintro rfl
      exact ha rfl
    rw [hs, lookup_filter_ne, if_neg hne]
    exact hl
  · rw [hs]
    exact hl

/-- The number of a name is retired when the name is dropped. -/
theorem Numbered.retired_act (h : s.Numbered) (hl : s.live.lookup name = some number) :
    (s.act (.drop name)).Retired number := by
  refine ⟨Nat.lt_of_lt_of_le (h.given _ (mem_of_lookup hl)) (s.length_pool_act _),
    fun e he heq => ?_⟩
  rw [live_act_drop] at he
  obtain ⟨he, hname⟩ := List.mem_filter.1 he
  have hsame := List.inj_on_of_nodup_map h.distinct he (mem_of_lookup hl) heq
  exact bne_iff_ne.1 hname (congrArg Prod.fst hsame)

/-- A live collection is changed by the steps on its own number and by nothing else. -/
theorem Numbered.get?_act (h : s.Numbered) (hl : s.live.lookup name = some number)
    (ha : a ≠ .drop name) :
    (s.act a).get? number = (s.get? number).map fun c => (stepOn? number a).elim c c.step := by
  rcases s.act_cases a with ⟨hs, hstep⟩ | ⟨other, rfl, -, hs⟩ | ⟨other, number', rfl, hl', hs⟩ |
    ⟨number', step, rfl, hs⟩
  · simp [hs, hstep]
  · have hlt := h.given _ (mem_of_lookup hl)
    rw [hs]
    simp [get?, stepOn?, List.getElem?_append_left hlt]
  · have hne : number' ≠ number := h.ne_of_lookup hl hl' fun he => ha (he ▸ rfl)
    rw [hs]
    show (s.modify number' _).get? number = _
    simp [get?_modify_ne s hne, stepOn?]
  · rw [hs]
    by_cases he : number' = number
    · subst he
      simp [get?_modify_self, stepOn?]
    · simp [get?_modify_ne s he, stepOn?, he]

/-! ## Every history -/

theorem Numbered.run (h : s.Numbered) (actions : List Action) : (s.run actions).Numbered := by
  induction actions generalizing s with
  | nil => exact h
  | cons a rest ih => exact ih (h.act a)

theorem Retired.run (h : s.Retired number) (actions : List Action) :
    (s.run actions).Retired number := by
  induction actions generalizing s with
  | nil => exact h
  | cons a rest ih => exact ih (h.act a)

theorem lookup_run (hl : s.live.lookup name = some number) (hkept : .drop name ∉ actions) :
    (s.run actions).live.lookup name = some number := by
  induction actions generalizing s with
  | nil => exact hl
  | cons a rest ih =>
    rw [List.mem_cons, not_or] at hkept
    exact ih (lookup_act hl (Ne.symm hkept.1)) hkept.2

theorem Numbered.retired_run (h : s.Numbered) (hl : s.live.lookup name = some number)
    (hdropped : .drop name ∈ actions) : (s.run actions).Retired number := by
  induction actions generalizing s with
  | nil => cases hdropped
  | cons a rest ih =>
    by_cases ha : a = .drop name
    · subst ha
      exact (h.retired_act hl).run rest
    · exact ih (h.act a) (lookup_act hl ha) ((List.mem_cons.1 hdropped).resolve_left (Ne.symm ha))

/-- **What becomes of a live collection is what the steps on its own number make of it.** -/
theorem Numbered.get?_run (h : s.Numbered) (hl : s.live.lookup name = some number)
    (hkept : .drop name ∉ actions) :
    (s.run actions).get? number =
      (s.get? number).map fun c => (stepsOn number actions).foldl Collection.step c := by
  induction actions generalizing s with
  | nil => exact Option.map_id'.symm
  | cons a rest ih =>
    rw [List.mem_cons, not_or] at hkept
    have ha : a ≠ .drop name := Ne.symm hkept.1
    show ((s.act a).run rest).get? number = _
    rw [ih (h.act a) (lookup_act hl ha) hkept.2, h.get?_act hl ha, Option.map_map]
    congr 1
    funext c
    rw [Function.comp_apply, stepsOn, stepsOn, List.filterMap_cons]
    cases stepOn? number a <;> rfl

/-! ## Handles -/

omit [Collator] in
theorem collection_of_lookup (hl : s.live.lookup name = some number) :
    s.collection name = (s, number) := by
  simp only [collection, hl]

omit [Collator] in
theorem lookup_collection (s : Store) (name : String) :
    (s.collection name).1.live.lookup name = some (s.collection name).2 := by
  rcases collection_cases s name with ⟨number, hl, hc⟩ | ⟨hl, hc⟩
  · rw [hc]
    exact hl
  · rw [hc, lookup_append_fresh hl, if_pos rfl]

omit [Collator] in
/-- Asking for a name never gives a retired number. -/
theorem Retired.ne_collection (h : s.Retired number) (name : String) :
    (s.collection name).2 ≠ number := by
  rcases collection_cases s name with ⟨number', hl, hc⟩ | ⟨-, hc⟩
  · rw [hc]
    exact h.2 _ (mem_of_lookup hl)
  · rw [hc]
    exact (Nat.ne_of_lt h.1).symm

/-- Asking for a name again gives the same collection until the name is dropped, and never
    after that. -/
theorem Numbered.collection_run_iff (h : s.Numbered) (hl : s.live.lookup name = some number) :
    ((s.run actions).collection name).2 = number ↔ .drop name ∉ actions := by
  constructor
  · intro hsame hdropped
    exact (h.retired_run hl hdropped).ne_collection name hsame
  · intro hkept
    rw [collection_of_lookup (lookup_run hl hkept)]

/-- A collection live under another name, or under this one since it was dropped, has
    another number. -/
theorem Numbered.ne_of_lookup_run (h : s.Numbered) (hl : s.live.lookup name = some number)
    {other : String} {number' : Nat} (hl' : (s.run actions).live.lookup other = some number')
    (hother : other ≠ name ∨ .drop name ∈ actions) : number' ≠ number := by
  by_cases hdropped : .drop name ∈ actions
  · exact (h.retired_run hl hdropped).2 _ (mem_of_lookup hl')
  · exact (h.run actions).ne_of_lookup (lookup_run hl hdropped) hl' (hother.resolve_right hdropped)

omit [Collator] in
theorem exists_get? (h : number < s.pool.length) : ∃ c, s.get? number = some c :=
  ⟨_, List.getElem?_eq_getElem h⟩

theorem length_pool_run (s : Store) (actions : List Action) :
    s.pool.length ≤ (s.run actions).pool.length := by
  induction actions generalizing s with
  | nil => exact Nat.le_refl _
  | cons a rest ih => exact Nat.le_trans (s.length_pool_act a) (ih _)

theorem settings_run (s : Store) (actions : List Action) :
    (s.run actions).settings = s.settings := by
  induction actions generalizing s with
  | nil => rfl
  | cons a rest ih =>
    refine (ih (s.act a)).trans ?_
    rcases s.act_cases a with ⟨hs, -⟩ | ⟨name, -, -, hs⟩ | ⟨name, number, -, -, hs⟩ |
      ⟨number, step, -, hs⟩
    all_goals simp [hs, modify]

/-! ## Dropping a name -/

omit [Collator] in
/-- Dropping a live name leaves its collection without documents and indexes. -/
theorem Numbered.exists_drop (h : s.Numbered) (hl : s.live.lookup name = some number) :
    ∃ s' c, s.drop name = .ok s' ∧ s'.get? number = some c ∧ c.stored = [] ∧
    c.registry.indexes = [] := by
  obtain ⟨c, hc⟩ := exists_get? (h.given _ (mem_of_lookup hl))
  let emptied := s.modify number fun c => c.truncate.dropAllIndexes
  have hdrop : s.drop name = .ok { emptied with live := s.live.filter (·.1 != name) } := by
    simp only [drop, hl, emptied]
  have hget : emptied.get? number = some c.truncate.dropAllIndexes := by
    rw [get?_modify_self, hc]
    rfl
  exact ⟨_, _, hdrop, hget, rfl, rfl⟩

omit [Collator] in
/-- A name that is not live gets a collection without contents. -/
theorem get?_collection_of_not_live (h : s.live.lookup name = none) :
    (s.collection name).1.get? (s.collection name).2 = some (.new name s.settings .equality) := by
  simp only [collection, h, get?]
  exact List.getElem?_concat_length

/-! ## Every store and every handle -/

/-- **The collections of a store are isolated.**  The names are those that the history leaves live,
    each once, in order of creation.  Dropping a live name leaves its collection without documents
    and indexes; a name that is not live cannot be dropped, and asking for it makes a collection
    without contents.  A handle stays good; asking for its name again gives the same collection just
    as long as the name is not dropped; and a step through it, also after that, leaves alone every
    collection live under another name, or made under the same name since.  What becomes of a live
    collection is what the steps on its own number make of it. -/
theorem collections_isolated (settings : Settings) (actions : List Action) :
    let s := (new settings).run actions
    (s.names.Nodup ∧ (∀ name, name ∈ s.names ↔ Live name actions) ∧
      s.names.Pairwise (MadeBefore actions)) ∧
    (∀ name, Live name actions → ∃ number s' c, s.collection name = (s, number) ∧
      s.drop name = .ok s' ∧ s'.get? number = some c ∧ c.stored = [] ∧ c.registry.indexes = []) ∧
    (∀ name, ¬ Live name actions → s.drop name = .error (.collectionUnknown name) ∧
      (s.collection name).1.get? (s.collection name).2 = some (.new name settings .equality)) ∧
    (∀ name between,
      let handle := s.collection name
      let later := handle.1.run between
      (∃ c, later.get? handle.2 = some c) ∧
      ((later.collection name).2 = handle.2 ↔ .drop name ∉ between) ∧
      ∀ other number, later.live.lookup other = some number →
        (other ≠ name ∨ .drop name ∈ between) → ∀ step,
          (later.act (.step handle.2 step)).get? number = later.get? number) ∧
    ∀ name number more, s.live.lookup name = some number → .drop name ∉ more →
      (s.run more).get? number =
        (s.get? number).map fun c => (stepsOn number more).foldl Collection.step c := by
  intro s
  have hlists : s.Lists actions := lists_run settings actions
  have hnumbered : s.Numbered := (numbered_new settings).run actions
  have hlookup : ∀ name, ¬ Live name actions → s.live.lookup name = none := fun name hnot =>
    lookup_eq_none_iff.2 (mt (hlists.live name).1 hnot)
  refine ⟨⟨hlists.once, hlists.live, hlists.ordered⟩, fun name hlive => ?_, fun name hnot => ?_,
    fun name between => ?_, fun name number more hl hkept => hnumbered.get?_run hl hkept⟩
  · obtain ⟨number, hl⟩ := mem_names_iff.1 ((hlists.live name).2 hlive)
    obtain ⟨s', c, hdrop⟩ := hnumbered.exists_drop hl
    exact ⟨number, s', c, collection_of_lookup hl, hdrop⟩
  · refine ⟨by simp only [drop, hlookup name hnot], ?_⟩
    rw [get?_collection_of_not_live (hlookup name hnot), settings_run]
    rfl
  · intro handle later
    have hopened : handle.1.Numbered := hnumbered.act (.collection name)
    have hl : handle.1.live.lookup name = some handle.2 := lookup_collection s name
    refine ⟨exists_get? ?_, hopened.collection_run_iff hl, fun other number hl' hother step => ?_⟩
    · exact Nat.lt_of_lt_of_le (hopened.given _ (mem_of_lookup hl))
        (length_pool_run handle.1 between)
    · exact get?_modify_ne later (hopened.ne_of_lookup_run hl hl' hother).symm _

/-- A handle to notes is kept while the notes are dropped and begun anew.  A note stored through it
    is stored in the old notes, and the new ones stay empty. -/
theorem kept_handle_isolated :
    let s := (new {}).run [.collection "notes", .collection "tasks"]
    let later := s.run [.drop "notes", .collection "notes"]
    let insert : Step := .operation (.insertMany ⟨fun _ => "", 0⟩ [.single "_id" (.text "1")])
    s.collection "notes" = (s, 0) ∧ later.names = ["tasks", "notes"] ∧
      later.live.lookup "notes" = some 2 ∧
      (later.act (.step 0 insert)).get? 2 = later.get? 2 ∧
      ((later.act (.step 0 insert)).get? 0).map Collection.count = some 1 ∧
      ((later.act (.step 0 insert)).get? 2).map Collection.count = some 0 := by
  intro s later insert
  obtain ⟨-, -, -, hhandle, -⟩ := collections_isolated {} [.collection "notes", .collection "tasks"]
  obtain ⟨-, -, hothers⟩ := hhandle "notes" [.drop "notes", .collection "notes"]
  have hframe : (later.act (.step 0 insert)).get? 2 = later.get? 2 :=
    hothers "notes" 2 rfl (Or.inr List.mem_cons_self) insert
  exact ⟨rfl, rfl, rfl, hframe, rfl, by rw [hframe]; rfl⟩

end Store

end DocumentDb
