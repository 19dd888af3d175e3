/-
  DocumentDb — the live names of a store, told from its history.

  * `Action.Kept name actions before`: a collection was asked for under the name right after
    `before`, and the name was not dropped after that.  A name is `Live` if this holds of some
    beginning of the history, and the collection is `MadeAt` the end of a beginning that does not
    leave the name live itself.
  * `Store.Lists`: the names of a store are those that its history leaves live, each once, in the
    order in which their collections were made.  So it is after every history (`lists_run`).
-/
import Mathlib.Data.List.Induction
import DocumentDb.Proofs.Lists
import DocumentDb.Store

namespace DocumentDb

namespace Action

variable {name : String} {actions before : List Action} {a : Action} {position : Nat}

/-- A collection was asked for under a name right after the first actions, and the name was not
    dropped after that. -/
def Kept (name : String) (actions before : List Action) : Prop :=
  ∃ after, actions = before ++ .collection name :: after ∧ .drop name ∉ after

/-- There is a collection under a name after some actions. -/
def Live (name : String) (actions : List Action) : Prop := ∃ before, Kept name actions before

/-- The collection that some actions leave under a name was made by the action at a position. -/
def MadeAt (name : String) (actions : List Action) (position : Nat) : Prop :=
  ∃ before, Kept name actions before ∧ ¬ Live name before ∧ before.length = position

/-! ## One more action -/

theorem not_kept_nil : ¬ Kept name [] before := by
  rintro ⟨after, h, -⟩
  simp at h

theorem kept_concat : Kept name (actions ++ [a]) before ↔
    a = .collection name ∧ before = actions ∨ Kept name actions before ∧ a ≠ .drop name := by
  constructor
  · rintro ⟨after, h, hd⟩
    rcases List.eq_nil_or_concat after with rfl | ⟨after', last, rfl⟩
    · obtain ⟨rfl, hlast⟩ := List.append_inj' h rfl
      exact Or.inl ⟨(List.cons.inj hlast).1, rfl⟩
    · rw [List.concat_eq_append, ← List.cons_append, ← List.append_assoc] at h
      obtain ⟨rfl, hlast⟩ := List.append_inj' h rfl
      cases hlast
      rw [List.concat_eq_append, List.mem_append, not_or] at hd
      exact Or.inr ⟨⟨after', rfl, hd.1⟩, fun he => hd.2 (List.mem_singleton.2 he.symm)⟩
  · rintro (⟨rfl, rfl⟩ | ⟨⟨after, rfl, hd⟩, hne⟩)
    · exact ⟨[], rfl, List.not_mem_nil⟩
    · refine ⟨after ++ [a], by simp, ?_⟩
      rw [List.mem_append, List.mem_singleton, not_or]
      exact ⟨hd, Ne.symm hne⟩

theorem live_concat :
    Live name (actions ++ [a]) ↔ a = .collection name ∨ Live name actions ∧ a ≠ .drop name := by
  simp only [Live, kept_concat, exists_or, exists_and_left, exists_and_right, exists_eq, and_true]

theorem MadeAt.lt (h : MadeAt name actions position) : position < actions.length := by
  obtain ⟨before, ⟨after, rfl, -⟩, -, rfl⟩ := h
  simp

theorem MadeAt.concat (h : MadeAt name actions position) (ha : a ≠ .drop name) :
    MadeAt name (actions ++ [a]) position := by
  obtain ⟨before, hk, hn, rfl⟩ := h
  exact ⟨before, kept_concat.2 (Or.inr ⟨hk, ha⟩), hn, rfl⟩

/-- Asking for a name that is not live makes its collection. -/
theorem madeAt_length (h : ¬ Live name actions) :
    MadeAt name (actions ++ [.collection name]) actions.length :=
  ⟨actions, kept_concat.2 (Or.inl ⟨rfl, rfl⟩), h, rfl⟩

/-- What is live was made at some time. -/
theorem Live.exists_madeAt (h : Live name actions) : ∃ position, MadeAt name actions position := by
  induction actions using List.reverseRecOn with
  | nil =>
    obtain ⟨before, hk⟩ := h
    exact absurd hk not_kept_nil
  | append_singleton actions a ih =>
    by_cases hlive : Live name actions
    · obtain ⟨position, hp⟩ := ih hlive
      rcases live_concat.1 h with rfl | ⟨-, hne⟩
      · exact ⟨position, hp.concat nofun⟩
      · exact ⟨position, hp.concat hne⟩
    · obtain rfl : a = .collection name := (live_concat.1 h).resolve_right fun hold => hlive hold.1
      exact ⟨actions.length, madeAt_length hlive⟩

/-- The collection of one name was made before that of another. -/
def MadeBefore (actions : List Action) (first second : String) : Prop :=
  ∃ position position', MadeAt first actions position ∧ MadeAt second actions position' ∧
    position < position'

theorem MadeBefore.concat {first second : String} (h : MadeBefore actions first second)
    (hfirst : a ≠ .drop first) (hsecond : a ≠ .drop second) :
    MadeBefore (actions ++ [a]) first second := by
  obtain ⟨position, position', hp, hp', hlt⟩ := h
  exact ⟨position, position', hp.concat hfirst, hp'.concat hsecond, hlt⟩

/-- A collection made last comes after those that are live. -/
theorem madeBefore_concat {first second : String} (hfirst : Live first actions)
    (hsecond : ¬ Live second actions) :
    MadeBefore (actions ++ [.collection second]) first second := by
  obtain ⟨position, hp⟩ := hfirst.exists_madeAt
  exact ⟨position, actions.length, hp.concat nofun, madeAt_length hsecond, hp.lt⟩

end Action

namespace Store

open DocumentDb.Action (Live MadeBefore)

variable {s : Store} {name : String} {actions : List Action}

/-- The names of a store are those that its history leaves live, each once, in the order in which
    their collections were made. -/
structure Lists (s : Store) (actions : List Action) : Prop where
  once : s.names.Nodup
  live : ∀ name, name ∈ s.names ↔ Live name actions
  ordered : s.names.Pairwise (MadeBefore actions)

/-! ## What the actions do to the live names -/

/-- Asking for a collection gives the live one of the name, or makes one without contents. -/
theorem collection_cases (s : Store) (name : String) :
    (∃ number, s.live.lookup name = some number ∧ s.collection name = (s, number)) ∨
      s.live.lookup name = none ∧ s.collection name =
        ({ s with
            pool := s.pool ++ [.new name s.settings .equality]
            live := s.live ++ [(name, s.pool.length)] }, s.pool.length) := by
  unfold collection
  cases h : s.live.lookup name with
  | some number => exact Or.inl ⟨number, rfl, rfl⟩
  | none => exact Or.inr ⟨rfl, rfl⟩

theorem mem_names_iff : name ∈ s.names ↔ ∃ number, s.live.lookup name = some number := by
  rw [← Option.isSome_iff_exists, lookup_isSome_iff, names]

variable [Collator]

/-- Dropping a name that is not live leaves the store as it is. -/
theorem act_drop_of_not_live (h : s.live.lookup name = none) : s.act (.drop name) = s := by
  simp only [act, drop, h]

theorem live_act_drop (s : Store) (name : String) :
    (s.act (.drop name)).live = s.live.filter (·.1 != name) := by
  cases h : s.live.lookup name with
  | some number => simp only [act, drop, h]
  | none =>
    rw [act_drop_of_not_live h, eq_comm, List.filter_eq_self]
    intro e he
    exact bne_iff_ne.2 (ne_of_not_mem_keys (lookup_eq_none_iff.1 h) he)

theorem run_concat (s : Store) (actions : List Action) (a : Action) :
    s.run (actions ++ [a]) = (s.run actions).act a := by
  rw [run, List.foldl_append]
  rfl

/-! ## Every history -/

namespace Lists

omit [Collator] in
theorem new (settings : Settings) : (Store.new settings).Lists [] := by
  refine ⟨List.nodup_nil, fun name => iff_of_false List.not_mem_nil ?_, List.Pairwise.nil⟩
  rintro ⟨before, h⟩
  exact Action.not_kept_nil h

omit [Collator] in
/-- An action that drops no name leaves the order as it is. -/
theorem ordered_concat (h : s.Lists actions) {a : Action} (ha : ∀ name, a ≠ .drop name) :
    s.names.Pairwise (MadeBefore (actions ++ [a])) :=
  h.ordered.imp fun hbefore => hbefore.concat (ha _) (ha _)

/-- **One more action keeps the names in line with the history.** -/
theorem act (h : s.Lists actions) (a : Action) : (s.act a).Lists (actions ++ [a]) := by
  cases a with
  | collection name =>
    have hlive : ∀ other, Live other (actions ++ [.collection name]) ↔
        name = other ∨ Live other actions := by
      simp [Action.live_concat]
    rcases collection_cases s name with ⟨number, hl, hc⟩ | ⟨hl, hc⟩
    · have hin : name ∈ s.names := mem_names_iff.2 ⟨number, hl⟩
      rw [show s.act (.collection name) = s from congrArg Prod.fst hc]
      refine ⟨h.once, fun other => ?_, h.ordered_concat nofun⟩
      rw [hlive, h.live]
      refine (or_iff_right_of_imp ?_).symm
      rintro rfl
      exact (h.live name).1 hin
    · have hout : name ∉ s.names := lookup_eq_none_iff.1 hl
      have hnames : (s.act (.collection name)).names = s.names ++ [name] := by
        rw [show s.act (.collection name) = _ from congrArg Prod.fst hc]
        simp [names]
      refine ⟨hnames ▸ ?_, fun other => ?_, hnames ▸ ?_⟩
      · rw [← List.concat_eq_append]
        exact h.once.concat hout
      · rw [hnames, hlive, ← h.live, List.mem_append, List.mem_singleton, or_comm, eq_comm]
      · refine List.pairwise_append.2 ⟨h.ordered_concat nofun, List.pairwise_singleton _ _, ?_⟩
        intro first hfirst second hsecond
        rw [List.mem_singleton.1 hsecond]
        exact Action.madeBefore_concat ((h.live first).1 hfirst) (mt (h.live name).2 hout)
  | drop name =>
    have hnames : (s.act (.drop name)).names = s.names.filter (· != name) := by
      rw [names, live_act_drop, names, List.filter_map]
      rfl
    refine ⟨hnames ▸ h.once.filter _, fun other => ?_, hnames ▸ ?_⟩
    · rw [hnames, List.mem_filter, h.live, bne_iff_ne, Action.live_concat]
      simp [eq_comm]
    · have hkept : ∀ other ∈ s.names.filter (· != name), Action.drop name ≠ .drop other := by
        intro other hother he
        cases he
        simp at hother
      exact (h.ordered.filter _).imp_of_mem fun hfirst hsecond hbefore =>
        hbefore.concat (hkept _ hfirst) (hkept _ hsecond)
  | step number step =>
    refine ⟨h.once, fun other => ?_, h.ordered_concat nofun⟩
    show other ∈ s.names ↔ _
    rw [h.live, Action.live_concat]
    simp

end Lists

/-- **After every history the names are those that are live, each once, in order of creation.** -/
theorem lists_run (settings : Settings) (actions : List Action) :
    ((new settings).run actions).Lists actions := by
  induction actions using List.reverseRecOn with
  | nil => exact .new settings
  | append_singleton actions a ih =>
    rw [run_concat]
    exact ih.act a

end Store

end DocumentDb
