/-
  DocumentDb — lists of values and of entries.

  * `eraseDups` keeps, of values that are equal, one (`exists_mem_eraseDups`, `eraseDups_pairwise`);
    equality need not be that of Lean.  Of members with equal values it keeps the first
    (`exists_firsts`).
  * Documents are stored under their ids, and an index records the keys of each id.  Where no id
    occurs twice, an entry is in such a list just when a lookup finds it (`mem_iff_lookup`).
  * A list in which a relation fails has a last place where it fails
    (`exists_split_of_not_pairwise`).
-/
import Mathlib.Data.List.Forall2
import Mathlib.Data.List.Nodup

namespace DocumentDb

/-! ## Lists without duplicates -/

section
variable {α : Type} [BEq α]

theorem mem_of_mem_eraseDups {a : α} : ∀ {l : List α}, a ∈ l.eraseDups → a ∈ l
  | [], h => by simp at h
  | b :: l, h => by
    have : (l.filter fun c => !c == b).length < l.length + 1 :=
      Nat.lt_succ_of_le (List.length_filter_le _ _)
    rw [List.eraseDups_cons, List.mem_cons] at h
    rcases h with rfl | h
    · exact List.mem_cons_self
    · exact List.mem_cons_of_mem _ (List.mem_filter.1 (mem_of_mem_eraseDups h)).1
termination_by l => l.length

variable [EquivBEq α]

theorem exists_mem_eraseDups {a : α} : ∀ {l : List α}, a ∈ l → ∃ b ∈ l.eraseDups, (a == b) = true
  | [], h => by simp at h
  | b :: l, h => by
    have : (l.filter fun c => !c == b).length < l.length + 1 :=
      Nat.lt_succ_of_le (List.length_filter_le _ _)
    rw [List.eraseDups_cons]
    by_cases hab : (a == b) = true
    · exact ⟨b, List.mem_cons_self, hab⟩
    · have ha : a ∈ l := by
        rcases List.mem_cons.1 h with rfl | h
        · exact absurd BEq.rfl hab
        · exact h
      have hf : a ∈ l.filter fun c => !c == b := List.mem_filter.2 ⟨ha, by simpa using hab⟩
      obtain ⟨c, hc, hac⟩ := exists_mem_eraseDups hf
      exact ⟨c, List.mem_cons_of_mem _ hc, hac⟩
termination_by l => l.length

/-- A test that equal members pass alike does not tell which of them was kept. -/
theorem any_eraseDups {P : α → Bool} (h : ∀ {a b : α}, (a == b) = true → P a = P b) (l : List α) :
    l.eraseDups.any P = l.any P := by
  rw [Bool.eq_iff_iff, List.any_eq_true, List.any_eq_true]
  constructor
  · rintro ⟨a, ha, hP⟩
    exact ⟨a, mem_of_mem_eraseDups ha, hP⟩
  · rintro ⟨a, ha, hP⟩
    obtain ⟨b, hb, hab⟩ := exists_mem_eraseDups ha
    exact ⟨b, hb, h hab ▸ hP⟩

theorem eraseDups_pairwise : ∀ l : List α, l.eraseDups.Pairwise fun a b => (a == b) = false
  | [] => by simp
  | b :: l => by
    have : (l.filter fun c => !c == b).length < l.length + 1 :=
      Nat.lt_succ_of_le (List.length_filter_le _ _)
    rw [List.eraseDups_cons, List.pairwise_cons]
    refine ⟨fun c hc => ?_, eraseDups_pairwise _⟩
    have := (List.mem_filter.1 (mem_of_mem_eraseDups hc)).2
    rw [BEq.comm]
    simpa using this
termination_by l => l.length

end

/-- Dropping duplicate values of a function keeps, of the members of a list that have a
    value, the first. -/
theorem exists_firsts {α β : Type} [BEq α] [LawfulBEq α] {R : β → β → Prop} (f : β → α) :
    ∀ {l : List β}, l.Pairwise R →
      ∃ firsts : List β, firsts.Sublist l ∧ firsts.map f = (l.map f).eraseDups ∧
      ∀ e ∈ firsts, ∀ e' ∈ l, f e' = f e → e' = e ∨ R e e'
  | [], _ => ⟨[], .slnil, rfl, nofun⟩
  | b :: l, h => by
    obtain ⟨hb, hl⟩ := List.pairwise_cons.1 h
    -- what follows the first member is told from it by the value
    let later := l.filter fun e => !f e == f b
    have hlater : later.Sublist l := List.filter_sublist
    have : (l.filter fun e => !f e == f b).length < l.length + 1 :=
      Nat.lt_succ_of_le hlater.length_le
    obtain ⟨firsts, hsub, hmap, hfirst⟩ := exists_firsts f (hl.sublist hlater)
    refine ⟨b :: firsts, (hsub.trans hlater).cons_cons b, ?_, List.forall_mem_cons.2 ⟨?_, ?_⟩⟩
    · rw [List.map_cons, List.map_cons, List.eraseDups_cons, hmap, List.filter_map]
      rfl
    · intro e' he' _
      exact (List.mem_cons.1 he').imp_right (hb e')
    · intro e he e' he' heq
      obtain ⟨-, hne⟩ := List.mem_filter.1 (hsub.subset he)
      rw [← heq] at hne
      rcases List.mem_cons.1 he' with rfl | he'
      · simp at hne
      · exact hfirst e he e' (List.mem_filter.2 ⟨he', hne⟩) heq
termination_by l => l.length

/-! ## Two lists side by side -/

theorem exists_of_mem_right {α β : Type} {R : α → β → Prop} {l : List α} {l' : List β}
    (h : List.Forall₂ R l l') {b : β} (hb : b ∈ l') : ∃ a ∈ l, R a b := by
  induction h with
  | nil => simp at hb
  | cons hab _ ih =>
    rcases List.mem_cons.1 hb with rfl | hb
    · exact ⟨_, List.mem_cons_self, hab⟩
    · obtain ⟨a, ha, h⟩ := ih hb
      exact ⟨a, List.mem_cons_of_mem _ ha, h⟩

theorem exists_forall₂_comp {α β γ : Type} {R : α → γ → Prop} {S : γ → β → Prop} {l : List α}
    {l' : List β} (h : List.Forall₂ (fun a b => ∃ c, R a c ∧ S c b) l l') :
    ∃ m, List.Forall₂ R l m ∧ List.Forall₂ S m l' := by
  induction h with
  | nil => exact ⟨[], .nil, .nil⟩
  | cons hab _ ih =>
    obtain ⟨c, hac, hcb⟩ := hab
    obtain ⟨m, hm, hm'⟩ := ih
    exact ⟨c :: m, .cons hac hm, .cons hcb hm'⟩

theorem forall₂_comp {α β γ : Type} {R : α → β → Prop} {S : β → γ → Prop} {T : α → γ → Prop}
    (h : ∀ a b c, R a b → S b c → T a c) {l : List α} {m : List β} (hl : List.Forall₂ R l m) :
    ∀ {l' : List γ}, List.Forall₂ S m l' → List.Forall₂ T l l' := by
  induction hl with
  | nil =>
    intro l' hm
    rw [List.forall₂_nil_left_iff.1 hm]
    exact .nil
  | cons hab _ ih =>
    intro l' hm
    obtain ⟨c, rest, hbc, hrest, rfl⟩ := List.forall₂_cons_left_iff.1 hm
    exact .cons (h _ _ _ hab hbc) (ih hrest)

theorem exists_forall₂_of_forall {α β : Type} {R : α → β → Prop} : ∀ {l : List β},
    (∀ b ∈ l, ∃ a, R a b) → ∃ m, List.Forall₂ R m l
  | [], _ => ⟨[], .nil⟩
  | b :: l, h => by
    obtain ⟨hb, hl⟩ := List.forall_mem_cons.1 h
    obtain ⟨a, ha⟩ := hb
    obtain ⟨m, hm⟩ := exists_forall₂_of_forall hl
    exact ⟨a :: m, .cons ha hm⟩

theorem map_eq_of_forall₂ {α β γ : Type} {f : α → γ} {g : β → γ} {l : List α} {l' : List β}
    (h : List.Forall₂ (fun a b => f a = g b) l l') : l.map f = l'.map g := by
  rwa [← List.forall₂_eq_eq_eq, List.forall₂_map_left_iff, List.forall₂_map_right_iff]

/-! ## Entries found by their keys -/

section

variable {α β : Type} [DecidableEq α]

theorem lookup_cons (a k : α) (b : β) (l : List (α × β)) :
    ((k, b) :: l).lookup a = if a = k then some b else l.lookup a := by
  rw [List.lookup_cons]
  split
  · next h => rw [if_pos (beq_iff_eq.1 h)]
  · next h => rw [if_neg (beq_eq_false_iff_ne.1 h)]

theorem lookup_isSome_iff {l : List (α × β)} {a : α} :
    (l.lookup a).isSome = true ↔ a ∈ l.map (·.1) := by
  rw [List.lookup_isSome_iff, List.mem_map]
  exact exists_congr fun e => and_congr_right fun _ => beq_iff_eq.trans eq_comm

theorem lookup_eq_none_iff {l : List (α × β)} {a : α} : l.lookup a = none ↔ a ∉ l.map (·.1) := by
  rw [← lookup_isSome_iff, Option.not_isSome_iff_eq_none]

omit [DecidableEq α] in
theorem ne_of_not_mem_keys {l : List (α × β)} {a : α} (h : a ∉ l.map (·.1)) {e : α × β}
    (he : e ∈ l) : e.1 ≠ a := by
  rintro rfl
  exact h (List.mem_map_of_mem he)

theorem mem_of_lookup {l : List (α × β)} {a : α} {b : β} (h : l.lookup a = some b) :
    (a, b) ∈ l := by
  obtain ⟨before, after, rfl, -⟩ := List.lookup_eq_some_iff.1 h
  exact List.mem_append_right _ List.mem_cons_self

theorem mem_iff_lookup {l : List (α × β)} (h : (l.map (·.1)).Nodup) {a : α} {b : β} :
    (a, b) ∈ l ↔ l.lookup a = some b := by
  induction l with
  | nil => simp
  | cons e rest ih =>
    obtain ⟨a', b'⟩ := e
    obtain ⟨hfresh, hrest⟩ := List.nodup_cons.1 h
    rw [List.mem_cons, lookup_cons, ih hrest]
    split
    · next he =>
      have hn : rest.lookup a = none := lookup_eq_none_iff.2 (he ▸ hfresh)
      rw [hn, he]
      simp [eq_comm]
    · next he => simp [he]

theorem lookup_of_nodup_append {l l' : List (α × β)} {a : α} {b : β}
    (h : ((l ++ (a, b) :: l').map (·.1)).Nodup) : l.lookup a = none := by
  rw [List.map_append, List.nodup_append'] at h
  exact lookup_eq_none_iff.2 fun hm => h.2.2 hm List.mem_cons_self

theorem lookup_append_fresh {l : List (α × β)} {a : α} (fresh : l.lookup a = none) (b : β)
    (a' : α) : (l ++ [(a, b)]).lookup a' = if a' = a then some b else l.lookup a' := by
  rw [List.lookup_append, lookup_cons, List.lookup_nil]
  split
  · next he => rw [he, fresh]; rfl
  · exact Option.or_none

theorem lookup_filter (l : List (α × β)) (kept : α → Bool) (a : α) :
    (l.filter fun e => kept e.1).lookup a = if kept a then l.lookup a else none := by
  induction l with
  | nil => simp
  | cons e rest ih =>
    obtain ⟨k, b⟩ := e
    rw [List.filter_cons, lookup_cons]
    by_cases he : a = k
    · subst he
      cases hk : kept a with
      | true => simp
      | false => simp [ih, hk]
    · cases kept k with
      | true => simp [lookup_cons, ih, he]
      | false => simp [ih, he]

theorem lookup_filter_ne (l : List (α × β)) (a a' : α) :
    (l.filter (·.1 != a)).lookup a' = if a' = a then none else l.lookup a' := by
  rw [lookup_filter l (· != a)]
  by_cases he : a' = a <;> simp [he]

/-- Where no key occurs twice, the order of the entries does not matter to a lookup. -/
theorem lookup_eq_of_perm {l l' : List (α × β)} (h : (l.map (·.1)).Nodup) (hp : l'.Perm l) (a : α) :
    l'.lookup a = l.lookup a := by
  have h' : (l'.map (·.1)).Nodup := (hp.map _).nodup_iff.2 h
  refine Option.ext fun b => ?_
  rw [← mem_iff_lookup h, ← mem_iff_lookup h', hp.mem_iff]

/-- Where no key occurs twice, the entries of a key are those that a lookup finds. -/
theorem filter_key_eq {l : List (α × β)} (h : (l.map (·.1)).Nodup) (a : α) :
    l.filter (·.1 == a) = ((l.lookup a).map fun b => (a, b)).toList := by
  induction l with
  | nil => rfl
  | cons e rest ih =>
    obtain ⟨k, b⟩ := e
    obtain ⟨hfresh, hrest⟩ := List.nodup_cons.1 h
    rw [List.filter_cons, lookup_cons, ih hrest]
    by_cases he : a = k
    · subst he
      simp [lookup_eq_none_iff.2 hfresh]
    · simp [he, Ne.symm he]

theorem lookup_map_value {γ : Type} (l : List (α × β)) (f : α → β → γ) (a : α) :
    (l.map fun e => (e.1, f e.1 e.2)).lookup a = (l.lookup a).map (f a) := by
  induction l with
  | nil => rfl
  | cons e rest ih =>
    rw [List.map_cons, lookup_cons, lookup_cons, ih]
    split
    · next he => rw [he]; rfl
    · rfl

end

/-! ## Splitting and repeating -/

/-- A list in which a relation fails between two members has a last member that it fails after. -/
theorem exists_split_of_not_pairwise {α : Type} {R : α → α → Prop} :
    ∀ {l : List α}, ¬ l.Pairwise R →
    ∃ before a after, l = before ++ a :: after ∧ after.Pairwise R ∧ ∃ b ∈ after, ¬ R a b
  | [], h => absurd List.Pairwise.nil h
  | a :: rest, h => by
    by_cases hrest : rest.Pairwise R
    · refine ⟨[], a, rest, rfl, hrest, ?_⟩
      by_contra hall
      push Not at hall
      exact h (List.pairwise_cons.2 ⟨hall, hrest⟩)
    · obtain ⟨before, a', after, rfl, hafter⟩ := exists_split_of_not_pairwise hrest
      exact ⟨a :: before, a', after, rfl, hafter⟩

theorem getElem?_replicate_append {α : Type} {n k : Nat} (h : k < n) (a : α) (l : List α) :
    (List.replicate n a ++ l)[k]? = some a := by
  rw [List.getElem?_append_left (by simpa using h), List.getElem?_replicate, if_pos h]

/-! ## Folds -/

/-- A fold forgets what it started from where it comes to a member at which a step does. -/
theorem foldl_eq_of_mem {α β : Type} {step : β → α → β} {a : α} {l : List α} (ha : a ∈ l)
    (h : ∀ b b', step b a = step b' a) (b b' : β) : l.foldl step b = l.foldl step b' := by
  obtain ⟨before, after, rfl⟩ := List.append_of_mem ha
  rw [List.foldl_append, List.foldl_append, List.foldl_cons, List.foldl_cons, h]

end DocumentDb
