/-
  DocumentDb — comparisons that fit together.

  A comparison of texts, numbers or keys is a preorder when it is oriented and any three of its
  results form a `Chain`.  Chains compose level by level (`Chain.thenIf`), which is how values,
  documents and keys are compared, so an order on a tree is shown to be one by one induction.
-/

namespace DocumentDb

/-- The results of comparing `a` with `b`, `b` with `c` and `a` with `c` fit together. -/
def Chain (ab bc ac : Ordering) : Prop :=
  (ab = .eq → ac = bc) ∧ (bc = .eq → ac = ab) ∧ (ab = bc → ac = ab)

instance (ab bc ac : Ordering) : Decidable (Chain ab bc ac) :=
  inferInstanceAs (Decidable (_ ∧ _ ∧ _))

namespace Chain

/-! ## A shortest list comes first -/

theorem eq_left : ∀ o : Ordering, Chain .eq o o := by decide

theorem eq_right : ∀ o : Ordering, Chain o .eq o := by decide

theorem lt_left : ∀ o : Ordering, Chain .lt o .lt := by decide

theorem lt_right : ∀ o : Ordering, Chain o .lt .lt := by decide

theorem gt_left : ∀ o : Ordering, Chain .gt o .gt := by decide

theorem gt_right : ∀ o : Ordering, Chain o .gt .gt := by decide

theorem lt_gt : ∀ o : Ordering, Chain .lt .gt o := by decide

theorem gt_lt : ∀ o : Ordering, Chain .gt .lt o := by decide

/-! ## Level by level -/

/-- The next level counts only where the level above finds all three equal. -/
theorem thenIf : ∀ {ab bc ac ab' bc' ac' : Ordering}, Chain ab bc ac →
    (ab = .eq → bc = .eq → Chain ab' bc' ac') →
    Chain (ab.then ab') (bc.then bc') (ac.then ac') := by decide

theorem swap : ∀ {ab bc ac : Ordering}, Chain ab bc ac → Chain ab.swap bc.swap ac.swap := by decide

/-! ## Chains and preorders -/

theorem isLE_or_isLE_swap : ∀ o : Ordering, o.isLE ∨ o.swap.isLE := by decide

theorem isLE_trans : ∀ {ab bc ac : Ordering}, Chain ab bc ac → ab.isLE → bc.isLE → ac.isLE := by
  decide

theorem lt_trans {ab bc ac : Ordering} (h : Chain ab bc ac) (hab : ab = .lt) (hbc : bc = .lt) :
    ac = .lt := by
  rw [h.2.2 (hab.trans hbc.symm), hab]

theorem of_trans {α : Type} (cmp : α → α → Ordering) [Std.TransCmp cmp] (a b c : α) :
    Chain (cmp a b) (cmp b c) (cmp a c) := by
  refine ⟨Std.TransCmp.congr_left, fun h => (Std.TransCmp.congr_right h).symm, ?_⟩
  intro h
  cases hab : cmp a b with
  | lt => exact Std.TransCmp.lt_trans hab (h ▸ hab)
  | eq => exact Std.TransCmp.eq_trans hab (h ▸ hab)
  | gt => exact Std.TransCmp.gt_trans hab (h ▸ hab)

theorem oriented {α : Type} (cmp : α → α → Ordering) [Std.OrientedCmp cmp] (a b : α) :
    cmp a b = (cmp b a).swap := Std.OrientedCmp.eq_swap

theorem transCmp {α : Type} {cmp : α → α → Ordering} (swap : ∀ a b, cmp a b = (cmp b a).swap)
    (chain : ∀ a b c, Chain (cmp a b) (cmp b c) (cmp a c)) : Std.TransCmp cmp where
  eq_swap := swap _ _
  isLE_trans := (chain _ _ _).isLE_trans

end Chain

end DocumentDb
