/-
  DocumentDb — the index order is a total preorder with the equality of the native order.

  The order of a locale enters only by being a preorder: with ties broken by code point two texts
  are equal in collation order when they are the same text.  Where null is the least value, values
  of different kinds compare as in the native order.

  * `Value.collate_swap` holds with either place of null; `Value.collate_chain` and `collate_eq_iff`
    need null to be the least.
  * **`Value.collate_total_order`** puts them together.
-/
import DocumentDb.Proofs.Value.Order
import DocumentDb.Value.Collated

namespace DocumentDb

/-! ## Texts -/

namespace Collation

section
variable [Collator]

/-- Whatever the locale, only a text itself is equal to it. -/
theorem eq_of_compare {a b : String} (h : compare a b = .eq) : a = b :=
  Std.LawfulEqOrd.eq_of_compare (Ordering.then_eq_eq.1 h).2

theorem compare_eq_iff [Std.ReflCmp Collator.weigh] {a b : String} : compare a b = .eq ↔ a = b := by
  refine ⟨eq_of_compare, fun h => ?_⟩
  subst h
  exact Ordering.then_eq_eq.2 ⟨Std.ReflCmp.compare_self, Std.ReflCmp.compare_self⟩

instance [Std.TransCmp Collator.weigh] : Std.TransCmp compare :=
  inferInstanceAs (Std.TransCmp (compareLex Collator.weigh Ord.compare))

end

/-- The root locale orders texts by their weights. -/
instance : Std.TransCmp (@Collator.weigh root) :=
  inferInstanceAs (Std.TransCmp (compareLex (compareOn fun s => (sortKey s).1)
    (compareLex (compareOn fun s => (sortKey s).2.1) (compareOn fun s => (sortKey s).2.2))))

end Collation

/-! ## Values -/

section
variable [Collator]

namespace Value

theorem collate_of_kind_ne {a b : Value} (h : a.kind ≠ b.kind) :
    a.collate true b = a.compare b := by
  cases a <;> cases b <;> first | rfl | simp [kind] at h

theorem collate_eq_then (a b : Value) :
    a.collate true b = (Ord.compare a.kind.rank b.kind.rank).then (a.collate true b) := by
  by_cases h : a.kind = b.kind
  · rw [h, Std.ReflOrd.compare_self, Ordering.eq_then]
  · rw [collate_of_kind_ne h, compare_of_kind_ne h, Ordering.then_self]

theorem collate_chain_of_kind {a b c : Value}
    (h : a.kind = b.kind → b.kind = c.kind →
      Chain (a.collate true b) (b.collate true c) (a.collate true c)) :
    Chain (a.collate true b) (b.collate true c) (a.collate true c) := by
  rw [collate_eq_then a b, collate_eq_then b c, collate_eq_then a c]
  exact Chain.thenIf (Chain.of_trans Ord.compare _ _ _) fun hab hbc =>
    h (Kind.eq_of_compare_rank hab) (Kind.eq_of_compare_rank hbc)

variable {missingFirst : Bool}

theorem collate_swap_of_kind_ne {a b : Value} (h : a.kind ≠ b.kind) :
    a.collate missingFirst b = (b.collate missingFirst a).swap := by
  cases a <;> cases b <;>
    first | exact absurd rfl h | (cases missingFirst <;> rfl)

theorem collate_swap_of_kind {a b : Value}
    (h : a.kind = b.kind → a.collate missingFirst b = (b.collate missingFirst a).swap) :
    a.collate missingFirst b = (b.collate missingFirst a).swap := by
  by_cases hk : a.kind = b.kind
  · exact h hk
  · exact collate_swap_of_kind_ne hk

end Value

mutual
theorem Value.collate_swap [Std.TransCmp Collator.weigh] {missingFirst : Bool} :
    ∀ a b : Value, a.collate missingFirst b = (b.collate missingFirst a).swap
  | .null, b => Value.collate_swap_of_kind fun hab => by cases b <;> cases hab; rfl
  | .bool x, b => Value.collate_swap_of_kind fun hab => by
    cases b <;> cases hab
    exact Chain.oriented Ord.compare _ _
  | .number m, b => Value.collate_swap_of_kind fun hab => by
    cases b <;> cases hab
    exact Chain.oriented Number.compare _ _
  | .text s, b => Value.collate_swap_of_kind fun hab => by
    cases b <;> cases hab
    exact Chain.oriented Collation.compare _ _
  | .document d, b => Value.collate_swap_of_kind fun hab => by
    cases b <;> cases hab
    exact Fields.compare_swap d _
  | .array l, b => Value.collate_swap_of_kind fun hab => by
    cases b <;> cases hab
    exact Value.collateItems_swap l _
theorem Value.collateItems_swap [Std.TransCmp Collator.weigh] {missingFirst : Bool} :
    ∀ l l' : List Value,
      Value.collateItems missingFirst l l' = (Value.collateItems missingFirst l' l).swap
  | [], [] => rfl
  | [], _ :: _ => rfl
  | _ :: _, [] => rfl
  | value :: rest, value' :: rest' => by
    simp only [Value.collateItems, Ordering.swap_then]
    rw [Value.collate_swap value value', Value.collateItems_swap rest rest']
end

mutual
theorem Value.collate_chain [Std.TransCmp Collator.weigh] : ∀ a b c : Value,
    Chain (a.collate true b) (b.collate true c) (a.collate true c)
  | .null, b, c => Value.collate_chain_of_kind fun hab hbc => by
    cases b <;> cases hab
    cases c <;> cases hbc
    exact Chain.eq_left _
  | .bool x, b, c => Value.collate_chain_of_kind fun hab hbc => by
    cases b <;> cases hab
    cases c <;> cases hbc
    exact Chain.of_trans Ord.compare _ _ _
  | .number m, b, c => Value.collate_chain_of_kind fun hab hbc => by
    cases b <;> cases hab
    cases c <;> cases hbc
    exact Chain.of_trans Number.compare _ _ _
  | .text s, b, c => Value.collate_chain_of_kind fun hab hbc => by
    cases b <;> cases hab
    cases c <;> cases hbc
    exact Chain.of_trans Collation.compare _ _ _
  | .document d, b, c => Value.collate_chain_of_kind fun hab hbc => by
    cases b <;> cases hab
    cases c <;> cases hbc
    exact Fields.compare_chain d _ _
  | .array l, b, c => Value.collate_chain_of_kind fun hab hbc => by
    cases b <;> cases hab
    cases c <;> cases hbc
    exact Value.collateItems_chain l _ _
theorem Value.collateItems_chain [Std.TransCmp Collator.weigh] : ∀ l l' l'' : List Value,
    Chain (Value.collateItems true l l') (Value.collateItems true l' l'')
      (Value.collateItems true l l'')
  | [], [], [] => Chain.eq_left _
  | [], [], _ :: _ => Chain.eq_left _
  | [], _ :: _, [] => Chain.lt_gt _
  | [], _ :: _, _ :: _ => Chain.lt_left _
  | _ :: _, [], [] => Chain.eq_right _
  | _ :: _, [], _ :: _ => Chain.gt_lt _
  | _ :: _, _ :: _, [] => Chain.gt_right _
  | value :: rest, value' :: rest', value'' :: rest'' =>
    Chain.thenIf (Value.collate_chain value value' value'') fun _ _ =>
      Value.collateItems_chain rest rest' rest''
end

/-- **The index order is a total preorder.** -/
instance [Std.TransCmp Collator.weigh] : Std.TransCmp (Value.collate true) :=
  Chain.transCmp Value.collate_swap Value.collate_chain

mutual
/-- Whatever the locale, values that are equal in index order are so in native order. -/
theorem Value.compare_of_collate : ∀ {a b : Value}, a.collate true b = .eq → a.compare b = .eq
  | .text s, b, h => by
    cases b with
    | text t => exact Std.LawfulEqOrd.compare_eq_iff_eq.2 (Collation.eq_of_compare h)
    | _ => exact h
  | .array l, b, h => by
    cases b with
    | array l' => exact Value.compareItems_of_collateItems h
    | _ => exact h
  | .null, b, h | .bool _, b, h | .number _, b, h | .document _, b, h => by cases b <;> exact h
theorem Value.compareItems_of_collateItems : ∀ {l l' : List Value},
    Value.collateItems true l l' = .eq → Value.compareItems l l' = .eq
  | [], [], _ => rfl
  | value :: rest, value' :: rest', h => by
    rw [Value.collateItems, Ordering.then_eq_eq] at h
    rw [Value.compareItems, Ordering.then_eq_eq]
    exact ⟨Value.compare_of_collate h.1, Value.compareItems_of_collateItems h.2⟩
end

mutual
theorem Value.collate_eq_iff [Std.TransCmp Collator.weigh] :
    ∀ {a b : Value}, a.collate true b = .eq ↔ a.compare b = .eq
  | .text s, b => by
    cases b with
    | text t =>
      exact Collation.compare_eq_iff.trans Std.LawfulEqOrd.compare_eq_iff_eq.symm
    | _ => exact Iff.rfl
  | .array l, b => by
    cases b with
    | array l' => exact Value.collateItems_eq_iff
    | _ => exact Iff.rfl
  | .null, b => by cases b <;> exact Iff.rfl
  | .bool _, b => by cases b <;> exact Iff.rfl
  | .number _, b => by cases b <;> exact Iff.rfl
  | .document _, b => by cases b <;> exact Iff.rfl
theorem Value.collateItems_eq_iff [Std.TransCmp Collator.weigh] : ∀ {l l' : List Value},
    Value.collateItems true l l' = .eq ↔ Value.compareItems l l' = .eq
  | [], [] => Iff.rfl
  | [], _ :: _ => Iff.rfl
  | _ :: _, [] => Iff.rfl
  | value :: rest, value' :: rest' => by
    simp only [Value.collateItems, Value.compareItems, Ordering.then_eq_eq]
    exact and_congr Value.collate_eq_iff Value.collateItems_eq_iff
end

theorem Value.collate_eq_iff_beq [Std.TransCmp Collator.weigh] {a b : Value} :
    a.collate true b = .eq ↔ (a == b) = true :=
  Value.collate_eq_iff.trans Value.beq_iff.symm

/-- **The index order is a total order of all values, and its equality is that of the native
    order.**  Whether null comes first or is equal to everything, the other way round the
    result is reversed. -/
theorem Value.collate_total_order [Std.TransCmp Collator.weigh] :
    (∀ a : Value, a.collate true a = .eq) ∧
    (∀ a b : Value, (a.collate true b).isLE ∨ (b.collate true a).isLE) ∧
    (∀ a b : Value, (a.collate true b).isLE → (b.collate true a).isLE → (a == b) = true) ∧
    (∀ a b c : Value, (a.collate true b).isLE → (b.collate true c).isLE → (a.collate true c).isLE) ∧
    (∀ a b : Value, a.collate true b = .eq ↔ (a == b) = true) ∧
    ∀ (missingFirst : Bool) (a b : Value),
      b.collate missingFirst a = (a.collate missingFirst b).swap := by
  refine ⟨fun a => Std.ReflCmp.compare_self, fun a b => ?_, fun a b hab hba => ?_,
    fun a b c => Std.TransCmp.isLE_trans, fun a b => collate_eq_iff_beq,
    fun missingFirst a b => collate_swap b a⟩
  · rw [collate_swap b a]
    exact Chain.isLE_or_isLE_swap _
  · rw [collate_swap b a] at hba
    exact collate_eq_iff_beq.1 (Ordering.eq_eq_of_isLE_of_isLE_swap hab hba)

end

/-- By code point, the upper-case letter would come first. -/
def apples : Value := .array [.text "apple", .null]

def bananas : Value := .array [.text "Banana", .int 1]

/-- The same with the number in its other form. -/
def floatBananas : Value := .array [.text "Banana", .float ⟨0x3ff0000000000000⟩]

theorem fruit_total_order :
    ((apples.collate true bananas).isLE ∧ (bananas.collate true floatBananas).isLE ∧
      (apples.collate true floatBananas).isLE) ∧
    (floatBananas.collate true bananas).isLE ∧ (bananas == floatBananas) = true := by
  have hfirst : (apples.collate true bananas).isLE := by decide +kernel
  have hthen : (bananas.collate true floatBananas).isLE := by decide +kernel
  have hback : (floatBananas.collate true bananas).isLE := by decide +kernel
  obtain ⟨-, -, hantisymm, htrans, -, -⟩ := Value.collate_total_order
  exact ⟨⟨hfirst, hthen, htrans _ _ _ hfirst hthen⟩, hback, hantisymm _ _ hthen hback⟩

end DocumentDb
