/-
  DocumentDb — the native order is a total preorder.

  * `Value.compare_swap` and `Value.compare_chain`: on values, fields and items together, by
    recursion on the first of them.
  * `==` on values is an equivalence.
-/
import DocumentDb.Proofs.Number.Place
import DocumentDb.Value.Basic

namespace DocumentDb

theorem Kind.rank_injective {k k' : Kind} (h : k.rank = k'.rank) : k = k' := by
  cases k <;> cases k' <;> first | rfl | cases h

theorem Kind.eq_of_compare_rank {k k' : Kind} (h : Ord.compare k.rank k'.rank = .eq) : k = k' :=
  rank_injective (Std.LawfulEqOrd.eq_of_compare h)

namespace Value

theorem compare_of_kind_ne {a b : Value} (h : a.kind ≠ b.kind) :
    a.compare b = Ord.compare a.kind.rank b.kind.rank := by
  cases a <;> cases b <;> first | rfl | simp [kind] at h

/-- Kinds are the first level of the comparison. -/
theorem compare_eq_then (a b : Value) :
    a.compare b = (Ord.compare a.kind.rank b.kind.rank).then (a.compare b) := by
  by_cases h : a.kind = b.kind
  · rw [h, Std.ReflOrd.compare_self, Ordering.eq_then]
  · rw [compare_of_kind_ne h, Ordering.then_self]

theorem kind_eq_of_compare {a b : Value} (h : a.compare b = .eq) : a.kind = b.kind := by
  rw [compare_eq_then, Ordering.then_eq_eq] at h
  exact Kind.eq_of_compare_rank h.1

theorem chain_of_kind {a b c : Value}
    (h : a.kind = b.kind → b.kind = c.kind → Chain (a.compare b) (b.compare c) (a.compare c)) :
    Chain (a.compare b) (b.compare c) (a.compare c) := by
  rw [compare_eq_then a b, compare_eq_then b c, compare_eq_then a c]
  exact Chain.thenIf (Chain.of_trans Ord.compare _ _ _) fun hab hbc =>
    h (Kind.eq_of_compare_rank hab) (Kind.eq_of_compare_rank hbc)

theorem swap_of_kind {a b : Value} (h : a.kind = b.kind → a.compare b = (b.compare a).swap) :
    a.compare b = (b.compare a).swap := by
  by_cases hk : a.kind = b.kind
  · exact h hk
  · rw [compare_of_kind_ne hk, compare_of_kind_ne (Ne.symm hk)]
    exact Chain.oriented Ord.compare _ _

end Value

mutual
theorem Value.compare_swap : ∀ a b : Value, a.compare b = (b.compare a).swap
  | .null, b => Value.swap_of_kind fun hab => by cases b <;> cases hab; rfl
  | .bool x, b => Value.swap_of_kind fun hab => by
    cases b <;> cases hab
    exact Chain.oriented Ord.compare _ _
  | .number m, b => Value.swap_of_kind fun hab => by
    cases b <;> cases hab
    exact Chain.oriented Number.compare _ _
  | .text s, b => Value.swap_of_kind fun hab => by
    cases b <;> cases hab
    exact Chain.oriented Ord.compare _ _
  | .document d, b => Value.swap_of_kind fun hab => by
    cases b <;> cases hab
    exact Fields.compare_swap d _
  | .array l, b => Value.swap_of_kind fun hab => by
    cases b <;> cases hab
    exact Value.compareItems_swap l _
theorem Fields.compare_swap : ∀ {bound bound' : Option String} (d : Fields bound)
    (d' : Fields bound'), d.compare d' = (d'.compare d).swap
  | _, _, .nil, .nil => rfl
  | _, _, .nil, .cons .. => rfl
  | _, _, .cons .., .nil => rfl
  | _, _, .cons key _ value rest, .cons key' _ value' rest' => by
    simp only [Fields.compare, Ordering.swap_then]
    rw [Std.OrientedOrd.eq_swap (a := key), Value.compare_swap value value',
      Fields.compare_swap rest rest']
theorem Value.compareItems_swap : ∀ l l' : List Value,
    Value.compareItems l l' = (Value.compareItems l' l).swap
  | [], [] => rfl
  | [], _ :: _ => rfl
  | _ :: _, [] => rfl
  | value :: rest, value' :: rest' => by
    simp only [Value.compareItems, Ordering.swap_then]
    rw [Value.compare_swap value value', Value.compareItems_swap rest rest']
end

mutual
theorem Value.compare_chain : ∀ a b c : Value, Chain (a.compare b) (b.compare c) (a.compare c)
  | .null, b, c => Value.chain_of_kind fun hab hbc => by
    cases b <;> cases hab
    cases c <;> cases hbc
    exact Chain.eq_left _
  | .bool x, b, c => Value.chain_of_kind fun hab hbc => by
    cases b <;> cases hab
    cases c <;> cases hbc
    exact Chain.of_trans Ord.compare _ _ _
  | .number m, b, c => Value.chain_of_kind fun hab hbc => by
    cases b <;> cases hab
    cases c <;> cases hbc
    exact Chain.of_trans Number.compare _ _ _
  | .text s, b, c => Value.chain_of_kind fun hab hbc => by
    cases b <;> cases hab
    cases c <;> cases hbc
    exact Chain.of_trans Ord.compare _ _ _
  | .document d, b, c => Value.chain_of_kind fun hab hbc => by
    cases b <;> cases hab
    cases c <;> cases hbc
    exact Fields.compare_chain d _ _
  | .array l, b, c => Value.chain_of_kind fun hab hbc => by
    cases b <;> cases hab
    cases c <;> cases hbc
    exact Value.compareItems_chain l _ _
theorem Fields.compare_chain : ∀ {bound bound' bound'' : Option String} (d : Fields bound)
    (d' : Fields bound') (d'' : Fields bound''),
    Chain (d.compare d') (d'.compare d'') (d.compare d'')
  | _, _, _, .nil, .nil, .nil => Chain.eq_left _
  | _, _, _, .nil, .nil, .cons .. => Chain.eq_left _
  | _, _, _, .nil, .cons .., .nil => Chain.lt_gt _
  | _, _, _, .nil, .cons .., .cons .. => Chain.lt_left _
  | _, _, _, .cons .., .nil, .nil => Chain.eq_right _
  | _, _, _, .cons .., .nil, .cons .. => Chain.gt_lt _
  | _, _, _, .cons .., .cons .., .nil => Chain.gt_right _
  | _, _, _, .cons key _ value rest, .cons key' _ value' rest', .cons key'' _ value'' rest'' =>
    Chain.thenIf (Chain.of_trans Ord.compare key key' key'') fun _ _ =>
      Chain.thenIf (Value.compare_chain value value' value'') fun _ _ =>
        Fields.compare_chain rest rest' rest''
theorem Value.compareItems_chain : ∀ l l' l'' : List Value,
    Chain (Value.compareItems l l') (Value.compareItems l' l'') (Value.compareItems l l'')
  | [], [], [] => Chain.eq_left _
  | [], [], _ :: _ => Chain.eq_left _
  | [], _ :: _, [] => Chain.lt_gt _
  | [], _ :: _, _ :: _ => Chain.lt_left _
  | _ :: _, [], [] => Chain.eq_right _
  | _ :: _, [], _ :: _ => Chain.gt_lt _
  | _ :: _, _ :: _, [] => Chain.gt_right _
  | value :: rest, value' :: rest', value'' :: rest'' =>
    Chain.thenIf (Value.compare_chain value value' value'') fun _ _ =>
      Value.compareItems_chain rest rest' rest''
end

/-- **The native order is a total preorder.** -/
instance : Std.TransCmp Value.compare := Chain.transCmp Value.compare_swap Value.compare_chain

namespace Value

theorem beq_iff {a b : Value} : (a == b) = true ↔ a.compare b = .eq :=
  beq_iff_eq (a := a.compare b)

instance : EquivBEq Value where
  rfl := beq_iff.2 Std.ReflCmp.compare_self
  symm h := beq_iff.2 (Std.OrientedCmp.eq_symm (beq_iff.1 h))
  trans h h' := beq_iff.2 (Std.TransCmp.eq_trans (beq_iff.1 h) (beq_iff.1 h'))

theorem kind_eq_of_beq {a b : Value} (h : (a == b) = true) : a.kind = b.kind :=
  kind_eq_of_compare (beq_iff.1 h)

theorem beq_null {a : Value} : (a == .null) = true ↔ a = .null := by
  refine ⟨fun h => ?_, fun h => h ▸ BEq.rfl⟩
  have := kind_eq_of_beq h
  cases a <;> first | rfl | cases this

theorem beq_text {s t : String} : (Value.text s == .text t) = true ↔ s = t := by
  rw [beq_iff, Value.compare]
  exact Std.LawfulEqOrd.compare_eq_iff_eq

end Value

end DocumentDb
