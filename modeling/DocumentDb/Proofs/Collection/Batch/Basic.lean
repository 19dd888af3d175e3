/-
  DocumentDb — a batch is handled one item after the other.

  * `Handled does s items outcomes s'`: the items of a batch lead from `s` to `s'`, and what becomes
    of each, at the moment when it is its turn, is given by `does`.  The outcome of an item is the
    id that is written on its account, or none.
  * `BatchReport.Tells`: a report lists the ids written, and the positions of the items that
    were refused.
  * `Handled.preserves` is what all items preserve, `Handled.relate` what an item changes only under
    the id that it writes.
-/
import Mathlib.Data.List.ReduceOption
import DocumentDb.Collection.Write

namespace DocumentDb

/-! ## The run of a batch -/

/-- The items of a batch, handled one after the other, lead from one state to another. -/
inductive Handled {σ α : Type} (does : σ → α → Option String → σ → Prop) :
    σ → List α → List (Option String) → σ → Prop where
  | nil (s : σ) : Handled does s [] [] s
  | cons {s s' s'' : σ} {a : α} {rest : List α} {outcome : Option String}
    {outcomes : List (Option String)} : does s a outcome s' → Handled does s' rest outcomes s'' →
    Handled does s (a :: rest) (outcome :: outcomes) s''

namespace Handled

variable {σ α : Type} {does : σ → α → Option String → σ → Prop} {s s' : σ} {items : List α}
  {outcomes : List (Option String)}

theorem preserves {I : σ → Prop}
    (step : ∀ {s a outcome s'}, does s a outcome s' → I s → I s')
    (h : Handled does s items outcomes s') (hs : I s) : I s' := by
  induction h with
  | nil => exact hs
  | cons hdoes _ ih => exact ih (step hdoes hs)

/-- What every item that does not write an id leaves as it is, a batch that does not write
    it leaves. -/
theorem relate {R : σ → σ → Prop} (refl : ∀ s, R s s)
    (trans : ∀ {s s' s''}, R s s' → R s' s'' → R s s'') {id : String}
    (step : ∀ {s a outcome s'}, does s a outcome s' → outcome ≠ some id → R s s')
    (h : Handled does s items outcomes s') (hid : some id ∉ outcomes) : R s s' := by
  induction h with
  | nil => exact refl _
  | cons hdoes _ ih =>
    obtain ⟨hne, hrest⟩ := not_or.1 fun ho => hid (List.mem_cons.2 ho)
    exact trans (step hdoes (Ne.symm hne)) (ih hrest)

end Handled

/-! ## The report of a batch -/

/-- A report tells the outcomes of the items from a position on: it lists the ids written in their
    order, and each position of an item without one, ascending and once. -/
structure BatchReport.Tells (r : BatchReport) (first : Nat) (outcomes : List (Option String)) :
    Prop where
  accepted : r.accepted = outcomes.reduceOption
  failures : r.failures.map (·.position) = outcomes.idxsOf none first

namespace BatchReport.Tells

variable {r : BatchReport} {first : Nat} {outcomes : List (Option String)}

theorem nil (first : Nat) : Tells {} first [] := ⟨rfl, rfl⟩

theorem accept (h : r.Tells (first + 1) outcomes) (id : String) :
    (r.accept id).Tells first (some id :: outcomes) := by
  refine ⟨?_, ?_⟩
  · rw [List.reduceOption_cons_of_some, ← h.accepted]
    rfl
  · rw [List.idxsOf_cons, if_neg (by simp), ← h.failures]
    rfl

theorem refuse (h : r.Tells (first + 1) outcomes) (id? : Option String) (fault : Fault) :
    (r.refuse ⟨first, id?, fault⟩).Tells first (none :: outcomes) := by
  refine ⟨?_, ?_⟩
  · rw [List.reduceOption_cons_of_none, ← h.accepted]
    rfl
  · rw [List.idxsOf_cons, if_pos (by simp), ← h.failures]
    rfl

theorem mem_accepted_iff (h : r.Tells first outcomes) {id : String} :
    id ∈ r.accepted ↔ some id ∈ outcomes := by
  rw [h.accepted, List.reduceOption_mem_iff]

end BatchReport.Tells

end DocumentDb
