/-
  DocumentDb — computations that may end with a fault.

  One law for each way in which such computations are put together: what it takes to succeed, and
  where a fault comes from.
-/
import DocumentDb.Fault
import Mathlib.Data.List.Forall2

namespace DocumentDb

variable {α β : Type}

theorem bind_eq_ok_iff {x : Except Fault α} {f : α → Except Fault β} {b : β} :
    x >>= f = .ok b ↔ ∃ a, x = .ok a ∧ f a = .ok b := by
  cases x with
  | error fault => simp [bind, Except.bind]
  | ok a => simp [bind, Except.bind]

theorem bind_eq_error_iff {x : Except Fault α} {f : α → Except Fault β} {fault : Fault} :
    x >>= f = .error fault ↔ x = .error fault ∨ ∃ a, x = .ok a ∧ f a = .error fault := by
  cases x with
  | error fault => simp [bind, Except.bind]
  | ok a => simp [bind, Except.bind]

theorem map_eq_ok_iff {x : Except Fault α} {f : α → β} {b : β} :
    x.map f = .ok b ↔ ∃ a, x = .ok a ∧ f a = b := by
  cases x with
  | error fault => simp [Except.map]
  | ok a => simp [Except.map]

theorem map_eq_error_iff {x : Except Fault α} {f : α → β} {fault : Fault} :
    x.map f = .error fault ↔ x = .error fault := by
  cases x with
  | error fault => simp [Except.map]
  | ok a => simp [Except.map]

theorem exists_of_toOption_map {x : Except Fault α} {f : α → β} {b : β}
    (h : x.toOption.map f = some b) : ∃ a, x = .ok a ∧ f a = b := by
  cases x with
  | error fault => cases h
  | ok a => exact ⟨a, rfl, Option.some.inj h⟩

theorem forM_eq_ok_iff {f : α → Except Fault Unit} : ∀ {l : List α},
    l.forM f = .ok () ↔ ∀ a ∈ l, f a = .ok ()
  | [] => by simp [pure, Except.pure]
  | a :: l => by
    show (f a >>= fun _ => l.forM f) = .ok () ↔ _
    rw [bind_eq_ok_iff, List.forall_mem_cons]
    constructor
    · rintro ⟨u, ha, hl⟩
      exact ⟨ha, forM_eq_ok_iff.1 hl⟩
    · rintro ⟨ha, hl⟩
      exact ⟨(), ha, forM_eq_ok_iff.2 hl⟩

theorem mapM_eq_ok_iff {f : α → Except Fault β} : ∀ {l : List α} {l' : List β},
    l.mapM f = .ok l' ↔ List.Forall₂ (fun a b => f a = .ok b) l l'
  | [], l' => by simp [pure, Except.pure, eq_comm]
  | a :: l, l' => by
    rw [List.mapM_cons, bind_eq_ok_iff, List.forall₂_cons_left_iff]
    constructor
    · rintro ⟨b, hb, h⟩
      obtain ⟨rest, hrest, he⟩ := bind_eq_ok_iff.1 h
      exact ⟨b, rest, hb, mapM_eq_ok_iff.1 hrest, (Except.ok.inj he).symm⟩
    · rintro ⟨b, rest, hb, hrest, rfl⟩
      exact ⟨b, hb, bind_eq_ok_iff.2 ⟨rest, mapM_eq_ok_iff.2 hrest, rfl⟩⟩

theorem exists_of_forM_eq_error {f : α → Except Fault Unit} {fault : Fault} : ∀ {l : List α},
    l.forM f = .error fault → ∃ a ∈ l, f a = .error fault
  | a :: l, h => by
    have hbind : (f a >>= fun _ => l.forM f) = .error fault := h
    cases ha : f a with
    | error fault' =>
      rw [ha] at hbind
      exact ⟨a, List.mem_cons_self, ha.trans hbind⟩
    | ok u =>
      rw [ha] at hbind
      obtain ⟨b, hb, hfb⟩ := exists_of_forM_eq_error hbind
      exact ⟨b, List.mem_cons_of_mem _ hb, hfb⟩

end DocumentDb
