/-
  DocumentDb — one entry of a document.

  * A function of fields that looks for one key is what it makes of the value under the key
    (`eq_elim_field?`): so do reading, realizing and matching at a path (`at_of_field?`,
    `walk_of_field?`, `reach_of_field?`).
  * The list of the entries has an entry just when it is under its key (`mem_toList_iff`,
    `lookup_toList`).
  * Equal fields have equal values under the same keys (`field?_of_beq`).
-/
import DocumentDb.Document.Access
import DocumentDb.Filter.Match
import DocumentDb.Key.Realize
import DocumentDb.Proofs.Lists
import DocumentDb.Proofs.Value.Order

namespace DocumentDb

namespace Fields

/-! ## The value under one key -/

theorem eq_elim_field? {β : Type} {wanted : String} {f : Value → β} {absent : β}
    {g : (bound : Option String) → Fields bound → β} (hnil : ∀ bound, g bound .nil = absent)
    (hcons : ∀ bound key follows value rest, g bound (.cons key follows value rest) =
      if key = wanted then f value else g (some key) rest) {bound : Option String}
      (d : Fields bound) :
    g bound d = (d.field? wanted).elim absent f := by
  induction d using Fields.ind with
  | nil => exact hnil _
  | cons key follows value rest ih =>
    rw [hcons, field?]
    split
    · rfl
    · exact ih

variable {bound : Option String} (d : Fields bound) (key : String) (path : List String)

theorem at_of_field? : d.at key path = (d.field? key).elim .null (·.at path) :=
  eq_elim_field? (g := fun _ d => d.at key path) (fun _ => rfl)
    (fun _ _ _ _ _ => by rw [Fields.at]) d

theorem walk_of_field? : d.walk key path = (d.field? key).elim [] (·.walk path) :=
  eq_elim_field? (g := fun _ d => d.walk key path) (fun _ => rfl) (fun _ _ _ _ _ => by rw [walk]) d

theorem reach_of_field? : d.reach key path = (d.field? key).elim [] (·.reach path) :=
  eq_elim_field? (g := fun _ d => d.reach key path) (fun _ => rfl)
    (fun _ _ _ _ _ => by rw [reach]) d

theorem hasKey_eq_false_iff {d : Fields bound} {key : String} : d.hasKey key = false ↔
    d.field? key = none :=
  Option.isSome_eq_false_iff.trans Option.isNone_iff_eq_none

/-- An entry after the first one is found behind it. -/
theorem field?_cons_of_rest {first later : String} (h : Follows bound first) {value value' : Value}
    {rest : Fields (some first)} (hv : rest.field? later = some value') :
    (cons first h value rest).field? later = some value' := by
  rw [field?, if_neg (String.ne_of_lt (rest.follows_of_field? hv)), hv]

/-! ## The list of entries -/

theorem mem_toList_iff {d : Fields bound} {key : String} {value : Value} :
    (key, value) ∈ d.toList ↔ d.field? key = some value := by
  induction d using Fields.ind with
  | nil => simp [toList, field?]
  | cons key' _ value' rest ih =>
    rw [toList, List.mem_cons, field?, ih]
    split
    · next he =>
      subst he
      rw [field?_self]
      simp [eq_comm]
    · next he => simp [Ne.symm he]

theorem lookup_toList : d.toList.lookup key = d.field? key := by
  induction d using Fields.ind with
  | nil => rfl
  | cons key' _ value rest ih =>
    rw [toList, field?, lookup_cons, ih]
    simp only [eq_comm]

/-! ## Equal fields -/

/-- Equal fields have equal values under the same keys. -/
theorem field?_of_beq : ∀ {bound bound' : Option String} {d : Fields bound} {d' : Fields bound'}
    {key : String} {value : Value}, d.compare d' = .eq → d.field? key = some value →
    ∃ value', d'.field? key = some value' ∧ (value == value') = true
  | _, _, .cons first _ value rest, .cons first' _ value' rest', key, found, h, hf => by
    rw [Fields.compare, Ordering.then_eq_eq, Ordering.then_eq_eq] at h
    obtain ⟨hfirst, hvalue, hrest⟩ := h
    have hsame : first = first' := Std.LawfulEqOrd.eq_of_compare hfirst
    rw [field?] at hf ⊢
    split at hf
    · next he =>
      cases hf
      rw [if_pos (hsame.symm.trans he)]
      exact ⟨value', rfl, Value.beq_iff.2 hvalue⟩
    · next he =>
      rw [if_neg fun he' => he (hsame.trans he')]
      exact field?_of_beq hrest hf

end Fields

/-! ## Induction -/

mutual
/-- What holds of every value that is no document, and of a document if it does of the values under
    its keys, holds of all values. -/
@[elab_as_elim] theorem Value.ind_fields {motive : Value → Prop}
    (leaf : ∀ value, (∀ d, value ≠ .document d) → motive value)
    (document : ∀ d : Document, (∀ key value, d.field? key = some value → motive value) →
      motive (.document d)) : ∀ value, motive value
  | .document d => document d fun _ _ hv => Fields.ind_values leaf document d hv
  | .null | .bool _ | .number _ | .text _ | .array _ => leaf _ nofun
theorem Fields.ind_values {motive : Value → Prop}
    (leaf : ∀ value, (∀ d, value ≠ .document d) → motive value)
    (document : ∀ d : Document, (∀ key value, d.field? key = some value → motive value) →
      motive (.document d)) :
      ∀ {bound : Option String} (d : Fields bound) {key : String} {value : Value},
    d.field? key = some value → motive value
  | _, .nil, _, _, hv => by cases hv
  | _, .cons first _ value rest, key, _, hv => by
    rw [Fields.field?] at hv
    split at hv
    · cases hv
      exact Value.ind_fields leaf document value
    · exact Fields.ind_values leaf document rest hv
end

end DocumentDb
