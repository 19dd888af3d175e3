/-
  DocumentDb — the odometer makes every key once.

  * `Realization.Yields`: the keys that a generator makes, one after the other, before it ends.
  * `Realization.positions` are the positions that the odometer can show, in lexicographic order,
    and `Realization.ahead` those that it shows from a given one on.  One step moves it to the next
    of them (`advance_spec`), so a run goes through all that are ahead (`yields_ahead`).
  * The generator of a document makes the keys that an index works with (`KeySpec.realize_yields`).
    **`KeySpec.realize_makes_each_choice`**: these are one key for each choice of one value per key
    field, in lexicographic order of the choices.
-/
import DocumentDb.Proofs.Key.Realize

namespace DocumentDb

namespace Realization

/-- A generator makes the given keys, one after the other, and then ends. -/
inductive Yields : Realization → List CompositeKey → Prop
  | done {r} : r.next? = none → Yields r []
  | next {r key r' keys} : r.next? = some (key, r') → Yields r' keys → Yields r (key :: keys)

/-- A generator makes no other keys than those that it makes. -/
theorem Yields.unique {r : Realization} {keys keys' : List CompositeKey} (h : r.Yields keys)
    (h' : r.Yields keys') : keys = keys' := by
  induction h generalizing keys' with
  | done hend =>
    cases h' with
    | done => rfl
    | next hnext _ =>
      rw [hend] at hnext
      cases hnext
  | next hnext _ ih =>
    cases h' with
    | done hend =>
      rw [hend] at hnext
      cases hnext
    | next hnext' hrest =>
      rw [hnext] at hnext'
      cases hnext'
      rw [ih hrest]

/-- The key of the choice at given positions. -/
def keyAt (fields : List KeyChoice) (cursor : List Nat) : CompositeKey :=
  ⟨(fields.zip cursor).map fun (choice, position) =>
    ⟨choice.values[position]?.getD .null, choice.direction⟩⟩

/-! ## Positions -/

/-- One position among the values of each field. -/
def InRange (fields : List KeyChoice) (cursor : List Nat) : Prop :=
  List.Forall₂ (fun choice position => position < choice.values.length) fields cursor

/-- All positions, in lexicographic order. -/
def positions : List KeyChoice → List (List Nat)
  | [] => [[]]
  | choice :: fields =>
    (List.range choice.values.length).flatMap fun position => (positions fields).map (position :: ·)

theorem mem_positions : ∀ {fields : List KeyChoice} {cursor : List Nat},
    cursor ∈ positions fields ↔ InRange fields cursor
  | [], cursor => by simp [positions, InRange]
  | choice :: fields, cursor => by
    simp only [positions, InRange, List.mem_flatMap, List.mem_map, List.mem_range,
      List.forall₂_cons_left_iff]
    constructor
    · rintro ⟨position, hp, rest, hr, rfl⟩
      exact ⟨position, rest, hp, mem_positions.1 hr, rfl⟩
    · rintro ⟨position, rest, hp, hr, rfl⟩
      exact ⟨position, hp, rest, mem_positions.2 hr, rfl⟩

/-- Earlier fields vary more slowly. -/
theorem positions_ascending : ∀ fields : List KeyChoice, (positions fields).Pairwise (· < ·)
  | [] => List.pairwise_singleton _ _
  | choice :: fields => by
    rw [positions, List.pairwise_flatMap]
    constructor
    · intro position _
      refine List.pairwise_map.2 ((positions_ascending fields).imp fun h => ?_)
      exact List.cons_lt_cons_iff.2 (Or.inr ⟨rfl, h⟩)
    · refine List.pairwise_lt_range.imp fun {position later} hlt => ?_
      intro cursor hc cursor' hc'
      obtain ⟨rest, -, rfl⟩ := List.mem_map.1 hc
      obtain ⟨rest', -, rfl⟩ := List.mem_map.1 hc'
      exact List.cons_lt_cons_iff.2 (Or.inl hlt)

/-- The keys at all positions are the choices of one part per field. -/
theorem map_keyAt_positions : ∀ fields : List KeyChoice,
    (positions fields).map (fun cursor => (keyAt fields cursor).parts) = KeyChoice.product fields
  | [] => rfl
  | choice :: fields => by
    have hparts : choice.parts = (List.range choice.values.length).map fun position =>
        ⟨choice.values[position]?.getD .null, choice.direction⟩ := by
      refine List.ext_getElem (by simp [KeyChoice.parts]) fun position hp _ => ?_
      have hlt : position < choice.values.length := by simpa [KeyChoice.parts] using hp
      simp [KeyChoice.parts, hlt]
    rw [positions, KeyChoice.product, hparts, ← map_keyAt_positions fields, List.map_flatMap,
      List.flatMap_map]
    refine List.flatMap_congr fun position _ => ?_
    rw [List.map_map, List.map_map]
    rfl

/-! ## One step -/

/-- The first positions, to which the odometer goes round. -/
def origin (fields : List KeyChoice) : List Nat := fields.map fun _ => 0

/-- The positions that the odometer shows from a given one on: those of the later fields run
    out first. -/
def ahead : List KeyChoice → List Nat → List (List Nat)
  | choice :: fields, position :: cursor =>
    (ahead fields cursor).map (position :: ·) ++
      (List.range' (position + 1) (choice.values.length - (position + 1))).flatMap fun later =>
        (ahead fields (origin fields)).map (later :: ·)
  | _, _ => [[]]

theorem inRange_origin {fields : List KeyChoice} (h : ∀ choice ∈ fields, choice.values ≠ []) :
    InRange fields (origin fields) := by
  refine List.forall₂_map_right_iff.2 (List.forall₂_same.2 fun choice hc => ?_)
  exact List.length_pos_of_ne_nil (h choice hc)

/-- A field with a position has values. -/
theorem InRange.values_ne_nil {fields : List KeyChoice} {cursor : List Nat}
    (h : InRange fields cursor) : ∀ choice ∈ fields, choice.values ≠ [] := by
  induction h with
  | nil => exact nofun
  | cons hp _ ih =>
    exact List.forall_mem_cons.2 ⟨List.ne_nil_of_length_pos (Nat.zero_lt_of_lt hp), ih⟩

/-- From the first positions on all positions are shown. -/
theorem ahead_origin : ∀ {fields : List KeyChoice}, (∀ choice ∈ fields, choice.values ≠ []) →
    ahead fields (origin fields) = positions fields
  | [], _ => rfl
  | choice :: fields, h => by
    obtain ⟨hfirst, hrest⟩ := List.forall_mem_cons.1 h
    obtain ⟨n, hn⟩ := Nat.exists_eq_add_one.2 (List.length_pos_of_ne_nil hfirst)
    rw [origin, List.map_cons, ahead, ← origin, ahead_origin hrest, positions, hn,
      List.range_eq_range', List.range'_succ, List.flatMap_cons]
    rfl

/-- **A step leads to the next positions.**  It goes round where none are ahead. -/
theorem advance_spec : ∀ {fields : List KeyChoice} {cursor : List Nat}, InRange fields cursor →
    (∃ cursor', advance fields cursor = (cursor', false) ∧ InRange fields cursor' ∧
      ahead fields cursor = cursor :: ahead fields cursor') ∨
    (advance fields cursor = (origin fields, true) ∧ ahead fields cursor = [cursor])
  | [], _, .nil => Or.inr ⟨rfl, rfl⟩
  | choice :: fields, position :: cursor, .cons hp hc => by
    rw [ahead, advance]
    rcases advance_spec hc with ⟨cursor', ha, hc', hahead⟩ | ⟨ha, hahead⟩
    · -- a later field has a next position
      refine Or.inl ⟨position :: cursor', by rw [ha], .cons hp hc', ?_⟩
      rw [hahead, ahead]
      rfl
    · rw [ha, hahead]
      by_cases hlt : position + 1 < choice.values.length
      · refine Or.inl ⟨(position + 1) :: origin fields, by simp [hlt], ?_, ?_⟩
        · exact .cons hlt (inRange_origin (InRange.values_ne_nil hc))
        · obtain ⟨n, hn⟩ := Nat.exists_eq_add_of_lt hlt
          have hleft : choice.values.length - (position + 1) =
              choice.values.length - (position + 1 + 1) + 1 := by omega
          rw [ahead, hleft, List.range'_succ, List.flatMap_cons]
          rfl
      · refine Or.inr ⟨by simp [hlt, origin], ?_⟩
        have hlast : choice.values.length - (position + 1) = 0 := by omega
        rw [hlast]
        rfl

/-! ## A run -/

theorem ahead_ne_nil : ∀ (fields : List KeyChoice) (cursor : List Nat), ahead fields cursor ≠ []
  | [], _ => List.cons_ne_nil _ _
  | _ :: _, [] => List.cons_ne_nil _ _
  | choice :: fields, position :: cursor => by
    simp [ahead, ahead_ne_nil fields cursor]

/-- **From any positions on a generator makes the keys of all that are ahead, and then ends.** -/
theorem yields_ahead : ∀ {shown : List (List Nat)} {r : Realization}, r.exhausted = false →
    InRange r.fields r.cursor → ahead r.fields r.cursor = shown →
    r.Yields (shown.map (keyAt r.fields))
  | [], r, _, _, h => absurd h (ahead_ne_nil _ _)
  | cursor :: shown, r, hr, hc, h => by
    rcases advance_spec hc with ⟨cursor', ha, hc', hahead⟩ | ⟨ha, hahead⟩
    · obtain ⟨rfl, hshown⟩ := List.cons.inj (hahead.symm.trans h)
      have hnext : r.next? =
          some (r.current, { r with cursor := cursor', exhausted := false }) := by
        rw [next?, hr, ha]
        rfl
      exact .next hnext
        (yields_ahead (r := { r with cursor := cursor', exhausted := false }) rfl hc' hshown)
    · obtain ⟨rfl, rfl⟩ := List.cons.inj (hahead.symm.trans h)
      have hnext : r.next? =
          some (r.current, { r with cursor := origin r.fields, exhausted := true }) := by
        rw [next?, hr, ha]
        rfl
      exact .next hnext (.done rfl)

/-- A fresh generator of fields that all have values makes the keys of all positions. -/
theorem yields_start {fields : List KeyChoice} (hne : fields ≠ [])
    (h : ∀ choice ∈ fields, choice.values ≠ []) :
    (start fields).Yields ((positions fields).map (keyAt fields)) := by
  refine yields_ahead (r := start fields) ?_ (inRange_origin h) (ahead_origin h)
  simp only [start, Bool.or_eq_false_iff, List.isEmpty_eq_false_iff, List.any_eq_false,
    List.isEmpty_iff]
  exact ⟨hne, h⟩

end Realization

/-! ## The keys of a document -/

namespace KeySpec

/-- The key of a choice, given by the positions of the values chosen among those of each field. -/
def keyAt (spec : KeySpec) (d : Document) (choice : List Nat) : CompositeKey :=
  ⟨(spec.fields.zip choice).map fun (f, position) =>
    ⟨(d.resolve f.segments)[position]?.getD .null, f.direction⟩⟩

theorem keyAt_choices (spec : KeySpec) (d : Document) :
    Realization.keyAt (spec.choices d) = spec.keyAt d := by
  funext choice
  rw [Realization.keyAt, choices, List.zip_map_left, List.map_map]
  rfl

theorem keys_eq_map_keyAt (spec : KeySpec) (d : Document) :
    spec.keys d = (Realization.positions (spec.choices d)).map (spec.keyAt d) := by
  rw [keys, ← Realization.map_keyAt_positions, List.map_map, ← keyAt_choices]
  rfl

theorem realize_yields (spec : KeySpec) (d : Document) : (spec.realize d).Yields (spec.keys d) := by
  rw [keys_eq_map_keyAt, ← keyAt_choices]
  refine Realization.yields_start ?_ ?_
  · simpa [choices] using spec.nonempty
  · intro choice hc
    obtain ⟨f, -, rfl⟩ := List.mem_map.1 hc
    exact d.resolve_ne_nil f.segments

/-- **The generator of a document makes one key for each choice of one value per key field, in
    lexicographic order of the choices, no two of them equal, and then ends.**  A field has at least
    one value and no value twice, and null only where it has no other. -/
theorem realize_makes_each_choice [Collator] (spec : KeySpec) (d : Document) :
    (∃ choices : List (List Nat),
      (∀ choice, choice ∈ choices ↔
        List.Forall₂ (fun f position => position < (d.resolve f.segments).length)
          spec.fields choice) ∧
      choices.Pairwise (· < ·) ∧
      spec.keys d = choices.map (spec.keyAt d)) ∧
    (spec.realize d).Yields (spec.keys d) ∧
    (spec.keys d).Pairwise (fun a b => (a == b) = false ∧ (b == a) = false) ∧
    ∀ path : List String, d.resolve path ≠ [] ∧
      (d.resolve path).Pairwise (fun v w => (v == w) = false) ∧
      (.null ∈ d.resolve path → d.resolve path = [.null]) := by
  refine ⟨⟨Realization.positions (spec.choices d), fun choice => ?_,
    Realization.positions_ascending _,
    spec.keys_eq_map_keyAt d⟩, spec.realize_yields d, spec.keys_distinct d, fun path => ?_⟩
  · rw [Realization.mem_positions, Realization.InRange, choices, List.forall₂_map_left_iff]
  · refine ⟨d.resolve_ne_nil path, d.resolve_pairwise path, fun hnull => ?_⟩
    exact (d.resolve_null_or path).resolve_right fun h => h.2 hnull

end KeySpec

end DocumentDb
