/-
  DocumentDb — the leaves of a key document.

  * `Fields.leaves` are the leaves of a document with the keys that lead to them: those of the
    values under its keys (`Fields.mem_leaves_iff`).
  * A leaf stands for a direction just when it is equal to the number of it, in either form
    (`Value.direction?_eq_some_iff`).
  * **`Fields.keyFieldsBelow_eq`**: to read a key document is to read its leaves in their order,
    each at the path that the keys make.
-/
import DocumentDb.Key.Spec
import DocumentDb.Proofs.Document.Entries
import DocumentDb.Proofs.Number.Integer
import DocumentDb.Proofs.Outcome

namespace DocumentDb

/-! ## Leaves -/

mutual
/-- The leaves of a value, each after the keys that lead to it.  An embedded document is a leaf if
    it has no entries. -/
def Value.leaves : Value → List (List String × Value)
  | .document d => if d.isEmpty then [([], .document d)] else d.leaves
  | leaf => [([], leaf)]
/-- The leaves of a document, each after the keys that lead to it, in the order of the keys. -/
def Fields.leaves : {bound : Option String} → Fields bound → List (List String × Value)
  | _, .nil => []
  | _, .cons key _ value rest =>
    (value.leaves.map fun leaf => (key :: leaf.1, leaf.2)) ++ rest.leaves
end

mutual
theorem Value.leaves_ne_nil : ∀ value : Value, value.leaves ≠ []
  | .document d => by
    rw [Value.leaves]
    split
    · exact List.cons_ne_nil _ _
    · next hne => exact Fields.leaves_ne_nil (Bool.eq_false_iff.2 hne)
  | .null | .bool _ | .number _ | .text _ | .array _ => List.cons_ne_nil _ _
theorem Fields.leaves_ne_nil : ∀ {bound : Option String} {d : Fields bound}, d.isEmpty = false →
    d.leaves ≠ []
  | _, .cons key _ value rest, _ => by
    rw [Fields.leaves]
    exact List.append_ne_nil_of_left_ne_nil
      (List.map_eq_nil_iff.not.2 (Value.leaves_ne_nil value)) _
end

theorem Fields.leaves_of_isEmpty : ∀ {bound : Option String} {d : Fields bound}, d.isEmpty = true →
    d.leaves = []
  | _, .nil, _ => rfl

/-- The leaves of a document are those of its values. -/
theorem Fields.mem_leaves_iff {bound : Option String} {d : Fields bound}
    {leaf : List String × Value} :
    leaf ∈ d.leaves ↔ ∃ key value, d.field? key = some value ∧ ∃ below ∈ value.leaves,
      (key :: below.1, below.2) = leaf := by
  simp only [← mem_toList_iff]
  induction d using Fields.ind with
  | nil => simp [Fields.leaves, toList]
  | cons key _ value rest ih =>
    rw [Fields.leaves, List.mem_append, List.mem_map, ih, toList]
    constructor
    · rintro (hfirst | ⟨key', value', hm, hrest⟩)
      · exact ⟨key, value, List.mem_cons_self, hfirst⟩
      · exact ⟨key', value', List.mem_cons_of_mem _ hm, hrest⟩
    · rintro ⟨key', value', hm, hleaf⟩
      rcases List.mem_cons.1 hm with he | hm
      · cases he
        exact Or.inl hleaf
      · exact Or.inr ⟨key', value', hm, hleaf⟩

/-! ## Directions -/

/-- The number that stands for a direction in a key document. -/
def Direction.number : Direction → Value
  | ascending => .int 1
  | descending => .int (-1)

theorem Direction.ofInt?_eq_some_iff {n : Int} {direction : Direction} :
    ofInt? n = some direction ↔ n = direction.toInt := by
  unfold ofInt?
  cases direction <;> grind [toInt]

/-- A leaf stands for a direction just when it is equal to the number of it, integer or float. -/
theorem Value.direction?_eq_some_iff {v : Value} {direction : Direction} :
    v.direction? = some direction ↔ (v == direction.number) = true := by
  obtain ⟨n, hn, hnumber⟩ : ∃ n : Int64, n.toInt = direction.toInt ∧ direction.number = .int n := by
    cases direction
    · exact ⟨1, rfl, rfl⟩
    · exact ⟨-1, rfl, rfl⟩
  rw [hnumber, beq_iff]
  cases v with
  | number m =>
    cases m with
    | int m =>
      rw [direction?, Direction.ofInt?_eq_some_iff, ← hn]
      exact Std.LawfulEqOrd.compare_eq_iff_eq.symm
    | float x =>
      have hfloat : (Value.number (.float x)).compare (.int n) = .eq ↔ x.integer? = some n.toInt :=
        Number.compare_float_int_eq_iff
      rw [hfloat, direction?, Option.bind_eq_some_iff, hn]
      simp [Direction.ofInt?_eq_some_iff]
  | _ => exact iff_of_false nofun nofun

theorem Direction.beq_number_iff {v : Value} :
    (∃ direction : Direction, (v == direction.number) = true) ↔
    v.kind ≠ .document ∧ ((v == .int 1) = true ∨ (v == .int (-1)) = true) := by
  constructor
  · rintro ⟨direction, h⟩
    have hkind : v.kind ≠ .document := by
      rintro hk
      have hread := Value.direction?_eq_some_iff.2 h
      cases v with
      | document d => cases hread
      | _ => cases hk
    cases direction with
    | ascending => exact ⟨hkind, Or.inl h⟩
    | descending => exact ⟨hkind, Or.inr h⟩
  · rintro ⟨-, h | h⟩
    · exact ⟨ascending, h⟩
    · exact ⟨descending, h⟩

/-! ## Reading the leaves -/

/-- The key field that a leaf at a path stands for. -/
def Value.keyField (path : String) : Value → Except Fault (String × Direction)
  | .document _ => .error (.emptyKeyMapping path)
  | leaf =>
    match leaf.direction? with
    | some direction => .ok (path, direction)
    | none => .error (.invalidDirection leaf path)

theorem Value.keyField_eq_ok_iff {path : String} {leaf : Value} {field : String × Direction} :
    leaf.keyField path = .ok field ↔ path = field.1 ∧ (leaf == field.2.number) = true := by
  rw [← direction?_eq_some_iff]
  have hleaf : leaf.keyField path = .ok field ↔
      ∃ direction, leaf.direction? = some direction ∧ (path, direction) = field := by
    unfold keyField
    split
    · simp [direction?]
    · split
      · next direction hd => simp [hd]
      · next hd => simp [hd]
  rw [hleaf]
  constructor
  · rintro ⟨direction, hd, rfl⟩
    exact ⟨rfl, hd⟩
  · rintro ⟨rfl, hd⟩
    exact ⟨field.2, hd, rfl⟩

mutual
theorem Value.keyFields_eq : ∀ (value : Value) (path : String), value.keyFields path =
    value.leaves.mapM fun leaf => leaf.2.keyField (leaf.1.foldl Path.below path)
  | .document d, path => by
    rw [Value.keyFields, Value.leaves]
    split
    · rfl
    · exact Fields.keyFieldsBelow_eq d path
  | .null, path | .bool _, path | .text _, path | .array _, path => rfl
  | .number n, path => by
    rw [Value.keyFields, Value.leaves, List.mapM_cons, List.mapM_nil, Value.keyField]
    · cases (Value.number n).direction? <;> rfl
    all_goals exact nofun
/-- To read a key document is to read its leaves in their order. -/
theorem Fields.keyFieldsBelow_eq : ∀ {bound : Option String} (d : Fields bound) (path : String),
    d.keyFieldsBelow path = d.leaves.mapM fun leaf => leaf.2.keyField (leaf.1.foldl Path.below path)
  | _, .nil, _ => rfl
  | _, .cons key _ value rest, path => by
    rw [Fields.keyFieldsBelow, Fields.leaves, List.mapM_append, List.mapM_map,
      Value.keyFields_eq value, Fields.keyFieldsBelow_eq rest]
    rfl
end

end DocumentDb
