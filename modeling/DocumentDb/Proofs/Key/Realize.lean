/-
  DocumentDb — the keys of a document.

  * `Document.resolve` gives a key field either null alone or values other than null, no two of them
    equal (`resolve_null_or`, `resolve_pairwise`).
  * `mem_keys_iff`: a key of a document has in each part one of the values of its field.  No two
    keys of a document are equal (`keys_distinct`).
  * An index records all keys of a document that has a value in some key field (`KeySpec.covers`)
    and none of any other (`entries_eq`, `entries_ne_nil_iff`), and each key once
    (`entries_pairwise`).
-/
import DocumentDb.Key.Realize
import DocumentDb.Proofs.Key.Order
import DocumentDb.Proofs.Lists

namespace DocumentDb

/-! ## The values of one field -/

@[simp] theorem Value.isNull_iff {v : Value} : v.isNull = true ↔ v = .null := by
  cases v <;> simp [isNull]

mutual
theorem Value.null_not_mem_walk : ∀ (value : Value) (path : List String), .null ∉ value.walk path
  | .null, _ => by simp [Value.walk]
  | .array items, [] => by simp [Value.walk, Value.isNull]
  | .bool _, [] => by simp [Value.walk]
  | .number _, [] => by simp [Value.walk]
  | .text _, [] => by simp [Value.walk]
  | .document _, [] => by simp [Value.walk]
  | .document d, key :: path => by
    simp only [Value.walk]
    exact Fields.null_not_mem_walk d key path
  | .array items, segment :: path => by
    simp only [Value.walk]
    split
    · exact Value.null_not_mem_walkItem items _ path
    · exact Value.null_not_mem_walkEach items _
  | .bool _, _ :: _ => by simp [Value.walk]
  | .number _, _ :: _ => by simp [Value.walk]
  | .text _, _ :: _ => by simp [Value.walk]
theorem Fields.null_not_mem_walk : ∀ {bound : Option String} (d : Fields bound) (wanted : String)
    (path : List String), .null ∉ d.walk wanted path
  | _, .nil, _, _ => by simp [Fields.walk]
  | _, .cons key _ value rest, wanted, path => by
    simp only [Fields.walk]
    split
    · exact Value.null_not_mem_walk value path
    · exact Fields.null_not_mem_walk rest wanted path
theorem Value.null_not_mem_walkItem : ∀ (items : List Value) (position : Nat) (path : List String),
    .null ∉ Value.walkItem items position path
  | [], _, _ => by simp [Value.walkItem]
  | value :: _, 0, path => Value.null_not_mem_walk value path
  | _ :: rest, position + 1, path => Value.null_not_mem_walkItem rest position path
theorem Value.null_not_mem_walkEach : ∀ (items : List Value) (path : List String),
    .null ∉ Value.walkEach items path
  | [], _ => by simp [Value.walkEach]
  | value :: rest, path => by
    simp only [Value.walkEach, List.mem_append, not_or]
    exact ⟨Value.null_not_mem_walk value path, Value.null_not_mem_walkEach rest path⟩
end

namespace Document

theorem resolve_cons (d : Document) (first : String) (path : List String) :
    d.resolve (first :: path) = if d.walk first path = [] then [.null] else
      (d.walk first path).eraseDups := by
  simp only [resolve]
  cases h : d.walk first path with
  | nil => simp
  | cons value rest => rw [List.eraseDups_cons]; simp

theorem resolve_null_or (d : Document) (segments : List String) :
    d.resolve segments = [.null] ∨ d.resolve segments ≠ [] ∧ .null ∉ d.resolve segments := by
  cases segments with
  | nil => exact Or.inl rfl
  | cons first path =>
    rw [resolve_cons]
    split
    · exact Or.inl rfl
    · next h =>
      refine Or.inr ⟨?_, fun hn => Fields.null_not_mem_walk d first path (mem_of_mem_eraseDups hn)⟩
      cases hw : d.walk first path with
      | nil => exact absurd hw h
      | cons value rest => rw [List.eraseDups_cons]; exact List.cons_ne_nil _ _

theorem resolve_ne_nil (d : Document) (segments : List String) : d.resolve segments ≠ [] := by
  rcases d.resolve_null_or segments with h | h
  · rw [h]; exact List.cons_ne_nil _ _
  · exact h.1

theorem mem_walk_of_mem_resolve {d : Document} {path : List String} {w : Value}
    (h : w ∈ d.resolve path) (hw : w ≠ .null) : w ∈ (Value.document d).walk path := by
  cases path with
  | nil => exact absurd (List.mem_singleton.1 h) hw
  | cons first rest =>
    rw [resolve_cons] at h
    split at h
    · exact absurd (List.mem_singleton.1 h) hw
    · exact mem_of_mem_eraseDups h

theorem resolve_pairwise (d : Document) (segments : List String) :
    (d.resolve segments).Pairwise fun a b => (a == b) = false := by
  cases segments with
  | nil => exact List.pairwise_singleton _ _
  | cons first path =>
    rw [resolve_cons]
    split
    · exact List.pairwise_singleton _ _
    · exact eraseDups_pairwise _

end Document

/-! ## One key per choice -/

namespace KeyChoice

theorem mem_product : ∀ {choices : List KeyChoice} {ps : List KeyPart},
    ps ∈ product choices ↔ List.Forall₂ (fun p c => p ∈ c.parts) ps choices
  | [], ps => by simp [product]
  | choice :: rest, ps => by
    simp only [product, List.mem_flatMap, List.mem_map, List.forall₂_cons_right_iff]
    constructor
    · rintro ⟨part, hp, others, ho, rfl⟩
      exact ⟨part, others, hp, mem_product.1 ho, rfl⟩
    · rintro ⟨part, others, hp, ho, rfl⟩
      exact ⟨part, hp, others, mem_product.2 ho, rfl⟩

theorem product_nulls : ∀ fields : List KeyField,
    product (fields.map fun f => ⟨[.null], f.direction⟩) =
      [fields.map fun f => ⟨.null, f.direction⟩]
  | [] => rfl
  | f :: fields => by simp [product, parts, product_nulls fields]

theorem product_ne_nil : ∀ {choices : List KeyChoice}, (∀ c ∈ choices, c.values ≠ []) →
    product choices ≠ []
  | [], _ => List.cons_ne_nil _ _
  | choice :: rest, h => by
    obtain ⟨v, hv⟩ := List.exists_mem_of_ne_nil _ (h choice List.mem_cons_self)
    obtain ⟨ps, hps⟩ := List.exists_mem_of_ne_nil _
      (product_ne_nil fun c hc => h c (List.mem_cons_of_mem _ hc))
    refine List.ne_nil_of_mem (a := ⟨v, choice.direction⟩ :: ps) (mem_product.2 ?_)
    exact .cons (List.mem_map_of_mem hv) (mem_product.1 hps)

end KeyChoice

namespace KeySpec

/-- A document has a value other than null in some key field. -/
def covers (spec : KeySpec) (d : Document) : Bool :=
  spec.fields.any fun f => (d.resolve f.segments).any (!·.isNull)

/-- The directions of the fields, which every key of an index has. -/
def directions (spec : KeySpec) : List Direction := spec.fields.map (·.direction)

/-- **A key of a document has one of the values of its field in each part.** -/
theorem mem_keys_iff {spec : KeySpec} {d : Document} {key : CompositeKey} :
    key ∈ spec.keys d ↔
      List.Forall₂ (fun p f => p.value ∈ d.resolve f.segments ∧ p.direction = f.direction)
        key.parts spec.fields := by
  have hp : key ∈ spec.keys d ↔ key.parts ∈ KeyChoice.product (spec.choices d) := by
    unfold keys
    rw [List.mem_map]
    exact ⟨fun ⟨ps, hps, e⟩ => e ▸ hps, fun h => ⟨key.parts, h, rfl⟩⟩
  rw [hp, KeyChoice.mem_product, choices, List.forall₂_map_right_iff]
  refine iff_of_eq (congrArg (List.Forall₂ · key.parts spec.fields) ?_)
  funext p f
  simp only [KeyChoice.parts, List.mem_map, eq_iff_iff]
  constructor
  · rintro ⟨v, hv, rfl⟩
    exact ⟨hv, rfl⟩
  · rintro ⟨hv, hd⟩
    exact ⟨p.value, hv, by rw [← hd]⟩

theorem directions_of_mem_keys {spec : KeySpec} {d : Document} {key : CompositeKey}
    (h : key ∈ spec.keys d) : key.directions = spec.directions := by
  have hf := mem_keys_iff.1 h
  exact map_eq_of_forall₂ (hf.imp fun _ _ h => h.2)

/-! ## The keys that are recorded -/

theorem keys_of_not_covers {spec : KeySpec} {d : Document} (h : spec.covers d = false) :
    spec.keys d = [⟨spec.fields.map fun f => ⟨.null, f.direction⟩⟩] := by
  have hn : ∀ f ∈ spec.fields, d.resolve f.segments = [.null] := by
    intro f hf
    rcases d.resolve_null_or f.segments with hr | ⟨hne, hnull⟩
    · exact hr
    · obtain ⟨v, hv⟩ := List.exists_mem_of_ne_nil _ hne
      have hnone := List.any_eq_false.1 h f hf
      have : v = .null := by simpa using List.any_eq_false.1 (Bool.eq_false_iff.2 hnone) v hv
      exact absurd (this ▸ hv) hnull
  have hc : spec.choices d = spec.fields.map fun f => ⟨[.null], f.direction⟩ :=
    List.map_congr_left fun f hf => by rw [hn f hf]
  rw [keys, hc, KeyChoice.product_nulls]
  rfl

theorem not_isAllMissing_of_covers {spec : KeySpec} {d : Document} (h : spec.covers d = true)
    {key : CompositeKey} (hk : key ∈ spec.keys d) : key.isAllMissing = false := by
  obtain ⟨f, hf, hv⟩ := List.any_eq_true.1 h
  obtain ⟨v, hv, hnn⟩ := List.any_eq_true.1 hv
  -- a field that has a value other than null has no null
  have hnull : .null ∉ d.resolve f.segments := by
    rcases d.resolve_null_or f.segments with hr | hr
    · rw [hr, List.mem_singleton] at hv
      simp [hv, Value.isNull] at hnn
    · exact hr.2
  obtain ⟨part, hp, hpv, -⟩ := exists_of_mem_right (mem_keys_iff.1 hk) hf
  refine List.all_eq_false.2 ⟨part, hp, fun hn => hnull ?_⟩
  rw [← Value.isNull_iff.1 hn]
  exact hpv

theorem entries_eq (spec : KeySpec) (d : Document) :
    spec.entries d = if spec.covers d then spec.keys d else [] := by
  cases h : spec.covers d with
  | false =>
    rw [entries, keys_of_not_covers h]
    simp [CompositeKey.isAllMissing, Value.isNull]
  | true =>
    unfold entries
    split
    · next key hk =>
      have := not_isAllMissing_of_covers h (hk ▸ List.mem_singleton_self key)
      rw [this, hk]
      rfl
    · rfl

/-- **An index records a document under some key just when the document has a value in some key
    field.** -/
theorem entries_ne_nil_iff {spec : KeySpec} {d : Document} :
    spec.entries d ≠ [] ↔ spec.covers d = true := by
  rw [entries_eq]
  split
  · next h =>
    refine iff_of_true ?_ h
    have hp : KeyChoice.product (spec.choices d) ≠ [] := KeyChoice.product_ne_nil fun c hc => by
      obtain ⟨f, -, rfl⟩ := List.mem_map.1 hc
      exact d.resolve_ne_nil _
    exact fun hk => hp (List.map_eq_nil_iff.1 hk)
  · next h => exact iff_of_false (fun hn => hn rfl) h

theorem mem_keys_of_mem_entries {spec : KeySpec} {d : Document} {key : CompositeKey}
    (h : key ∈ spec.entries d) : key ∈ spec.keys d := by
  rw [entries_eq] at h
  split at h
  · exact h
  · exact absurd h List.not_mem_nil

theorem directions_of_mem_entries {spec : KeySpec} {d : Document} {key : CompositeKey}
    (h : key ∈ spec.entries d) : key.directions = spec.directions :=
  directions_of_mem_keys (mem_keys_of_mem_entries h)

/-! ## Each key once -/

theorem product_pairwise : ∀ {choices : List KeyChoice},
    (∀ c ∈ choices, c.values.Pairwise fun a b => (a == b) = false) →
    (KeyChoice.product choices).Pairwise fun ps ps' =>
      ¬ List.Forall₂ (fun p p' => (p.value == p'.value) = true) ps ps'
  | [], _ => List.pairwise_singleton _ _
  | choice :: rest, h => by
    have hrest := product_pairwise fun c hc => h c (List.mem_cons_of_mem _ hc)
    rw [KeyChoice.product, List.pairwise_flatMap]
    constructor
    · intro part _
      refine List.pairwise_map.2 (hrest.imp ?_)
      intro ps ps' hn hf
      exact hn (List.forall₂_cons.1 hf).2
    · refine List.pairwise_map.2 ((h choice List.mem_cons_self).imp fun {v w} hvw => ?_)
      intro ps hps ps' hps' hf
      obtain ⟨others, -, rfl⟩ := List.mem_map.1 hps
      obtain ⟨others', -, rfl⟩ := List.mem_map.1 hps'
      exact absurd (List.forall₂_cons.1 hf).1 (by simp [hvw])

section
variable [Collator] (spec : KeySpec) (d : Document)

/-- **No two keys of a document are equal**, whatever the locale. -/
theorem keys_distinct : (spec.keys d).Pairwise fun a b => (a == b) = false ∧ (b == a) = false := by
  refine List.pairwise_map.2 (List.Pairwise.imp ?_ (product_pairwise ?_))
  · intro ps ps' hn
    constructor
    · exact Bool.eq_false_iff.2 fun he => hn (CompositeKey.forall₂_of_beq he)
    · exact Bool.eq_false_iff.2 fun he =>
        hn ((CompositeKey.forall₂_of_beq he).flip.imp fun _ _ h => BEq.symm h)
  · intro c hc
    obtain ⟨f, -, rfl⟩ := List.mem_map.1 hc
    exact d.resolve_pairwise _

theorem keys_pairwise : (spec.keys d).Pairwise fun a b => (a == b) = false :=
  (keys_distinct spec d).imp And.left

/-- **An index records each key of a document once.** -/
theorem entries_pairwise : (spec.entries d).Pairwise fun a b => (a == b) = false := by
  rw [entries_eq]
  split
  · exact keys_pairwise spec d
  · exact List.Pairwise.nil

end

end KeySpec

end DocumentDb
