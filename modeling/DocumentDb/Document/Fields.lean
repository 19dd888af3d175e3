/-
  DocumentDb — the entries of a document.

  * `Fields.field?`, `Document.set` and `Fields.erase` read, write and drop one entry by its key,
    taken verbatim.  They are the whole interface to the order of the keys: an entry written is put
    where it belongs.
  * `Fields.toList` lists the entries in ascending order of the keys; `Document.ofList` makes a
    document of entries in any order, where a later entry wins.
  * `field?_insert` and `field?_erase` say what a write does to every key, and `Fields.ext` that
    fields with the same value under every key are the same.
-/
import DocumentDb.Value.Basic

namespace DocumentDb

instance : (bound : Option String) → (key : String) → Decidable (Follows bound key)
  | none, _ => inferInstanceAs (Decidable True)
  | some bound, key => inferInstanceAs (Decidable (bound < key))

theorem Follows.trans {bound : Option String} {key later : String} (h : Follows bound key)
    (h' : key < later) : Follows bound later := by
  cases bound with
  | none => trivial
  | some bound => exact String.lt_trans h h'

namespace Fields

@[elab_as_elim] theorem ind {motive : ∀ {bound : Option String}, Fields bound → Prop}
    (nil : ∀ {bound : Option String}, motive (.nil : Fields bound))
    (cons : ∀ {bound : Option String} (key : String) (h : Follows bound key) (value : Value)
      (rest : Fields (some key)), motive rest → motive (.cons key h value rest)) :
    ∀ {bound : Option String} (d : Fields bound), motive d
  | _, .nil => nil
  | _, .cons key h value rest => cons key h value rest (ind nil cons rest)

/-! ## Reading -/

/-- The value under a key. -/
def field? : {bound : Option String} → Fields bound → String → Option Value
  | _, .nil, _ => none
  | _, .cons key _ value rest, wanted => if key = wanted then some value else rest.field? wanted

/-- Whether there is an entry with the key. -/
def hasKey {bound : Option String} (d : Fields bound) (key : String) : Bool := (d.field? key).isSome

/-- The entries in ascending order of the keys. -/
def toList : {bound : Option String} → Fields bound → List (String × Value)
  | _, .nil => []
  | _, .cons key _ value rest => (key, value) :: rest.toList

/-- The number of entries. -/
def size {bound : Option String} (d : Fields bound) : Nat := d.toList.length

/-- Whether there is no entry. -/
def isEmpty : {bound : Option String} → Fields bound → Bool
  | _, .nil => true
  | _, .cons .. => false

/-! ## Writing -/

/-- The fields with `value` under `key`, in place of what was there. -/
def insert : {bound : Option String} → Fields bound → (key : String) → Follows bound key → Value →
    Fields bound
  | _, .nil, key, h, value => .cons key h value .nil
  | _, .cons key' h' value' rest, key, h, value =>
    if before : key < key' then .cons key h value (.cons key' before value' rest)
    else if after : key' < key then .cons key' h' value' (rest.insert key after value)
    else .cons key' h' value rest

/-- Fields after a key are also after each bound that the key follows. -/
def relax {bound : Option String} {key : String} (h : Follows bound key) :
    Fields (some key) → Fields bound
  | .nil => .nil
  | .cons key' h' value rest => .cons key' (h.trans h') value rest

/-- The fields without the entry under `key`. -/
def erase : {bound : Option String} → Fields bound → String → Fields bound
  | _, .nil, _ => .nil
  | _, .cons key h value rest, unwanted =>
    if key = unwanted then rest.relax h else .cons key h value (rest.erase unwanted)

/-! ## What a write does to every key -/

theorem follows_of_field? {bound : Option String} (d : Fields bound) {key : String} {value : Value}
    (h : d.field? key = some value) : Follows bound key := by
  induction d using ind with
  | nil => simp [field?] at h
  | cons key' follows value' rest ih =>
    simp only [field?] at h
    split at h
    · next e => exact e ▸ follows
    · exact follows.trans (ih h)

theorem field?_self {key : String} (d : Fields (some key)) : d.field? key = none :=
  Option.eq_none_iff_forall_ne_some.2 fun _ h => String.lt_irrefl _ (d.follows_of_field? h)

theorem field?_insert {bound : Option String} (d : Fields bound) (key wanted : String)
    (h : Follows bound key) (value : Value) :
    (d.insert key h value).field? wanted =
      if key = wanted then some value else d.field? wanted := by
  induction d using ind with
  | nil => simp [insert, field?]
  | cons key' h' value' rest ih =>
    simp only [insert]
    split
    · simp [field?]
    · next before =>
      split
      · next after =>
        simp only [field?, ih after]
        by_cases e : key' = wanted
        · have : key ≠ wanted := fun e' => String.lt_irrefl _ (e' ▸ e ▸ after)
          simp [e, this]
        · simp [e]
      · next after =>
        have e : key' = key := String.le_antisymm (String.not_lt.1 before) (String.not_lt.1 after)
        simp only [field?, e]
        split <;> rfl

theorem field?_relax {bound : Option String} {key : String} (h : Follows bound key)
    (d : Fields (some key)) (wanted : String) : (d.relax h).field? wanted = d.field? wanted := by
  cases d <;> rfl

theorem field?_erase {bound : Option String} (d : Fields bound) (unwanted wanted : String) :
    (d.erase unwanted).field? wanted = if unwanted = wanted then none else d.field? wanted := by
  induction d using ind with
  | nil => simp [erase, field?]
  | cons key h value rest ih =>
    simp only [erase]
    split
    · next e =>
      rw [field?_relax]
      split
      · next e' => rw [← e', ← e, field?_self]
      · next e' => simp [field?, e, e']
    · next e =>
      simp only [field?, ih]
      by_cases e' : key = wanted
      · have : unwanted ≠ wanted := fun h => e (e'.trans h.symm)
        simp [e', this]
      · simp [e']

theorem ext {bound : Option String} (d d' : Fields bound)
    (h : ∀ key, d.field? key = d'.field? key) : d = d' := by
  induction d using ind with
  | nil =>
    cases d' with
    | nil => rfl
    | cons key' _ _ _ => simpa [field?] using h key'
  | cons key follows value rest ih =>
    cases d' with
    | nil => simpa [field?] using h key
    | cons key' follows' value' rest' =>
      have first : key = key' := by
        by_cases e : key = key'
        · exact e
        have here := h key
        have there := h key'
        simp only [field?, ↓reduceIte, if_neg e, if_neg (Ne.symm e)] at here there
        exact absurd (rest'.follows_of_field? here.symm)
          (String.lt_asymm (rest.follows_of_field? there))
      subst first
      have same : value = value' := by simpa [field?] using h key
      subst same
      have others : rest = rest' := ih rest' fun wanted => by
        by_cases e : key = wanted
        · rw [← e, field?_self, field?_self]
        · simpa [field?, e] using h wanted
      rw [others]

end Fields

namespace Document

/-- The document without entries. -/
def empty : Document := .nil

/-- The document with `value` under `key`, in place of what was there. -/
def set (d : Document) (key : String) (value : Value) : Document := d.insert key trivial value

/-- The document with one entry. -/
def single (key : String) (value : Value) : Document := empty.set key value

/-- The document with the given entries. -/
def ofList (entries : List (String × Value)) : Document :=
  entries.foldl (fun d (key, value) => d.set key value) empty

end Document

end DocumentDb
