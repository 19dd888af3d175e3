/-
  DocumentDb — filters that ask for given values.

  * `Filter.asking ask paths` asks, at each of some paths, for a value equal to a given one, with
    `$eq`, so that embedded documents are compared as a whole.
  * Where no path starts like an operator, its equalities are just these (`lookup_usable_asking`),
    and it admits the documents that meet them (`admits_asking`).  The filter of one equality admits
    no others (`admits_equal_iff`).
-/
import DocumentDb.Filter.Operator
import DocumentDb.Proofs.Document.Write
import DocumentDb.Proofs.Filter.Constraint

namespace DocumentDb

open DocumentDb.Filter (isOperators isOperatorKey)

/-- Fields ask, at each of their keys, for a given value. -/
def Fields.Asks {bound : Option String} (fields : Fields bound) (ask : String → Value) : Prop :=
  ∀ key constraint, (key, constraint) ∈ fields.toList →
    isOperatorKey key = false ∧ constraint = .document (Document.single "$eq" (ask key))

namespace Filter

/-- The filter that asks for a given value at each of some paths. -/
def asking (ask : String → Value) (paths : List String) : Document :=
  paths.foldr (fun path d => d.set path (.document (Document.single "$eq" (ask path)))) .empty

variable {ask : String → Value} {paths : List String}

theorem field?_asking (path : String) : (asking ask paths).field? path =
    if path ∈ paths then some (.document (Document.single "$eq" (ask path))) else none := by
  induction paths with
  | nil => rfl
  | cons first rest ih =>
    have hcons : asking ask (first :: rest) = (asking ask rest).set first
        (.document (Document.single "$eq" (ask first))) := rfl
    rw [hcons, Document.field?_set, ih]
    by_cases he : first = path
    · subst he
      rw [if_pos rfl, if_pos List.mem_cons_self]
    · simp [he, Ne.symm he]

theorem mem_toList_asking {key : String} {constraint : Value} :
    (key, constraint) ∈ (asking ask paths).toList ↔
      key ∈ paths ∧ constraint = .document (Document.single "$eq" (ask key)) := by
  rw [Fields.mem_toList_iff, field?_asking]
  split
  · next hkey => simp [hkey, eq_comm]
  · next hkey => simp [hkey]

theorem asking_asks (h : ∀ path ∈ paths, isOperatorKey path = false) :
    (asking ask paths).Asks ask := by
  intro key constraint hm
  obtain ⟨hkey, hc⟩ := mem_toList_asking.1 hm
  exact ⟨h key hkey, hc⟩

/-! ## What it asks for -/

theorem constraintsAt_equal (path : String) (value : Value) :
    (Value.document (Document.single "$eq" value)).constraintsAt path = [(path, value)] := rfl

theorem constraintsBelow_of_asks {bound : Option String} {fields : Fields bound}
    (h : fields.Asks ask) : fields.constraintsBelow "" =
      fields.toList.map fun e => (e.1, ask e.1) := by
  induction fields using Fields.ind with
  | nil => rfl
  | cons key _ constraint rest ih =>
    obtain ⟨hkey, rfl⟩ := h key constraint List.mem_cons_self
    have hrest := ih fun key' constraint' hm => h key' constraint' (List.mem_cons_of_mem _ hm)
    rw [Fields.constraintsBelow, hkey, constraintsAt_equal, hrest]
    rfl

theorem lookup_usable_asking (hop : ∀ path ∈ paths, isOperatorKey path = false)
    (husable : ∀ path ∈ paths, (ask path).isUsable = true) {path : String} (h : path ∈ paths) :
    (asking ask paths).usable.lookup path = some (ask path) := by
  have hall : (asking ask paths).usable =
      (asking ask paths).toList.map fun e => (e.1, ask e.1) := by
    unfold Document.usable Document.constraints
    rw [constraintsBelow_of_asks (asking_asks hop)]
    refine List.filter_eq_self.2 ?_
    intro e he
    obtain ⟨e', hm, rfl⟩ := List.mem_map.1 he
    exact husable _ (mem_toList_asking.1 hm).1
  rw [hall, lookup_map_value _ (fun key _ => ask key), Fields.lookup_toList, field?_asking,
    if_pos h]
  rfl

/-! ## Who meets it -/

theorem holdsAt_equal (d : Document) (path : String) (value : Value) :
    (Value.document (Document.single "$eq" value)).holdsAt d path =
      (d.candidates path).map (equalsAny · value) := by
  have hoperators : isOperators (Document.single "$eq" value) = .ok true := rfl
  rw [Value.holdsAt, hoperators]
  cases d.candidates path with
  | error fault => rfl
  | ok found =>
    have htest : test found "$eq" value = .ok (equalsAny found value) := rfl
    show (do if ← test found "$eq" value then testAll found [] else return false) =
      .ok (equalsAny found value)
    rw [htest]
    cases equalsAny found value <;> rfl

theorem holdsAt_equal_iff {d : Document} {path : String} {value : Value} :
    (Value.document (Document.single "$eq" value)).holdsAt d path = .ok true ↔
      d.Meets path value := by
  rw [holdsAt_equal]
  unfold Document.Meets
  cases d.candidates path with
  | error fault => simp [Except.map]
  | ok found => simp [Except.map]

/-- The filter of one equality admits the documents that meet it. -/
theorem admits_equal_iff {d : Document} {path : String} {value : Value}
    (hkey : isOperatorKey path = false) :
    (equal path value).admits d = .ok true ↔ d.Meets path value := by
  rw [equal, on, admits_single hkey]
  exact holdsAt_equal_iff

/-- It judges every document, at a path without empty segments that does not start like an
    operator. -/
theorem exists_admits_equal {d : Document} {path : String} {value : Value}
    (hvalid : Path.isValid path = true) (hkey : isOperatorKey path = false) :
    ∃ holds, (equal path value).admits d = .ok holds := by
  obtain ⟨first, rest, hs⟩ := Path.exists_segments path
  refine ⟨equalsAny (d.reach first rest) value, ?_⟩
  rw [equal, on, admits_single hkey]
  exact (holdsAt_equal d path value).trans (congrArg _ (Document.candidates_eq_ok hvalid hs))

theorem admits_of_asks {bound : Option String} {fields : Fields bound} {d : Document}
    (h : fields.Asks ask) (hm : ∀ e ∈ fields.toList, d.Meets e.1 (ask e.1)) :
    fields.admits d = .ok true := by
  induction fields using Fields.ind with
  | nil => rfl
  | cons key _ constraint rest ih =>
    obtain ⟨hkey, rfl⟩ := h key constraint List.mem_cons_self
    have hrest := ih (fun key' constraint' hm => h key' constraint' (List.mem_cons_of_mem _ hm))
      fun e he => hm e (List.mem_cons_of_mem _ he)
    rw [Fields.admits, hkey, holdsAt_equal_iff.2 (hm _ List.mem_cons_self)]
    exact hrest

theorem admits_asking {d : Document} (hop : ∀ path ∈ paths, isOperatorKey path = false)
    (hm : ∀ path ∈ paths, d.Meets path (ask path)) : (asking ask paths).admits d = .ok true := by
  refine admits_of_asks (asking_asks hop) ?_
  intro e he
  exact hm _ (mem_toList_asking.1 he).1

end Filter

end DocumentDb
