/-
  DocumentDb — how a find gets at its candidates.

  * `Document.constraints` lists the pairs of a path and a value such that a document can meet the
    filter only if the value is found at the path.  Plain values and the operands of `$eq` count;
    what other operators and malformed constraints ask for is not listed.
  * `Document.usable` are the equalities of a filter that an index can serve: a null also asks for
    documents that no index records, and an array also for arrays as a whole, so both are left out.
  * A `Plan` lists the indexes that could serve the filter, those of which every key field has a
    usable equality, and the `Access` chosen: the index with most key fields (the earliest
    registered of several), else the id that the filter pins, else a scan of all documents.
-/
import DocumentDb.Collection.Settings
import DocumentDb.Filter.Operator
import DocumentDb.Index.Registry

namespace DocumentDb

/-! ## Equalities -/

mutual
/-- The equalities that a constraint at a path asks for. -/
def Value.constraintsAt (path : String) : Value → List (String × Value)
  | .document constraint =>
    match Filter.isOperators constraint with
    | .ok true =>
      match constraint.field? Filter.Operator.equal.key with
      | some operand => [(path, operand)]
      | none => []
    | .ok false => constraint.constraintsBelow path
    | .error _ => []
  | wanted => [(path, wanted)]
/-- The equalities that the entries of a filter below a path ask for. -/
def Fields.constraintsBelow (path : String) : {bound : Option String} → Fields bound →
    List (String × Value)
  | _, .nil => []
  | _, .cons key _ constraint rest =>
    (if Filter.isOperatorKey key then [] else constraint.constraintsAt (Path.below path key)) ++
      rest.constraintsBelow path
end

/-- The equalities that a filter asks for, in the order of its keys. -/
def Document.constraints (filter : Document) : List (String × Value) := filter.constraintsBelow ""

/-! ## Plans -/

/-- The way to the candidates of a find. -/
inductive Access where
  /-- The documents that the index finds for the probe. -/
  | byIndex (index : Index) (probe : Document)
  /-- The document with the id. -/
  | byId (id : String)
  /-- All documents. -/
  | scan

/-- The indexes that could serve a filter, and the way chosen. -/
structure Plan where
  potential : List Index
  access : Access

namespace Access

/-- The index used. -/
def index? : Access → Option Index
  | byIndex index _ => some index
  | _ => none

/-- The probe looked up in the index. -/
def probe? : Access → Option Document
  | byIndex _ probe => some probe
  | _ => none

/-- The id read. -/
def id? : Access → Option String
  | byId id => some id
  | _ => none

/-- Whether all documents are tried. -/
def isScan : Access → Bool
  | scan => true
  | _ => false

end Access

/-- Whether an index can serve equality with a value. -/
def Value.isUsable : Value → Bool
  | .null | .array _ => false
  | _ => true

/-- The equalities of a filter that an index can serve. -/
def Document.usable (filter : Document) : List (String × Value) :=
  filter.constraints.filter fun (_, value) => value.isUsable

namespace Plan

/-- Whether every key field of an index has an equality. -/
def serves (equalities : List (String × Value)) (i : Index) : Bool :=
  i.spec.fields.all fun f => (equalities.lookup f.path).isSome

/-- The first of some indexes with most key fields. -/
def widest? : List Index → Option Index
  | [] => none
  | i :: rest =>
    match widest? rest with
    | some best => if i.spec.fields.length < best.spec.fields.length then some best else some i
    | none => some i

/-- The document that has the values asked for at the paths of some key fields. -/
def probe (equalities : List (String × Value)) (d : Document) :
    List KeyField → Except Fault Document
  | [] => .ok d
  | f :: rest =>
    match equalities.lookup f.path with
    | some value => do
      let d ← d.put f.path value
      probe equalities d rest
    | none => probe equalities d rest

/-- The plan for a filter. -/
def ofFilter (filter : Document) (options : FindOptions) (r : Registry) : Except Fault Plan :=
  let equalities := filter.usable
  let potential := r.indexes.filter (serves equalities)
  if options.skipIndex then .ok ⟨potential, .scan⟩
  else
    match widest? potential with
    | some i => do
      let d ← probe equalities Document.empty i.spec.fields
      return ⟨potential, .byIndex i d⟩
    | none =>
      match (equalities.lookup idKey).bind Value.text? with
      | some id => .ok ⟨potential, .byId id⟩
      | none => .ok ⟨potential, .scan⟩

end Plan

end DocumentDb
