/-
  DocumentDb — whether a document meets a filter.

  * `Document.candidates` are the values at a path that a constraint may be met by: arrays are
    entered at every segment, and an array at the end stands for itself and for its items.
  * `Matcher.equality` evaluates a filter: every entry has to hold, in the order of the keys, and
    the first that fails or is malformed decides.  An entry whose constraint is an embedded filter
    constrains the paths below its key.
-/
import DocumentDb.Filter.Operator

namespace DocumentDb

/-! ## Candidates -/

mutual
/-- The candidates at a path inside a value. -/
def Value.reach : Value → List String → List Value
  | .array items, [] => .array items :: items
  | value, [] => [value]
  | .document d, key :: path => d.reach key path
  | .array items, segment :: path =>
    match Path.position? segment with
    | some position => Value.reachItem items position path
    | none => Value.reachEach items (segment :: path)
  | _, _ :: _ => []
/-- The candidates at a path under a key. -/
def Fields.reach : {bound : Option String} → Fields bound → String → List String → List Value
  | _, .nil, _, _ => []
  | _, .cons key _ value rest, wanted, path =>
    if key = wanted then value.reach path else rest.reach wanted path
/-- The candidates at a path inside the item at a position. -/
def Value.reachItem : List Value → Nat → List String → List Value
  | [], _, _ => []
  | value :: _, 0, path => value.reach path
  | _ :: rest, position + 1, path => Value.reachItem rest position path
/-- The candidates at a path inside some items. -/
def Value.reachEach : List Value → List String → List Value
  | [], _ => []
  | value :: rest, path => value.reach path ++ Value.reachEach rest path
end

/-- The candidates at a path of a document. -/
def Document.candidates (d : Document) (path : String) : Except Fault (List Value) :=
  if Path.isValid path then
    match Path.segments path with
    | first :: rest => .ok (d.reach first rest)
    | [] => .ok []
  else .error (.invalidFilterPath path)

/-! ## Evaluation -/

mutual
/-- Whether a document meets a constraint at a path. -/
def Value.holdsAt : Value → Document → String → Except Fault Bool
  | .document constraint, d, path => do
    if ← Filter.isOperators constraint then
      let found ← d.candidates path
      Filter.testAll found constraint.toList
    else constraint.holdBelow d path
  | wanted, d, path => do
    let found ← d.candidates path
    return Filter.equalsAny found wanted
/-- Whether a document meets the constraints of an embedded filter below a path. -/
def Fields.holdBelow : {bound : Option String} → Fields bound → Document → String →
    Except Fault Bool
  | _, .nil, _, _ => .ok true
  | _, .cons key _ constraint rest, d, path => do
    if ← constraint.holdsAt d (Path.child path key) then rest.holdBelow d path else return false
end

/-- Whether the entries of a filter admit a document. -/
def Fields.admits : {bound : Option String} → Fields bound → Document → Except Fault Bool
  | _, .nil, _ => .ok true
  | _, .cons key _ constraint rest, d =>
    if Filter.isOperatorKey key then .error (.unsupportedOperator key)
    else do
      if ← constraint.holdsAt d key then rest.admits d else return false

/-- The judge of documents: whether a document, given first, meets a filter. -/
abbrev Matcher := Document → Document → Except Fault Bool

/-- The judge that a collection has by default. -/
def Matcher.equality : Matcher := fun d filter => filter.admits d

end DocumentDb
