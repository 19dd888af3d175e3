/-
  DocumentDb — the operators of filters, and filters made of one.

  * A key that starts with `$` is an operator.  `Filter.Operator` are those that there are; `holds?`
    says whether an operator with its operand holds of the values found at a path.
  * `Filter.equalsAny` is equality with one of these values; null also equals their absence.
  * `Filter.isOperators` tells a constraint made of operators from an embedded filter.
  * `Filter.all` and `Filter.byId` are the filters met by every document and by the document of an
    id; `Filter.on` makes a filter of one operator on a path, which stays one key.
-/
import DocumentDb.Document.Access

namespace DocumentDb.Filter

/-- Whether a key of a filter is an operator. -/
def isOperatorKey (key : String) : Bool := key.toList.head? == some '$'

/-- The operators. -/
inductive Operator where
  | equal | different | oneOf | present
  deriving DecidableEq

namespace Operator

/-- The key of an operator. -/
def key : Operator → String
  | equal => "$eq"
  | different => "$ne"
  | oneOf => "$in"
  | present => "$exists"

/-- The operator with a key. -/
def ofKey? (key : String) : Option Operator :=
  if key = "$eq" then some equal
  else if key = "$ne" then some different
  else if key = "$in" then some oneOf
  else if key = "$exists" then some present
  else none

end Operator

/-- Whether one of the values found equals the value wanted.  Null is also found where nothing
    is. -/
def equalsAny (found : List Value) (wanted : Value) : Bool :=
  if wanted.isNull then found.isEmpty || found.any (·.isNull) else found.any (· == wanted)

/-- Whether an operator with its operand holds of the values found. -/
def Operator.holds? (found : List Value) (operand : Value) : Operator → Except Fault Bool
  | equal => .ok (equalsAny found operand)
  | different => .ok (!equalsAny found operand)
  | oneOf =>
    match operand with
    | .array options => .ok (options.any (equalsAny found))
    | other => .error (.optionsNotArray other)
  | present => .ok (found.any (!·.isNull) == (operand.bool?.getD (!operand.isNull)))

/-- Whether the operator with a key holds of the values found. -/
def test (found : List Value) (key : String) (operand : Value) : Except Fault Bool :=
  match Operator.ofKey? key with
  | some operator => operator.holds? found operand
  | none => .error (.unsupportedOperator key)

/-- Whether every operator of a constraint holds of the values found; the first that does not, or
    that cannot be applied, decides. -/
def testAll (found : List Value) : List (String × Value) → Except Fault Bool
  | [] => .ok true
  | (key, operand) :: rest => do
    if ← test found key operand then testAll found rest else return false

/-- Whether a constraint is made of operators.  It must not have both operators and fields. -/
def isOperators (constraint : Document) : Except Fault Bool :=
  let operators := constraint.toList.countP fun (key, _) => isOperatorKey key
  if operators = 0 then .ok false
  else if operators = constraint.size then .ok true
  else .error (.mixedOperators constraint)

/-! ## Making filters -/

/-- The filter that every document meets. -/
def all : Document := Document.empty

/-- The filter that the document with the id meets. -/
def byId (id : String) : Document := Document.single idKey (.text id)

/-- The filter of one operator on a path. -/
def on (path : String) (operator : Operator) (operand : Value) : Document :=
  Document.single path (.document (Document.single operator.key operand))

/-- The value is found at the path. -/
def equal (path : String) (value : Value) : Document := on path .equal value

/-- The value is not found at the path. -/
def different (path : String) (value : Value) : Document := on path .different value

/-- One of the values is found at the path. -/
def oneOf (path : String) (values : List Value) : Document := on path .oneOf (.array values)

/-- Something, or nothing, is found at the path. -/
def present (path : String) (expected : Bool) : Document := on path .present (.bool expected)

end DocumentDb.Filter
