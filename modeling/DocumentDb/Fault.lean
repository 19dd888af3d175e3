/-
  DocumentDb — faults: why an operation was refused.

  * `Fault` has one constructor for each cause, with what the message needs, and two for the faults
    that a caller's own matcher raises.
  * `Fault.kind` sorts the causes into a dozen kinds; a batch reports the faults of a recoverable
    kind and goes on, any other fault ends the operation.
  * `Fault.message` is the wording, and `Fault.report` the wording of a fault with all that
    led to it.
-/
import DocumentDb.Key.Composite

namespace DocumentDb

/-- The kinds of faults. -/
inductive FaultKind where
  | duplicateKey | indexNotFound | indexAlreadyExists | indexBuildFailed | invariantViolation
  | invalidId | invalidOperation | invalidFieldName | validationError | filterError
  | collectionNotFound | internalError
  deriving DecidableEq, Repr

namespace FaultKind

/-- The name of a kind in reports. -/
def title : FaultKind → String
  | duplicateKey => "Duplicate key"
  | indexNotFound => "Index not found"
  | indexAlreadyExists => "Index already exists"
  | indexBuildFailed => "Index build failed"
  | invariantViolation => "Invariant violation"
  | invalidId => "Invalid ID"
  | invalidOperation => "Invalid operation"
  | invalidFieldName => "Invalid field name"
  | validationError => "Validation error"
  | filterError => "Filter error"
  | collectionNotFound => "Collection not found"
  | internalError => "Internal error"

/-- Whether a batch goes on after a fault of the kind. -/
def isRecoverable : FaultKind → Bool
  | duplicateKey | invalidId | indexNotFound | indexAlreadyExists | indexBuildFailed => true
  | _ => false

end FaultKind

/-- The causes for which operations are refused. -/
inductive Fault where
  /-- The empty key cannot be written. -/
  | emptyKey
  /-- A dotted key has an empty segment. -/
  | invalidKey (key : String)
  /-- The path of a key field is empty or has an empty segment. -/
  | invalidKeyPath (path : String)
  /-- An index without key fields. -/
  | noKeyFields
  /-- A path that is a key field already. -/
  | repeatedKeyField (path : String)
  /-- The name given to an index is empty. -/
  | emptyIndexName
  /-- An embedded document without entries in a key document. -/
  | emptyKeyMapping (path : String)
  /-- A leaf of a key document that is no direction. -/
  | invalidDirection (found : Value) (path : String)
  /-- An operator that filters do not have. -/
  | unsupportedOperator (operator : String)
  /-- A constraint with operators beside plain fields. -/
  | mixedOperators (constraint : Document)
  /-- A membership test whose operand is no array. -/
  | optionsNotArray (found : Value)
  /-- A path in a filter that has an empty segment. -/
  | invalidFilterPath (path : String)
  /-- A key of a unique index that another document occupies. -/
  | keyTaken (key : CompositeKey) (index owner : String)
  /-- An id under which the collection stores a document already. -/
  | idTaken (id collection : String)
  /-- An id that is no text. -/
  | idNotText (found : Kind)
  /-- A document without an id where none is made. -/
  | idMissing
  /-- A change to the id of documents. -/
  | idImmutable
  /-- An index of the name is registered with another definition. -/
  | indexDefinedOtherwise (name : String)
  /-- The stored documents do not fit a new index. -/
  | buildFailed (name : String) (cause : Fault)
  /-- No index of the name is registered. -/
  | indexUnknown (name collection : String)
  /-- A key recorded for a document does not lead back to it. -/
  | indexOutOfStep (index id : String) (key : CompositeKey)
  /-- An index leads to a document that is not stored. -/
  | documentUnknown (index id : String)
  /-- The store has no collection of the name. -/
  | collectionUnknown (name : String)
  /-- A threshold for slow finds of no duration. -/
  | zeroThreshold
  /-- A fault raised by a caller. -/
  | raised (kind : FaultKind) (message : String)
  /-- A fault raised by a caller on account of another. -/
  | raisedBecause (kind : FaultKind) (message : String) (cause : Fault)

namespace Fault

/-- The kind of a fault. -/
def kind : Fault → FaultKind
  | emptyKey | invalidKey _ | invalidKeyPath _ | noKeyFields => .invalidFieldName
  | repeatedKeyField _ | emptyIndexName | emptyKeyMapping _ | invalidDirection .. | zeroThreshold =>
    .validationError
  | unsupportedOperator _ | mixedOperators _ | optionsNotArray _ | invalidFilterPath _ =>
    .filterError
  | keyTaken .. | idTaken .. => .duplicateKey
  | idNotText _ | idMissing => .invalidId
  | idImmutable => .invalidOperation
  | indexDefinedOtherwise _ => .indexAlreadyExists
  | buildFailed .. => .indexBuildFailed
  | indexUnknown .. => .indexNotFound
  | indexOutOfStep .. | documentUnknown .. => .invariantViolation
  | collectionUnknown _ => .collectionNotFound
  | raised kind _ | raisedBecause kind _ _ => kind

/-- The wording of a fault. -/
def message : Fault → String
  | emptyKey => "Document does not support empty key"
  | invalidKey key => "Invalid embedded key " ++ key
  | invalidKeyPath path => "Invalid index field path '" ++ path ++ "'"
  | noKeyFields => "Index must have at least one key field"
  | repeatedKeyField path => "Index field '" ++ path ++ "' listed more than once"
  | emptyIndexName => "Index name cannot be empty"
  | emptyKeyMapping path => "Empty key mapping for index field '" ++ path ++ "'"
  | invalidDirection found path =>
    "Invalid direction " ++ found.render ++ " for index field '" ++ path ++ "', expected 1 or -1"
  | unsupportedOperator operator => "Unsupported filter operator " ++ operator
  | mixedOperators constraint => "Filter mixes operators and fields: " ++ constraint.render
  | optionsNotArray found => "$in expects an array operand, found " ++ found.render
  | invalidFilterPath path => "Invalid filter path '" ++ path ++ "'"
  | keyTaken key index owner =>
    "Duplicate key " ++ key.render ++ " for unique index '" ++ index ++
      "', already used by document " ++ owner
  | idTaken id collection =>
    "Document with id " ++ id ++ " already exists in '" ++ collection ++ "'"
  | idNotText found => "_id must be a string, found " ++ found.name
  | idMissing => "Document has no _id"
  | idImmutable => "_id of a document cannot be changed"
  | indexDefinedOtherwise name =>
    "Index '" ++ name ++ "' already exists with a different definition"
  | buildFailed name _ => "Failed to build index '" ++ name ++ "'"
  | indexUnknown name collection => "No index named '" ++ name ++ "' on '" ++ collection ++ "'"
  | indexOutOfStep index id key =>
    "Index '" ++ index ++ "' is out of sync for document " ++ id ++ " at key " ++ key.render
  | documentUnknown index id => "Index '" ++ index ++ "' refers to unknown document " ++ id
  | collectionUnknown name => "No collection named '" ++ name ++ "'"
  | zeroThreshold => "Slow query threshold must be greater than zero"
  | raised _ message | raisedBecause _ message _ => message

/-- The fault that led to a fault. -/
def cause? : Fault → Option Fault
  | buildFailed _ cause | raisedBecause _ _ cause => some cause
  | _ => none

/-- The faults that led to a fault, the nearest first. -/
def sources : Fault → List Fault
  | buildFailed _ cause | raisedBecause _ _ cause => cause :: cause.sources
  | _ => []

/-- Whether a batch goes on after the fault. -/
def isRecoverable (f : Fault) : Bool := f.kind.isRecoverable

/-- The wording of a fault with its kind. -/
def headline (f : Fault) : String := f.message ++ " (" ++ f.kind.title ++ ")"

/-- The wording of a fault and of all that led to it. -/
def report (f : Fault) : String :=
  "\nCaused by: ".intercalate ((f :: f.sources).map headline)

end Fault

end DocumentDb
