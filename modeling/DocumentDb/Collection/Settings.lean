/-
  DocumentDb — settings of a store and options of single operations.

  * `Settings` are shared by a store and its collections; `Settings.ofList` applies them one after
    the other and stops at the first that is refused.
  * `FindOptions` and `LoadOptions` are the options of finding and of loading documents.
-/
import DocumentDb.Fault

namespace DocumentDb

/-- The settings of a store and of its collections. -/
structure Settings where
  /-- Whether finds give copies of the documents unless they are asked for the documents
      themselves. -/
  decoupleResults : Bool := true
  /-- The duration, in nanoseconds, from which a find counts as slow. -/
  slowQueryThreshold? : Option Nat := none
  deriving DecidableEq, Inhabited

/-- A change of the settings. -/
inductive Setting where
  | decoupleResults (decouple : Bool)
  | slowQueryThreshold (nanoseconds : Nat)
  deriving DecidableEq

namespace Settings

/-- The settings with one of them changed. -/
def apply (s : Settings) : Setting → Except Fault Settings
  | .decoupleResults decouple => .ok { s with decoupleResults := decouple }
  | .slowQueryThreshold 0 => .error .zeroThreshold
  | .slowQueryThreshold nanoseconds => .ok { s with slowQueryThreshold? := some nanoseconds }

/-- The default settings with some of them changed. -/
def ofList (changes : List Setting) : Except Fault Settings := changes.foldlM apply {}

end Settings

/-- The options of a find. -/
structure FindOptions where
  /-- Whether to give copies; where it is not said the settings of the collection decide. -/
  decouple? : Option Bool := none
  /-- Whether to try every document and use no index. -/
  skipIndex : Bool := false
  deriving DecidableEq, Inhabited

namespace FindOptions

/-- Find without an index. -/
def skipping : FindOptions := { skipIndex := true }

/-- Find the stored documents themselves. -/
def coupled : FindOptions := { decouple? := some false }

/-- Whether to give copies, where `default` holds if it is not said. -/
def decoupleOr (o : FindOptions) (default : Bool) : Bool := o.decouple?.getD default

end FindOptions

/-- The options of loading documents. -/
structure LoadOptions where
  /-- Whether documents without an id get one. -/
  ensureKeys : Bool := true
  /-- Whether unique indexes keep documents out. -/
  violationCheck : Bool := true
  deriving DecidableEq, Inhabited

end DocumentDb
