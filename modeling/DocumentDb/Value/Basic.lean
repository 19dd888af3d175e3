/-
  DocumentDb — values and the fields of documents.

  * `Value` is what a document stores under a key: null, a truth value, a number, a text, a
    document or an array.
  * `Fields bound` are fields in strictly ascending order of their keys, all after `bound`; a
    `Document` has no bound.  The order of the keys (by code point) is part of the type, so that a
    document holds each key once and equal documents are built alike.
  * `Kind` names the six kinds, in the order in which values of different kinds compare.
  * `Value.compare` orders values of different kinds by kind, numbers by value, texts by code point,
    and documents and arrays entry by entry.  `==` on values is equality in this order, so the
    integer `1` equals the float `1`.
  * `Value.render` writes a value in messages: arrays in brackets, documents in braces with their
    keys in quotes, and texts in quotes without escapes: `{"a": [1, "b", null]}`.
-/
import DocumentDb.Number.Basic

namespace DocumentDb

/-- A key after the bound, where there is a bound. -/
def Follows : Option String → String → Prop
  | none, _ => True
  | some bound, key => bound < key

mutual
/-- A value stored in a document. -/
inductive Value : Type where
  | null
  | bool (b : Bool)
  | number (n : Number)
  | text (s : String)
  | document (fields : Fields none)
  | array (items : List Value)
/-- Keys with their values, in ascending order after a bound. -/
inductive Fields : Option String → Type where
  | nil {bound : Option String} : Fields bound
  | cons {bound : Option String} (key : String) (follows : Follows bound key) (value : Value)
      (rest : Fields (some key)) : Fields bound
end

/-- A record without schema: keys with their values, in ascending order of the keys. -/
abbrev Document := Fields none

instance : Inhabited Value := ⟨.null⟩

instance {bound : Option String} : Inhabited (Fields bound) := ⟨.nil⟩

/-! ## Kinds -/

/-- The kinds of values, lowest first. -/
inductive Kind where
  | null | bool | number | text | document | array
  deriving DecidableEq, Repr

namespace Kind

/-- The place of a kind among the kinds. -/
def rank : Kind → Nat
  | null => 0
  | bool => 1
  | number => 2
  | text => 3
  | document => 4
  | array => 5

/-- The name of a kind in messages. -/
def name : Kind → String
  | null => "null"
  | bool => "bool"
  | number => "number"
  | text => "string"
  | document => "document"
  | array => "array"

end Kind

namespace Value

/-- The kind of a value. -/
def kind : Value → Kind
  | null => .null
  | bool _ => .bool
  | number _ => .number
  | text _ => .text
  | document _ => .document
  | array _ => .array

/-! ## Reading a value of one kind -/

/-- Whether the value is null. -/
def isNull : Value → Bool
  | null => true
  | _ => false

/-- Whether nothing can be indexed under the value: it is null or an array without items. -/
def isMissing : Value → Bool
  | null => true
  | array [] => true
  | _ => false

/-- The truth value. -/
def bool? : Value → Option Bool
  | bool b => some b
  | _ => none

/-- The number, if it has the integer form. -/
def int? : Value → Option Int64
  | number (.int n) => some n
  | _ => none

/-- The number as a float, rounded if it has the integer form. -/
def float? : Value → Option Binary64
  | number n => some n.toBinary64
  | _ => none

/-- The text. -/
def text? : Value → Option String
  | text s => some s
  | _ => none

/-- The document. -/
def document? : Value → Option Document
  | document d => some d
  | _ => none

/-- The items of the array. -/
def array? : Value → Option (List Value)
  | array items => some items
  | _ => none

/-! ## Making a value -/

/-- An integer value. -/
def int (n : Int64) : Value := number (.int n)

/-- A float value. -/
def float (x : Binary64) : Value := number (.float x)

/-- The value of something optional: null when there is nothing. -/
def ofOption {α : Type} (f : α → Value) (a : Option α) : Value := a.elim null f

/-- The array of the values of some items. -/
def ofList {α : Type} (f : α → Value) (items : List α) : Value := array (items.map f)

end Value

/-! ## The native order -/

mutual
/-- Values in native order. -/
def Value.compare : Value → Value → Ordering
  | .bool a, .bool b => Ord.compare a b
  | .number a, .number b => a.compare b
  | .text a, .text b => Ord.compare a b
  | .document a, .document b => a.compare b
  | .array a, .array b => Value.compareItems a b
  | a, b => Ord.compare a.kind.rank b.kind.rank
/-- Fields in native order: by key, then by value, then the rest; fewer fields come first. -/
def Fields.compare : {bound bound' : Option String} → Fields bound → Fields bound' → Ordering
  | _, _, .nil, .nil => .eq
  | _, _, .nil, .cons .. => .lt
  | _, _, .cons .., .nil => .gt
  | _, _, .cons key _ value rest, .cons key' _ value' rest' =>
    (Ord.compare key key').then ((value.compare value').then (rest.compare rest'))
/-- Items in native order, one after the other; fewer items come first. -/
def Value.compareItems : List Value → List Value → Ordering
  | [], [] => .eq
  | [], _ :: _ => .lt
  | _ :: _, [] => .gt
  | value :: rest, value' :: rest' => (value.compare value').then (Value.compareItems rest rest')
end

instance : Ord Value := ⟨Value.compare⟩

instance : BEq Value := ⟨fun a b => a.compare b == .eq⟩

instance {bound : Option String} : Ord (Fields bound) := ⟨Fields.compare⟩

instance {bound : Option String} : BEq (Fields bound) := ⟨fun a b => a.compare b == .eq⟩

/-! ## Text in messages -/

mutual
/-- The text of a value. -/
def Value.render : Value → String
  | .null => "null"
  | .bool b => if b then "true" else "false"
  | .number n => n.text
  | .text s => "\"" ++ s ++ "\""
  | .document d => "\x7b" ++ ", ".intercalate d.renderEntries ++ "\x7d"
  | .array items => "[" ++ ", ".intercalate (Value.renderItems items) ++ "]"
/-- The texts of the entries of a document. -/
def Fields.renderEntries : {bound : Option String} → Fields bound → List String
  | _, .nil => []
  | _, .cons key _ value rest => ("\"" ++ key ++ "\": " ++ value.render) :: rest.renderEntries
/-- The texts of the items of an array. -/
def Value.renderItems : List Value → List String
  | [] => []
  | value :: rest => value.render :: Value.renderItems rest
end

/-- The text of a document. -/
def Fields.render {bound : Option String} (d : Fields bound) : String :=
  "\x7b" ++ ", ".intercalate d.renderEntries ++ "\x7d"

end DocumentDb
