/-!
# JSON values

The values that entities are exchanged as. A number is an integer or something else; of the something else only that it is no
integer counts. A record is read from an object by the names of its fields, or from a list by their order.
-/

namespace ReviewQueue

/-- A JSON value. -/
inductive Json where
  | null
  | bool (b : Bool)
  | int (n : Int)
  /-- A number that is no integer. -/
  | fraction
  | text (s : String)
  | list (items : List Json)
  | object (fields : List (String × Json))
  deriving Repr, Inhabited

namespace Json

/-- The text of a value that is one. -/
def text? : Json → Option String
  | .text s => some s
  | _ => none

/-- The integer of a value that is one of at most 64 bits, with a sign. -/
def int64? : Json → Option Int
  | .int n => if Int64.minValue.toInt ≤ n ∧ n ≤ Int64.maxValue.toInt then some n else none
  | _ => none

/-- The natural number of a value that is one of at most 64 bits. -/
def nat64? : Json → Option Nat
  | .int n => if 0 ≤ n ∧ n < UInt64.size then some n.toNat else none
  | _ => none

/-- What `read` makes of a value that may be null. -/
def nullable? {α : Type} (read : Json → Option α) : Json → Option (Option α)
  | .null => some none
  | v => (read v).map some

/-- A value or null. -/
def ofOption {α : Type} (write : α → Json) : Option α → Json
  | none => .null
  | some a => write a

/-- The fields of a record, each present or not, in the order of their names. Other fields of an object do not count; a list has
exactly the fields of the record. -/
def fields? (names : List String) : Json → Option (List (Option Json))
  | .object fields => some (names.map (fields.lookup ·))
  | .list items => if items.length = names.length then some (items.map some) else none
  | _ => none

/-- The fields of a record that has a default for each; a list may end early. -/
def fieldsOrDefault? (names : List String) : Json → Option (List (Option Json))
  | .object fields => some (names.map (fields.lookup ·))
  | .list items =>
    if items.length ≤ names.length then some (items.map some ++ List.replicate (names.length - items.length) none) else none
  | _ => none

/-- A field that has to be there. -/
def required {α : Type} (read : Json → Option α) (field : Option Json) : Option α := field.bind read

/-- A field that may be null or missing. -/
def optional {α : Type} (read : Json → Option α) : Option Json → Option (Option α)
  | none => some none
  | some v => nullable? read v

/-- A field that may be missing. -/
def orDefault {α : Type} (default : α) (read : Json → Option α) : Option Json → Option α
  | none => some default
  | some v => read v

end Json
end ReviewQueue
