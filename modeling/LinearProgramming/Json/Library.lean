/-!
What is used of a library for JSON. It has values of its own and two texts for
each, it makes values of numbers, lists, records and alternatives, and it takes
values apart again. A value that is not of the kind that is asked for comes with
a reason.
-/

namespace LinearProgramming.Json

structure Library (α : Type) where
  /-- The text of a value on one line. -/
  compact : α → String
  /-- The text of a value with a line for each item. -/
  pretty : α → String
  parse : String → Except String α
  null : α
  isNull : α → Bool
  ofFloat : Float → α
  float : α → Except String Float
  ofCount : Nat → α
  count : α → Except String Nat
  ofList : List α → α
  list : α → Except String (List α)
  /-- A record with its fields in this order. -/
  ofFields : List (String × α) → α
  /-- The fields of a record by name, if it is one for these names. A field that is left
  out has no value. -/
  fields : List String → α → Except String (String → Option α)
  /-- An alternative by its name, with a content or without one. -/
  ofVariant : String → Option α → α
  variant : α → Except String (String × Option α)
  /-- The reason to refuse a record without the field of this name. -/
  missingField : String → String
  /-- The reason to refuse an alternative of this name. -/
  unknownVariant : String → String

namespace Library

variable {α β : Type} (json : Library α)

def ofItems (encode : β → α) (items : List β) : α :=
  json.ofList (items.map encode)

def items (decode : α → Except String β) (v : α) : Except String (List β) := do
  (← json.list v).mapM decode

/-- The value of a field that must not be left out. -/
def required (field : String → Option α) (name : String) : Except String α :=
  match field name with
  | some v => .ok v
  | none => .error (json.missingField name)

end Library

end LinearProgramming.Json
