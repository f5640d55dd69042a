import LinearProgramming.Decimal.Layout
import LinearProgramming.Json.Library
import LinearProgramming.Json.Reader

/-!
The parts that records are made of: numbers, lists, alternatives, and records by
the names of their fields or by their order. With the texts of values they make
a library.
-/

namespace LinearProgramming.Json

/-- What is missing is refused for the reason. -/
def orReason {β : Type} (reason : String) : Option β → Except String β
  | some found => .ok found
  | none => .error reason

namespace Value

/-- A number is written with the shortest digits. What is not finite has no
number in JSON. -/
def ofFloat (x : Float) : Value :=
  match Layout.interchange.numeral? x with
  | some numeral => number numeral
  | none => null

def float : Value → Except String Float
  | number numeral => orReason "number out of range" numeral.toFinite?
  | _ => .error "expected a number"

def ofCount (n : Nat) : Value :=
  number ⟨false, n, 0, none⟩

def count : Value → Except String Nat
  | number numeral => orReason "number out of range" numeral.toCount?
  | _ => .error "expected a count"

def list : Value → Except String (List Value)
  | array items => .ok items
  | _ => .error "expected a list"

def ofFields (fields : List (String × Value)) : Value :=
  object (fields.map fun (name, value) => (some name, value))

/-- The value of the key, given that it occurs at most once. -/
def member? (members : List (Option String × Value)) (name : String) : Option Value :=
  (members.find? fun (key, _) => key == some name).map (·.2)

/-- The fields of a record with the given names. An object may leave fields out
and have others besides, but repeats none of these; every key has to be a text.
An array has exactly one item for each field. -/
def fields (names : List String) : Value → Except String (String → Option Value)
  | array items =>
    if items.length = names.length then .ok fun name => (names.zip items).lookup name
    else .error "expected an item for each field"
  | object members =>
    let keys := members.map (·.1)
    if keys.all Option.isSome ∧ names.all (fun name => keys.count (some name) ≤ 1) then
      .ok (member? members)
    else
      .error "expected each field once"
  | _ => .error "expected a record"

def ofVariant (name : String) : Option Value → Value
  | none => string (some name)
  | some content => object [(some name, content)]

/-- A name by itself is an alternative without a content. -/
def variant : Value → Except String (String × Option Value)
  | string (some name) => .ok (name, none)
  | object [(some name, content)] => .ok (name, some content)
  | _ => .error "expected an alternative"

def isNull : Value → Bool
  | null => true
  | _ => false

end Value

/-- The library that the program brings along. -/
def Library.standard : Library Value where
  compact := Value.compact
  pretty := Value.pretty
  parse text := orReason "expected a single value" (Value.ofString? text)
  null := .null
  isNull := Value.isNull
  ofFloat := Value.ofFloat
  float := Value.float
  ofCount := Value.ofCount
  count := Value.count
  ofList := .array
  list := Value.list
  ofFields := Value.ofFields
  fields := Value.fields
  ofVariant := Value.ofVariant
  variant := Value.variant
  missingField name := s!"missing field {name}"
  unknownVariant name := s!"unknown alternative {name}"

end LinearProgramming.Json
