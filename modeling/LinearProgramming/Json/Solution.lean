import LinearProgramming.Json.Library
import LinearProgramming.Solution

/-!
Solutions as JSON. A status is written as its name; a violation as an object
whose one key tells its kind. An absent objective value is `null` and may be
left out in an object.
-/

namespace LinearProgramming

variable {α : Type} (json : Json.Library α)

namespace Violation

def toJson : Violation Float → α
  | constraint row limit actual amount =>
    json.ofVariant "Constraint" (json.ofFields [
      ("row", json.ofCount row),
      ("limit", json.ofFloat limit),
      ("actual", json.ofFloat actual),
      ("amount", json.ofFloat amount)])
  | negativeValue index value =>
    json.ofVariant "NegativeValue" (json.ofFields [
      ("index", json.ofCount index),
      ("value", json.ofFloat value)])

def constraintOfJson (v : α) : Except String (Violation Float) := do
  let field ← json.fields ["row", "limit", "actual", "amount"] v
  let row ← json.count (← json.required field "row")
  let limit ← json.float (← json.required field "limit")
  let actual ← json.float (← json.required field "actual")
  let amount ← json.float (← json.required field "amount")
  return constraint row limit actual amount

def negativeValueOfJson (v : α) : Except String (Violation Float) := do
  let field ← json.fields ["index", "value"] v
  let index ← json.count (← json.required field "index")
  let value ← json.float (← json.required field "value")
  return negativeValue index value

def ofJson (v : α) : Except String (Violation Float) := do
  match ← json.variant v with
  | ("Constraint", some content) => constraintOfJson json content
  | ("NegativeValue", some content) => negativeValueOfJson json content
  | (name, _) => .error (json.unknownVariant name)

end Violation

namespace Status

def name : Status → String
  | optimal => "Optimal"
  | unbounded => "Unbounded"
  | iterationLimit => "IterationLimit"
  | error => "Error"

def ofName? (name : String) : Option Status :=
  [optimal, unbounded, iterationLimit, error].find? (·.name == name)

def toJson (status : Status) : α :=
  json.ofVariant status.name none

/-- A status has no content, which may be written as `null`. -/
def ofJson (v : α) : Except String Status := do
  let (name, content) ← json.variant v
  match ofName? name with
  | some status =>
    if content.all json.isNull then return status else .error (json.unknownVariant name)
  | none => .error (json.unknownVariant name)

end Status

namespace Solution

def toJson (s : Solution Float) : α :=
  json.ofFields [
    ("status", s.status.toJson json),
    ("values", json.ofItems json.ofFloat s.values),
    ("objective_value", (s.objectiveValue.map json.ofFloat).getD json.null),
    ("iterations", json.ofCount s.iterations),
    ("violations", json.ofItems (Violation.toJson json) s.violations)]

/-- An objective value that is left out or `null` is absent. -/
def objectiveOfJson (field : Option α) : Except String (Option Float) :=
  match field with
  | none => return none
  | some v => if json.isNull v then return none else return some (← json.float v)

def ofJson (v : α) : Except String (Solution Float) := do
  let field ← json.fields ["status", "values", "objective_value", "iterations", "violations"] v
  return {
    status := ← Status.ofJson json (← json.required field "status")
    values := ← json.items json.float (← json.required field "values")
    objectiveValue := ← objectiveOfJson json (field "objective_value")
    iterations := ← json.count (← json.required field "iterations")
    violations := ← json.items (Violation.ofJson json) (← json.required field "violations") }

def ofText (text : String) : Except String (Solution Float) := do
  ofJson json (← json.parse text)

end Solution

end LinearProgramming
