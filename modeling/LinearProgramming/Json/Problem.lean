import LinearProgramming.Json.Library
import LinearProgramming.Problem

/-!
Linear programs as JSON: a record of the constraint rows, the right-hand sides
and the objective coefficients. Any shape is accepted here; whether the data
form a program is the problem's own question.
-/

namespace LinearProgramming.Problem

variable {α : Type} (json : Json.Library α)

def toJson (p : Problem Float) : α :=
  json.ofFields [
    ("a", json.ofItems (json.ofItems json.ofFloat) p.a),
    ("b", json.ofItems json.ofFloat p.b),
    ("c", json.ofItems json.ofFloat p.c)]

def ofJson (v : α) : Except String (Problem Float) := do
  let field ← json.fields ["a", "b", "c"] v
  return {
    a := ← json.items (json.items json.float) (← json.required field "a")
    b := ← json.items json.float (← json.required field "b")
    c := ← json.items json.float (← json.required field "c") }

def ofText (text : String) : Except String (Problem Float) := do
  ofJson json (← json.parse text)

end LinearProgramming.Problem
