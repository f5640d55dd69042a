import LinearProgramming.Json.Token
import LinearProgramming.Json.Value

/-!
Reading a JSON value. The tokens of a text move an automaton whose state is the
stack of brackets that are still open, so that no depth of nesting is too much.
-/

namespace LinearProgramming.Json

/-- An open bracket and what has been read inside it, latest first. -/
inductive Frame where
  | array (items : List Value)
  /-- The value of the key is not known yet. -/
  | object (members : List (Option String × Value)) (key : Option String)

/-- What may come next, inside the open brackets. -/
inductive State where
  | value (stack : List Frame)
  /-- The first item of an array, or its end. -/
  | firstItem (stack : List Frame)
  /-- The first key of an object, or its end. -/
  | firstKey (stack : List Frame)
  | key (stack : List Frame) (members : List (Option String × Value))
  /-- The colon behind a key. -/
  | colon (stack : List Frame) (members : List (Option String × Value)) (key : Option String)
  /-- What follows a complete value. -/
  | after (stack : List Frame) (value : Value)

namespace State

def beginValue? (stack : List Frame) : Token → Option State
  | .null => some (after stack .null)
  | .bool flag => some (after stack (.bool flag))
  | .number numeral => some (after stack (.number numeral))
  | .string text => some (after stack (.string text))
  | .openBracket => some (firstItem stack)
  | .openBrace => some (firstKey stack)
  | _ => none

def step? : State → Token → Option State
  | value stack, token => beginValue? stack token
  | firstItem stack, .closeBracket => some (after stack (.array []))
  | firstItem stack, token => beginValue? (.array [] :: stack) token
  | firstKey stack, .closeBrace => some (after stack (.object []))
  | firstKey stack, .string name => some (colon stack [] name)
  | key stack members, .string name => some (colon stack members name)
  | colon stack members name, .colon => some (value (.object members name :: stack))
  | after (.array items :: stack) item, .comma => some (value (.array (item :: items) :: stack))
  | after (.array items :: stack) item, .closeBracket =>
    some (after stack (.array (item :: items).reverse))
  | after (.object members name :: stack) item, .comma =>
    some (key stack ((name, item) :: members))
  | after (.object members name :: stack) item, .closeBrace =>
    some (after stack (.object ((name, item) :: members).reverse))
  | _, _ => none

/-- The value that has been read, if nothing is open. -/
def finish? : State → Option Value
  | after [] content => some content
  | _ => none

end State

namespace Value

def ofTokens? (tokens : List Token) : Option Value :=
  (tokens.foldlM State.step? (.value [])).bind State.finish?

def ofString? (text : String) : Option Value :=
  (Token.scan? text.toList).bind ofTokens?

end Value

end LinearProgramming.Json
