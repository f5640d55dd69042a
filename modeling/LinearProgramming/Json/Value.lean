import LinearProgramming.Decimal.Numeral

/-!
JSON values and their two written forms, one without any blanks and one with a
line for each item.
-/

namespace LinearProgramming.Json

/-- A JSON value. Members stay in the order of the text, and repeated keys stay
apart. A string whose escapes leave a surrogate without its partner is valid
JSON but denotes no text; it is kept as `none`. -/
inductive Value where
  | null
  | bool (value : Bool)
  | number (numeral : Numeral)
  | string (text : Option String)
  | array (items : List Value)
  | object (members : List (Option String × Value))

/-- The blanks of a written form. -/
structure Style where
  /-- What stands before an item or a closing bracket at some depth. -/
  lineBreak : Nat → List Char
  /-- What stands between a colon and the value behind it. -/
  colonGap : List Char

def Style.compact : Style where
  lineBreak _ := []
  colonGap := []

/-- Every level is indented by two blanks. -/
def Style.pretty : Style where
  lineBreak depth := '\n' :: List.replicate (2 * depth) ' '
  colonGap := [' ']

def hexDigits (value : Nat) : List Char :=
  (Nat.toDigits 16 value).leftpad 4 '0'

/-- A character inside quotes. Only quotes, backslashes and control characters
are escaped. -/
def escapeChar (c : Char) : List Char :=
  match c with
  | '"' => ['\\', '"']
  | '\\' => ['\\', '\\']
  | '\x08' => ['\\', 'b']
  | '\x0c' => ['\\', 'f']
  | '\n' => ['\\', 'n']
  | '\r' => ['\\', 'r']
  | '\t' => ['\\', 't']
  | c => if c.toNat < 32 then '\\' :: 'u' :: hexDigits c.toNat else [c]

/-- A string in quotes. An escaped surrogate stands for a string that denotes no
text. -/
def quote (text : Option String) : List Char :=
  let inside := match text with
    | some text => text.toList.flatMap escapeChar
    | none => '\\' :: 'u' :: hexDigits 0xd800
  '"' :: inside ++ ['"']

namespace Value

mutual

/-- The characters of a value at some depth. -/
def chars (style : Style) (depth : Nat) : Value → List Char
  | null => "null".toList
  | bool true => "true".toList
  | bool false => "false".toList
  | number numeral => numeral.chars true
  | string text => quote text
  | array [] => ['[', ']']
  | array (item :: items) =>
    '[' :: style.lineBreak (depth + 1) ++ item.chars style (depth + 1)
      ++ itemsChars style (depth + 1) items ++ style.lineBreak depth ++ [']']
  | object [] => ['\x7b', '\x7d']
  | object ((key, value) :: members) =>
    '\x7b' :: style.lineBreak (depth + 1) ++ quote key ++ ':' :: style.colonGap
      ++ value.chars style (depth + 1) ++ membersChars style (depth + 1) members
      ++ style.lineBreak depth ++ ['\x7d']

def itemsChars (style : Style) (depth : Nat) : List Value → List Char
  | [] => []
  | item :: items =>
    ',' :: style.lineBreak depth ++ item.chars style depth ++ itemsChars style depth items

def membersChars (style : Style) (depth : Nat) : List (Option String × Value) → List Char
  | [] => []
  | (key, value) :: members =>
    ',' :: style.lineBreak depth ++ quote key ++ ':' :: style.colonGap
      ++ value.chars style depth ++ membersChars style depth members

end

def compact (v : Value) : String :=
  String.ofList (v.chars .compact 0)

def pretty (v : Value) : String :=
  String.ofList (v.chars .pretty 0)

end Value

end LinearProgramming.Json
