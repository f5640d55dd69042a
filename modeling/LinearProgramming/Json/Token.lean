import LinearProgramming.Decimal.Numeral

/-!
The tokens of JSON text. `Token.scan?` splits a text into tokens. It accepts
only the characters that the grammar allows, and leaves the order of the tokens
to the reader of values; two tokens that touch each other are no trouble, since
no value allows them without a bracket, comma or colon between.
-/

namespace LinearProgramming.Json

inductive Token where
  | openBrace
  | closeBrace
  | openBracket
  | closeBracket
  | colon
  | comma
  | null
  | bool (value : Bool)
  | number (numeral : Numeral)
  | string (text : Option String)
  deriving DecidableEq

def isBlank (c : Char) : Bool :=
  c = ' ' || c = '\t' || c = '\n' || c = '\r'

def isHighSurrogate (code : Nat) : Bool :=
  0xd800 ≤ code && code < 0xdc00

def isLowSurrogate (code : Nat) : Bool :=
  0xdc00 ≤ code && code < 0xe000

/-- The text with the given codes. A high surrogate and the low one behind it
are one character; a surrogate by itself is none. -/
def textOfCodes? : List Nat → Option (List Char)
  | [] => some []
  | [code] =>
    if isHighSurrogate code || isLowSurrogate code then none else some [Char.ofNat code]
  | code :: next :: codes =>
    if isHighSurrogate code then
      if isLowSurrogate next then
        let joined := 0x10000 + (code - 0xd800) * 0x400 + (next - 0xdc00)
        (textOfCodes? codes).map (Char.ofNat joined :: ·)
      else
        none
    else if isLowSurrogate code then
      none
    else
      (textOfCodes? (next :: codes)).map (Char.ofNat code :: ·)

def hexDigit? (c : Char) : Option Nat :=
  if '0' ≤ c ∧ c ≤ '9' then some (c.toNat - '0'.toNat)
  else if 'a' ≤ c ∧ c ≤ 'f' then some (c.toNat - 'a'.toNat + 10)
  else if 'A' ≤ c ∧ c ≤ 'F' then some (c.toNat - 'A'.toNat + 10)
  else none

def hexCode? (a b c d : Char) : Option Nat := do
  some ((((← hexDigit? a) * 16 + (← hexDigit? b)) * 16 + (← hexDigit? c)) * 16 + (← hexDigit? d))

def unescape? : Char → Option Char
  | '"' => some '"'
  | '\\' => some '\\'
  | '/' => some '/'
  | 'b' => some '\x08'
  | 'f' => some '\x0c'
  | 'n' => some '\n'
  | 'r' => some '\r'
  | 't' => some '\t'
  | _ => none

/-- Reads up to the closing quote. The codes of the string are collected in
reverse, escaped surrogates apart from each other. -/
def scanCodes? (codes : List Nat) : List Char → Option (List Nat × List Char)
  | [] => none
  | '"' :: rest => some (codes.reverse, rest)
  | '\\' :: 'u' :: a :: b :: c :: d :: rest =>
    match hexCode? a b c d with
    | none => none
    | some code => scanCodes? (code :: codes) rest
  | '\\' :: c :: rest =>
    match unescape? c with
    | none => none
    | some c => scanCodes? (c.toNat :: codes) rest
  | c :: rest => if c.toNat < 32 then none else scanCodes? (c.toNat :: codes) rest

theorem length_of_scanCodes? {codes found : List Nat} {input rest : List Char}
    (h : scanCodes? codes input = some (found, rest)) : rest.length ≤ input.length := by
  fun_induction scanCodes? codes input <;> simp_all <;> omega

def dropWord? : List Char → List Char → Option (List Char)
  | [], input => some input
  | _ :: _, [] => none
  | letter :: letters, c :: input => if c = letter then dropWord? letters input else none

theorem dropWord?_eq_some_iff {letters input rest : List Char} :
    dropWord? letters input = some rest ↔ input = letters ++ rest := by
  fun_induction dropWord? letters input <;> simp_all

namespace Token

/-- A word whose first letter has been read. -/
def scanWord? (token : Token) (letters : String) (input : List Char) :
    Option (Token × List Char) :=
  (dropWord? letters.toList input).map (token, ·)

def scanOne? (c : Char) (input : List Char) : Option (Token × List Char) :=
  match c with
  | '\x7b' => some (openBrace, input)
  | '\x7d' => some (closeBrace, input)
  | '[' => some (openBracket, input)
  | ']' => some (closeBracket, input)
  | ':' => some (colon, input)
  | ',' => some (comma, input)
  | 'n' => scanWord? null "ull" input
  | 't' => scanWord? (bool true) "rue" input
  | 'f' => scanWord? (bool false) "alse" input
  | '"' => (scanCodes? [] input).map fun (codes, rest) =>
      (string ((textOfCodes? codes).map String.ofList), rest)
  | c => (Numeral.scan? (c :: input)).map fun (numeral, rest) => (number numeral, rest)

theorem length_of_scanOne? {c : Char} {input rest : List Char} {token : Token}
    (h : scanOne? c input = some (token, rest)) : rest.length ≤ input.length := by
  have hword : ∀ {word : Token} {letters : String},
      scanWord? word letters input = some (token, rest) → rest.length ≤ input.length := by
    intro word letters hscan
    simp only [scanWord?, Option.map_eq_some_iff, Prod.mk.injEq] at hscan
    obtain ⟨after, hprefix, -, rfl⟩ := hscan
    simp only [dropWord?_eq_some_iff.mp hprefix, List.length_append]
    omega
  unfold scanOne? at h
  split at h
  case h_10 =>
    simp only [Option.map_eq_some_iff, Prod.mk.injEq] at h
    obtain ⟨⟨codes, after⟩, hcodes, -, rfl⟩ := h
    exact length_of_scanCodes? hcodes
  case h_11 =>
    simp only [Option.map_eq_some_iff, Prod.mk.injEq] at h
    obtain ⟨⟨numeral, after⟩, hnumeral, -, rfl⟩ := h
    exact Nat.le_of_lt_succ (Numeral.length_of_scan? hnumeral)
  all_goals first
    | exact hword h
    | simp only [Option.some.injEq, Prod.mk.injEq] at h
      exact Nat.le_of_eq (congrArg List.length h.2.symm)

/-- The tokens of a text behind those found already, latest first. -/
def scanFrom? (found : List Token) (input : List Char) : Option (List Token) :=
  match input with
  | [] => some found.reverse
  | c :: input =>
    if isBlank c then
      scanFrom? found input
    else
      match h : scanOne? c input with
      | none => none
      | some (token, rest) =>
        have := length_of_scanOne? h
        scanFrom? (token :: found) rest
  termination_by input.length

def scan? (input : List Char) : Option (List Token) :=
  scanFrom? [] input

end Token

end LinearProgramming.Json
