/-!
Decimal numerals as they are written: digits, a point among them, a power of
ten behind them. A numeral keeps its spelling up to the look of the exponent,
and denotes one number. `Numeral.chars` writes a numeral, `Numeral.scan?` reads
one off the front of a text, and `Numeral.toFloat` rounds it to binary64.
-/

namespace LinearProgramming

/-- Indices and counts are read up to 64 bits. -/
def countBound : Nat := Nat.pow 2 64

/-- The numeral `±s · 10^(exponent - places)`, where the last `places` digits of
the significand `s` stand behind the point. -/
structure Numeral where
  negative : Bool
  significand : Nat
  places : Nat
  exponent : Option Int
  deriving DecidableEq

namespace Numeral

/-- The digits before the point; at least one. -/
def wholeChars (n : Numeral) : List Char :=
  Nat.toDigits 10 (n.significand / Nat.pow 10 n.places)

/-- The point and the digits behind it, or nothing. -/
def fractionChars (n : Numeral) : List Char :=
  if n.places = 0 then
    []
  else
    '.' :: (Nat.toDigits 10 (n.significand % Nat.pow 10 n.places)).leftpad n.places '0'

/-- The power of ten, with its sign always shown if `plus` is set. -/
def exponentChars (n : Numeral) (plus : Bool) : List Char :=
  match n.exponent with
  | none => []
  | some e =>
    let sign := if e < 0 then ['-'] else if plus then ['+'] else []
    'e' :: sign ++ Nat.toDigits 10 e.natAbs

def chars (n : Numeral) (plus : Bool) : List Char :=
  (if n.negative then ['-'] else []) ++ n.wholeChars ++ n.fractionChars ++ n.exponentChars plus

def text (n : Numeral) (plus : Bool) : String :=
  String.ofList (n.chars plus)

/-- Splits off a run of digits, which may not be empty. -/
def scanDigits? (input : List Char) : Option (List Char × List Char) :=
  let digits := input.takeWhile Char.isDigit
  if digits.isEmpty then none else some (digits, input.dropWhile Char.isDigit)

/-- The digits before the point: only the number zero starts with a zero. -/
def scanWhole? (input : List Char) : Option (List Char × List Char) :=
  match scanDigits? input with
  | some ('0' :: _ :: _, _) => none
  | found => found

/-- The digits behind the point. If there is a point, there are digits. -/
def scanFraction? : List Char → Option (List Char × List Char)
  | '.' :: rest => scanDigits? rest
  | input => some ([], input)

def scanExponentDigits? (negative : Bool) (input : List Char) :
    Option (Option Int × List Char) :=
  (scanDigits? input).map fun (digits, rest) =>
    let size : Int := Nat.ofDigitChars 10 digits 0
    (some (if negative then -size else size), rest)

def scanExponent? (input : List Char) : Option (Option Int × List Char) :=
  match input with
  | 'e' :: '-' :: rest | 'E' :: '-' :: rest => scanExponentDigits? true rest
  | 'e' :: '+' :: rest | 'E' :: '+' :: rest => scanExponentDigits? false rest
  | 'e' :: rest | 'E' :: rest => scanExponentDigits? false rest
  | _ => some (none, input)

def scanUnsigned? (negative : Bool) (input : List Char) : Option (Numeral × List Char) := do
  let (whole, input) ← scanWhole? input
  let (fraction, input) ← scanFraction? input
  let (exponent, input) ← scanExponent? input
  some (⟨negative, Nat.ofDigitChars 10 (whole ++ fraction) 0, fraction.length, exponent⟩, input)

/-- Reads a numeral off the front of a text, as far as it reaches. -/
def scan? : List Char → Option (Numeral × List Char)
  | '-' :: rest => scanUnsigned? true rest
  | input => scanUnsigned? false input

theorem length_of_scanDigits? {input digits rest : List Char}
    (h : scanDigits? input = some (digits, rest)) : rest.length < input.length := by
  simp only [scanDigits?] at h
  split at h
  · simp at h
  · rename_i hdigits
    simp only [Option.some.injEq, Prod.mk.injEq] at h
    obtain ⟨rfl, rfl⟩ := h
    have hsplit := congrArg List.length
      (List.takeWhile_append_dropWhile (p := Char.isDigit) (l := input))
    have hpositive : (input.takeWhile Char.isDigit).length ≠ 0 := by
      simpa using hdigits
    simp only [List.length_append] at hsplit
    omega

theorem length_of_scanWhole? {input digits rest : List Char}
    (h : scanWhole? input = some (digits, rest)) : rest.length < input.length := by
  unfold scanWhole? at h
  split at h
  · simp at h
  · exact length_of_scanDigits? h

theorem length_of_scanFraction? {input digits rest : List Char}
    (h : scanFraction? input = some (digits, rest)) : rest.length ≤ input.length := by
  unfold scanFraction? at h
  split at h
  · have := length_of_scanDigits? h
    simp only [List.length_cons]
    omega
  · simp only [Option.some.injEq, Prod.mk.injEq] at h
    exact Nat.le_of_eq (congrArg List.length h.2.symm)

theorem length_of_scanExponentDigits? {negative : Bool} {input rest : List Char}
    {exponent : Option Int} (h : scanExponentDigits? negative input = some (exponent, rest)) :
    rest.length < input.length := by
  simp only [scanExponentDigits?, Option.map_eq_some_iff, Prod.mk.injEq] at h
  obtain ⟨⟨digits, after⟩, hdigits, -, rfl⟩ := h
  exact length_of_scanDigits? hdigits

theorem length_of_scanExponent? {input rest : List Char} {exponent : Option Int}
    (h : scanExponent? input = some (exponent, rest)) : rest.length ≤ input.length := by
  unfold scanExponent? at h
  split at h
  case h_7 =>
    simp only [Option.some.injEq, Prod.mk.injEq] at h
    exact Nat.le_of_eq (congrArg List.length h.2.symm)
  all_goals
    have := length_of_scanExponentDigits? h
    simp only [List.length_cons]
    omega

theorem length_of_scanUnsigned? {negative : Bool} {input rest : List Char} {n : Numeral}
    (h : scanUnsigned? negative input = some (n, rest)) : rest.length < input.length := by
  simp only [scanUnsigned?, Option.bind_eq_bind, Option.bind_eq_some_iff, Option.some.injEq,
    Prod.mk.injEq] at h
  obtain ⟨⟨_, first⟩, hwhole, ⟨_, second⟩, hfraction, ⟨_, third⟩, hexponent, -, rfl⟩ := h
  exact Nat.lt_of_le_of_lt
    (Nat.le_trans (length_of_scanExponent? hexponent) (length_of_scanFraction? hfraction))
    (length_of_scanWhole? hwhole)

theorem length_of_scan? {input rest : List Char} {n : Numeral}
    (h : scan? input = some (n, rest)) : rest.length < input.length := by
  unfold scan? at h
  split at h
  · have := length_of_scanUnsigned? h
    simp only [List.length_cons]
    omega
  · exact length_of_scanUnsigned? h

def ofString? (s : String) : Option Numeral :=
  match scan? s.toList with
  | some (n, []) => some n
  | _ => none

/-- The power of ten that the significand is multiplied by. -/
def scale (n : Numeral) : Int :=
  n.exponent.getD 0 - n.places

/-- The binary64 number nearest to the absolute value. Every number from
`10^309` on is too large, and every number below `10^(-324)` is nearest to zero;
between these the power of ten is small enough to be computed. -/
def magnitude (n : Numeral) : Float :=
  let length : Int := (Nat.toDigits 10 n.significand).length
  if n.significand = 0 ∨ length + n.scale < -323 then
    0
  else if 309 < length + n.scale - 1 then
    1 / 0
  else
    Float.ofScientific n.significand (n.scale < 0) n.scale.natAbs

/-- The nearest binary64 number; a negative zero keeps its sign. -/
def toFloat (n : Numeral) : Float :=
  if n.negative then -n.magnitude else n.magnitude

/-- The nearest binary64 number, unless it is infinite. -/
def toFinite? (n : Numeral) : Option Float :=
  if n.toFloat.isFinite then some n.toFloat else none

def toNat? (n : Numeral) : Option Nat :=
  if n.negative ∨ n.places ≠ 0 ∨ n.exponent.isSome then none else some n.significand

def toCount? (n : Numeral) : Option Nat :=
  n.toNat?.filter (· < countBound)

end Numeral

end LinearProgramming
