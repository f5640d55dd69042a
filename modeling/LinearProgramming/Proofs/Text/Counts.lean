import LinearProgramming.Json.Token
import LinearProgramming.Proofs.Text.Numerals

/-!
Numbers that stand in a text between words known beforehand. They are read back as they
were written, provided that no word goes on with a digit.
-/

namespace LinearProgramming

open Json (dropWord? dropWord?_eq_some_iff)

def scanNumber? (input : List Char) : Option (Nat × List Char) := do
  let (digits, rest) ← Numeral.scanDigits? input
  return (Nat.ofDigitChars 10 digits 0, rest)

/-- The numbers between the words, the first of which stands in front. The text may go on
behind the last. -/
def numbersBetween? : List String → List Char → Option (List Nat)
  | [], _ => some []
  | [word], input => (dropWord? word.toList input).map fun _ => []
  | word :: next :: words, input => do
    let rest ← dropWord? word.toList input
    let (number, rest) ← scanNumber? rest
    let numbers ← numbersBetween? (next :: words) rest
    return number :: numbers

theorem scanNumber?_append (n : Nat) {rest : List Char}
    (hrest : Numeral.Stops Char.isDigit rest) :
    scanNumber? ((toString n).toList ++ rest) = some (n, rest) := by
  have hdigits : (toString n).toList = Nat.toDigits 10 n := Nat.toList_repr
  rw [scanNumber?, hdigits, Numeral.scanDigits?_append Nat.toDigits_ne_nil
    Numeral.isDigit_of_mem_toDigits hrest]
  simp

theorem numbersBetween?_last (word : String) (rest : List Char) :
    numbersBetween? [word] (word.toList ++ rest) = some [] := by
  simp [numbersBetween?, dropWord?_eq_some_iff.mpr rfl]

theorem numbersBetween?_cons (word next : String) (words : List String) (n : Nat)
    {rest : List Char} (hrest : Numeral.Stops Char.isDigit rest) :
    numbersBetween? (word :: next :: words) (word.toList ++ ((toString n).toList ++ rest)) =
      (numbersBetween? (next :: words) rest).map (n :: ·) := by
  rw [numbersBetween?, dropWord?_eq_some_iff.mpr rfl]
  simp only [Option.bind_eq_bind, Option.bind_some, scanNumber?_append n hrest]
  exact Option.map_eq_bind.symm

end LinearProgramming
