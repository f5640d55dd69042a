import LinearProgramming.Decimal.Numeral
import Mathlib.Tactic.IntervalCases
import Mathlib.Tactic.SplitIfs

/-!
Written numerals are read back, spelling and all: the digits before the point, which
start with a zero only if they are nothing else, the digits behind it, zeros
included, and the power of ten. What follows a numeral in a text must not look like
more of it.
-/

namespace LinearProgramming

namespace Numeral

/-- The text does not go on with a character of the kind. -/
def Stops (kind : Char → Bool) (rest : List Char) : Prop :=
  ∀ c, rest.head? = some c → kind c = false

/-- A character that a numeral may go on with. -/
def continuesNumeral (c : Char) : Bool :=
  c.isDigit || c == '.' || c == 'e' || c == 'E'

theorem Stops.nil (kind : Char → Bool) : Stops kind [] := by
  intro c hc
  cases hc

theorem Stops.cons {kind : Char → Bool} {c : Char} (hc : kind c = false) (rest : List Char) :
    Stops kind (c :: rest) := by
  intro c' hc'
  cases hc'
  exact hc

theorem Stops.mono {kind kind' : Char → Bool} {rest : List Char} (h : Stops kind rest)
    (himp : ∀ c, kind c = false → kind' c = false) : Stops kind' rest :=
  fun c hc => himp c (h c hc)

/-! ## Runs of digits -/

theorem scanDigits?_append {digits rest : List Char} (hne : digits ≠ [])
    (hdigits : ∀ c ∈ digits, c.isDigit = true) (hrest : Stops Char.isDigit rest) :
    scanDigits? (digits ++ rest) = some (digits, rest) := by
  have htake : rest.takeWhile Char.isDigit = [] := by
    cases rest with
    | nil => rfl
    | cons c rest => rw [List.takeWhile_cons_of_neg (by rw [hrest c rfl]; decide)]
  have hdrop : rest.dropWhile Char.isDigit = rest := by
    cases rest with
    | nil => rfl
    | cons c rest => rw [List.dropWhile_cons_of_neg (by rw [hrest c rfl]; decide)]
  rw [scanDigits?, List.takeWhile_append_of_pos hdigits, List.dropWhile_append_of_pos hdigits,
    htake, hdrop, List.append_nil]
  simp [hne]

theorem isDigit_of_mem_toDigits {n : Nat} : ∀ c ∈ Nat.toDigits 10 n, c.isDigit = true :=
  fun _ hc => Nat.isDigit_of_mem_toDigits (by decide) (by decide) hc

theorem exists_cons_toDigits (n : Nat) :
    ∃ c digits, Nat.toDigits 10 n = c :: digits ∧ c.isDigit = true := by
  obtain ⟨c, digits, hcons⟩ :=
    List.exists_cons_of_ne_nil (Nat.toDigits_ne_nil : Nat.toDigits 10 n ≠ [])
  exact ⟨c, digits, hcons, isDigit_of_mem_toDigits c (hcons ▸ List.mem_cons_self)⟩

/-- Only zero is written with a zero in front. -/
theorem head?_toDigits_ne_zero {n : Nat} (hn : n ≠ 0) :
    (Nat.toDigits 10 n).head? ≠ some '0' := by
  induction n using Nat.strongRecOn with
  | ind n ih =>
    rw [Nat.toDigits_eq_if (by decide)]
    split_ifs with hsmall
    · interval_cases n <;> simp_all [Nat.digitChar]
    · have hquotient : n / 10 ≠ 0 := by omega
      have hhead := ih (n / 10) (by omega) hquotient
      obtain ⟨c, digits, hcons, -⟩ := exists_cons_toDigits (n / 10)
      rw [hcons] at hhead ⊢
      exact hhead

theorem scanWhole?_append (n : Nat) {rest : List Char} (hrest : Stops Char.isDigit rest) :
    scanWhole? (Nat.toDigits 10 n ++ rest) = some (Nat.toDigits 10 n, rest) := by
  rw [scanWhole?, scanDigits?_append Nat.toDigits_ne_nil isDigit_of_mem_toDigits hrest]
  split
  · rename_i c digits after heq
    exfalso
    rw [Option.some.injEq, Prod.mk.injEq] at heq
    by_cases hn : n = 0
    · subst hn
      cases heq.1
    · exact head?_toDigits_ne_zero hn (by rw [heq.1]; rfl)
  · rfl

/-! ## The parts of a numeral -/

variable {n : Numeral} {plus : Bool} {rest : List Char}

theorem stops_exponentChars (kind : Char → Bool) (he : kind 'e' = false)
    (hrest : Stops kind rest) : Stops kind (n.exponentChars plus ++ rest) := by
  rw [exponentChars]
  split
  · exact hrest
  · exact .cons he _

theorem stops_fractionChars (hrest : Stops Char.isDigit rest) :
    Stops Char.isDigit (n.fractionChars ++ rest) := by
  rw [fractionChars]
  split_ifs
  · exact hrest
  · exact .cons rfl _

/-- The digits behind the point, with the zeros in front of them. -/
def fractionDigits (n : Numeral) : List Char :=
  (Nat.toDigits 10 (n.significand % Nat.pow 10 n.places)).leftpad n.places '0'

theorem isDigit_of_mem_fractionDigits : ∀ c ∈ n.fractionDigits, c.isDigit = true := by
  intro c hc
  rw [fractionDigits, List.leftpad, List.mem_append, List.mem_replicate] at hc
  rcases hc with ⟨-, rfl⟩ | hc
  · rfl
  · exact isDigit_of_mem_toDigits c hc

theorem length_fractionDigits (hplaces : n.places ≠ 0) : n.fractionDigits.length = n.places := by
  have hlt : n.significand % Nat.pow 10 n.places < 10 ^ n.places :=
    Nat.mod_lt _ (Nat.pow_pos (by decide))
  have hlength := (Nat.length_toDigits_le_iff (by decide) (Nat.pos_of_ne_zero hplaces)).mpr hlt
  rw [fractionDigits, List.length_leftpad]
  omega

theorem ofDigitChars_fractionDigits (n : Numeral) :
    Nat.ofDigitChars 10 n.fractionDigits 0 = n.significand % 10 ^ n.places := by
  rw [fractionDigits, List.leftpad, Nat.ofDigitChars_append, Nat.ofDigitChars_replicate_zero,
    Nat.mul_zero, Nat.ofDigitChars_ten_toDigits]
  rfl

/-- With no places there is no point, and nothing behind it. -/
theorem scanFraction?_append (n : Numeral) (plus : Bool)
    (hrest : Stops continuesNumeral rest) :
    ∃ digits, scanFraction? (n.fractionChars ++ (n.exponentChars plus ++ rest)) =
        some (digits, n.exponentChars plus ++ rest) ∧
      digits.length = n.places ∧ Nat.ofDigitChars 10 digits 0 = n.significand % 10 ^ n.places := by
  rw [fractionChars]
  split_ifs with hplaces
  · have hpoint : Stops (· == '.') (n.exponentChars plus ++ rest) :=
      stops_exponentChars _ rfl (hrest.mono fun c hc => by simp_all [continuesNumeral])
    refine ⟨[], ?_, hplaces.symm, by simp [hplaces, Nat.mod_one]⟩
    rw [List.nil_append]
    generalize n.exponentChars plus ++ rest = input at hpoint ⊢
    unfold scanFraction?
    split
    · exact absurd (hpoint '.' rfl) (by decide)
    · rfl
  · have hdigit : Stops Char.isDigit (n.exponentChars plus ++ rest) :=
      stops_exponentChars _ rfl (hrest.mono fun c hc => by simp_all [continuesNumeral])
    have hne : n.fractionDigits ≠ [] := by
      rw [← List.length_pos_iff, length_fractionDigits hplaces]
      omega
    exact ⟨n.fractionDigits, scanDigits?_append hne isDigit_of_mem_fractionDigits hdigit,
      length_fractionDigits hplaces, n.ofDigitChars_fractionDigits⟩

theorem scanExponentDigits?_append (negative : Bool) (size : Nat)
    (hrest : Stops Char.isDigit rest) :
    scanExponentDigits? negative (Nat.toDigits 10 size ++ rest) =
      some (some (if negative then -(size : Int) else size), rest) := by
  rw [scanExponentDigits?, scanDigits?_append Nat.toDigits_ne_nil isDigit_of_mem_toDigits hrest,
    Option.map_some]
  simp only [Nat.ofDigitChars_ten_toDigits]

/-- An exponent without a sign. -/
theorem scanExponent?_unsigned (size : Nat) (hrest : Stops Char.isDigit rest) :
    scanExponent? ('e' :: (Nat.toDigits 10 size ++ rest)) = some (some (size : Int), rest) := by
  have hdigits := scanExponentDigits?_append false size hrest
  obtain ⟨c, digits, hcons, hdigit⟩ := exists_cons_toDigits size
  have hminus : c ≠ '-' := by
    rintro rfl
    cases hdigit
  have hplus : c ≠ '+' := by
    rintro rfl
    cases hdigit
  rw [hcons, List.cons_append] at hdigits ⊢
  simpa [scanExponent?, hminus, hplus] using hdigits

/-- The power of ten. An exponent below zero has its sign, all others may have one. -/
theorem scanExponent?_append (hrest : Stops continuesNumeral rest) :
    scanExponent? (n.exponentChars plus ++ rest) = some (n.exponent, rest) := by
  have hdigit : Stops Char.isDigit rest := hrest.mono fun c hc => by simp_all [continuesNumeral]
  have hletter : ∀ c, rest.head? = some c → c ≠ 'e' ∧ c ≠ 'E' := by
    intro c hc
    have := hrest c hc
    simp_all [continuesNumeral]
  rw [exponentChars]
  cases hexponent : n.exponent with
  | none =>
    rw [List.nil_append]
    unfold scanExponent?
    split
    case h_7 => rfl
    all_goals
      have := hletter _ rfl
      simp at this
  | some e =>
    rcases lt_or_ge e 0 with hnegative | hpositive
    · have hvalue : -(e.natAbs : Int) = e := by omega
      have hdigits := scanExponentDigits?_append true e.natAbs hdigit
      rw [if_pos rfl, hvalue] at hdigits
      simp only [hnegative, if_true]
      exact hdigits
    · have hvalue : (e.natAbs : Int) = e := by omega
      simp only [hpositive.not_gt, if_false]
      cases plus with
      | true =>
        have hdigits := scanExponentDigits?_append false e.natAbs hdigit
        rw [if_neg (by decide), hvalue] at hdigits
        exact hdigits
      | false =>
        have hdigits := scanExponent?_unsigned e.natAbs hdigit
        rw [hvalue] at hdigits
        exact hdigits

/-! ## The whole numeral -/

theorem scanUnsigned?_append (negative : Bool) (n : Numeral) (plus : Bool)
    (hrest : Stops continuesNumeral rest) :
    scanUnsigned? negative
        (n.wholeChars ++ (n.fractionChars ++ (n.exponentChars plus ++ rest))) =
      some ({ n with negative := negative }, rest) := by
  have hdigit : Stops Char.isDigit (n.fractionChars ++ (n.exponentChars plus ++ rest)) :=
    stops_fractionChars (stops_exponentChars _ rfl
      (hrest.mono fun c hc => by simp_all [continuesNumeral]))
  obtain ⟨digits, hfraction, hlength, hvalue⟩ := scanFraction?_append n plus hrest
  have hsignificand : Nat.ofDigitChars 10 (n.wholeChars ++ digits) 0 = n.significand := by
    rw [Nat.ofDigitChars_append, wholeChars, Nat.ofDigitChars_ten_toDigits,
      Nat.ofDigitChars_eq_ofDigitChars_zero, hlength, hvalue]
    exact Nat.div_add_mod _ _
  simp only [scanUnsigned?, wholeChars, scanWhole?_append _ hdigit, hfraction,
    scanExponent?_append hrest, Option.bind_eq_bind, Option.bind_some, Option.some.injEq,
    Prod.mk.injEq, and_true]
  rw [← wholeChars, hsignificand, hlength]

/-- A written numeral is read back, however the sign of its power of ten is written. -/
theorem scan?_append (n : Numeral) (plus : Bool) (hrest : Stops continuesNumeral rest) :
    scan? (n.chars plus ++ rest) = some (n, rest) := by
  have hunsigned := scanUnsigned?_append n.negative n plus hrest
  rw [chars]
  simp only [List.append_assoc]
  cases hnegative : n.negative with
  | true =>
    rw [hnegative] at hunsigned
    refine hunsigned.trans ?_
    rw [← hnegative]
  | false =>
    have hself : ({ n with negative := false } : Numeral) = n := by rw [← hnegative]
    obtain ⟨c, digits, hcons, hdigit⟩ :=
      exists_cons_toDigits (n.significand / Nat.pow 10 n.places)
    have hminus : c ≠ '-' := by
      rintro rfl
      cases hdigit
    rw [hnegative, hself, wholeChars, hcons] at hunsigned
    rw [wholeChars, hcons]
    simpa [scan?, hminus] using hunsigned

end Numeral

end LinearProgramming
