import LinearProgramming.Proofs.Arithmetic.FloatParts

/-!
Rounding is monotone. Every finite number is a whole number of units, where a unit
is the smallest positive number. Rounding shifts a count of units to the right
until 53 bits are left, remembers the last bit shifted out and whether anything
went out before it, and decides by them between the mantissa that is left and
the next one. A larger count may lose more bits, but it then has so many that the
smaller one cannot be rounded past it.
-/

namespace LinearProgramming.Binary64

open Float.Model (Format UnpackedFloat totalExponent)
open Float.Model.UnpackedFloat

/-! ## Shifting and rounding a mantissa -/

/-- A mantissa with its two extra bits, read as one number. -/
def quarters (em : ExtendedMantissa) : Nat :=
  4 * em.mantissa + 2 * em.roundBit.toNat + em.stickyBit.toNat

theorem quarters_shiftRightOne (em : ExtendedMantissa) : quarters em.shiftRightOne =
    2 * em.mantissa + (em.roundBit || em.stickyBit).toNat := by
  have hparity : (em.mantissa % 2 != 0).toNat = em.mantissa % 2 := by
    rcases Nat.mod_two_eq_zero_or_one em.mantissa with h | h <;> rw [h] <;> rfl
  simp only [quarters, ExtendedMantissa.shiftRightOne, hparity]
  omega

theorem quarters_shiftRightOne_mono {em em' : ExtendedMantissa}
    (h : quarters em ≤ quarters em') :
    quarters em.shiftRightOne ≤ quarters em'.shiftRightOne := by
  obtain ⟨m, r, s⟩ := em
  obtain ⟨m', r', s'⟩ := em'
  rw [quarters_shiftRightOne, quarters_shiftRightOne]
  rw [quarters, quarters] at h
  cases r <;> cases s <;> cases r' <;> cases s' <;> simp at h ⊢ <;> omega

/-- More quarters are never rounded to less. -/
theorem roundedMantissa_mono {em em' : ExtendedMantissa} (h : quarters em ≤ quarters em') :
    em.roundedMantissa ≤ em'.roundedMantissa := by
  obtain ⟨m, r, s⟩ := em
  obtain ⟨m', r', s'⟩ := em'
  rw [quarters, quarters] at h
  simp only [ExtendedMantissa.roundedMantissa]
  cases r <;> cases s <;> cases r' <;> cases s' <;>
    simp [ExtendedMantissa.accuracy, Accuracy.roundToNearestEven] at h ⊢ <;> omega

/-- What is left of a mantissa when some bits are shifted out. -/
def shifted (m k : Nat) : ExtendedMantissa :=
  Nat.repeat ExtendedMantissa.shiftRightOne k ⟨m, false, false⟩

/-- A mantissa without its last bits, rounded to nearest and to even. -/
def roundAt (k m : Nat) : Nat := (shifted m k).roundedMantissa

theorem roundAt_mono {m m' : Nat} (h : m ≤ m') (k : Nat) : roundAt k m ≤ roundAt k m' := by
  have hquarters : quarters (shifted m k) ≤ quarters (shifted m' k) := by
    induction k with
    | zero =>
      change 4 * m + 0 + 0 ≤ 4 * m' + 0 + 0
      omega
    | succ k ih => exact quarters_shiftRightOne_mono ih
  exact roundedMantissa_mono hquarters

/-- Zeros are shifted out first. -/
theorem shifted_mul_two_pow (m j i : Nat) : shifted (m * 2 ^ j) (j + i) = shifted m i := by
  induction i with
  | zero => exact repeat_shiftRightOne m j
  | succ i ih => exact congrArg ExtendedMantissa.shiftRightOne ih

theorem roundAt_mul_two_pow (k m : Nat) : roundAt k (m * 2 ^ k) = m :=
  congrArg ExtendedMantissa.roundedMantissa (repeat_shiftRightOne m k)

/-! ## Rounding a count of units -/

/-- How many of the last bits of a count have to go. -/
def excess (n : Nat) : Nat := n.log2 - 52

/-- The nearest count of units that fits into 53 bits. -/
def roundUnits (n : Nat) : Nat := roundAt (excess n) n * 2 ^ excess n

theorem excess_mono {n n' : Nat} (h : n ≤ n') : excess n ≤ excess n' := by
  have hlog : n.log2 ≤ n'.log2 := by
    rw [Nat.log2_eq_log_two, Nat.log2_eq_log_two]
    exact Nat.log_mono_right h
  exact Nat.sub_le_sub_right hlog 52

theorem lt_two_pow_excess (n : Nat) : n < 2 ^ 53 * 2 ^ excess n := by
  rw [← pow_add]
  exact Nat.lt_log2_self.trans_le (Nat.pow_le_pow_right (by decide) (by rw [excess]; omega))

theorem two_pow_excess_le {n : Nat} (h : excess n ≠ 0) : 2 ^ 52 * 2 ^ excess n ≤ n := by
  have hne : n ≠ 0 := by
    rintro rfl
    exact h rfl
  have hsum : 52 + excess n = n.log2 := by
    rw [excess] at h ⊢
    omega
  rw [← pow_add, hsum]
  exact Nat.log2_self_le hne

theorem roundAt_excess_le (n : Nat) : roundAt (excess n) n ≤ 2 ^ 53 := by
  rw [← roundAt_mul_two_pow (excess n) (2 ^ 53)]
  exact roundAt_mono (lt_two_pow_excess n).le _

theorem le_roundAt_excess {n : Nat} (h : excess n ≠ 0) : 2 ^ 52 ≤ roundAt (excess n) n := by
  rw [← roundAt_mul_two_pow (excess n) (2 ^ 52)]
  exact roundAt_mono (two_pow_excess_le h) _

theorem roundUnits_mono {n n' : Nat} (h : n ≤ n') : roundUnits n ≤ roundUnits n' := by
  rcases (excess_mono h).eq_or_lt with heq | hlt
  · rw [roundUnits, roundUnits, heq]
    exact Nat.mul_le_mul_right _ (roundAt_mono h _)
  · calc roundUnits n ≤ 2 ^ 53 * 2 ^ excess n := Nat.mul_le_mul_right _ (roundAt_excess_le n)
      _ = 2 ^ 52 * 2 ^ (excess n + 1) := by ring
      _ ≤ 2 ^ 52 * 2 ^ excess n' := Nat.mul_le_mul_left _ (Nat.pow_le_pow_right (by decide) hlt)
      _ ≤ roundUnits n' := Nat.mul_le_mul_right _ (le_roundAt_excess (by omega))

/-! ## The rounding of numbers -/

/-- How many units a mantissa is worth at an exponent. -/
def units (m : Nat) (e : Int) : Nat := m * 2 ^ (e + 1074).toNat

theorem targetExponent_eq_excess {m : Nat} {e : Int} (hm : 0 < m) (he : -1074 ≤ e) :
    Format.binary64.targetExponent (totalExponent m e) = -1074 + (excess (units m e) : Int) := by
  change max ((m.log2 : Int) + 1 + e - (53 : Nat)) (-1074) = _
  rw [excess, units, log2_mul_two_pow hm.ne']
  omega

/-- What a number can hold is not rounded. -/
theorem Canonical.roundUnits_units {m : Nat} {e : Int} (h : Canonical m e) :
    roundUnits (units m e) = units m e := by
  have htarget := targetExponent_eq h 0
  simp only [pow_zero, mul_one, Nat.cast_zero, sub_zero] at htarget
  rw [targetExponent_eq_excess h.pos h.le_exponent] at htarget
  have hexcess : excess (units m e) = (e + 1074).toNat := by omega
  rw [roundUnits, hexcess, units, roundAt_mul_two_pow]

/-- What is shifted out depends on the count of units alone. -/
theorem shiftToTargetExponent_eq {m : Nat} {e : Int} (hm : 0 < m) (he : -1074 ≤ e)
    (hle : e ≤ -1074 + (excess (units m e) : Int)) :
    shiftToTargetExponent .binary64 m e .exact =
      (shifted (units m e) (excess (units m e)), -1074 + (excess (units m e) : Int)) := by
  rw [shiftToTargetExponent, targetExponent_eq_excess hm he, shiftToExponent]
  have hsplit : excess (units m e) =
      (e + 1074).toNat + (-1074 + (excess (units m e) : Int) - e).toNat := by omega
  have hshift : shifted (units m e) (excess (units m e)) =
      shifted m (-1074 + (excess (units m e) : Int) - e).toNat := by
    rw [hsplit, units, shifted_mul_two_pow, ← units, ← hsplit]
  rw [hshift]
  exact Prod.ext rfl (by simp; omega)

/-- A rounded count of units is a mantissa and an exponent that a number has. Only
a count that is rounded up to a power of two has a zero at its end. -/
theorem exists_canonical {n : Nat} (hn : 0 < n) : ∃ (m : Nat) (e : Int) (k : Nat),
    Canonical m e ∧ roundAt (excess n) n = m * 2 ^ k ∧ -1074 + (excess n : Int) = e - k := by
  rcases (roundAt_excess_le n).lt_or_eq with hlt | heq
  · refine ⟨roundAt (excess n) n, -1074 + excess n, 0, ?_, by simp, by simp⟩
    by_cases hexcess : excess n = 0
    · rw [hexcess] at hlt ⊢
      exact ⟨hn, hlt, by simp, Or.inr (by simp)⟩
    · have hlow := le_roundAt_excess hexcess
      exact ⟨by omega, hlt, by omega, Or.inl hlow⟩
  · refine ⟨2 ^ 52, -1074 + excess n + 1, 1, ?_, heq, by simp⟩
    exact ⟨by decide, by decide, by omega, Or.inl le_rfl⟩

/-- Before a number is rounded, its exponent is lowered to the target if it is
above it. The zeros that this adds to the mantissa keep the count of units. -/
theorem exists_lowered (s : Sign) {m : Nat} {e : Int} (hm : 0 < m) (he : -1074 ≤ e) :
    ∃ (m' : Nat) (e' : Int), 0 < m' ∧ -1074 ≤ e' ∧ units m' e' = units m e ∧
      e' ≤ -1074 + (excess (units m e) : Int) ∧
      UnpackedFloat.round .binary64 s m e = roundWithAccuracy .binary64 s m' e' .exact := by
  obtain ⟨k, hk⟩ : ∃ k : Nat, k = (e - (-1074 + (excess (units m e) : Int))).toNat := ⟨_, rfl⟩
  refine ⟨m * 2 ^ k, e - k, Nat.mul_pos hm (Nat.two_pow_pos k), by omega, ?_, by omega, ?_⟩
  · have hwidth : (e + 1074).toNat = k + (e - k + 1074).toNat := by omega
    rw [units, units, hwidth, pow_add, mul_assoc]
  · rw [UnpackedFloat.round]
    simp only [targetExponent_eq_excess hm he, decreaseExponent, ← hk, Nat.shiftLeft_eq]

/-- A number is rounded to the nearest count of units that fits. -/
theorem exists_round_eq (s : Sign) {m : Nat} {e : Int} (hm : 0 < m) (he : -1074 ≤ e) :
    ∃ (m' : Nat) (e' : Int) (h : Canonical m' e'),
      UnpackedFloat.round .binary64 s m e = .finite s m' e' h.pos ∧
        units m' e' = roundUnits (units m e) := by
  obtain ⟨m₁, e₁, hm₁, he₁, hunits, hle, hlowered⟩ := exists_lowered s hm he
  rw [← hunits] at hle ⊢
  obtain ⟨m', e', k, hcanonical, hrounded, hexponent⟩ :=
    exists_canonical (n := units m₁ e₁) (Nat.mul_pos hm₁ (Nat.two_pow_pos _))
  refine ⟨m', e', hcanonical, ?_, ?_⟩
  · have hsecond := shiftToTargetExponent_exact hcanonical k
    rw [← hrounded, ← hexponent, roundAt] at hsecond
    rw [hlowered]
    simp only [roundWithAccuracy, shiftToTargetExponent_eq hm₁ he₁ hle, hsecond,
      hcanonical.pos.ne', dite_false]
  · have hwidth : (e' + 1074).toNat = k + excess (units m₁ e₁) := by omega
    rw [roundUnits, hrounded, units, hwidth, pow_add, mul_assoc]

end LinearProgramming.Binary64
