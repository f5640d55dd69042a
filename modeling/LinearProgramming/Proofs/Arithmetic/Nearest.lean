import LinearProgramming.Decimal.Shortest
import LinearProgramming.Proofs.Arithmetic.Binary64
import LinearProgramming.Proofs.Arithmetic.Rounding

/-!
Products and quotients are rounded to the nearest number. A mantissa with its two
extra bits shows a rational number as far as rounding has to know it: which halves
it reaches and which it passes. A shift keeps this, so whatever lies between the
midpoints around a number is rounded to that number, and so do the midpoints
themselves if its mantissa is even.
-/

namespace LinearProgramming.Binary64

open Float.Model (Format UnpackedFloat totalExponent)
open Float.Model.UnpackedFloat
open Decimal (Neighbourhood neighbourhood)

/-! ## The numbers that are rounded to a number -/

/-- The rational `r` lies between the midpoints. -/
def Covers (v : Neighbourhood) (r : ℚ) : Prop :=
  if v.closed then v.lower * 2 ^ v.exponent ≤ r ∧ r ≤ v.upper * 2 ^ v.exponent
  else v.lower * 2 ^ v.exponent < r ∧ r < v.upper * 2 ^ v.exponent

theorem covers_of_lt {v : Neighbourhood} {r : ℚ} (hlower : v.lower * 2 ^ v.exponent < r)
    (hupper : r < v.upper * 2 ^ v.exponent) : Covers v r := by
  unfold Covers
  split
  · exact ⟨hlower.le, hupper.le⟩
  · exact ⟨hlower, hupper⟩

theorem Covers.lower_le {v : Neighbourhood} {r : ℚ} (h : Covers v r) :
    v.lower * 2 ^ v.exponent ≤ r := by
  unfold Covers at h
  split at h
  · exact h.1
  · exact h.1.le

theorem Covers.le_upper {v : Neighbourhood} {r : ℚ} (h : Covers v r) :
    r ≤ v.upper * 2 ^ v.exponent := by
  unfold Covers at h
  split at h
  · exact h.2
  · exact h.2.le

/-- The lower midpoint is half a distance below the number, or half of that below a
power of two. -/
theorem lower_eq (m : ℕ) (e : ℤ) : (neighbourhood m e).lower =
    if m = 2 ^ 52 ∧ -1074 < e then 4 * m - 1 else 4 * m - 2 := by
  have hdense : (m = Nat.pow 2 Binary.fractionBits ∧ Binary.minExponent < e) ↔
      (m = 2 ^ 52 ∧ -1074 < e) := Iff.rfl
  simp only [neighbourhood, hdense]
  split_ifs <;> rfl

theorem sub_two_le_lower (m : ℕ) (e : ℤ) : (4 * m - 2 : ℚ) ≤ (neighbourhood m e).lower := by
  have hlower := lower_eq m e
  have hleast : 4 * m ≤ (neighbourhood m e).lower + 2 := by split_ifs at hlower <;> omega
  have hleast' : (4 * m : ℚ) ≤ (neighbourhood m e).lower + 2 := mod_cast hleast
  linarith

theorem upper_eq (m : ℕ) (e : ℤ) : ((neighbourhood m e).upper : ℚ) = 4 * m + 2 := by
  simp [neighbourhood]

theorem Covers.low_le {m : ℕ} {e : ℤ} {r : ℚ} (h : Covers (neighbourhood m e) r) :
    (4 * m - 2 : ℚ) * 2 ^ (e - 2) ≤ r :=
  (mul_le_mul_of_nonneg_right (sub_two_le_lower m e) (by positivity)).trans h.lower_le

theorem Covers.pos {m : ℕ} {e : ℤ} {r : ℚ} (h : Covers (neighbourhood m e) r) (hm : 0 < m) :
    0 < r := by
  have hm' : (1 : ℚ) ≤ m := mod_cast hm
  have hquarter : (0 : ℚ) < 2 ^ (e - 2) := by positivity
  exact (mul_pos (by linarith) hquarter).trans_le h.low_le

theorem Covers.le_high {m : ℕ} {e : ℤ} {r : ℚ} (h : Covers (neighbourhood m e) r) :
    r ≤ (4 * m + 2 : ℚ) * 2 ^ (e - 2) := by
  rw [← upper_eq m e]
  exact h.le_upper

/-- The midpoints next to an odd mantissa are left out. -/
theorem Covers.lt_of_odd {m : ℕ} {e : ℤ} {r : ℚ} (h : Covers (neighbourhood m e) r)
    (hodd : m % 2 = 1) :
    (4 * m - 2 : ℚ) * 2 ^ (e - 2) < r ∧ r < (4 * m + 2 : ℚ) * 2 ^ (e - 2) := by
  have hopen : (neighbourhood m e).closed = false := by simp [neighbourhood, hodd]
  rw [Covers, hopen, if_neg (by decide)] at h
  rw [← upper_eq m e]
  exact ⟨(mul_le_mul_of_nonneg_right (sub_two_le_lower m e) (by positivity)).trans_lt h.1, h.2⟩

/-! ## What a mantissa with its extra bits shows -/

/-- The halves that `x` reaches and passes are those that the mantissa with its
extra bits reaches and passes. -/
def Shows (em : ExtendedMantissa) (x : ℚ) : Prop :=
  ∀ halves : ℕ, (2 * halves ≤ quarters em ↔ (halves : ℚ) ≤ 2 * x) ∧
    (quarters em ≤ 2 * halves ↔ 2 * x ≤ halves)

/-- A shift halves what is shown. -/
theorem Shows.shiftRightOne {em : ExtendedMantissa} {x : ℚ} (h : Shows em x) :
    Shows em.shiftRightOne (x / 2) := by
  intro halves
  obtain ⟨hreach, hpass⟩ := h (2 * halves)
  have hdouble : ((2 * halves : ℕ) : ℚ) = 2 * halves := by push_cast; ring
  have hquarters : quarters em = 4 * em.mantissa + 2 * em.roundBit.toNat + em.stickyBit.toNat :=
    rfl
  rw [hdouble] at hreach hpass
  rw [quarters_shiftRightOne]
  constructor
  · have hsame : 2 * halves ≤ 2 * em.mantissa + (em.roundBit || em.stickyBit).toNat ↔
        2 * (2 * halves) ≤ quarters em := by
      cases hr : em.roundBit <;> cases hs : em.stickyBit <;> simp [hquarters, hr, hs] <;> omega
    rw [hsame, hreach]
    constructor <;> intro hx <;> linarith
  · have hsame : 2 * em.mantissa + (em.roundBit || em.stickyBit).toNat ≤ 2 * halves ↔
        quarters em ≤ 2 * (2 * halves) := by
      cases hr : em.roundBit <;> cases hs : em.stickyBit <;> simp [hquarters, hr, hs] <;> omega
    rw [hsame, hpass]
    constructor <;> intro hx <;> linarith

theorem Shows.shiftRight {em : ExtendedMantissa} {x : ℚ} (h : Shows em x) (k : ℕ) :
    Shows (em >>> k) (x / 2 ^ k) := by
  induction k with
  | zero =>
    rw [pow_zero, div_one]
    exact h
  | succ k ih =>
    have hstep : x / 2 ^ (k + 1) = x / 2 ^ k / 2 := by
      rw [pow_succ, div_div]
    rw [hstep]
    exact ih.shiftRightOne

/-- The mantissa alone is the whole part. -/
theorem Shows.mantissa_le {em : ExtendedMantissa} {x : ℚ} (h : Shows em x) :
    em.mantissa ≤ x := by
  have hreach := (h (2 * em.mantissa)).1.mp (by rw [quarters]; omega)
  push_cast at hreach
  linarith

theorem Shows.lt_mantissa {em : ExtendedMantissa} {x : ℚ} (h : Shows em x) :
    x < em.mantissa + 1 := by
  have hbits : quarters em < 2 * (2 * em.mantissa + 2) := by
    have hround := Bool.toNat_le em.roundBit
    have hsticky := Bool.toNat_le em.stickyBit
    rw [quarters]
    omega
  have hreach := mt (h (2 * em.mantissa + 2)).1.mpr (by omega)
  push_cast at hreach
  linarith

/-- Rounding picks the whole number within a half, and at a half the even one. -/
theorem Shows.roundedMantissa_eq {em : ExtendedMantissa} {x : ℚ} (h : Shows em x) {k : ℕ}
    (hk : 0 < k) (hlow : (k : ℚ) - 1 / 2 ≤ x) (hhigh : x ≤ k + 1 / 2)
    (hodd : k % 2 = 1 → (k : ℚ) - 1 / 2 < x ∧ x < k + 1 / 2) : em.roundedMantissa = k := by
  have hbelow : ((2 * k - 1 : ℕ) : ℚ) = 2 * k - 1 := by
    push_cast [Nat.cast_sub (by omega : 1 ≤ 2 * k)]
    ring
  have habove : ((2 * k + 1 : ℕ) : ℚ) = 2 * k + 1 := by push_cast; ring
  obtain ⟨hreach, hpass⟩ := h (2 * k - 1)
  obtain ⟨hreach', hpass'⟩ := h (2 * k + 1)
  rw [hbelow] at hreach hpass
  rw [habove] at hreach' hpass'
  have hfrom : 2 * (2 * k - 1) ≤ quarters em := hreach.mpr (by linarith)
  have hto : quarters em ≤ 2 * (2 * k + 1) := hpass'.mpr (by linarith)
  have hwithin : k % 2 = 1 → 2 * (2 * k - 1) < quarters em ∧ quarters em < 2 * (2 * k + 1) := by
    intro hparity
    obtain ⟨hleft, hright⟩ := hodd hparity
    have hleft' := mt hpass.mp (by linarith)
    have hright' := mt hreach'.mp (by linarith)
    omega
  obtain ⟨m, r, s⟩ := em
  simp only [quarters] at hfrom hto hwithin
  simp only [ExtendedMantissa.roundedMantissa]
  cases r <;> cases s <;>
    simp [ExtendedMantissa.accuracy, Accuracy.roundToNearestEven] at hfrom hto hwithin ⊢ <;> omega

/-! ## Rounding to nearest -/

/-- The exponent at which a number is rounded leaves at most 53 bits, and exactly
53 unless it is the least one. -/
theorem exists_shifted {q : ℕ} {t : ℤ} {accuracy : Accuracy} {r : ℚ}
    (hshows : Shows (.ofMantissaAndAccuracy q accuracy) (r / 2 ^ t))
    (hfull : 2 ^ 52 ≤ q ∨ t ≤ -1074) : ∃ em target,
      shiftToTargetExponent .binary64 q t accuracy = (em, target) ∧ Shows em (r / 2 ^ target) ∧
        -1074 ≤ target ∧ r < 2 ^ 53 * 2 ^ target ∧ (target = -1074 ∨ 2 ^ 52 * 2 ^ target ≤ r) := by
  have hmantissa : (ExtendedMantissa.ofMantissaAndAccuracy q accuracy).mantissa = q := by
    unfold ExtendedMantissa.ofMantissaAndAccuracy
    split <;> rfl
  obtain ⟨target, htarget⟩ : ∃ target, target = max ((q.log2 : ℤ) + 1 + t - 53) (-1074) :=
    ⟨_, rfl⟩
  have hlog : 2 ^ 52 ≤ q → 52 ≤ q.log2 := fun hq => (Nat.le_log2 (by omega)).mpr hq
  obtain ⟨k, hk⟩ : ∃ k : ℕ, target = t + k := ⟨(target - t).toNat, by omega⟩
  have hexcess : excess q ≤ k := by
    rw [excess]
    omega
  have hscale : (2 : ℚ) ^ target = 2 ^ t * 2 ^ k := by
    rw [hk, zpow_add₀ two_ne_zero, zpow_natCast]
  have hpositive : (0 : ℚ) < 2 ^ t := by positivity
  have hlow := hshows.mantissa_le
  have hhigh := hshows.lt_mantissa
  rw [hmantissa, le_div_iff₀ hpositive] at hlow
  rw [hmantissa, div_lt_iff₀ hpositive] at hhigh
  refine ⟨ExtendedMantissa.ofMantissaAndAccuracy q accuracy >>> k, target, ?_, ?_, by omega, ?_, ?_⟩
  · have hdefinition : Format.binary64.targetExponent (totalExponent q t) = target := htarget.symm
    have hamount : (target - t).toNat = k := by omega
    rw [shiftToTargetExponent, hdefinition, shiftToExponent, hamount, hk]
  · rw [hscale, ← div_div]
    exact hshows.shiftRight k
  · have hbits : q + 1 ≤ 2 ^ 53 * 2 ^ k := (lt_two_pow_excess q).trans_le
      (Nat.mul_le_mul_left _ (Nat.pow_le_pow_right (by decide) hexcess))
    have hbits' : (q : ℚ) + 1 ≤ 2 ^ 53 * 2 ^ k := mod_cast hbits
    calc r < (q + 1) * 2 ^ t := hhigh
      _ ≤ 2 ^ 53 * 2 ^ k * 2 ^ t := mul_le_mul_of_nonneg_right hbits' hpositive.le
      _ = 2 ^ 53 * 2 ^ target := by rw [hscale]; ring
  · by_cases hleast : target = -1074
    · exact Or.inl hleast
    · have hbits : 2 ^ 52 * 2 ^ k ≤ q := by
        rcases Nat.eq_zero_or_pos k with rfl | hpos
        · rw [pow_zero, mul_one]
          exact hfull.resolve_right (by omega)
        · have hsame : excess q = k := by
            rw [excess]
            omega
          rw [← hsame]
          exact two_pow_excess_le (by omega)
      have hbits' : (2 : ℚ) ^ 52 * 2 ^ k ≤ q := mod_cast hbits
      right
      calc (2 : ℚ) ^ 52 * 2 ^ target = 2 ^ 52 * 2 ^ k * 2 ^ t := by rw [hscale]; ring
        _ ≤ (q : ℚ) * 2 ^ t := mul_le_mul_of_nonneg_right hbits' hpositive.le
        _ ≤ r := hlow

/-- A mantissa that has been rounded up to a power of two loses the zero at its
end; any other one stays as it is. -/
theorem roundWithAccuracy_of_rounded {m k q : ℕ} {e t : ℤ} {accuracy : Accuracy}
    {em : ExtendedMantissa} (h : Canonical m e) (s : Sign)
    (hshift : shiftToTargetExponent .binary64 q t accuracy = (em, e - k))
    (hrounded : em.roundedMantissa = m * 2 ^ k) :
    roundWithAccuracy .binary64 s q t accuracy = .finite s m e h.pos := by
  have hsecond := shiftToTargetExponent_exact h k
  simp only [roundWithAccuracy, hshift, hrounded, hsecond, h.pos.ne', dite_false]

theorem two_zpow_eq (e : ℤ) : (2 : ℚ) ^ e = 4 * 2 ^ (e - 2) := by
  have hsplit := zpow_add₀ (two_ne_zero (α := ℚ)) 2 (e - 2)
  rw [add_sub_cancel] at hsplit
  rw [hsplit]
  norm_num

/-- Rounding at the exponent of a number gives its mantissa. -/
theorem Covers.roundedMantissa_eq {m : ℕ} {e : ℤ} {r : ℚ} {em : ExtendedMantissa}
    (h : Covers (neighbourhood m e) r) (hm : 0 < m) (hshows : Shows em (r / 2 ^ e)) :
    em.roundedMantissa = m := by
  have hlow := h.low_le
  have hhigh := h.le_high
  have hodd := h.lt_of_odd
  rw [two_zpow_eq] at hshows
  have hquarter : (0 : ℚ) < 4 * 2 ^ (e - 2) := by positivity
  refine hshows.roundedMantissa_eq hm ?_ ?_ fun hparity => ⟨?_, ?_⟩
  · rw [le_div_iff₀ hquarter]
    linarith
  · rw [div_le_iff₀ hquarter]
    linarith
  · rw [lt_div_iff₀ hquarter]
    linarith [(hodd hparity).1]
  · rw [div_lt_iff₀ hquarter]
    linarith [(hodd hparity).2]

/-- Only just below a power of two is rounding done at a lower exponent than that of
the number, and there the mantissa is rounded up. -/
theorem Covers.eq_power_of_lt {m : ℕ} {e target : ℤ} {r : ℚ} {em : ExtendedMantissa}
    (h : Covers (neighbourhood m e) r) (hcanonical : Canonical m e) (hlt : target < e)
    (hleast : -1074 ≤ target) (hbelow : r < 2 ^ 53 * 2 ^ target)
    (hshows : Shows em (r / 2 ^ target)) :
    target = e - 1 ∧ em.roundedMantissa = m * 2 := by
  have hquarter : (0 : ℚ) < 2 ^ (e - 2) := by positivity
  have hhalf : (2 : ℚ) ^ (e - 1) = 2 * 2 ^ (e - 2) := by
    have hsucc : e - 1 = e - 2 + 1 := by ring
    rw [hsucc, zpow_add_one₀ two_ne_zero]
    ring
  have hnormal : 2 ^ 52 ≤ m := hcanonical.normal_or_least.resolve_right (by omega)
  have htarget : (2 : ℚ) ^ target ≤ 2 * 2 ^ (e - 2) := by
    rw [← hhalf]
    exact zpow_le_zpow_right₀ one_le_two (by omega)
  obtain rfl | hne := eq_or_ne m (2 ^ 52)
  · -- the number is a power of two, and the midpoint below it only a quarter away
    have hdense : ((2 ^ 54 - 1 : ℕ) : ℚ) * 2 ^ (e - 2) ≤ r := by
      have hlower : (neighbourhood (2 ^ 52) e).lower = 2 ^ 54 - 1 := by
        rw [lower_eq, if_pos ⟨rfl, by omega⟩]
        norm_num
      rw [← hlower]
      exact h.lower_le
    rw [Nat.cast_sub (by norm_num)] at hdense
    push_cast at hdense
    have hexponent : target = e - 1 := by
      by_contra hother
      have hless : (2 : ℚ) ^ target ≤ 2 ^ (e - 2) := zpow_le_zpow_right₀ one_le_two (by omega)
      linarith
    refine ⟨hexponent, ?_⟩
    rw [hexponent, hhalf] at hshows hbelow
    refine hshows.roundedMantissa_eq (by norm_num) ?_ ?_ fun hparity => by norm_num at hparity
    · rw [le_div_iff₀ (by positivity)]
      push_cast
      linarith
    · rw [div_le_iff₀ (by positivity)]
      push_cast
      linarith
  · -- any other number has its whole interval at its own exponent
    have hgap : (2 ^ 52 + 1 : ℚ) ≤ m := mod_cast (show 2 ^ 52 + 1 ≤ m by omega)
    have hlow := h.low_le
    nlinarith

/-- What lies between the midpoints around a number is rounded to that number. -/
theorem roundWithAccuracy_eq {m q : ℕ} {e t : ℤ} {accuracy : Accuracy} {r : ℚ}
    (h : Canonical m e) (hcovers : Covers (neighbourhood m e) r) (s : Sign)
    (hshows : Shows (.ofMantissaAndAccuracy q accuracy) (r / 2 ^ t))
    (hfull : 2 ^ 52 ≤ q ∨ t ≤ -1074) :
    roundWithAccuracy .binary64 s q t accuracy = .finite s m e h.pos := by
  obtain ⟨em, target, hshift, hem, hleast, hbelow, habove⟩ := exists_shifted hshows hfull
  rcases lt_trichotomy target e with hlt | rfl | hgt
  · obtain ⟨rfl, hrounded⟩ := hcovers.eq_power_of_lt h hlt hleast hbelow hem
    exact roundWithAccuracy_of_rounded (k := 1) h s hshift hrounded
  · have hrounded := hcovers.roundedMantissa_eq h.pos hem
    exact roundWithAccuracy_of_rounded (k := 0) h s (by simpa using hshift)
      (by simpa using hrounded)
  · have hnext : 2 * (2 : ℚ) ^ e ≤ 2 ^ target := by
      rw [mul_comm, ← zpow_add_one₀ two_ne_zero]
      exact zpow_le_zpow_right₀ one_le_two (by omega)
    have hreach := habove.resolve_left (by have := h.le_exponent; omega)
    have hhigh := hcovers.le_high
    have hm : (m : ℚ) + 1 ≤ 2 ^ 53 := mod_cast h.lt
    have hquarter : (0 : ℚ) < 2 ^ (e - 2) := by positivity
    rw [two_zpow_eq] at hnext
    nlinarith

/-! ## Products and quotients -/

/-- It is enough to know the halves between which `x` lies. -/
theorem shows_of_halves {em : ExtendedMantissa} {x : ℚ} (halves : ℕ)
    (h : quarters em = 2 * halves ∧ 2 * x = halves ∨
      quarters em = 2 * halves + 1 ∧ halves < 2 * x ∧ 2 * x < halves + 1) : Shows em x := by
  intro other
  obtain ⟨hquarters, hx⟩ | ⟨hquarters, hlow, hhigh⟩ := h
  · rw [hquarters, hx, Nat.cast_le, Nat.cast_le]
    omega
  · have hreach : (other : ℚ) ≤ 2 * x ↔ other ≤ halves := by
      constructor
      · intro hother
        exact Nat.lt_succ_iff.mp (by exact_mod_cast hother.trans_lt hhigh)
      · intro hother
        exact (Nat.cast_le.mpr hother).trans hlow.le
    have hpass : 2 * x ≤ (other : ℚ) ↔ halves < other := by
      constructor
      · intro hother
        exact_mod_cast hlow.trans_le hother
      · intro hother
        have : (halves : ℚ) + 1 ≤ other := mod_cast hother
        linarith
    rw [hquarters, hreach, hpass]
    omega

theorem shows_exact (q : ℕ) : Shows (.ofMantissaAndAccuracy q .exact) q := by
  refine shows_of_halves (2 * q) (Or.inl ⟨?_, by push_cast; ring⟩)
  change 4 * q + 0 + 0 = 2 * (2 * q)
  omega

/-- A quotient is shown by its whole part and by how its remainder compares to half
of the divisor. -/
theorem shows_quotient (n : ℕ) {d : ℕ} (hd : 0 < d) :
    Shows (.ofMantissaAndAccuracy (n / d) (accuracyOfFraction (n % d) d)) (n / d) := by
  obtain ⟨q, hq⟩ : ∃ q, q = n / d := ⟨_, rfl⟩
  obtain ⟨rest, hrest⟩ : ∃ rest, rest = n % d := ⟨_, rfl⟩
  have hsplit : (n : ℚ) = d * q + rest := by
    rw [hq, hrest]
    exact_mod_cast (Nat.div_add_mod n d).symm
  have hless : rest < d := hrest ▸ Nat.mod_lt n hd
  have hdivisor : (0 : ℚ) < d := mod_cast hd
  have hvalue : (n : ℚ) / d = q + rest / d := by
    rw [hsplit]
    field_simp
  have hbound : (rest : ℚ) / d < 1 := (div_lt_one hdivisor).mpr (mod_cast hless)
  rw [← hq, ← hrest, hvalue, accuracyOfFraction]
  by_cases hzero : rest = 0
  · rw [if_pos hzero, hzero, Nat.cast_zero, zero_div, add_zero]
    exact shows_exact q
  · have hpositive : (0 : ℚ) < rest / d := div_pos (mod_cast Nat.pos_of_ne_zero hzero) hdivisor
    rw [if_neg hzero]
    rcases lt_trichotomy (2 * rest) d with hlt | heq | hgt
    · have hhalf : 2 * ((rest : ℚ) / d) < 1 := by
        rw [← mul_div_assoc, div_lt_one hdivisor]
        exact_mod_cast hlt
      rw [Nat.compare_eq_lt.mpr hlt]
      refine shows_of_halves (2 * q) (Or.inr ⟨?_, ?_, ?_⟩)
      · change 4 * q + 0 + 1 = _
        omega
      · push_cast
        linarith
      · push_cast
        linarith
    · have hhalf : 2 * ((rest : ℚ) / d) = 1 := by
        rw [← mul_div_assoc, div_eq_one_iff_eq hdivisor.ne']
        exact_mod_cast heq
      rw [Nat.compare_eq_eq.mpr heq]
      refine shows_of_halves (2 * q + 1) (Or.inl ⟨?_, ?_⟩)
      · change 4 * q + 2 + 0 = _
        omega
      · push_cast
        linarith
    · have hhalf : 1 < 2 * ((rest : ℚ) / d) := by
        rw [← mul_div_assoc, one_lt_div hdivisor]
        exact_mod_cast hgt
      rw [Nat.compare_eq_gt.mpr hgt]
      refine shows_of_halves (2 * q + 1) (Or.inr ⟨?_, ?_, ?_⟩)
      · change 4 * q + 2 + 1 = _
        omega
      · push_cast
        linarith
      · push_cast
        linarith

/-- The rational number that a mantissa stands for at an exponent. -/
def value (m : ℕ) (e : ℤ) : ℚ := m * 2 ^ e

/-- A product with enough bits is rounded to nearest. -/
theorem mul_finite_eq {m m₁ m₂ : ℕ} {e e₁ e₂ : ℤ} (h : Canonical m e) (s₁ s₂ : Sign)
    (h₁ : 0 < m₁) (h₂ : 0 < m₂) (hfull : 2 ^ 52 ≤ m₁ * m₂)
    (hcovers : Covers (neighbourhood m e) (value m₁ e₁ * value m₂ e₂)) :
    mul .binary64 (.finite s₁ m₁ e₁ h₁) (.finite s₂ m₂ e₂ h₂) =
      .finite (s₁ * s₂) m e h.pos := by
  have hvalue : value m₁ e₁ * value m₂ e₂ / 2 ^ (e₁ + e₂) = (m₁ * m₂ : ℕ) := by
    rw [value, value, zpow_add₀ two_ne_zero, Nat.cast_mul]
    field_simp
  have hshows := shows_exact (m₁ * m₂)
  rw [← hvalue] at hshows
  exact roundWithAccuracy_eq h hcovers (s₁ * s₂) hshows (Or.inl hfull)

/-- A quotient is rounded to nearest: division first computes enough of its bits. -/
theorem div_finite_eq {m m₁ m₂ : ℕ} {e e₁ e₂ : ℤ} (h : Canonical m e) (s₁ s₂ : Sign)
    (h₁ : 0 < m₁) (h₂ : 0 < m₂)
    (hcovers : Covers (neighbourhood m e) (value m₁ e₁ / value m₂ e₂)) :
    div .binary64 (.finite s₁ m₁ e₁ h₁) (.finite s₂ m₂ e₂ h₂) =
      .finite (s₁ / s₂) m e h.pos := by
  obtain ⟨target, htarget⟩ : ∃ target, target = min (e₁ - e₂)
      (Format.binary64.targetExponent (totalExponent m₁ e₁ - totalExponent m₂ e₂)) := ⟨_, rfl⟩
  obtain ⟨k, hk⟩ : ∃ k : ℕ, (k : ℤ) = e₁ - e₂ - target := ⟨(e₁ - e₂ - target).toNat, by omega⟩
  have hamount : (e₁ - e₂ - target).toNat = k := by omega
  have hcore : divCore .binary64 m₁ e₁ m₂ e₂ = (m₁ * 2 ^ k / m₂, target,
      accuracyOfFraction (m₁ * 2 ^ k % m₂) m₂) := by
    rw [divCore, ← htarget]
    simp only [hamount, Nat.shiftLeft_eq]
  have hvalue : value m₁ e₁ / value m₂ e₂ / 2 ^ target = (m₁ * 2 ^ k : ℕ) / m₂ := by
    have hexponent : e₁ = e₂ + target + k := by omega
    have hdivisor : (m₂ : ℚ) ≠ 0 := mod_cast h₂.ne'
    rw [value, value, hexponent, zpow_add₀ two_ne_zero, zpow_add₀ two_ne_zero, zpow_natCast]
    push_cast
    field_simp
  have hshows := shows_quotient (m₁ * 2 ^ k) h₂
  rw [← hvalue] at hshows
  have hfull : 2 ^ 52 ≤ m₁ * 2 ^ k / m₂ ∨ target ≤ -1074 := by
    by_cases hleast : target ≤ -1074
    · exact Or.inr hleast
    · left
      change target = min (e₁ - e₂) (max (((m₁.log2 : ℤ) + 1 + e₁) - ((m₂.log2 : ℤ) + 1 + e₂) -
        (53 : ℕ)) (-1074)) at htarget
      have hbits : 53 + m₂.log2 ≤ m₁.log2 + k := by omega
      rw [Nat.le_div_iff_mul_le h₂]
      calc 2 ^ 52 * m₂ ≤ 2 ^ 52 * 2 ^ (m₂.log2 + 1) :=
            Nat.mul_le_mul_left _ Nat.lt_log2_self.le
        _ = 2 ^ (53 + m₂.log2) := by ring
        _ ≤ 2 ^ (m₁.log2 + k) := Nat.pow_le_pow_right (by decide) hbits
        _ = 2 ^ m₁.log2 * 2 ^ k := pow_add 2 _ _
        _ ≤ m₁ * 2 ^ k := Nat.mul_le_mul_right _ (Nat.log2_self_le h₁.ne')
  simp only [div, hcore, roundWithAccuracy_eq h hcovers (s₁ / s₂) hshows hfull]

end LinearProgramming.Binary64
