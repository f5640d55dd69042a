import LinearProgramming.Proofs.Arithmetic.Nearest

/-!
A significand and a power of ten are read to the nearest number. There are two ways
to read them. A significand below `2^53` and a power of ten up to `10^22` are numbers
themselves, so one product or quotient of numbers is all that is rounded. Anything
else is multiplied or divided as whole numbers, which is rounded once too.
-/

namespace LinearProgramming.Binary64

open Float.Model (Format UnpackedFloat totalExponent)
open Float.Model.UnpackedFloat
open Decimal (neighbourhood)

/-! ## Numbers that are whole -/

/-- The number is `r`, and its mantissa fills its 53 bits. -/
def Holds (x : Float) (r : ℚ) : Prop :=
  ∃ m e, ∃ hm : 0 < m, parts x = .finite .positive m e hm ∧ 2 ^ 52 ≤ m ∧ value m e = r

theorem Holds.mul {x y : Float} {r r' : ℚ} (hx : Holds x r) (hy : Holds y r') {m : ℕ} {e : ℤ}
    (h : Canonical m e) (hcovers : Covers (neighbourhood m e) (r * r')) :
    x * y = assemble (.finite .positive m e h.pos) := by
  obtain ⟨m₁, e₁, h₁, hparts₁, hfull₁, rfl⟩ := hx
  obtain ⟨m₂, e₂, h₂, hparts₂, -, rfl⟩ := hy
  have hfull : 2 ^ 52 ≤ m₁ * m₂ := hfull₁.trans (Nat.le_mul_of_pos_right m₁ h₂)
  rw [mul_eq, hparts₁, hparts₂, mul_finite_eq h .positive .positive h₁ h₂ hfull hcovers]
  rfl

theorem Holds.div {x y : Float} {r r' : ℚ} (hx : Holds x r) (hy : Holds y r') {m : ℕ} {e : ℤ}
    (h : Canonical m e) (hcovers : Covers (neighbourhood m e) (r / r')) :
    x / y = assemble (.finite .positive m e h.pos) := by
  obtain ⟨m₁, e₁, h₁, hparts₁, -, rfl⟩ := hx
  obtain ⟨m₂, e₂, h₂, hparts₂, -, rfl⟩ := hy
  rw [div_eq, hparts₁, hparts₂, div_finite_eq h .positive .positive h₁ h₂ hcovers]
  rfl

/-- A whole number of at most 53 bits, shifted to the left until it fills them. -/
theorem canonical_shifted {n : ℕ} (hpos : 0 < n) (hlt : n < 2 ^ 53) :
    Canonical (n * 2 ^ (52 - n.log2)) (-(52 - n.log2 : ℕ)) := by
  have hlog := (Nat.log2_lt hpos.ne').mpr hlt
  have hsum : n.log2 + (52 - n.log2) = 52 := by omega
  refine ⟨Nat.mul_pos hpos (Nat.two_pow_pos _), ?_, by omega, Or.inl ?_⟩
  · calc n * 2 ^ (52 - n.log2) < 2 ^ (n.log2 + 1) * 2 ^ (52 - n.log2) :=
          Nat.mul_lt_mul_of_pos_right Nat.lt_log2_self (Nat.two_pow_pos _)
      _ = 2 ^ (n.log2 + (52 - n.log2)) * 2 := by ring
      _ = 2 ^ 53 := by rw [hsum]; norm_num
  · calc 2 ^ 52 = 2 ^ n.log2 * 2 ^ (52 - n.log2) := by rw [← pow_add, hsum]
      _ ≤ n * 2 ^ (52 - n.log2) := Nat.mul_le_mul_right _ (Nat.log2_self_le hpos.ne')

theorem value_shifted (n k : ℕ) : value (n * 2 ^ k) (-k) = n := by
  rw [value, zpow_neg, zpow_natCast]
  push_cast
  field_simp

/-- A whole number of at most 53 bits is kept by the conversion. -/
theorem holds_toFloat {n : ℕ} (hpos : 0 < n) (hlt : n < 2 ^ 53) : Holds n.toUInt64.toFloat n := by
  obtain ⟨k, hk⟩ : ∃ k, k = 52 - n.log2 := ⟨_, rfl⟩
  have hlog := (Nat.log2_lt hpos.ne').mpr hlt
  have hcanonical := canonical_shifted hpos hlt
  rw [← hk] at hcanonical
  have hword : n.toUInt64.toNat = n := Nat.mod_eq_of_lt (by omega)
  have hcompare : compare (n : ℤ) 0 = .gt := Int.compare_eq_gt.mpr (mod_cast hpos)
  have hconversion : n.toUInt64.toFloat =
      assemble (UnpackedFloat.round .binary64 .positive n 0) := by
    change assemble (UnpackedFloat.normalize .binary64 (n.toUInt64.toNat : ℤ) 0 .positive) = _
    rw [hword, UnpackedFloat.normalize]
    simp only [hcompare, Int.toNat_natCast]
  have hround : UnpackedFloat.round .binary64 .positive n 0 =
      .finite .positive (n * 2 ^ k) (-k) hcanonical.pos := by
    have htarget : Format.binary64.targetExponent (totalExponent n 0) = -k := by
      change max ((n.log2 : ℤ) + 1 + 0 - (53 : ℕ)) (-1074) = _
      omega
    have hamount : (0 - -(k : ℤ)).toNat = k := by omega
    have hexact := roundWithAccuracy_exact hcanonical .positive 0
    rw [pow_zero, mul_one, Nat.cast_zero, sub_zero] at hexact
    rw [UnpackedFloat.round]
    simp only [htarget, decreaseExponent, hamount, Nat.shiftLeft_eq]
    rw [zero_sub, hexact]
  refine ⟨n * 2 ^ k, -k, hcanonical.pos, ?_, ?_, value_shifted n k⟩
  · rw [hconversion, hround, hcanonical.parts_assemble, if_pos (by omega)]
  · exact hcanonical.normal_or_least.resolve_right (by omega)

/-- The table holds the powers of ten: the odd part of `10^22` has less than 53 bits. -/
theorem parts_powerOfTen (i : Fin Float.exactlyRepresentablePowersOfTen.size) :
    parts Float.exactlyRepresentablePowersOfTen[i] =
      .finite .positive (5 ^ i.val * 2 ^ (52 - (5 ^ i.val).log2))
        (i - (52 - (5 ^ i.val).log2 : ℕ)) (by positivity) := by
  change Fin 23 at i
  fin_cases i <;> rfl

theorem holds_powerOfTen (i : Fin Float.exactlyRepresentablePowersOfTen.size) :
    Holds Float.exactlyRepresentablePowersOfTen[i] (10 ^ i.val) := by
  have hi : i.val < 23 := i.isLt
  have hlt : 5 ^ i.val < 2 ^ 53 :=
    calc 5 ^ i.val ≤ 5 ^ 22 := Nat.pow_le_pow_right (by decide) (by omega)
      _ < 2 ^ 53 := by norm_num
  have hpos : 0 < 5 ^ i.val := by positivity
  have hcanonical := canonical_shifted hpos hlt
  have hshifted := value_shifted (5 ^ i.val) (52 - (5 ^ i.val).log2)
  refine ⟨_, _, _, parts_powerOfTen i, ?_, ?_⟩
  · exact hcanonical.normal_or_least.resolve_right (by omega)
  · rw [value] at hshifted ⊢
    rw [sub_eq_add_neg, zpow_add₀ two_ne_zero, zpow_natCast, mul_left_comm, hshifted]
    push_cast
    rw [← mul_pow]
    norm_num

/-! ## Significands with a power of ten -/

/-- The product or quotient of whole numbers is rounded to the nearest number. The
two bounds on the power of ten are those beyond which none is computed. -/
theorem unpacked_ofScientific_eq {m c : ℕ} {e scale : ℤ} (h : Canonical m e) (hc : 0 < c)
    (hcovers : Covers (neighbourhood m e) (c * 10 ^ scale)) (hhigh : scale ≤ 2 ^ 11)
    (hlow : -(2 ^ 11 + c.log2 : ℤ) ≤ scale) :
    UnpackedFloat.ofScientific .binary64 c scale = .finite .positive m e h.pos := by
  have hnotHigh : ¬scale > 2 ^ Format.binary64.exponentBits := not_lt.mpr hhigh
  have hnotLow : ¬scale < -(2 ^ Format.binary64.exponentBits + (c.log2 : ℤ)) := not_lt.mpr hlow
  rw [UnpackedFloat.ofScientific, dif_neg hc.ne', if_neg hnotHigh, if_neg hnotLow]
  by_cases hsign : 0 ≤ scale
  · obtain ⟨k, rfl⟩ : ∃ k : ℕ, scale = k := ⟨scale.toNat, by omega⟩
    have hexact : value (c <<< 53) (-53) * value (10 ^ k) 0 = c * 10 ^ (k : ℤ) := by
      rw [Nat.shiftLeft_eq]
      have hshifted := value_shifted c 53
      push_cast at hshifted
      rw [hshifted, value, zpow_natCast]
      push_cast
      ring
    have hfull : 2 ^ 52 ≤ c <<< 53 * 10 ^ k := by
      have hpower : 0 < 10 ^ k := by positivity
      rw [Nat.shiftLeft_eq]
      nlinarith
    rw [if_pos hsign]
    exact mul_finite_eq h .positive .positive _ _ hfull (hexact ▸ hcovers)
  · obtain ⟨k, rfl⟩ : ∃ k : ℕ, scale = -k := ⟨(-scale).toNat, by omega⟩
    have hexact : value c 0 / value (10 ^ (-(-(k : ℤ))).toNat) 0 = c * 10 ^ (-(k : ℤ)) := by
      rw [neg_neg, Int.toNat_natCast, value, value, zpow_neg, zpow_natCast]
      push_cast
      field_simp
    rw [if_neg hsign]
    exact div_finite_eq h .positive .positive _ _ (hexact ▸ hcovers)

/-- A significand and a power of ten that lie between the midpoints around a number
are read as that number. -/
theorem ofScientific_eq {m c : ℕ} {e scale : ℤ} (h : Canonical m e) (hc : 0 < c)
    (hcovers : Covers (neighbourhood m e) (c * 10 ^ scale)) (hhigh : scale ≤ 2 ^ 11)
    (hlow : -(2 ^ 11 + c.log2 : ℤ) ≤ scale) :
    Float.ofScientific c (scale < 0) scale.natAbs = assemble (.finite .positive m e h.pos) := by
  rw [Float.ofScientific]
  by_cases hfast : c < 2 ^ 53 ∧ scale.natAbs ≤ 22
  · have hsize : scale.natAbs < Float.exactlyRepresentablePowersOfTen.size := by
      change scale.natAbs < 23
      omega
    have hleft := holds_toFloat hc hfast.1
    have hright := holds_powerOfTen ⟨scale.natAbs, hsize⟩
    rw [dif_pos hfast]
    by_cases hsign : scale < 0
    · have hquotient : (c : ℚ) * 10 ^ scale = c / 10 ^ scale.natAbs := by
        obtain ⟨k, rfl⟩ : ∃ k : ℕ, scale = -k := ⟨scale.natAbs, by omega⟩
        rw [Int.natAbs_neg, Int.natAbs_natCast, zpow_neg, zpow_natCast, div_eq_mul_inv]
      rw [if_pos (decide_eq_true hsign)]
      exact hleft.div hright h (hquotient ▸ hcovers)
    · have hproduct : (c : ℚ) * 10 ^ scale = c * 10 ^ scale.natAbs := by
        obtain ⟨k, rfl⟩ : ∃ k : ℕ, scale = k := ⟨scale.natAbs, by omega⟩
        rw [Int.natAbs_natCast, zpow_natCast]
      rw [if_neg (by simpa using hsign)]
      exact hleft.mul hright h (hproduct ▸ hcovers)
  · have hscale : (if decide (scale < 0) = true then Int.negOfNat scale.natAbs
        else Int.ofNat scale.natAbs) = scale := by
      by_cases hsign : scale < 0
      · rw [if_pos (decide_eq_true hsign), Int.negOfNat_eq, Int.ofNat_eq_natCast]
        omega
      · rw [if_neg (by simpa using hsign), Int.ofNat_eq_natCast]
        omega
    rw [dif_neg hfast, hscale]
    change assemble (UnpackedFloat.ofScientific .binary64 c scale) = _
    rw [unpacked_ofScientific_eq h hc hcovers hhigh hlow]

end LinearProgramming.Binary64
