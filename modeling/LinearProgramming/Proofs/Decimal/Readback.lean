import LinearProgramming.Decimal.Layout
import LinearProgramming.Proofs.Arithmetic.Scientific
import LinearProgramming.Proofs.Decimal.Shortest

/-!
Written numbers read back. A layout moves the point of the shortest decimal but keeps
its value, and a numeral whose value lies between the midpoints around a number is
rounded to that number. So every finite number, zeros of both signs included, is
written with a numeral that is read as the very same number.
-/

namespace LinearProgramming

open Float.Model (Format UnpackedFloat)
open Float.Model.UnpackedFloat (Sign unpackExponent unpackMantissa unpackSign)
open Binary64 (Canonical Covers parts assemble)
open Decimal (neighbourhood)

/-! ## Taking a number apart -/

/-- The sign of a number as it is written. -/
def isNegative : Sign → Bool
  | .negative => true
  | .positive => false

def Binary.ofParts : UnpackedFloat → Binary
  | .notANumber => nan
  | .infinity s => infinite (isNegative s)
  | .zero s => finite (isNegative s) 0 minExponent
  | .finite s m e _ => finite (isNegative s) m e

/-- The fields of a word are its parts in binary. -/
theorem ofBits_eq (b : BitVec Format.binary64.numBits) : Binary.ofBits b.toNat =
    if (unpackExponent b).toNat = 2047 then
      if (unpackMantissa b).toNat = 0 then .infinite (isNegative (Sign.ofBitVec (unpackSign b)))
      else .nan
    else if (unpackExponent b).toNat = 0 then
      .finite (isNegative (Sign.ofBitVec (unpackSign b))) (unpackMantissa b).toNat (-1074)
    else
      .finite (isNegative (Sign.ofBitVec (unpackSign b))) (2 ^ 52 + (unpackMantissa b).toNat)
        ((unpackExponent b).toNat - 1075) := by
  have hfraction : (unpackMantissa b).toNat = b.toNat % 2 ^ 52 := by
    change b.toNat >>> 0 % 2 ^ 52 = _
    rw [Nat.shiftRight_zero]
  have hbiased : (unpackExponent b).toNat = b.toNat / 2 ^ 52 % 2048 := by
    change b.toNat >>> 52 % 2 ^ 11 = _
    rw [Nat.shiftRight_eq_div_pow]
  have hsign : isNegative (Sign.ofBitVec (unpackSign b)) = (b.toNat / 2 ^ 63 = 1 : Bool) := by
    have hbit : (unpackSign b).toNat = b.toNat / 2 ^ 63 % 2 := by
      change b.toNat >>> 63 % 2 ^ 1 = _
      rw [Nat.shiftRight_eq_div_pow, pow_one]
    have hword : b.toNat < 2 ^ 64 := b.isLt
    by_cases hzero : unpackSign b = 0#1
    · have hbit' : b.toNat / 2 ^ 63 % 2 = 0 := by rw [← hbit, hzero]; rfl
      have hclear : b.toNat / 2 ^ 63 ≠ 1 := by omega
      rw [hzero, decide_eq_false hclear]
      rfl
    · have hbit' : b.toNat / 2 ^ 63 % 2 ≠ 0 := by
        rw [← hbit]
        exact fun h => hzero (BitVec.eq_of_toNat_eq h)
      have hset : b.toNat / 2 ^ 63 = 1 := by omega
      rw [Sign.ofBitVec, if_neg hzero, decide_eq_true hset]
      rfl
  have hbias : (-1074 + (b.toNat / 2 ^ 52 % 2048 : ℕ) - 1 : ℤ) =
      (b.toNat / 2 ^ 52 % 2048 : ℕ) - 1075 := by
    omega
  rw [hfraction, hbiased, hsign, ← hbias]
  rfl

theorem ofFloat_eq (x : Float) : Binary.ofFloat x = Binary.ofParts (parts x) := by
  have hfields := Binary64.unpacks_unpack x.toModel.toBits.toBitVec
  change Binary64.Unpacks _ (parts x) at hfields
  change Binary.ofBits x.toModel.toBits.toBitVec.toNat = _
  rw [ofBits_eq]
  generalize parts x = u at hfields
  cases hfields with
  | infinity he hm => rw [he, hm]; rfl
  | notANumber he hm =>
    have hne : (@unpackMantissa .binary64 x.toModel.toBits.toBitVec).toNat ≠ 0 :=
      fun h => hm (BitVec.eq_of_toNat_eq h)
    rw [he, if_pos (by decide), if_neg hne]
    rfl
  | zero he hm => rw [he, hm]; rfl
  | subnormal he hm => rw [he]; rfl
  | normal hpos hlt hm =>
    rw [if_neg (by omega), if_neg (by omega)]
    rfl

/-! ## Numerals by their value -/

namespace Numeral

/-- The absolute value of the number that a numeral denotes. -/
def value (n : Numeral) : ℚ := n.significand * 10 ^ n.scale

theorem lt_ten_pow_length (c : ℕ) : c < 10 ^ (Nat.toDigits 10 c).length :=
  (Nat.length_toDigits_le_iff (by decide) Nat.length_toDigits_pos).mp le_rfl

theorem ten_pow_length_le {c : ℕ} (hc : 0 < c) : 10 ^ ((Nat.toDigits 10 c).length - 1) ≤ c := by
  by_contra hlt
  rcases Nat.eq_zero_or_pos ((Nat.toDigits 10 c).length - 1) with hone | hmany
  · rw [hone, pow_zero] at hlt
    omega
  · have hshort := (Nat.length_toDigits_le_iff (by decide) hmany).mpr (not_le.mp hlt)
    omega

/-- Below half of the least number lies a power of ten. -/
theorem least_power : (10 : ℚ) ^ (-324 : ℤ) < 2 ^ (-1075 : ℤ) := by
  have hnat : 2 ^ 1075 < 10 ^ 324 := by decide +kernel
  have hcast : (2 : ℚ) ^ 1075 < 10 ^ 324 := mod_cast hnat
  rw [zpow_neg, zpow_neg]
  exact inv_strictAnti₀ (by positivity) hcast

/-- Above all numbers lies a power of ten. -/
theorem greatest_power : (2 : ℚ) ^ (1024 : ℤ) < 10 ^ (309 : ℤ) := by
  have hnat : 2 ^ 1024 < 10 ^ 309 := by decide +kernel
  exact_mod_cast hnat

/-- The two bounds within which a power of ten is computed contain every numeral that
is rounded to a number. -/
theorem length_bounds {n : Numeral} {m : ℕ} {e : ℤ} (h : Canonical m e) (he : e < 972)
    (hpos : 0 < n.significand) (hcovers : Covers (neighbourhood m e) n.value) :
    -324 < (Nat.toDigits 10 n.significand).length + n.scale ∧
      (Nat.toDigits 10 n.significand).length - 1 + n.scale < 309 := by
  obtain ⟨length, hlength⟩ : ∃ length, length = (Nat.toDigits 10 n.significand).length :=
    ⟨_, rfl⟩
  have hpower : (0 : ℚ) < 10 ^ n.scale := by positivity
  have hbelow : n.value < 10 ^ (length + n.scale) := by
    have hdigits : (n.significand : ℚ) < 10 ^ length := by
      rw [hlength]
      exact_mod_cast lt_ten_pow_length n.significand
    rw [zpow_add₀ (by norm_num), zpow_natCast]
    exact mul_lt_mul_of_pos_right hdigits hpower
  have habove : (10 : ℚ) ^ ((length - 1 : ℕ) + n.scale) ≤ n.value := by
    have hdigits : (10 : ℚ) ^ (length - 1) ≤ n.significand := by
      rw [hlength]
      exact_mod_cast ten_pow_length_le hpos
    rw [zpow_add₀ (by norm_num), zpow_natCast]
    exact mul_le_mul_of_nonneg_right hdigits hpower.le
  have hleast : (10 : ℚ) ^ (-324 : ℤ) < n.value := by
    have hm : (1 : ℚ) ≤ m := mod_cast h.pos
    have hexponent := h.le_exponent
    calc (10 : ℚ) ^ (-324 : ℤ) < 2 ^ (-1075 : ℤ) := least_power
      _ ≤ 2 ^ (e - 2 + 1) := zpow_le_zpow_right₀ one_le_two (by omega)
      _ = 2 * 2 ^ (e - 2) := by rw [zpow_add_one₀ two_ne_zero, mul_comm]
      _ ≤ (4 * m - 2) * 2 ^ (e - 2) :=
        mul_le_mul_of_nonneg_right (by linarith) (by positivity)
      _ ≤ n.value := hcovers.low_le
  have hgreatest : n.value < (10 : ℚ) ^ (309 : ℤ) := by
    have hm : (m : ℚ) + 1 ≤ 2 ^ 53 := mod_cast h.lt
    calc n.value ≤ (4 * m + 2) * 2 ^ (e - 2) := hcovers.le_high
      _ ≤ 2 ^ (55 : ℤ) * 2 ^ (e - 2) :=
        mul_le_mul_of_nonneg_right (by norm_num; linarith) (by positivity)
      _ = 2 ^ (55 + (e - 2)) := (zpow_add₀ two_ne_zero _ _).symm
      _ ≤ 2 ^ (1024 : ℤ) := zpow_le_zpow_right₀ one_le_two (by omega)
      _ < 10 ^ (309 : ℤ) := greatest_power
  have hone : 1 ≤ length := hlength ▸ Nat.length_toDigits_pos
  have hfirst := (zpow_lt_zpow_iff_right₀ (by norm_num : (1 : ℚ) < 10)).mp (hleast.trans hbelow)
  have hsecond :=
    (zpow_lt_zpow_iff_right₀ (by norm_num : (1 : ℚ) < 10)).mp (habove.trans_lt hgreatest)
  rw [← hlength]
  omega

/-- A numeral whose value lies between the midpoints around a number has that number
for its magnitude. -/
theorem magnitude_eq {n : Numeral} {m : ℕ} {e : ℤ} (h : Canonical m e) (he : e < 972)
    (hcovers : Covers (neighbourhood m e) n.value) :
    n.magnitude = assemble (.finite .positive m e h.pos) := by
  have hpos : 0 < n.significand := by
    by_contra hzero
    have hvalue : n.value = 0 := by
      rw [value, Nat.eq_zero_of_not_pos hzero, Nat.cast_zero, zero_mul]
    exact (hcovers.pos h.pos).ne' hvalue
  obtain ⟨hlow, hhigh⟩ := length_bounds h he hpos hcovers
  have hlog : (Nat.toDigits 10 n.significand).length - 1 ≤ n.significand.log2 := by
    refine (Nat.le_log2 hpos.ne').mpr ((Nat.pow_le_pow_left (by decide) _).trans
      (ten_pow_length_le hpos))
  rw [magnitude]
  rw [if_neg (by omega), if_neg (by omega)]
  exact Binary64.ofScientific_eq h hpos hcovers (by omega) (by omega)

theorem magnitude_zero {n : Numeral} (h : n.significand = 0) : n.magnitude = 0 := by
  rw [magnitude, if_pos (Or.inl h)]

end Numeral

namespace Layout

/-- A layout moves the point and the power of ten against each other. -/
theorem value_place (layout : Layout) (negative : Bool) (d : Decimal) :
    (layout.place negative d).value = d.value := by
  have hlength : 0 < (Nat.toDigits 10 d.coefficient).length := Nat.length_toDigits_pos
  have hwhole (h : 0 ≤ d.exponent) : (10 : ℚ) ^ d.exponent.natAbs = 10 ^ d.exponent := by
    rw [← zpow_natCast, Int.natAbs_of_nonneg h]
  simp only [place]
  split_ifs with hpositional hfraction hpoint
  · have hscale : (0 : ℤ) - d.exponent.natAbs = d.exponent := by omega
    simp only [Numeral.value, Numeral.scale, Option.getD_none, Decimal.value, hscale]
  · change ((d.coefficient * 10 ^ d.exponent.natAbs * 10 : ℕ) : ℚ) * 10 ^ (0 - 1 : ℤ) =
      d.coefficient * 10 ^ d.exponent
    push_cast
    rw [hwhole (not_lt.mp hfraction), mul_assoc _ (10 : ℚ)]
    norm_num
  · change ((d.coefficient * 10 ^ d.exponent.natAbs : ℕ) : ℚ) * 10 ^ (0 - 0 : ℤ) =
      d.coefficient * 10 ^ d.exponent
    push_cast
    rw [hwhole (not_lt.mp hfraction)]
    norm_num
  · have hscale : d.exponent + (Nat.toDigits 10 d.coefficient).length - 1 -
        ((Nat.toDigits 10 d.coefficient).length - 1 : ℕ) = d.exponent := by omega
    simp only [Numeral.value, Numeral.scale, Option.getD_some, Decimal.value, hscale]

@[simp] theorem negative_place (layout : Layout) (negative : Bool) (d : Decimal) :
    (layout.place negative d).negative = negative := by
  simp only [place]
  split_ifs <;> rfl

/-- Zero is written with zeros only. -/
theorem significand_place_zero (layout : Layout) (negative : Bool) (e : ℤ) :
    (layout.place negative ⟨0, e⟩).significand = 0 := by
  simp only [place]
  split_ifs <;> simp

theorem neg_assemble_positive {m : ℕ} {e : ℤ} (h : Canonical m e) (he : e < 972) :
    -assemble (.finite .positive m e h.pos) = assemble (.finite .negative m e h.pos) := by
  rw [Binary64.neg_eq, h.parts_assemble, if_pos he]
  rfl

theorem numeral?_eq (layout : Layout) {x : Float} {negative : Bool} {m : ℕ} {e : ℤ}
    (hx : Binary.ofParts (parts x) = .finite negative m e) :
    layout.numeral? x = some (layout.numeral negative m e) := by
  rw [numeral?, ofFloat_eq, hx]

/-- Every finite number is written with a numeral that is read as the number. -/
theorem exists_toFloat_eq (layout : Layout) {x : Float} (hx : x.isFinite = true) :
    ∃ n, layout.numeral? x = some n ∧ n.toFloat = x := by
  obtain ⟨s, hs⟩ | ⟨s, m, e, hm, hs⟩ := (Binary64.isFinite_iff x).mp hx
  · refine ⟨_, layout.numeral?_eq (by rw [hs]; rfl), ?_⟩
    have hmagnitude : (layout.numeral (isNegative s) 0 Binary.minExponent).magnitude = 0 :=
      Numeral.magnitude_zero (significand_place_zero layout _ _)
    rw [Numeral.toFloat, hmagnitude, numeral, negative_place, ← Binary64.assemble_parts x, hs]
    cases s <;> rfl
  · have h := Binary64.canonical_parts hs
    have he := Binary64.exponent_parts_lt hs
    refine ⟨_, layout.numeral?_eq (by rw [hs]; rfl), ?_⟩
    have hcovers : Covers (neighbourhood m e) (layout.numeral (isNegative s) m e).value := by
      rw [numeral, value_place]
      exact Decimal.covers_shortest h he layout.tie
    have hmagnitude := Numeral.magnitude_eq h he hcovers
    rw [Numeral.toFloat, hmagnitude, numeral, negative_place, ← Binary64.assemble_parts x, hs]
    cases s with
    | negative => exact neg_assemble_positive h he
    | positive => rfl

theorem numeral?_of_not_isFinite (layout : Layout) {x : Float} (hx : x.isFinite = false) :
    layout.numeral? x = none := by
  rw [numeral?, ofFloat_eq]
  obtain ⟨s, hs⟩ | hs := (Binary64.isFinite_eq_false_iff x).mp hx
  · rw [hs]
    rfl
  · rw [hs]
    rfl

end Layout

end LinearProgramming
