import LinearProgramming.Scalar
import Mathlib

/-!
Binary64 numbers taken apart. An operation on `Float` takes its operands apart,
computes with sign, mantissa and exponent, and assembles the result. This module
says what is lost on the way: assembling what was taken apart gives the number
back, a zero, an infinity and an undefined value survive being assembled, and a
finite result stays defined though it may overflow. Mantissas and exponents of the
kind that numbers have survive as long as the exponent has room, and rounding
changes nothing that a number can hold.
-/

namespace LinearProgramming.Binary64

open Float.Model (Format UnpackedFloat totalExponent)
open Float.Model.UnpackedFloat

/-- The sign, mantissa and exponent of a number. -/
def parts (x : Float) : UnpackedFloat := x.toModel.unpack

/-- The number with the given parts, or an infinity if the exponent is too
large. -/
def assemble (u : UnpackedFloat) : Float := Float.ofModel (Float.Model.pack u)

@[simp] theorem assemble_parts (x : Float) : assemble (parts x) = x := by
  obtain ⟨⟨bits, hvalid⟩⟩ := x
  simp only [assemble, parts, Float.Model.pack, Float.Model.unpack,
    pack_unpack_of_valid hvalid]

@[simp] theorem parts_assemble_notANumber : parts (assemble .notANumber) = .notANumber := rfl

@[simp] theorem parts_assemble_infinity (s : Sign) :
    parts (assemble (.infinity s)) = .infinity s := by
  cases s <;> rfl

@[simp] theorem parts_assemble_zero (s : Sign) : parts (assemble (.zero s)) = .zero s := by
  cases s <;> rfl

/-! ## The fields of a word -/

/-- How the fields of a word decide what it stands for. -/
inductive Unpacks (b : BitVec Format.binary64.numBits) : UnpackedFloat → Prop
  | infinity (he : unpackExponent b = -1#11) (hm : unpackMantissa b = 0#52) :
      Unpacks b (.infinity (Sign.ofBitVec (unpackSign b)))
  | notANumber (he : unpackExponent b = -1#11) (hm : unpackMantissa b ≠ 0#52) :
      Unpacks b .notANumber
  | zero (he : unpackExponent b = 0#11) (hm : unpackMantissa b = 0#52) :
      Unpacks b (.zero (Sign.ofBitVec (unpackSign b)))
  | subnormal (he : unpackExponent b = 0#11) (hm : 0 < (unpackMantissa b).toNat) :
      Unpacks b (.finite (Sign.ofBitVec (unpackSign b)) (unpackMantissa b).toNat (-1074) hm)
  | normal (hpos : 0 < (unpackExponent b).toNat) (hlt : (unpackExponent b).toNat < 2047)
      (hm : 0 < 2 ^ 52 + (unpackMantissa b).toNat) :
      Unpacks b (.finite (Sign.ofBitVec (unpackSign b)) (2 ^ 52 + (unpackMantissa b).toNat)
        ((unpackExponent b).toNat - 1075) hm)

theorem toNat_one_append (v : BitVec 52) : (1#1 ++ v).toNat = 2 ^ 52 + v.toNat := by
  rw [BitVec.toNat_append, ← Nat.shiftLeft_add_eq_or_of_lt v.isLt]
  rfl

theorem unpacks_unpack (b : BitVec Format.binary64.numBits) : Unpacks b (unpack .binary64 b) := by
  have hbias : (Format.binary64.exponentBias : Int) = 1023 := rfl
  have hbits : (Format.binary64.mantissaBitsWithoutImplicit : Int) = 52 := rfl
  simp only [unpack, hbias, hbits]
  split
  · rename_i he
    split
    · rename_i hm
      exact .infinity he hm
    · rename_i hm
      exact .notANumber he hm
  · rename_i hlast
    split
    · rename_i he
      split
      · rename_i hm
        exact .zero he hm
      · have hexponent : ((unpackExponent b).toNat : Int) - (1023 + 52) + 1 = -1074 := by
          rw [he]
          rfl
        simp only [hexponent]
        exact .subnormal he _
    · rename_i hfirst
      have hlt : (unpackExponent b).toNat < 2 ^ 11 := (unpackExponent b).isLt
      have hne_last : (unpackExponent b).toNat ≠ 2047 := fun h => hlast (BitVec.eq_of_toNat_eq h)
      have hne_first : (unpackExponent b).toNat ≠ 0 := fun h => hfirst (BitVec.eq_of_toNat_eq h)
      have hexponent : ((unpackExponent b).toNat : Int) - (1023 + 52) =
          (unpackExponent b).toNat - 1075 := by omega
      simp only [hexponent, toNat_one_append]
      exact .normal (by omega) (by omega) _

theorem sign_packComponents (s : Sign) (e : BitVec 11) (m : BitVec 52) :
    Sign.ofBitVec (unpackSign (packComponents .binary64 s e m)) = s := by
  rw [unpackSign, packComponents, BitVec.extractLsb,
    BitVec.extractLsb'_append_eq_of_le (by decide), BitVec.extractLsb'_append_eq_of_le (by decide)]
  cases s <;> rfl

theorem Unpacks.eq_subnormal {b : BitVec Format.binary64.numBits} {u : UnpackedFloat}
    (h : Unpacks b u) (he : unpackExponent b = 0#11) (hm : 0 < (unpackMantissa b).toNat) :
    u = .finite (Sign.ofBitVec (unpackSign b)) (unpackMantissa b).toNat (-1074) hm := by
  cases h with
  | infinity hlast hm' => exact absurd (he.symm.trans hlast) (by decide)
  | notANumber hlast hm' => exact absurd (he.symm.trans hlast) (by decide)
  | zero he' hm' =>
    rw [hm'] at hm
    exact absurd hm (lt_irrefl _)
  | subnormal he' hm' => rfl
  | normal hpos hlt hm' =>
    rw [he] at hpos
    exact absurd hpos (lt_irrefl _)

theorem Unpacks.eq_normal {b : BitVec Format.binary64.numBits} {u : UnpackedFloat}
    (h : Unpacks b u) (hpos : 0 < (unpackExponent b).toNat)
    (hlt : (unpackExponent b).toNat < 2047) (hm : 0 < 2 ^ 52 + (unpackMantissa b).toNat) :
    u = .finite (Sign.ofBitVec (unpackSign b)) (2 ^ 52 + (unpackMantissa b).toNat)
      ((unpackExponent b).toNat - 1075) hm := by
  cases h with
  | infinity hlast hm' =>
    rw [hlast] at hlt
    exact absurd hlt (by decide)
  | notANumber hlast hm' =>
    rw [hlast] at hlt
    exact absurd hlt (by decide)
  | zero he hm' =>
    rw [he] at hpos
    exact absurd hpos (lt_irrefl _)
  | subnormal he hm' =>
    rw [he] at hpos
    exact absurd hpos (lt_irrefl _)
  | normal hpos' hlt' hm' => rfl

theorem unpack_packComponents_subnormal (s : Sign) {m : Nat} (hpos : 0 < m) (hlt : m < 2 ^ 52) :
    unpack .binary64 (packComponents .binary64 s 0#11 (BitVec.ofNat 52 m)) =
      .finite s m (-1074) hpos := by
  have hmantissa : (BitVec.ofNat 52 m).toNat = m := Nat.mod_eq_of_lt hlt
  generalize hb : packComponents .binary64 s 0#11 (BitVec.ofNat 52 m) = b
  have hsign : Sign.ofBitVec (unpackSign b) = s := by rw [← hb, sign_packComponents]
  have hexponent : unpackExponent b = 0#11 := by rw [← hb, unpackExponent_packComponents]
  have hfield : (unpackMantissa b).toNat = m := by
    rw [← hb, unpackMantissa_packComponents, hmantissa]
  subst hsign hfield
  exact (unpacks_unpack b).eq_subnormal hexponent hpos

theorem unpack_packComponents_normal (s : Sign) {m : Nat} {e : Int} (hpos : 0 < m)
    (hlow : 2 ^ 52 ≤ m) (hlt : m < 2 ^ 53) (hleast : -1074 ≤ e) (hlarge : e < 972) :
    unpack .binary64 (packComponents .binary64 s (BitVec.ofNat 11 (e + 1075).toNat)
      (BitVec.ofNat 52 m)) = .finite s m e hpos := by
  have hbits : (BitVec.ofNat 11 (e + 1075).toNat).toNat = (e + 1075).toNat :=
    Nat.mod_eq_of_lt (by omega)
  have hmantissa : (BitVec.ofNat 52 m).toNat = m % 2 ^ 52 := rfl
  generalize hb : packComponents .binary64 s _ _ = b
  have hsign : Sign.ofBitVec (unpackSign b) = s := by rw [← hb, sign_packComponents]
  have hexponent : e = (unpackExponent b).toNat - 1075 := by
    rw [← hb, unpackExponent_packComponents, hbits]
    omega
  have hfield : m = 2 ^ 52 + (unpackMantissa b).toNat := by
    rw [← hb, unpackMantissa_packComponents, hmantissa]
    omega
  subst hsign hexponent hfield
  exact (unpacks_unpack b).eq_normal (by omega) (by omega) hpos

/-- A finite number is packed as an infinity, with its exponent, or with the
exponent field of a subnormal number. -/
theorem pack_finite (s : Sign) (m : Nat) (e : Int) (hm : 0 < m) :
    pack .binary64 (.finite s m e hm) =
      if 2047 ≤ (e + 1075).toNat then packedInfinity .binary64 s
      else if m.log2 = 52 then
        packComponents .binary64 s (BitVec.ofNat 11 (e + 1075).toNat) (BitVec.ofNat 52 m)
      else packComponents .binary64 s 0#11 (BitVec.ofNat 52 m) := by
  have hexponent : e + (Format.binary64.exponentBias : Int) +
      (Format.binary64.mantissaBitsWithoutImplicit : Int) = e + 1075 := by
    change e + 1023 + 52 = e + 1075
    ring
  have hinfinite : 2 ^ Format.binary64.exponentBits ≤ (e + 1075).toNat + 1 ↔
      2047 ≤ (e + 1075).toNat := by
    change 2048 ≤ (e + 1075).toNat + 1 ↔ _
    omega
  have hnormal : m.log2 + 1 = Format.binary64.mantissaBits ↔ m.log2 = 52 := by
    change m.log2 + 1 = 53 ↔ _
    omega
  rw [pack]
  simp only [hexponent, hinfinite, hnormal]

/-- What is finite before it is packed may become infinite, never undefined. -/
theorem parts_assemble_finite_ne (s : Sign) (m : Nat) (e : Int) (hm : 0 < m) :
    parts (assemble (.finite s m e hm)) ≠ .notANumber := by
  have hfields := unpacks_unpack (pack .binary64 (.finite s m e hm))
  change Unpacks _ (parts (assemble (.finite s m e hm))) at hfields
  intro h
  rw [h] at hfields
  obtain ⟨he, hmantissa⟩ : unpackExponent (pack .binary64 (.finite s m e hm)) = -1#11 ∧
      unpackMantissa (pack .binary64 (.finite s m e hm)) ≠ 0#52 := by
    cases hfields with
    | notANumber he hm => exact ⟨he, hm⟩
  rw [pack_finite] at he hmantissa
  by_cases hinfinite : 2047 ≤ (e + 1075).toNat
  · rw [if_pos hinfinite, packedInfinity, unpackMantissa_packComponents] at hmantissa
    exact hmantissa rfl
  · rw [if_neg hinfinite] at he
    have hvalue := congrArg BitVec.toNat he
    by_cases hnormal : m.log2 = 52
    · rw [if_pos hnormal, unpackExponent_packComponents, BitVec.toNat_ofNat] at hvalue
      change (e + 1075).toNat % 2048 = 2047 at hvalue
      omega
    · rw [if_neg hnormal, unpackExponent_packComponents] at hvalue
      cases hvalue

/-! ## Rounding -/

/-- The mantissas and exponents that numbers have: the mantissa fills its 53
bits, or the exponent is the least one. -/
structure Canonical (m : Nat) (e : Int) : Prop where
  pos : 0 < m
  lt : m < 2 ^ 53
  le_exponent : -1074 ≤ e
  normal_or_least : 2 ^ 52 ≤ m ∨ e = -1074

theorem canonical_parts {x : Float} {s : Sign} {m : Nat} {e : Int} {hm : 0 < m}
    (h : parts x = .finite s m e hm) : Canonical m e := by
  have hmantissa : (@unpackMantissa .binary64 x.toModel.toBits.toBitVec).toNat < 2 ^ 52 :=
    BitVec.isLt _
  have hfields := unpacks_unpack x.toModel.toBits.toBitVec
  change Unpacks _ (parts x) at hfields
  rw [h] at hfields
  cases hfields with
  | subnormal he hm => exact ⟨hm, by omega, by omega, Or.inr rfl⟩
  | normal hpos hlt hm => exact ⟨hm, by omega, by omega, Or.inl (by omega)⟩

/-- A number that is packed comes back as it is, unless its exponent is too large
for the field. -/
theorem Canonical.parts_assemble {m : Nat} {e : Int} (h : Canonical m e) (s : Sign) :
    parts (assemble (.finite s m e h.pos)) =
      if e < 972 then .finite s m e h.pos else .infinity s := by
  have hleast := h.le_exponent
  have hparts : parts (assemble (.finite s m e h.pos)) =
      unpack .binary64 (pack .binary64 (.finite s m e h.pos)) := rfl
  rw [hparts, pack_finite]
  by_cases hlarge : e < 972
  · rw [if_neg (by omega), if_pos hlarge]
    split_ifs with hnormal
    · have hlow : 2 ^ 52 ≤ m := (Nat.le_log2 h.pos.ne').mp hnormal.ge
      exact unpack_packComponents_normal s h.pos hlow h.lt hleast hlarge
    · have hlow : ¬2 ^ 52 ≤ m := by
        intro hlow
        have hupper : m.log2 < 53 := (Nat.log2_lt h.pos.ne').mpr h.lt
        have hlower : 52 ≤ m.log2 := (Nat.le_log2 h.pos.ne').mpr hlow
        omega
      obtain rfl := h.normal_or_least.resolve_left hlow
      exact unpack_packComponents_subnormal s h.pos (not_le.mp hlow)
  · rw [if_pos (by omega), if_neg hlarge]
    cases s <;> rfl

/-- The exponent of a number is not too large for the field. -/
theorem exponent_parts_lt {x : Float} {s : Sign} {m : Nat} {e : Int} {hm : 0 < m}
    (h : parts x = .finite s m e hm) : e < 972 := by
  have hfields := unpacks_unpack x.toModel.toBits.toBitVec
  change Unpacks _ (parts x) at hfields
  rw [h] at hfields
  cases hfields with
  | subnormal he hm => decide
  | normal hpos hlt hm => omega

/-- Shifting out zeros leaves no residue. -/
theorem repeat_shiftRightOne (m k : Nat) :
    Nat.repeat ExtendedMantissa.shiftRightOne k ⟨m * 2 ^ k, false, false⟩ = ⟨m, false, false⟩ := by
  induction k generalizing m with
  | zero => simp [Nat.repeat]
  | succ k ih =>
    have hshift : m * 2 ^ (k + 1) = m * 2 * 2 ^ k := by ring
    rw [Nat.repeat, hshift, ih]
    simp [ExtendedMantissa.shiftRightOne]

theorem log2_mul_two_pow {m : Nat} (hm : m ≠ 0) (k : Nat) : (m * 2 ^ k).log2 = m.log2 + k := by
  induction k with
  | zero => simp
  | succ k ih =>
    have hne : m * 2 ^ k ≠ 0 := Nat.mul_ne_zero hm (Nat.two_pow_pos k).ne'
    rw [pow_succ', Nat.mul_left_comm, Nat.log2_two_mul hne, ih, Nat.add_assoc]

theorem targetExponent_eq {m : Nat} {e : Int} (h : Canonical m e) (k : Nat) :
    Format.binary64.targetExponent (totalExponent (m * 2 ^ k) (e - k)) = e := by
  have hupper : m.log2 < 53 := (Nat.log2_lt h.pos.ne').mpr h.lt
  have hleast := h.le_exponent
  change max (((m * 2 ^ k).log2 : Int) + 1 + (e - k) - (53 : Nat)) (-1074) = e
  rw [log2_mul_two_pow h.pos.ne']
  rcases h.normal_or_least with hnormal | hleast'
  · have hlower : 52 ≤ m.log2 := (Nat.le_log2 h.pos.ne').mpr hnormal
    omega
  · omega

/-- What a number can hold loses nothing on the way to its target exponent,
however many zeros stand behind its mantissa. -/
theorem shiftToTargetExponent_exact {m : Nat} {e : Int} (h : Canonical m e) (k : Nat) :
    shiftToTargetExponent .binary64 (m * 2 ^ k) (e - k) .exact = (⟨m, false, false⟩, e) := by
  have hamount : (e - (e - k)).toNat = k := by omega
  rw [shiftToTargetExponent, targetExponent_eq h, shiftToExponent, hamount]
  exact Prod.ext (repeat_shiftRightOne m k) (by simp)

/-- So rounding leaves it alone. -/
theorem roundWithAccuracy_exact {m : Nat} {e : Int} (h : Canonical m e) (s : Sign) (k : Nat) :
    roundWithAccuracy .binary64 s (m * 2 ^ k) (e - k) .exact = .finite s m e h.pos := by
  have hsecond : shiftToTargetExponent .binary64 m e .exact = (⟨m, false, false⟩, e) := by
    simpa using shiftToTargetExponent_exact h 0
  have hrounded : ExtendedMantissa.roundedMantissa ⟨m, false, false⟩ = m := rfl
  simp only [roundWithAccuracy, shiftToTargetExponent_exact h, hrounded, hsecond, h.pos.ne',
    dite_false]

end LinearProgramming.Binary64
