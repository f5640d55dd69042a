import LinearProgramming.Proofs.Arithmetic.FloatParts
import LinearProgramming.Proofs.Arithmetic.Laws
import Mathlib

/-!
Binary64 arithmetic is lawful. Each law is read off the sign, mantissa and
exponent of its operands. An order key of three integers turns the comparisons
into those of a linear order, from which only undefined values are left out.

The last section is about checks that are passed because a comparison came out
false: for defined numbers a false `<` is a true `≤` the other way round.
-/

namespace LinearProgramming.Binary64

open Float.Model (Format UnpackedFloat totalExponent)
open Float.Model.UnpackedFloat

/-! ## Operations on parts -/

theorem mul_eq (x y : Float) : x * y = assemble (mul .binary64 (parts x) (parts y)) := rfl

theorem sub_eq (x y : Float) : x - y = assemble (sub .binary64 (parts x) (parts y)) := rfl

theorem div_eq (x y : Float) : x / y = assemble (div .binary64 (parts x) (parts y)) := rfl

theorem add_eq (x y : Float) : x + y = assemble (add .binary64 (parts x) (parts y)) := rfl

theorem neg_eq (x : Float) : -x = assemble (neg (parts x)) := rfl

theorem isNaN_eq (x : Float) : x.isNaN = (parts x).isNaN := rfl

theorem isFinite_eq (x : Float) : x.isFinite = (parts x).isFinite := rfl

@[simp] theorem parts_zero : parts 0 = .zero .positive := rfl

@[simp] theorem parts_one : parts 1 = .finite .positive (2 ^ 52) (-52) (by decide) := rfl

theorem one_eq : (1 : Float) = assemble (.finite .positive (2 ^ 52) (-52) (by decide)) := rfl

@[simp] theorem sign_div_self (s : Sign) : s / s = .positive := by
  cases s <;> rfl

@[simp] theorem sign_mul_positive (s : Sign) : s * .positive = s := by
  cases s <;> rfl

@[simp] theorem sign_beq_neg (s : Sign) : (s == -s) = false := by
  cases s <;> rfl

/-! ## Comparisons -/

/-- Where a number stands in the order. Zeros of both signs stand at the same
place; the place of an undefined value means nothing. -/
def key : UnpackedFloat → ℤ ×ₗ ℤ ×ₗ ℤ
  | .infinity .negative => toLex (-2, toLex (0, 0))
  | .finite .negative m e _ => toLex (-1, toLex (-e, -m))
  | .zero _ => toLex (0, toLex (0, 0))
  | .finite .positive m e _ => toLex (1, toLex (e, m))
  | .infinity .positive => toLex (2, toLex (0, 0))
  | .notANumber => toLex (3, toLex (0, 0))

theorem compare_toLex (a b c a' b' c' : ℤ) :
    compare (toLex (a, toLex (b, c))) (toLex (a', toLex (b', c'))) =
      (compare a a').then ((compare b b').then (compare c c')) := by
  rw [Prod.Lex.compare_def, compareLex, compareOn, compareOn, Prod.Lex.compare_def]
  rfl

theorem compare_neg (a b : ℤ) : compare (-a) (-b) = (compare a b).swap := by
  have hanti : StrictAnti fun x : ℤ => -x := fun _ _ => neg_lt_neg
  rw [Int.compare_swap, ← cmp_eq_compare, ← cmp_eq_compare]
  exact hanti.cmp_map_eq a b

theorem compare_natCast (a b : ℕ) : compare (a : ℤ) (b : ℤ) = compare a b := by
  rw [← cmp_eq_compare, ← cmp_eq_compare]
  exact Nat.strictMono_cast.cmp_map_eq a b

/-- A comparison is one of keys, unless an operand is undefined. -/
theorem compare_eq (u v : UnpackedFloat) :
    u.compare v = if u.isNaN || v.isNaN then none else some (compare (key u) (key v)) := by
  cases u with
  | notANumber => cases v <;> rfl
  | infinity s =>
    cases v with
    | infinity s' => cases s <;> cases s' <;> rfl
    | finite s' => cases s <;> cases s' <;> rfl
    | _ => cases s <;> rfl
  | zero s =>
    cases v with
    | infinity s' => cases s' <;> rfl
    | finite s' => cases s' <;> rfl
    | _ => rfl
  | finite s m e =>
    cases v with
    | infinity s' => cases s <;> cases s' <;> rfl
    | finite s' m' e' =>
      cases s <;> cases s'
      · simp [UnpackedFloat.compare, isNaN, key, compare_toLex, compare_neg, compare_natCast,
          Ordering.swap_then]
      · rfl
      · rfl
      · simp [UnpackedFloat.compare, isNaN, key, compare_toLex, compare_natCast]
    | _ => cases s <;> rfl

theorem lt_iff (x y : Float) : x < y ↔
    (parts x).isNaN = false ∧ (parts y).isNaN = false ∧ key (parts x) < key (parts y) := by
  have hlt : x < y ↔ ((parts x).compare (parts y) == some .lt) = true := by
    change decide _ = true ↔ _
    rw [decide_eq_true_iff]
    rfl
  rw [hlt, compare_eq]
  cases (parts x).isNaN <;> cases (parts y).isNaN <;> simp [compare_lt_iff_lt]

theorem le_iff (x y : Float) : x ≤ y ↔
    (parts x).isNaN = false ∧ (parts y).isNaN = false ∧ key (parts x) ≤ key (parts y) := by
  have hle : x ≤ y ↔ ((parts x).compare (parts y)).any (·.isLE) = true := by
    change decide _ = true ↔ _
    rw [decide_eq_true_iff]
    rfl
  rw [hle, compare_eq]
  cases (parts x).isNaN <;> cases (parts y).isNaN <;>
    simp [Ordering.isLE_iff_ne_gt, compare_le_iff_le]

theorem beq_iff (x y : Float) : (x == y) = true ↔
    (parts x).isNaN = false ∧ (parts y).isNaN = false ∧ key (parts x) = key (parts y) := by
  have hbeq : (x == y) = ((parts x).compare (parts y) == some .eq) := rfl
  rw [hbeq, compare_eq]
  cases (parts x).isNaN <;> cases (parts y).isNaN <;> simp [compare_eq_iff_eq]

theorem beq_zero_iff (x : Float) : (x == 0) = true ↔ ∃ s, parts x = .zero s := by
  have hbeq : (x == 0) = (parts x).beq (.zero .positive) := rfl
  rw [hbeq, beq_iff_ne_notANumber_and_eq]
  constructor
  · rintro ⟨-, -, hzero | ⟨hzero, -⟩ | ⟨hzero, -⟩⟩
    · exact ⟨_, hzero⟩
    · exact ⟨_, hzero⟩
    · exact ⟨_, hzero⟩
  · rintro ⟨s, hs⟩
    rw [hs]
    cases s <;> simp

/-! ## The laws -/

theorem isNaN_iff (x : Float) : Scalar.IsNaN x ↔ parts x = .notANumber := by
  have hself : Scalar.IsNaN x ↔ ¬(parts x).beq (parts x) = true := by
    rw [Bool.not_eq_true]
    rfl
  rw [hself, beq_iff_ne_notANumber_and_eq]
  simp

theorem beq_zero_eq_false_iff (x : Float) :
    (x == 0) = false ↔ ∀ s, parts x ≠ .zero s := by
  rw [← Bool.not_eq_true, beq_zero_iff, not_exists]

theorem isFinite_iff (x : Float) : Scalar.isFinite x = true ↔
    (∃ s, parts x = .zero s) ∨ ∃ s m e hm, parts x = .finite s m e hm := by
  change (parts x).isFinite = true ↔ _
  cases parts x with
  | finite s m e hm => simp [isFinite, hm]
  | _ => simp [isFinite]

theorem isFinite_eq_false_iff (x : Float) : Scalar.isFinite x = false ↔
    (∃ s, parts x = .infinity s) ∨ parts x = .notANumber := by
  change (parts x).isFinite = false ↔ _
  cases parts x <;> simp [isFinite]

/-- A number divided by itself is one: the quotient of its mantissa by itself
is a power of two, which is rounded exactly. -/
theorem div_self_eq (x : Float) (s : Sign) (m : Nat) (e : Int) (hm : 0 < m)
    (hx : parts x = .finite s m e hm) : x / x = 1 := by
  have hcore : divCore .binary64 m e m e = (2 ^ 52 * 2 ^ 1, -52 - ((1 : Nat) : Int), .exact) := by
    have htarget :
        Format.binary64.targetExponent (totalExponent m e - totalExponent m e) = -53 := by
      rw [sub_self]
      rfl
    have hshift : m <<< 53 = m * 2 ^ 53 := Nat.shiftLeft_eq m 53
    have hquotient : m * 2 ^ 53 / m = 2 ^ 53 := Nat.mul_div_cancel_left _ hm
    have hremainder : m * 2 ^ 53 % m = 0 := Nat.mul_mod_right m _
    rw [divCore, htarget, sub_self]
    change (m <<< 53 / m, (-53 : Int), accuracyOfFraction (m <<< 53 % m) m) = _
    rw [hshift, hquotient, hremainder]
    rfl
  have hround := roundWithAccuracy_exact
    (⟨by decide, by decide, by decide, Or.inl le_rfl⟩ : Canonical (2 ^ 52) (-52)) .positive 1
  rw [div_eq, hx, one_eq]
  simp only [div, hcore, sign_div_self, hround]

theorem mul_one_eq (x : Float) : x * 1 = x := by
  rw [mul_eq, parts_one]
  cases hx : parts x with
  | finite s m e hm =>
    have hround : roundWithAccuracy .binary64 s (m * 2 ^ 52) (e + -52) .exact =
        .finite s m e hm := roundWithAccuracy_exact (canonical_parts hx) s 52
    simp only [mul, sign_mul_positive, hround]
    rw [← hx, assemble_parts]
  | notANumber => rw [← assemble_parts x, hx]; rfl
  | infinity s => rw [← assemble_parts x, hx]; cases s <;> rfl
  | zero s => rw [← assemble_parts x, hx]; cases s <;> rfl

instance : Scalar.Lawful Float where
  lt_irrefl x := fun h => lt_irrefl _ ((lt_iff x x).mp h).2.2
  lt_trans {x y z} hxy hyz := by
    have hxy := (lt_iff x y).mp hxy
    have hyz := (lt_iff y z).mp hyz
    exact (lt_iff x z).mpr ⟨hxy.1, hyz.2.1, hxy.2.2.trans hyz.2.2⟩
  not_lt_zero {x} hx hlt := by
    obtain ⟨s, hs⟩ := (beq_zero_iff x).mp hx
    have hlt := ((lt_iff x 0).mp hlt).2.2
    rw [hs] at hlt
    exact lt_irrefl _ hlt
  not_zero_lt {x} hx hlt := by
    obtain ⟨s, hs⟩ := (beq_zero_iff x).mp hx
    have hlt := ((lt_iff 0 x).mp hlt).2.2
    rw [hs] at hlt
    exact lt_irrefl _ hlt
  not_lt_of_isNaN {x y} hx hlt := by
    have hdefined := ((lt_iff x y).mp hlt).1
    rw [(isNaN_iff x).mp hx] at hdefined
    cases hdefined
  isFinite_of_isNaN {x} hx := (isFinite_eq_false_iff x).mpr (Or.inr ((isNaN_iff x).mp hx))
  zero_beq_zero := rfl
  one_beq_zero := rfl
  div_self {x} hfinite hx := by
    obtain ⟨s, hs⟩ | ⟨s, m, e, hm, hs⟩ := (isFinite_iff x).mp hfinite
    · exact absurd hs ((beq_zero_eq_false_iff x).mp hx s)
    · exact div_self_eq x s m e hm hs
  zero_div {x y} hx hfinite hy := by
    obtain ⟨s, hs⟩ := (beq_zero_iff x).mp hx
    obtain ⟨s', hs'⟩ | ⟨s', m, e, hm, hs'⟩ := (isFinite_iff y).mp hfinite
    · exact absurd hs' ((beq_zero_eq_false_iff y).mp hy s')
    · refine (beq_zero_iff _).mpr ⟨s / s', ?_⟩
      rw [div_eq, hs, hs']
      exact parts_assemble_zero _
  nan_div {x y} hx := by
    rw [isNaN_iff] at hx ⊢
    rw [div_eq, hx]
    simp [div]
  mul_one := mul_one_eq
  finite_mul_zero {x y} hfinite hy := by
    obtain ⟨s', hs'⟩ := (beq_zero_iff y).mp hy
    obtain ⟨s, hs⟩ | ⟨s, m, e, hm, hs⟩ := (isFinite_iff x).mp hfinite
    all_goals
      refine (beq_zero_iff _).mpr ⟨s * s', ?_⟩
      rw [mul_eq, hs, hs']
      exact parts_assemble_zero _
  infinite_mul_zero {x y} hx hy := by
    obtain ⟨s', hs'⟩ := (beq_zero_iff y).mp hy
    obtain ⟨s, hs⟩ | hs := (isFinite_eq_false_iff x).mp hx
    all_goals
      rw [isNaN_iff, mul_eq, hs, hs']
      simp [mul]
  mul_nan {x y} hy := by
    rw [isNaN_iff] at hy ⊢
    rw [mul_eq, hy]
    cases parts x <;> simp [mul]
  finite_sub_self {x} hfinite := by
    refine (beq_zero_iff _).mpr ⟨.positive, ?_⟩
    obtain ⟨s, hs⟩ | ⟨s, m, e, hm, hs⟩ := (isFinite_iff x).mp hfinite
    · rw [sub_eq, hs]
      simp [sub]
    · rw [sub_eq, hs]
      simp [sub, UnpackedFloat.normalize]
  infinite_sub_self {x} hx := by
    rw [isNaN_iff, sub_eq]
    obtain ⟨s, hs⟩ | hs := (isFinite_eq_false_iff x).mp hx
    · rw [hs]
      simp [sub]
    · rw [hs]
      rfl
  zero_sub_zero {x y} hx hy := by
    obtain ⟨s, hs⟩ := (beq_zero_iff x).mp hx
    obtain ⟨s', hs'⟩ := (beq_zero_iff y).mp hy
    rw [beq_zero_iff, sub_eq, hs, hs']
    cases s <;> cases s' <;> exact ⟨_, rfl⟩
  sub_zero {x y} hx hy := by
    obtain ⟨s', hs'⟩ := (beq_zero_iff y).mp hy
    rw [sub_eq, hs']
    have hkeep : sub .binary64 (parts x) (.zero s') = parts x := by
      cases h : parts x with
      | zero s => exact absurd h ((beq_zero_eq_false_iff x).mp hx s)
      | _ => rfl
    rw [hkeep, assemble_parts]
  nan_sub {x y} hx := by
    rw [isNaN_iff] at hx ⊢
    rw [sub_eq, hx]
    simp [sub]
  sub_nan {x y} hy := by
    rw [isNaN_iff] at hy ⊢
    rw [sub_eq, hy]
    cases parts x <;> simp [sub]

theorem isNaN_iff_isNaN (x : Float) : Scalar.IsNaN x ↔ x.isNaN = true := by
  rw [isNaN_iff, isNaN_eq]
  cases parts x <;> simp [isNaN]

theorem isNaN_eq_false_of_isFinite {x : Float} (hx : x.isFinite = true) : x.isNaN = false := by
  rw [isFinite_eq] at hx
  rw [isNaN_eq]
  cases h : parts x with
  | notANumber =>
    rw [h] at hx
    cases hx
  | _ => rfl

/-- Above zero, only positive infinity is not finite. -/
theorem eq_infinity {x : Float} (hpos : 0 < x) (hx : x.isFinite = false) : x = Float.inf := by
  obtain ⟨-, hdefined, hkey⟩ := (lt_iff 0 x).mp hpos
  obtain ⟨s, hs⟩ | hs := (isFinite_eq_false_iff x).mp hx
  · cases s with
    | negative =>
      rw [hs] at hkey
      exact absurd hkey (by decide)
    | positive => rw [← assemble_parts x, hs]; rfl
  · rw [hs] at hdefined
    cases hdefined

/-! ## What a failed comparison shows -/

theorem le_of_not_lt {x y : Float} (hx : x.isNaN = false) (hy : y.isNaN = false) (h : ¬x < y) :
    y ≤ x := by
  refine (le_iff y x).mpr ⟨hy, hx, ?_⟩
  by_contra hkey
  exact h ((lt_iff x y).mpr ⟨hx, hy, lt_of_not_ge hkey⟩)

end LinearProgramming.Binary64
