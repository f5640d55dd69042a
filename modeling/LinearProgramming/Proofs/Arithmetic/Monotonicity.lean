import LinearProgramming.Proofs.Arithmetic.Definedness
import LinearProgramming.Proofs.Arithmetic.Rounding

/-!
Sums and negatives keep the order of numbers. A number stands at a whole number
of units, its height; an infinity stands at the first height that is too large for
a number. Defined numbers are ordered by their heights, a negative has the negated
height, and the height of a sum comes from the sum of the heights by rounding and
by cutting off what is too large. Each of these steps is monotone.
-/

namespace LinearProgramming.Binary64

open Float.Model (Format UnpackedFloat totalExponent)
open Float.Model.UnpackedFloat

/-- The first count of units that is too large for a number. -/
def ceiling : ℕ := units (2 ^ 52) 972

/-- The signed count of units; an undefined value has none. -/
def height : UnpackedFloat → ℤ
  | .infinity .negative => -ceiling
  | .finite .negative m e _ => -units m e
  | .zero _ => 0
  | .finite .positive m e _ => units m e
  | .infinity .positive => ceiling
  | .notANumber => 0

/-! ## Heights and order -/

theorem Canonical.units_pos {m : Nat} {e : Int} (h : Canonical m e) : 0 < units m e :=
  Nat.mul_pos h.pos (Nat.two_pow_pos _)

/-- A larger exponent outweighs the mantissa. -/
theorem Canonical.units_lt {m m' : Nat} {e e' : Int} (h : Canonical m e) (h' : Canonical m' e')
    (hlt : e < e') : units m e < units m' e' := by
  have hleast := h.le_exponent
  have hnormal : 2 ^ 52 ≤ m' := h'.normal_or_least.resolve_right (by omega)
  calc units m e < 2 ^ 53 * 2 ^ (e + 1074).toNat :=
        Nat.mul_lt_mul_of_pos_right h.lt (Nat.two_pow_pos _)
    _ = 2 ^ 52 * 2 ^ ((e + 1074).toNat + 1) := by ring
    _ ≤ 2 ^ 52 * 2 ^ (e' + 1074).toNat :=
        Nat.mul_le_mul_left _ (Nat.pow_le_pow_right (by decide) (by omega))
    _ ≤ units m' e' := Nat.mul_le_mul_right _ hnormal

theorem units_lt_units_iff {m m' : Nat} {e : Int} : units m e < units m' e ↔ m < m' :=
  Nat.mul_lt_mul_right (Nat.two_pow_pos _)

/-- Counts of units are compared by exponent and then by mantissa. -/
theorem Canonical.units_lt_iff {m m' : Nat} {e e' : Int} (h : Canonical m e)
    (h' : Canonical m' e') : units m e < units m' e' ↔ e < e' ∨ e = e' ∧ m < m' := by
  rcases lt_trichotomy e e' with hlt | rfl | hgt
  · exact iff_of_true (h.units_lt h' hlt) (Or.inl hlt)
  · simp [units_lt_units_iff]
  · have hunits := h'.units_lt h hgt
    omega

theorem canonical_ceiling : Canonical (2 ^ 52) 972 :=
  ⟨by decide, by decide, by decide, Or.inl le_rfl⟩

/-- Numbers are below the ceiling, and only they. -/
theorem Canonical.units_lt_ceiling_iff {m : Nat} {e : Int} (h : Canonical m e) :
    units m e < ceiling ↔ e < 972 := by
  rw [ceiling, h.units_lt_iff canonical_ceiling]
  constructor
  · rintro (hlt | ⟨rfl, hm⟩)
    · exact hlt
    · have hnormal := h.normal_or_least.resolve_right (by decide)
      omega
  · exact Or.inl

/-- The order of keys is that of heights. -/
theorem Defined.key_lt_iff {u v : UnpackedFloat} (hu : Defined u) (hv : Defined v) :
    key u < key v ↔ height u < height v := by
  have hceiling : 0 < ceiling := canonical_ceiling.units_pos
  cases hu with
  | infinity s =>
    cases hv with
    | infinity s' =>
      cases s <;> cases s' <;> simp only [key, height, Prod.Lex.toLex_lt_toLex] <;> omega
    | zero s' => cases s <;> simp only [key, height, Prod.Lex.toLex_lt_toLex] <;> omega
    | finite s' h' hlt' =>
      have hpos' := h'.units_pos
      have hbelow' := h'.units_lt_ceiling_iff.mpr hlt'
      cases s <;> cases s' <;> simp only [key, height, Prod.Lex.toLex_lt_toLex] <;> omega
  | zero s =>
    cases hv with
    | infinity s' => cases s' <;> simp only [key, height, Prod.Lex.toLex_lt_toLex] <;> omega
    | zero s' => exact iff_of_false (lt_irrefl _) (lt_irrefl _)
    | finite s' h' hlt' =>
      have hpos' := h'.units_pos
      cases s' <;> simp only [key, height, Prod.Lex.toLex_lt_toLex] <;> omega
  | finite s h hlt =>
    have hpos := h.units_pos
    have hbelow := h.units_lt_ceiling_iff.mpr hlt
    cases hv with
    | infinity s' =>
      cases s <;> cases s' <;> simp only [key, height, Prod.Lex.toLex_lt_toLex] <;> omega
    | zero s' => cases s <;> simp only [key, height, Prod.Lex.toLex_lt_toLex] <;> omega
    | finite s' h' hlt' =>
      have hpos' := h'.units_pos
      have hunits := h.units_lt_iff h'
      have hunits' := h'.units_lt_iff h
      cases s <;> cases s' <;>
        simp only [key, height, Prod.Lex.toLex_lt_toLex, true_and] <;> omega

theorem le_iff_height_le {x y : Float} (hx : x.isNaN = false) (hy : y.isNaN = false) :
    x ≤ y ↔ height (parts x) ≤ height (parts y) := by
  rw [le_iff, ← not_lt, (defined_parts hy).key_lt_iff (defined_parts hx), not_lt]
  exact ⟨fun h => h.2.2, fun h => ⟨hx, hy, h⟩⟩

/-! ## Negatives -/

theorem height_neg (u : UnpackedFloat) : height (neg u) = -height u := by
  cases u with
  | infinity s =>
    cases s with
    | negative => exact (Int.neg_neg _).symm
    | positive => rfl
  | finite s m e hm =>
    cases s with
    | negative => exact (Int.neg_neg _).symm
    | positive => rfl
  | _ => rfl

theorem height_parts_neg {x : Float} (hx : x.isNaN = false) :
    height (parts (-x)) = -height (parts x) := by
  rw [neg_eq, (defined_parts hx).neg.parts_assemble, height_neg]

theorem neg_le_neg {x y : Float} (h : x ≤ y) : -y ≤ -x := by
  obtain ⟨hx, hy, -⟩ := (le_iff x y).mp h
  have hheight := (le_iff_height_le hx hy).mp h
  rw [le_iff_height_le ((isNaN_neg y).trans hy) ((isNaN_neg x).trans hx), height_parts_neg hy,
    height_parts_neg hx]
  exact Int.neg_le_neg hheight

/-! ## Magnitudes below zero -/

theorem isNaN_of_lt {x y : Float} (h : x < y) : x.isNaN = false ∧ y.isNaN = false :=
  ⟨((lt_iff x y).mp h).1, ((lt_iff x y).mp h).2.1⟩

theorem lt_iff_height_lt {x y : Float} (hx : x.isNaN = false) (hy : y.isNaN = false) :
    x < y ↔ height (parts x) < height (parts y) := by
  rw [lt_iff, (defined_parts hx).key_lt_iff (defined_parts hy)]
  exact ⟨fun h => h.2.2, fun h => ⟨hx, hy, h⟩⟩

/-- Below zero the magnitude is the negative. -/
theorem abs_eq_neg {x : Float} (h : x < 0) : x.abs = -x := by
  obtain ⟨hx, -, hkey⟩ := (lt_iff x 0).mp h
  have habs : x.abs = assemble (parts x).abs := rfl
  rw [habs, neg_eq]
  cases hparts : parts x with
  | notANumber =>
    rw [hparts] at hx
    cases hx
  | zero s =>
    rw [hparts] at hkey
    exact absurd hkey (lt_irrefl _)
  | infinity s =>
    rw [hparts] at hkey
    cases s with
    | negative => rfl
    | positive => exact absurd hkey (by decide)
  | finite s m e hm =>
    rw [hparts] at hkey
    cases s with
    | negative => rfl
    | positive =>
      have habove : key (parts 0) < key (.finite .positive m e hm) :=
        Prod.Lex.toLex_lt_toLex.mpr (Or.inl (by norm_num))
      exact absurd hkey (lt_asymm habove)

theorem abs_pos {x : Float} (h : x < 0) : 0 < x.abs := by
  have hx := (isNaN_of_lt h).1
  have hheight := (lt_iff_height_lt hx rfl).mp h
  rw [abs_eq_neg h, lt_iff_height_lt rfl ((isNaN_neg x).trans hx), height_parts_neg hx]
  exact Int.neg_pos_of_neg hheight

/-- Of two numbers below zero the lower one has the larger magnitude. -/
theorem abs_lt_abs_iff {x y : Float} (hx : x < 0) (hy : y < 0) : x.abs < y.abs ↔ y < x := by
  have hx' := (isNaN_of_lt hx).1
  have hy' := (isNaN_of_lt hy).1
  rw [abs_eq_neg hx, abs_eq_neg hy, lt_iff_height_lt hy' hx',
    lt_iff_height_lt ((isNaN_neg x).trans hx') ((isNaN_neg y).trans hy'), height_parts_neg hx',
    height_parts_neg hy']
  exact Int.neg_lt_neg_iff

/-! ## Sums -/

/-- What is too high or too low goes to the ceiling or to the floor. -/
def cut (n : ℤ) : ℤ := max (-ceiling) (min n ceiling)

/-- A signed count of units, rounded. -/
def roundHeight (n : ℤ) : ℤ := if 0 ≤ n then roundUnits n.toNat else -roundUnits (-n).toNat

theorem cut_mono {n n' : ℤ} (h : n ≤ n') : cut n ≤ cut n' :=
  max_le_max_left _ (min_le_min_right _ h)

theorem roundHeight_mono {n n' : ℤ} (h : n ≤ n') : roundHeight n ≤ roundHeight n' := by
  rw [roundHeight, roundHeight]
  split_ifs with hn hn' hn'
  · exact Int.ofNat_le.mpr (roundUnits_mono (by omega))
  · omega
  · omega
  · have hmono : roundUnits (-n').toNat ≤ roundUnits (-n).toNat := roundUnits_mono (by omega)
    omega

/-- Assembling cuts the height. -/
theorem Canonical.height_parts_assemble {m : Nat} {e : Int} (h : Canonical m e) (s : Sign) :
    height (parts (assemble (.finite s m e h.pos))) = cut (height (.finite s m e h.pos)) := by
  have hceiling := h.units_lt_ceiling_iff
  rw [h.parts_assemble, cut]
  split_ifs with hlt <;> cases s <;> simp only [height] <;> omega

theorem roundHeight_natCast (n : ℕ) : roundHeight n = roundUnits n := by
  rw [roundHeight, if_pos (Int.natCast_nonneg n), Int.toNat_natCast]

theorem roundHeight_neg_natCast (n : ℕ) : roundHeight (-n) = -roundUnits n := by
  have hzero : roundUnits 0 = 0 := rfl
  rw [roundHeight]
  split_ifs with hn
  · obtain rfl : n = 0 := by omega
    simp [hzero]
  · rw [neg_neg, Int.toNat_natCast]

@[simp] theorem height_zero (s : Sign) : height (.zero s) = 0 := rfl

@[simp] theorem cut_zero : cut 0 = 0 := by
  rw [cut]
  omega

@[simp] theorem roundHeight_zero : roundHeight 0 = 0 := roundHeight_natCast 0

theorem natCast_units (m : ℕ) (e : Int) : (units m e : ℤ) = m * 2 ^ (e + 1074).toNat := by
  rw [units, Nat.cast_mul, Nat.cast_pow, Nat.cast_ofNat]

/-- A signed mantissa becomes a number at its rounded height. -/
theorem height_normalize (n : Int) {e : Int} (he : -1074 ≤ e) (s : Sign) :
    height (parts (assemble (UnpackedFloat.normalize .binary64 n e s))) =
      cut (roundHeight (n * 2 ^ (e + 1074).toNat)) := by
  rw [UnpackedFloat.normalize]
  cases hsign : compare n 0 with
  | lt =>
    have hneg : n < 0 := compare_lt_iff_lt.mp hsign
    obtain ⟨k, rfl⟩ : ∃ k : ℕ, n = -k := ⟨(-n).toNat, by omega⟩
    obtain ⟨m', e', h, hround, hunits⟩ := exists_round_eq .negative (by omega : 0 < k) he
    have hheight : height (.finite .negative m' e' h.pos) = -units m' e' := rfl
    simp only [neg_neg, Int.toNat_natCast]
    rw [hround, h.height_parts_assemble, hheight, hunits, neg_mul, ← natCast_units,
      roundHeight_neg_natCast]
  | eq =>
    obtain rfl := compare_eq_iff_eq.mp hsign
    simp
  | gt =>
    have hpos : 0 < n := compare_gt_iff_gt.mp hsign
    obtain ⟨k, rfl⟩ : ∃ k : ℕ, n = k := ⟨n.toNat, by omega⟩
    obtain ⟨m', e', h, hround, hunits⟩ := exists_round_eq .positive (by omega : 0 < k) he
    have hheight : height (.finite .positive m' e' h.pos) = units m' e' := rfl
    simp only [Int.toNat_natCast]
    rw [hround, h.height_parts_assemble, hheight, hunits, ← natCast_units, roundHeight_natCast]

/-- A mantissa counts the same at a lower exponent. -/
theorem apply_shiftLeft_mul (s : Sign) (m : ℕ) {e e' : Int} (hm : 0 < m) (he' : -1074 ≤ e')
    (hle : e' ≤ e) : s.apply (m <<< (e - e').toNat) * 2 ^ (e' + 1074).toNat =
      height (.finite s m e hm) := by
  have hwidth : (e + 1074).toNat = (e - e').toNat + (e' + 1074).toNat := by omega
  have hunits : ((m <<< (e - e').toNat : ℕ) : ℤ) * 2 ^ (e' + 1074).toNat = units m e := by
    rw [natCast_units, hwidth, pow_add, Nat.shiftLeft_eq]
    push_cast
    ring
  cases s with
  | negative => exact (neg_mul _ _).trans (congrArg Neg.neg hunits)
  | positive => exact hunits

/-- Rounding keeps the height of a number. -/
theorem cut_roundHeight_height {x : Float} (hx : x.isFinite = true) :
    cut (roundHeight (height (parts x))) = height (parts x) := by
  obtain ⟨s, hs⟩ | ⟨s, m, e, hm, hs⟩ := (isFinite_iff x).mp hx
  · simp [hs]
  · have h := canonical_parts hs
    have hbelow := h.units_lt_ceiling_iff.mpr (exponent_parts_lt hs)
    have hround := h.roundUnits_units
    rw [hs]
    cases s with
    | negative =>
      rw [height, roundHeight_neg_natCast, hround, cut]
      omega
    | positive =>
      rw [height, roundHeight_natCast, hround, cut]
      omega

/-- The sum of two numbers is at the rounded sum of their heights. -/
theorem height_add {x y : Float} (hx : x.isFinite = true) (hy : y.isFinite = true) :
    height (parts (x + y)) = cut (roundHeight (height (parts x) + height (parts y))) := by
  have hkeepx := cut_roundHeight_height hx
  have hkeepy := cut_roundHeight_height hy
  rw [add_eq]
  obtain ⟨s, hs⟩ | ⟨s, m, e, hm, hs⟩ := (isFinite_iff x).mp hx
  · rw [hs, height_zero, zero_add, hkeepy]
    obtain ⟨s', hs'⟩ | ⟨s', m', e', hm', hs'⟩ := (isFinite_iff y).mp hy
    · rw [hs']
      cases s <;> cases s' <;> rfl
    · have hsum : add .binary64 (.zero s) (parts y) = parts y := by rw [hs']; rfl
      rw [hsum, assemble_parts]
  · obtain ⟨s', hs'⟩ | ⟨s', m', e', hm', hs'⟩ := (isFinite_iff y).mp hy
    · have hsum : add .binary64 (parts x) (.zero s') = parts x := by rw [hs]; rfl
      rw [hs', height_zero, add_zero, hkeepx, hsum, assemble_parts]
    · have hle : -1074 ≤ min e e' :=
        le_min (canonical_parts hs).le_exponent (canonical_parts hs').le_exponent
      have hsum : add .binary64 (.finite s m e hm) (.finite s' m' e' hm') =
          UnpackedFloat.normalize .binary64 (s.apply (m <<< (e - min e e').toNat) +
            s'.apply (m' <<< (e' - min e e').toNat)) (min e e') .positive := rfl
      rw [hs, hs', hsum, height_normalize _ hle, add_mul,
        apply_shiftLeft_mul s m hm hle (min_le_left _ _),
        apply_shiftLeft_mul s' m' hm' hle (min_le_right _ _)]

/-- Of two numbers in order, one is at its end of the order or both are finite. -/
theorem infinite_or_finite_of_le {x y : Float} (h : x ≤ y) :
    parts x = .infinity .negative ∨ parts y = .infinity .positive ∨
      x.isFinite = true ∧ y.isFinite = true := by
  obtain ⟨hx, hy, hkey⟩ := (le_iff x y).mp h
  cases hfinitex : x.isFinite with
  | false =>
    obtain ⟨s, hs⟩ := exists_infinity hx hfinitex
    rw [hs] at hkey
    cases s with
    | negative => exact Or.inl hs
    | positive =>
      exact Or.inr (Or.inl (eq_infinity_of_key_eq ((defined_parts hy).key_le.antisymm hkey)))
  | true =>
    cases hfinitey : y.isFinite with
    | false =>
      obtain ⟨s, hs⟩ := exists_infinity hy hfinitey
      rw [hs] at hkey
      cases s with
      | negative =>
        exact Or.inl (eq_infinity_of_key_eq (hkey.antisymm (key_negative_infinity_le _)))
      | positive => exact Or.inr (Or.inl hs)
    | true => exact Or.inr (Or.inr ⟨rfl, rfl⟩)

/-- Adding to a finite number keeps the order, also where a sum overflows or the
other terms are infinite. -/
theorem add_le_add_left {x y z : Float} (hx : x.isFinite = true) (h : y ≤ z) :
    x + y ≤ x + z := by
  obtain ⟨hy, hz, -⟩ := (le_iff y z).mp h
  have hxy := isNaN_add hx hy
  have hxz := isNaN_add hx hz
  rcases infinite_or_finite_of_le h with hs | hs | ⟨hfinitey, hfinitez⟩
  · rw [add_eq_right_of_infinite hx hs, le_iff, hs]
    exact ⟨rfl, hxz, key_negative_infinity_le _⟩
  · rw [add_eq_right_of_infinite hx hs, le_iff, hs]
    exact ⟨hxy, rfl, (defined_parts hxy).key_le⟩
  · have hheight := (le_iff_height_le hy hz).mp h
    rw [le_iff_height_le hxy hxz, height_add hx hfinitey, height_add hx hfinitez]
    exact cut_mono (roundHeight_mono (Int.add_le_add_left hheight _))

/-! ## Comparisons in a row -/

theorem lt_of_le_of_lt {x y z : Float} (hxy : x ≤ y) (hyz : y < z) : x < z := by
  obtain ⟨hx, -, hle⟩ := (le_iff x y).mp hxy
  obtain ⟨-, hz, hlt⟩ := (lt_iff y z).mp hyz
  exact (lt_iff x z).mpr ⟨hx, hz, hle.trans_lt hlt⟩

theorem lt_of_lt_of_le {x y z : Float} (hxy : x < y) (hyz : y ≤ z) : x < z := by
  obtain ⟨hx, -, hlt⟩ := (lt_iff x y).mp hxy
  obtain ⟨-, hz, hle⟩ := (le_iff y z).mp hyz
  exact (lt_iff x z).mpr ⟨hx, hz, hlt.trans_le hle⟩

end LinearProgramming.Binary64
