import LinearProgramming.Decimal.Shortest
import LinearProgramming.Proofs.Arithmetic.Nearest

/-!
The shortest decimal of a number lies between the midpoints around it. The search
only returns multiples of a power of ten that do, as comparing on a common scale is
comparing the rationals themselves. It returns one, because the finest grid that is
looked at has its points closer together than the midpoints are to the number.
-/

namespace LinearProgramming.Decimal

open Binary64 (Canonical Covers)

/-- The rational number that a decimal stands for. -/
def value (d : Decimal) : ℚ := d.coefficient * 10 ^ d.exponent

namespace Neighbourhood

/-! ## The common scale -/

theorem pow_toNat {base : ℚ} (hbase : base ≠ 0) (e : ℤ) :
    base ^ e.toNat = base ^ e * base ^ (-e).toNat := by
  rw [← zpow_natCast, ← zpow_natCast, ← zpow_add₀ hbase]
  congr 1
  omega

/-- Both units are scaled by the same factor. -/
theorem exists_scale (v : Neighbourhood) (e : ℤ) : ∃ factor : ℚ, 0 < factor ∧
    (v.decimalUnit e : ℚ) = 10 ^ e * factor ∧ (v.binaryUnit e : ℚ) = 2 ^ v.exponent * factor := by
  refine ⟨10 ^ (-e).toNat * 2 ^ (-v.exponent).toNat, by positivity, ?_, ?_⟩
  · change ((10 ^ e.toNat * 2 ^ (-v.exponent).toNat : ℕ) : ℚ) = _
    push_cast
    rw [pow_toNat (by norm_num) e]
    ring
  · change ((2 ^ v.exponent.toNat * 10 ^ (-e).toNat : ℕ) : ℚ) = _
    push_cast
    rw [pow_toNat (by norm_num) v.exponent]
    ring

theorem le_iff (v : Neighbourhood) (e : ℤ) (quarters d : ℕ) :
    quarters * v.binaryUnit e ≤ d * v.decimalUnit e ↔
      (quarters : ℚ) * 2 ^ v.exponent ≤ d * 10 ^ e := by
  obtain ⟨factor, hpos, hdecimal, hbinary⟩ := v.exists_scale e
  rw [← Nat.cast_le (α := ℚ), Nat.cast_mul, Nat.cast_mul, hdecimal, hbinary, ← mul_assoc,
    ← mul_assoc, mul_le_mul_iff_left₀ hpos]

theorem ge_iff (v : Neighbourhood) (e : ℤ) (quarters d : ℕ) :
    d * v.decimalUnit e ≤ quarters * v.binaryUnit e ↔
      (d : ℚ) * 10 ^ e ≤ quarters * 2 ^ v.exponent := by
  obtain ⟨factor, hpos, hdecimal, hbinary⟩ := v.exists_scale e
  rw [← Nat.cast_le (α := ℚ), Nat.cast_mul, Nat.cast_mul, hdecimal, hbinary, ← mul_assoc,
    ← mul_assoc, mul_le_mul_iff_left₀ hpos]

theorem contains_iff (v : Neighbourhood) (e : ℤ) (d : ℕ) :
    v.contains e d = true ↔ Covers v (d * 10 ^ e) := by
  rw [contains, Covers]
  cases v.closed
  · simp only [Bool.false_eq_true, if_false, decide_eq_true_iff, ← not_le, v.le_iff, v.ge_iff]
  · simp only [if_true, decide_eq_true_iff, v.le_iff, v.ge_iff]

/-! ## The search on one grid -/

/-- What is found on a grid lies between the midpoints. -/
theorem contains_of_nearest? {v : Neighbourhood} {tie : Tie} {e : ℤ} {d : ℕ}
    (h : v.nearest? tie e = some d) : v.contains e d = true := by
  simp only [nearest?] at h
  split at h
  · cases h
  · rename_i hfloor _
    obtain rfl := Option.some.inj h
    exact hfloor
  · rename_i _ hnext
    obtain rfl := Option.some.inj h
    exact hnext
  · rename_i hfloor hnext
    have hchoice (lower : ℕ) : tie.choose lower = lower ∨ tie.choose lower = lower + 1 := by
      cases tie
      · exact Or.inr rfl
      · simp only [Tie.choose]
        split_ifs
        · exact Or.inl rfl
        · exact Or.inr rfl
    split_ifs at h
    · obtain rfl := Option.some.inj h
      exact hfloor
    · obtain rfl := Option.some.inj h
      exact hnext
    · obtain rfl := Option.some.inj h
      rcases hchoice (v.centre * v.binaryUnit e / v.decimalUnit e) with hpick | hpick
      · rw [hpick]
        exact hfloor
      · rw [hpick]
        exact hnext

theorem nearest?_isSome {v : Neighbourhood} {e : ℤ} (tie : Tie)
    (h : v.contains e (v.centre * v.binaryUnit e / v.decimalUnit e) = true) :
    (v.nearest? tie e).isSome = true := by
  simp only [nearest?, h]
  split
  · rename_i hfloor _
    cases hfloor
  · rfl
  · rfl
  · split_ifs <;> rfl

theorem decimalUnit_pos (v : Neighbourhood) (e : ℤ) : 0 < v.decimalUnit e :=
  Nat.mul_pos (Nat.pow_pos (by decide)) (Nat.pow_pos (by decide))

/-- A grid whose points are at most a quarter apart has one between the midpoints. -/
theorem contains_floor {m : ℕ} {q e : ℤ} (hm : 0 < m) (hfine : (10 : ℚ) ^ e ≤ 2 ^ (q - 2)) :
    (neighbourhood m q).contains e ((neighbourhood m q).centre *
      (neighbourhood m q).binaryUnit e / (neighbourhood m q).decimalUnit e) = true := by
  obtain ⟨v, hv⟩ : ∃ v, v = neighbourhood m q := ⟨_, rfl⟩
  obtain ⟨floor, hfloor⟩ : ∃ floor, floor = v.centre * v.binaryUnit e / v.decimalUnit e :=
    ⟨_, rfl⟩
  have hbelow : (floor : ℚ) * 10 ^ e ≤ v.centre * 2 ^ v.exponent := by
    rw [← v.ge_iff, hfloor]
    exact Nat.div_mul_le_self _ _
  have habove : (v.centre : ℚ) * 2 ^ v.exponent < (floor + 1) * 10 ^ e := by
    have hnext : v.centre * v.binaryUnit e < (floor + 1) * v.decimalUnit e := by
      rw [hfloor]
      exact (Nat.div_lt_iff_lt_mul (v.decimalUnit_pos e)).mp (Nat.lt_succ_self _)
    have hother := mt (v.ge_iff e v.centre (floor + 1)).mpr (not_le.mpr hnext)
    push_cast at hother
    exact not_le.mp hother
  have hexponent : v.exponent = q - 2 := by rw [hv]; rfl
  have hcentre : (v.centre : ℚ) = 4 * m := by
    rw [hv]
    exact Nat.cast_mul 4 m
  have hlower : (v.lower : ℚ) ≤ 4 * m - 1 := by
    have hquarters := Binary64.lower_eq m q
    rw [← hv] at hquarters
    have hleast : v.lower + 1 ≤ 4 * m := by split_ifs at hquarters <;> omega
    have hleast' : (v.lower : ℚ) + 1 ≤ 4 * m := mod_cast hleast
    linarith
  have hupper : (v.upper : ℚ) = 4 * m + 2 := by
    rw [hv]
    exact Binary64.upper_eq m q
  have hquarter : (0 : ℚ) < 2 ^ (q - 2) := by positivity
  rw [hexponent, hcentre] at hbelow habove
  rw [← hv, ← hfloor, contains_iff]
  apply Binary64.covers_of_lt
  · rw [hexponent]
    nlinarith
  · rw [hexponent, hupper]
    nlinarith

/-! ## The grids -/

/-- The factor of the search is above the logarithm by little enough. -/
theorem coarsest_le {m : ℕ} {q : ℤ} (h : Canonical m q) :
    100000 * ((neighbourhood m q).coarsest - 19) ≤ 30103 * (q - 2) - 144335 := by
  have hlog : m.log2 < 53 := (Nat.log2_lt h.pos.ne').mpr h.lt
  have hcentre : (4 * m).log2 = m.log2 + 2 := by
    rw [mul_comm]
    exact Binary64.log2_mul_two_pow h.pos.ne' 2
  have hcoarsest : (neighbourhood m q).coarsest =
      ((((4 * m).log2 : ℤ) + (q - 2) + 1) * 30103).fdiv 100000 + 1 := rfl
  rw [hcoarsest, hcentre, Int.fdiv_eq_ediv_of_nonneg _ (by norm_num)]
  omega

/-- The finest grid that is looked at has its points at most a quarter apart. -/
theorem finest_le {m : ℕ} {q : ℤ} (h : Canonical m q) (hq : q < 972) :
    (10 : ℚ) ^ ((neighbourhood m q).coarsest - 19) ≤ 2 ^ (q - 2) := by
  have hbound := coarsest_le h
  have hleast := h.le_exponent
  generalize (neighbourhood m q).coarsest - 19 = e at hbound ⊢
  rcases le_total 0 (q - 2) with hlarge | hsmall
  · -- above one, `10 ^ 3` is a little less than `2 ^ 10`
    obtain ⟨k, hk⟩ : ∃ k : ℕ, q - 2 = k := ⟨(q - 2).toNat, by omega⟩
    rw [hk]
    refine (pow_le_pow_iff_left₀ (by positivity) (by positivity) (by norm_num : 10 ≠ 0)).mp ?_
    calc ((10 : ℚ) ^ e) ^ 10 = 10 ^ (e * (10 : ℕ)) := by rw [← zpow_natCast, ← zpow_mul]
      _ ≤ 10 ^ ((3 * k : ℕ) : ℤ) := zpow_le_zpow_right₀ (by norm_num) (by push_cast; omega)
      _ = (10 ^ 3) ^ k := by rw [zpow_natCast, pow_mul]
      _ ≤ (2 ^ 10) ^ k := pow_le_pow_left₀ (by norm_num) (by norm_num) k
      _ = ((2 : ℚ) ^ (k : ℤ)) ^ 10 := by rw [zpow_natCast, pow_right_comm]
  · -- below one, `10 ^ 28` is a little more than `2 ^ 93`
    obtain ⟨k, hk⟩ : ∃ k : ℕ, q - 2 = -k := ⟨(2 - q).toNat, by omega⟩
    rw [hk]
    refine (pow_le_pow_iff_left₀ (by positivity) (by positivity) (by norm_num : 93 ≠ 0)).mp ?_
    calc ((10 : ℚ) ^ e) ^ 93 = 10 ^ (e * (93 : ℕ)) := by rw [← zpow_natCast, ← zpow_mul]
      _ ≤ 10 ^ (-(28 * k : ℕ) : ℤ) := zpow_le_zpow_right₀ (by norm_num) (by push_cast; omega)
      _ = ((10 ^ 28) ^ k)⁻¹ := by rw [zpow_neg, zpow_natCast, pow_mul]
      _ ≤ ((2 ^ 93) ^ k)⁻¹ :=
        inv_anti₀ (by positivity) (pow_le_pow_left₀ (by norm_num) (by norm_num) k)
      _ = ((2 : ℚ) ^ (-(k : ℤ))) ^ 93 := by
        rw [zpow_neg, zpow_natCast, inv_pow, pow_right_comm]

end Neighbourhood

/-- The shortest decimal reads back as its number. -/
theorem covers_shortest {m : ℕ} {q : ℤ} (h : Canonical m q) (hq : q < 972) (tie : Tie) :
    Covers (neighbourhood m q) (shortest tie m q).value := by
  obtain ⟨v, hv⟩ : ∃ v, v = neighbourhood m q := ⟨_, rfl⟩
  obtain ⟨search, hsearch⟩ : ∃ search : ℤ → Option Decimal,
      search = fun e => (v.nearest? tie e).map (⟨·, e⟩) := ⟨_, rfl⟩
  have hfound : (v.grids.findSome? search).isSome = true := by
    rw [List.findSome?_isSome_iff]
    refine ⟨v.coarsest - 19, List.mem_map.mpr ⟨19, by decide, rfl⟩, ?_⟩
    have hcontains := Neighbourhood.contains_floor h.pos (Neighbourhood.finest_le h hq)
    rw [← hv] at hcontains
    rw [hsearch, Option.isSome_map]
    exact Neighbourhood.nearest?_isSome tie hcontains
  obtain ⟨d, hd⟩ := Option.isSome_iff_exists.mp hfound
  have hshortest : shortest tie m q = d := by
    rw [shortest, if_neg h.pos.ne']
    simp only [← hv, ← hsearch, hd, Option.getD_some]
  obtain ⟨e, -, he⟩ := List.exists_of_findSome?_eq_some hd
  rw [hsearch, Option.map_eq_some_iff] at he
  obtain ⟨c, hc, rfl⟩ := he
  rw [hshortest, ← hv]
  exact (v.contains_iff e c).mp (Neighbourhood.contains_of_nearest? hc)

end LinearProgramming.Decimal
