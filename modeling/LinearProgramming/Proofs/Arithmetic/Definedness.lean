import LinearProgramming.Proofs.Arithmetic.Binary64

/-!
Which results are defined. Rounding and assembling never lose a defined value: what
is too large becomes an infinity. A sum or a difference is undefined only if an
operand is, or if it would take an infinity from itself. A comparison that comes
out true has defined operands, and with them the operands of their sums.
-/

namespace LinearProgramming.Binary64

open Float.Model (Format UnpackedFloat totalExponent)
open Float.Model.UnpackedFloat

/-- What a defined number can be. -/
inductive Defined : UnpackedFloat → Prop
  | infinity (s : Sign) : Defined (.infinity s)
  | zero (s : Sign) : Defined (.zero s)
  | finite (s : Sign) {m : Nat} {e : Int} (h : Canonical m e) (hlt : e < 972) :
      Defined (.finite s m e h.pos)

theorem defined_parts {x : Float} (hx : x.isNaN = false) : Defined (parts x) := by
  rw [isNaN_eq] at hx
  cases h : parts x with
  | notANumber =>
    rw [h] at hx
    cases hx
  | infinity s => exact .infinity s
  | zero s => exact .zero s
  | finite s m e hm => exact .finite s (canonical_parts h) (exponent_parts_lt h)

theorem Defined.parts_assemble {u : UnpackedFloat} (h : Defined u) : parts (assemble u) = u := by
  cases h with
  | infinity s => exact parts_assemble_infinity s
  | zero s => exact parts_assemble_zero s
  | finite s h hlt => rw [h.parts_assemble, if_pos hlt]

theorem Defined.neg {u : UnpackedFloat} (h : Defined u) : Defined (neg u) := by
  cases h with
  | infinity s => exact .infinity _
  | zero s => exact .zero _
  | finite s h hlt => exact .finite _ h hlt

/-! ## Operations -/

theorem isNaN_assemble (u : UnpackedFloat) : (assemble u).isNaN = u.isNaN := by
  rw [isNaN_eq]
  cases u with
  | finite s m e hm =>
    cases h : parts (assemble (.finite s m e hm)) with
    | notANumber => exact absurd h (parts_assemble_finite_ne s m e hm)
    | _ => rfl
  | _ => simp [isNaN]

theorem isNaN_neg (x : Float) : (-x).isNaN = x.isNaN := by
  rw [neg_eq, isNaN_assemble, isNaN_eq]
  cases parts x <;> rfl

theorem isNaN_roundWithAccuracy (s : Sign) (m : Nat) (e : Int) (accuracy : Accuracy) :
    (roundWithAccuracy .binary64 s m e accuracy).isNaN = false := by
  simp only [roundWithAccuracy]
  split <;> rfl

theorem isNaN_normalize (m e : Int) (s : Sign) :
    (UnpackedFloat.normalize .binary64 m e s).isNaN = false := by
  rw [UnpackedFloat.normalize]
  split
  · exact isNaN_roundWithAccuracy _ _ _ _
  · rfl
  · exact isNaN_roundWithAccuracy _ _ _ _

/-- What is added to a finite number may make it overflow, but leaves it
defined. -/
theorem isNaN_add {x y : Float} (hx : x.isFinite = true) (hy : y.isNaN = false) :
    (x + y).isNaN = false := by
  have hdefined := defined_parts hy
  rw [add_eq, isNaN_assemble]
  generalize parts y = v at hdefined ⊢
  obtain ⟨s, hs⟩ | ⟨s, m, e, hm, hs⟩ := (isFinite_iff x).mp hx
  · rw [hs]
    cases hdefined with
    | zero s' => cases s <;> cases s' <;> rfl
    | _ => rfl
  · rw [hs]
    cases hdefined with
    | finite s' h hlt => exact isNaN_normalize _ _ _
    | _ => rfl

/-- A difference of defined numbers is undefined only if both are the same
infinity. -/
theorem isNaN_sub {x y : Float} (hx : x.isNaN = false) (hy : y.isNaN = false)
    (h : ∀ s, parts x = .infinity s → parts y ≠ .infinity s) : (x - y).isNaN = false := by
  have hleft := defined_parts hx
  have hright := defined_parts hy
  rw [sub_eq, isNaN_assemble]
  generalize parts x = u at hleft h ⊢
  generalize parts y = v at hright h ⊢
  cases hleft with
  | infinity s =>
    have hne := h s rfl
    cases hright with
    | infinity s' => cases s <;> cases s' <;> first | rfl | exact absurd rfl hne
    | _ => rfl
  | zero s =>
    cases hright with
    | zero s' => cases s <;> cases s' <;> rfl
    | _ => rfl
  | finite s hcanonical hlt =>
    cases hright with
    | finite s' hcanonical' hlt' => exact isNaN_normalize _ _ _
    | _ => rfl

/-- A defined sum has defined terms. -/
theorem isNaN_of_isNaN_add {x y : Float} (h : (x + y).isNaN = false) :
    x.isNaN = false ∧ y.isNaN = false := by
  rw [add_eq, isNaN_assemble] at h
  rw [isNaN_eq, isNaN_eq]
  cases hx : parts x with
  | notANumber =>
    rw [hx] at h
    cases h
  | _ =>
    cases hy : parts y with
    | notANumber =>
      rw [hx, hy] at h
      cases h
    | _ => exact ⟨rfl, rfl⟩

/-! ## Infinite numbers -/

/-- Negative infinity is below everything. -/
theorem key_negative_infinity_le (u : UnpackedFloat) : key (.infinity .negative) ≤ key u := by
  cases u with
  | notANumber => decide
  | infinity s => cases s <;> decide
  | zero s => exact Prod.Lex.toLex_le_toLex.mpr (Or.inl (by norm_num))
  | finite s m e hm =>
    cases s <;> exact Prod.Lex.toLex_le_toLex.mpr (Or.inl (by norm_num))

/-- Positive infinity is above everything that is defined. -/
theorem Defined.key_le {u : UnpackedFloat} (hu : Defined u) :
    key u ≤ key (.infinity .positive) := by
  cases hu with
  | infinity s => cases s <;> decide
  | zero s => exact Prod.Lex.toLex_le_toLex.mpr (Or.inl (by norm_num))
  | finite s h hlt => cases s <;> exact Prod.Lex.toLex_le_toLex.mpr (Or.inl (by norm_num))

/-- An infinity has its place in the order to itself. -/
theorem eq_infinity_of_key_eq {u : UnpackedFloat} {s : Sign} (h : key u = key (.infinity s)) :
    u = .infinity s := by
  have hlevel := congrArg (fun k => (ofLex k).1) h
  cases u with
  | infinity s' => cases s <;> cases s' <;> first | rfl | cases hlevel
  | finite s' m e hm => cases s <;> cases s' <;> cases hlevel
  | _ => cases s <;> cases hlevel

theorem eq_assemble_infinity {x : Float} {s : Sign} (hx : parts x = .infinity s) :
    x = assemble (.infinity s) := by
  rw [← hx, assemble_parts]

theorem exists_infinity {x : Float} (hx : x.isNaN = false) (hfinite : x.isFinite = false) :
    ∃ s, parts x = .infinity s := by
  obtain hs | hs := (isFinite_eq_false_iff x).mp hfinite
  · exact hs
  · rw [isNaN_eq, hs] at hx
    cases hx

/-- A defined sum with an infinite term is that term. -/
theorem add_eq_left_of_infinite {x y : Float} {s : Sign} (hx : parts x = .infinity s)
    (h : (x + y).isNaN = false) : x + y = x := by
  have hdefined := defined_parts (isNaN_of_isNaN_add h).2
  rw [add_eq, isNaN_assemble, hx] at h
  rw [add_eq, hx, eq_assemble_infinity hx]
  generalize parts y = v at hdefined h ⊢
  cases hdefined with
  | infinity s' => cases s <;> cases s' <;> first | rfl | cases h
  | _ => rfl

theorem add_eq_right_of_infinite {x y : Float} {s : Sign} (hx : x.isFinite = true)
    (hy : parts y = .infinity s) : x + y = y := by
  rw [add_eq, hy, eq_assemble_infinity hy]
  obtain ⟨s', hs⟩ | ⟨s', m, e, hm, hs⟩ := (isFinite_iff x).mp hx
  · rw [hs]
    rfl
  · rw [hs]
    rfl

/-- What exceeds a limit, as a comparison with a tolerance shows it, exceeds it
by a defined amount. Two equal infinities do not pass the comparison. -/
theorem isNaN_sub_of_add_lt {limit tolerance actual : Float} (h : limit + tolerance < actual) :
    (actual - limit).isNaN = false := by
  obtain ⟨hsum, hactual, hkey⟩ := (lt_iff _ _).mp h
  apply isNaN_sub hactual (isNaN_of_isNaN_add hsum).1
  intro s hinfinite hlimit
  rw [add_eq_left_of_infinite hlimit hsum, hlimit, hinfinite] at hkey
  exact lt_irrefl _ hkey

end LinearProgramming.Binary64
