import LinearProgramming.Proofs.Tableau.Runs
import Mathlib.Data.List.Nodup

/-!
The column of a basic variable is a unit column: one in the variable's own row
and zero in all others, the objective row included. Rounded arithmetic keeps
this up to undefined values, since an elimination divides a number by itself
and subtracts a number from itself, and neither is rounded.

It follows that no two rows have the same basic variable, that the selection
rules never choose a basic column, and that the basic solution gives every
variable the value of its own row.
-/

namespace LinearProgramming

open Scalar (ZeroOrNaN OneOrNaN)

variable {α : Type} [Scalar α] [Scalar.Lawful α]

namespace Row

/-- An elimination clears its column. -/
theorem zeroOrNaN_eliminate_self {r pivotRow : Row α} {column : Nat}
    (hlength : pivotRow.coeffs.length = r.coeffs.length) (hcolumn : column < r.coeffs.length)
    (hone : pivotRow.entry column = 1) :
    ZeroOrNaN ((r.eliminate column pivotRow).entry column) := by
  cases hfactor : r.entry column == 0 with
  | true =>
    rw [eliminate_of_zero pivotRow hfactor]
    exact Or.inl hfactor
  | false =>
    rw [entry_eliminate hfactor hlength hcolumn, hone]
    exact Scalar.zeroOrNaN_sub_mul_one _

/-- An elimination leaves alone what is zero in both rows. -/
theorem zeroOrNaN_eliminate {r pivotRow : Row α} (column : Nat) {j : Nat}
    (hlength : pivotRow.coeffs.length = r.coeffs.length) (hj : j < r.coeffs.length)
    (hzero : ZeroOrNaN (r.entry j)) (hpivot : ZeroOrNaN (pivotRow.entry j)) :
    ZeroOrNaN ((r.eliminate column pivotRow).entry j) := by
  cases hfactor : r.entry column == 0 with
  | true =>
    rw [eliminate_of_zero pivotRow hfactor]
    exact hzero
  | false =>
    rw [entry_eliminate hfactor hlength hj]
    exact hzero.sub (hpivot.mul _)

theorem oneOrNaN_eliminate {r pivotRow : Row α} (column : Nat) {j : Nat}
    (hlength : pivotRow.coeffs.length = r.coeffs.length) (hj : j < r.coeffs.length)
    (hone : OneOrNaN (r.entry j)) (hpivot : ZeroOrNaN (pivotRow.entry j)) :
    OneOrNaN ((r.eliminate column pivotRow).entry j) := by
  cases hfactor : r.entry column == 0 with
  | true =>
    rw [eliminate_of_zero pivotRow hfactor]
    exact hone
  | false =>
    rw [entry_eliminate hfactor hlength hj]
    exact hone.sub (hpivot.mul _)

end Row

namespace Tableau

/-- Every basic variable belongs to one row and has a unit column. -/
structure HasUnitColumns (t : Tableau α) : Prop where
  basic_injective : ∀ {i j : Nat} {e f : Equation α}, t.equations[i]? = some e →
    t.equations[j]? = some f → e.basic = f.basic → i = j
  one : ∀ {i : Nat} {e : Equation α}, t.equations[i]? = some e → OneOrNaN (e.row.entry e.basic)
  zero : ∀ {i j : Nat} {e f : Equation α}, t.equations[i]? = some e → t.equations[j]? = some f →
    i ≠ j → ZeroOrNaN (e.row.entry f.basic)
  reduced_cost : ∀ e ∈ t.equations, ZeroOrNaN (t.objective.entry e.basic)

/-- A basic column of another row is no place for a pivot. -/
theorem HasUnitColumns.basic_ne_of_pivotsAt {t : Tableau α} (h : t.HasUnitColumns)
    {row column : Nat} {e : Equation α} (hplace : t.PivotsAt row column e) {i : Nat}
    {f : Equation α} (hi : t.equations[i]? = some f) : f.basic ≠ column := by
  intro hbasic
  by_cases hrow : row = i
  · subst hrow
    cases hplace.equation.symm.trans hi
    exact hplace.basic_ne hbasic
  · have hzero := h.zero hplace.equation hi hrow
    rw [hbasic] at hzero
    rcases hzero.not_pivot with hvalue | hvalue
    · rw [hplace.nonzero] at hvalue
      cases hvalue
    · rw [hplace.finite] at hvalue
      cases hvalue

/-- Unit columns survive a pivot, wherever it is made. -/
theorem HasUnitColumns.pivot {t after : Tableau α} {n m row column : Nat}
    (hshape : t.HasShape n m) (h : t.HasUnitColumns) (hpivot : t.pivot row column = .ok after) :
    after.HasUnitColumns := by
  obtain ⟨e, hplace, rfl⟩ := pivot_eq_ok_iff.mp hpivot
  have hlength : ∀ {i : Nat} {f : Equation α}, t.equations[i]? = some f →
      f.row.coeffs.length = n + m :=
    fun hi => hshape.length_coeffs _ (List.mem_of_getElem? hi)
  have hbasic : ∀ (i : Nat) (f : Equation α), t.equations[i]? = some f → f.basic < n + m :=
    fun _ _ hi => hshape.basic_lt _ (List.mem_of_getElem? hi)
  have hcolumn : column < n + m := hshape.width ▸ hplace.column_lt
  have hne : ∀ (i : Nat) (f : Equation α), t.equations[i]? = some f → f.basic ≠ column :=
    fun _ _ hi => h.basic_ne_of_pivotsAt hplace hi
  -- The pivot row is one in its column and zero in the basic columns of the others.
  have hpivotLength : (e.row.divide (e.row.entry column)).coeffs.length = n + m := by
    rw [Row.length_divide, hlength hplace.equation]
  have hpivotOne : (e.row.divide (e.row.entry column)).entry column = 1 := by
    rw [Row.entry_divide _ _ (hlength hplace.equation ▸ hcolumn)]
    exact Scalar.Lawful.div_self hplace.finite hplace.nonzero
  have hpivotZero : ∀ (i : Nat) (f : Equation α), t.equations[i]? = some f → i ≠ row →
      ZeroOrNaN ((e.row.divide (e.row.entry column)).entry f.basic) := by
    intro i f hi hrow
    rw [Row.entry_divide _ _ (hlength hplace.equation ▸ hbasic i f hi)]
    exact (h.zero hplace.equation hi hrow.symm).div hplace.finite hplace.nonzero
  generalize e.row.divide (e.row.entry column) = pivotRow at hpivotLength hpivotOne hpivotZero ⊢
  constructor
  case basic_injective =>
    intro i j f g hi hj heq
    rcases exchange_cases hi with ⟨hrow, rfl⟩ | ⟨hrow, old, hold, rfl⟩
    · rcases exchange_cases hj with ⟨hrow', rfl⟩ | ⟨hrow', old', hold', rfl⟩
      · rw [hrow, hrow']
      · exact absurd heq.symm (hne j old' hold')
    · rcases exchange_cases hj with ⟨hrow', rfl⟩ | ⟨hrow', old', hold', rfl⟩
      · exact absurd heq (hne i old hold)
      · exact h.basic_injective hold hold' heq
  case one =>
    intro i f hi
    rcases exchange_cases hi with ⟨-, rfl⟩ | ⟨hrow, old, hold, rfl⟩
    · exact Or.inl hpivotOne
    · exact Row.oneOrNaN_eliminate column (hpivotLength.trans (hlength hold).symm)
        (hlength hold ▸ hbasic i old hold) (h.one hold) (hpivotZero i old hold hrow)
  case zero =>
    intro i j f g hi hj hij
    rcases exchange_cases hi with ⟨hrow, rfl⟩ | ⟨hrow, old, hold, rfl⟩
    · rcases exchange_cases hj with ⟨hrow', rfl⟩ | ⟨hrow', old', hold', rfl⟩
      · exact absurd (hrow.trans hrow'.symm) hij
      · exact hpivotZero j old' hold' hrow'
    · rcases exchange_cases hj with ⟨hrow', rfl⟩ | ⟨hrow', old', hold', rfl⟩
      · exact Row.zeroOrNaN_eliminate_self (hpivotLength.trans (hlength hold).symm)
          (hlength hold ▸ hcolumn) hpivotOne
      · have hzero : ZeroOrNaN (old.row.entry old'.basic) := h.zero hold hold' hij
        exact Row.zeroOrNaN_eliminate column (hpivotLength.trans (hlength hold).symm)
          (hlength hold ▸ hbasic j old' hold') hzero (hpivotZero j old' hold' hrow')
  case reduced_cost =>
    intro f hf
    obtain ⟨i, hi⟩ := List.mem_iff_getElem?.mp hf
    rcases exchange_cases hi with ⟨-, rfl⟩ | ⟨hrow, old, hold, rfl⟩
    · exact Row.zeroOrNaN_eliminate_self (hpivotLength.trans hshape.length_costs.symm)
        (hshape.length_costs ▸ hcolumn) hpivotOne
    · exact Row.zeroOrNaN_eliminate column (hpivotLength.trans hshape.length_costs.symm)
        (hshape.length_costs ▸ hbasic i old hold) (h.reduced_cost old (List.mem_of_getElem? hold))
        (hpivotZero i old hold hrow)

omit [Scalar.Lawful α] in
/-- A slack has a unit column at the start. -/
theorem initial_entry_slack {p : Problem α} (h : p.IsCanonical) {i j : Nat} {e f : Equation α}
    (hi : (initial p).equations[i]? = some e) (hj : (initial p).equations[j]? = some f) :
    e.row.entry f.basic = if i = j then 1 else 0 := by
  obtain ⟨row, limit, hrow, -, rfl⟩ := initial_getElem?_eq_some_iff.mp hi
  obtain ⟨row', limit', -, hlimit', rfl⟩ := initial_getElem?_eq_some_iff.mp hj
  have hj' : j < p.numConstraints := (List.getElem?_eq_some_iff.mp hlimit').1
  have hlength := h.length_row row (List.mem_of_getElem? hrow)
  dsimp only
  rw [Row.entry, List.getD_append_right _ _ _ _ (by omega), hlength, Nat.add_sub_cancel_left,
    getD_slackCoeffs i hj']

theorem initial_hasUnitColumns {p : Problem α} (h : p.IsCanonical) :
    (initial p).HasUnitColumns := by
  constructor
  case basic_injective =>
    intro i j e f hi hj hbasic
    obtain ⟨_, _, -, -, rfl⟩ := initial_getElem?_eq_some_iff.mp hi
    obtain ⟨_, _, -, -, rfl⟩ := initial_getElem?_eq_some_iff.mp hj
    exact Nat.add_left_cancel hbasic
  case one =>
    intro i e hi
    rw [initial_entry_slack h hi hi, if_pos rfl]
    exact Or.inl rfl
  case zero =>
    intro i j e f hi hj hij
    rw [initial_entry_slack h hi hj, if_neg hij]
    exact Or.inl Scalar.Lawful.zero_beq_zero
  case reduced_cost =>
    intro e he
    obtain ⟨i, hi⟩ := List.mem_iff_getElem?.mp he
    obtain ⟨_, limit, -, hlimit, rfl⟩ := initial_getElem?_eq_some_iff.mp hi
    have hi' : i < p.numConstraints := (List.getElem?_eq_some_iff.mp hlimit).1
    have hcost : (initial p).objective.entry (p.numVariables + i) = 0 := by
      rw [Row.entry, initial, List.getD_append_right _ _ _ _ (by simp [Problem.numVariables])]
      simp [Problem.numVariables, hi']
    rw [hcost]
    exact Or.inl Scalar.Lawful.zero_beq_zero

theorem HasUnitColumns.reaches {t u : Tableau α} {n m : Nat} (hshape : t.HasShape n m)
    (h : t.HasUnitColumns) (hreaches : t.Reaches u) : u.HasUnitColumns := by
  induction hreaches with
  | refl => exact h
  | pivot hreaches hpivot ih => exact ih.pivot (hshape.reaches hreaches) hpivot

omit [Scalar.Lawful α] in
theorem HasUnitColumns.nodup_basis {t : Tableau α} (h : t.HasUnitColumns) : t.basis.Nodup := by
  rw [List.nodup_iff_getElem?_ne_getElem?]
  intro i j hij hj heq
  simp only [basis, List.length_map] at hj
  simp only [basis, List.getElem?_map, List.getElem?_eq_getElem (hij.trans hj),
    List.getElem?_eq_getElem hj, Option.map_some, Option.some.injEq] at heq
  exact hij.ne (h.basic_injective (List.getElem?_eq_getElem (hij.trans hj))
    (List.getElem?_eq_getElem hj) heq)

/-! ## The selection rules -/

/-- A basic variable has no negative reduced cost, so it does not enter. -/
theorem HasUnitColumns.basic_ne_of_enters {t : Tableau α} (h : t.HasUnitColumns) {column : Nat}
    (hcolumn : t.enteringColumn? = some column) : ∀ e ∈ t.equations, e.basic ≠ column := by
  intro e he hbasic
  have hnegative := (enteringColumn?_eq_some hcolumn).2
  rw [← hbasic] at hnegative
  exact (h.reduced_cost e he).not_lt_zero hnegative

/-- The chosen place is in range and not basic. A pivot there can only fail
because its entry, which is positive, is not finite. -/
theorem HasUnitColumns.of_failed {t : Tableau α} {n m : Nat} (hshape : t.HasShape n m)
    (h : t.HasUnitColumns) {error : PivotError α} (hends : t.EndsAt (.failed error)) :
    ∃ row column value, error = .zeroPivot row column value ∧ 0 < value ∧
      Scalar.isFinite value = false := by
  cases hends with
  | @failed row column _ hcolumn hrow hpivot =>
    obtain ⟨e, he, hpositive, -⟩ := leavingRow?_eq_some hrow
    have hinside : ¬t.width ≤ column := by
      rw [hshape.width, ← hshape.length_costs, Nat.not_le]
      exact (enteringColumn?_eq_some hcolumn).1
    have hbasic : e.basic ≠ column :=
      h.basic_ne_of_enters hcolumn e (List.mem_of_getElem? he)
    have hnonzero : (e.row.entry column == 0) = false := by
      rw [← Bool.not_eq_true]
      exact fun hzero => Scalar.Lawful.not_zero_lt hzero hpositive
    simp only [Tableau.pivot, he, if_neg hinside, if_neg hbasic, hnonzero, Bool.false_or] at hpivot
    cases hfinite : Scalar.isFinite (e.row.entry column) with
    | true =>
      rw [hfinite] at hpivot
      cases hpivot
    | false =>
      rw [hfinite] at hpivot
      cases hpivot
      exact ⟨row, column, e.row.entry column, rfl, hpositive, hfinite⟩

end Tableau

end LinearProgramming
