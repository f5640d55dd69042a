import LinearProgramming.Pivot
import LinearProgramming.Proofs.Validity
import Mathlib.Data.List.GetD

/-!
The shape of a tableau and what an exchange does to its entries. The tableau of
a valid problem has one row of `n + m` coefficients for each constraint, and
pivots keep it so. Everything here holds in any arithmetic.

`Tableau.Reaches` relates a tableau to those that pivots lead to, at whatever
places they are made; `Tableau.pivotAll` is a sequence of calls, of which some
may fail.
-/

namespace LinearProgramming

variable {α : Type} [Scalar α]

namespace Row

theorem entry_eq_getElem (r : Row α) {j : Nat} (hj : j < r.coeffs.length) :
    r.entry j = r.coeffs[j] := by
  rw [entry, List.getD_eq_getElem _ _ hj]

theorem entry_eq_zero (r : Row α) {j : Nat} (hj : r.coeffs.length ≤ j) : r.entry j = 0 := by
  rw [entry, List.getD_eq_default _ _ hj]

@[simp] theorem length_divide (r : Row α) (divisor : α) :
    (r.divide divisor).coeffs.length = r.coeffs.length := by
  rw [divide, List.length_map]

theorem entry_divide (r : Row α) (divisor : α) {j : Nat} (hj : j < r.coeffs.length) :
    (r.divide divisor).entry j = r.entry j / divisor := by
  have hj' : j < (r.divide divisor).coeffs.length := by
    rw [length_divide]
    exact hj
  rw [entry_eq_getElem _ hj', entry_eq_getElem _ hj]
  simp only [divide, List.getElem_map]

theorem eliminate_of_zero {r : Row α} {column : Nat} (pivotRow : Row α)
    (hzero : (r.entry column == 0) = true) : r.eliminate column pivotRow = r := by
  simp only [eliminate, hzero, if_true]

theorem length_eliminate {r pivotRow : Row α} (column : Nat)
    (hlength : pivotRow.coeffs.length = r.coeffs.length) :
    (r.eliminate column pivotRow).coeffs.length = r.coeffs.length := by
  rw [eliminate]
  split
  · rfl
  · rw [List.length_zipWith, hlength, Nat.min_self]

theorem entry_eliminate {r pivotRow : Row α} {column : Nat}
    (hfactor : (r.entry column == 0) = false)
    (hlength : pivotRow.coeffs.length = r.coeffs.length) {j : Nat} (hj : j < r.coeffs.length) :
    (r.eliminate column pivotRow).entry j =
      r.entry j - r.entry column * pivotRow.entry j := by
  have hj' : j < (r.eliminate column pivotRow).coeffs.length := by
    rw [length_eliminate column hlength]
    exact hj
  rw [entry_eq_getElem _ hj', entry_eq_getElem r hj,
    entry_eq_getElem pivotRow (hlength ▸ hj)]
  simp only [eliminate, hfactor, Bool.false_eq_true, if_false, List.getElem_zipWith]

theorem rhs_eliminate {r : Row α} {column : Nat} (pivotRow : Row α)
    (hfactor : (r.entry column == 0) = false) :
    (r.eliminate column pivotRow).rhs = r.rhs - r.entry column * pivotRow.rhs := by
  simp only [eliminate, hfactor, Bool.false_eq_true, if_false]

end Row

namespace Tableau

/-- A tableau over `n` decision variables and `m` constraints. -/
structure HasShape (t : Tableau α) (n m : Nat) : Prop where
  numVariables : t.numVariables = n
  numConstraints : t.numConstraints = m
  length_coeffs : ∀ e ∈ t.equations, e.row.coeffs.length = n + m
  basic_lt : ∀ e ∈ t.equations, e.basic < n + m
  length_costs : t.objective.coeffs.length = n + m

omit [Scalar α] in
theorem HasShape.width {t : Tableau α} {n m : Nat} (h : t.HasShape n m) : t.width = n + m := by
  rw [Tableau.width, h.numVariables, h.numConstraints]

/-- The place qualifies for a pivot, and the equation is the one of its row. -/
structure PivotsAt (t : Tableau α) (row column : Nat) (e : Equation α) : Prop where
  equation : t.equations[row]? = some e
  column_lt : column < t.width
  basic_ne : e.basic ≠ column
  nonzero : (e.row.entry column == 0) = false
  finite : Scalar.isFinite (e.row.entry column) = true

/-- A pivot succeeds at the places that qualify, and is an exchange there. -/
theorem pivot_eq_ok_iff {t after : Tableau α} {row column : Nat} :
    t.pivot row column = .ok after ↔ ∃ e, t.PivotsAt row column e ∧
      t.exchange row column (e.row.divide (e.row.entry column)) = after := by
  rw [pivot]
  cases he : t.equations[row]? with
  | none =>
    simp only [reduceCtorEq, false_iff, not_exists]
    intro e hplace
    rw [hplace.1.equation] at he
    cases he
  | some e =>
    simp only
    split_ifs with hcolumn hbasic hvalue
    · simp only [false_iff, not_exists]
      intro e' hplace
      exact absurd hplace.1.column_lt (Nat.not_lt.mpr hcolumn)
    · simp only [false_iff, not_exists]
      intro e' hplace
      cases he.symm.trans hplace.1.equation
      exact hplace.1.basic_ne hbasic
    · simp only [false_iff, not_exists]
      intro e' hplace
      cases he.symm.trans hplace.1.equation
      simp [hplace.1.nonzero, hplace.1.finite] at hvalue
    · simp only [Except.ok.injEq]
      simp only [Bool.or_eq_true, not_or, Bool.not_eq_true, Bool.not_eq_false'] at hvalue
      constructor
      · intro hafter
        exact ⟨e, ⟨he, Nat.not_le.mp hcolumn, hbasic, hvalue.1, hvalue.2⟩, hafter⟩
      · rintro ⟨e', hplace, hafter⟩
        cases he.symm.trans hplace.equation
        exact hafter

/-! ## Exchanges -/

theorem exchange_getElem?_self (t : Tableau α) {row : Nat} (column : Nat) (pivotRow : Row α)
    (hrow : row < t.numConstraints) :
    (t.exchange row column pivotRow).equations[row]? = some ⟨column, pivotRow⟩ := by
  rw [exchange, List.getElem?_set_self]
  rwa [List.length_map]

theorem exchange_getElem?_ne (t : Tableau α) {row : Nat} (column : Nat) (pivotRow : Row α)
    {i : Nat} (hi : i ≠ row) :
    (t.exchange row column pivotRow).equations[i]? = t.equations[i]?.map fun e =>
      { e with row := e.row.eliminate column pivotRow } := by
  rw [exchange, List.getElem?_set_ne hi.symm, List.getElem?_map]

/-- An equation after an exchange is the new one, or an old one with the column
cleared. -/
theorem exchange_cases {t : Tableau α} {row column : Nat} {pivotRow : Row α} {i : Nat}
    {e : Equation α} (he : (t.exchange row column pivotRow).equations[i]? = some e) :
    (i = row ∧ e = ⟨column, pivotRow⟩) ∨
      (i ≠ row ∧ ∃ old, t.equations[i]? = some old ∧
        e = { old with row := old.row.eliminate column pivotRow }) := by
  by_cases hi : i = row
  · refine Or.inl ⟨hi, ?_⟩
    subst hi
    have hrow : i < t.numConstraints := by
      have hlength := (List.getElem?_eq_some_iff.mp he).1
      rwa [exchange, List.length_set, List.length_map] at hlength
    rw [exchange_getElem?_self t column pivotRow hrow] at he
    exact (Option.some.inj he).symm
  · refine Or.inr ⟨hi, ?_⟩
    rw [exchange_getElem?_ne t column pivotRow hi, Option.map_eq_some_iff] at he
    obtain ⟨old, hold, rfl⟩ := he
    exact ⟨old, hold, rfl⟩

@[simp] theorem exchange_numVariables (t : Tableau α) (row column : Nat) (pivotRow : Row α) :
    (t.exchange row column pivotRow).numVariables = t.numVariables := rfl

@[simp] theorem exchange_objective (t : Tableau α) (row column : Nat) (pivotRow : Row α) :
    (t.exchange row column pivotRow).objective = t.objective.eliminate column pivotRow := rfl

@[simp] theorem exchange_iterations (t : Tableau α) (row column : Nat) (pivotRow : Row α) :
    (t.exchange row column pivotRow).iterations = t.iterations + 1 := rfl

@[simp] theorem exchange_numConstraints (t : Tableau α) (row column : Nat) (pivotRow : Row α) :
    (t.exchange row column pivotRow).numConstraints = t.numConstraints := by
  simp only [numConstraints, exchange, List.length_set, List.length_map]

@[simp] theorem exchange_basis (t : Tableau α) (row column : Nat) (pivotRow : Row α) :
    (t.exchange row column pivotRow).basis = t.basis.set row column := by
  simp only [basis, exchange, List.map_set, List.map_map, Function.comp_def]

theorem HasShape.exchange {t : Tableau α} {n m row column : Nat} {pivotRow : Row α}
    (h : t.HasShape n m) (hpivotRow : pivotRow.coeffs.length = n + m) (hcolumn : column < n + m) :
    (t.exchange row column pivotRow).HasShape n m := by
  have hold : ∀ (i : Nat) (old : Equation α), t.equations[i]? = some old →
      (old.row.eliminate column pivotRow).coeffs.length = n + m := by
    intro i old hi
    have hlength := h.length_coeffs old (List.mem_of_getElem? hi)
    rw [Row.length_eliminate column (hpivotRow.trans hlength.symm), hlength]
  constructor
  case numVariables => exact h.numVariables
  case numConstraints => rw [exchange_numConstraints, h.numConstraints]
  case length_coeffs =>
    intro e he
    obtain ⟨i, hi⟩ := List.mem_iff_getElem?.mp he
    rcases exchange_cases hi with ⟨-, rfl⟩ | ⟨-, old, hold', rfl⟩
    · exact hpivotRow
    · exact hold i old hold'
  case basic_lt =>
    intro e he
    obtain ⟨i, hi⟩ := List.mem_iff_getElem?.mp he
    rcases exchange_cases hi with ⟨-, rfl⟩ | ⟨-, old, hold', rfl⟩
    · exact hcolumn
    · exact h.basic_lt old (List.mem_of_getElem? hold')
  case length_costs =>
    rw [exchange_objective, Row.length_eliminate column (hpivotRow.trans h.length_costs.symm),
      h.length_costs]

/-- A pivot at a qualifying place keeps the shape. -/
theorem HasShape.pivot {t after : Tableau α} {n m row column : Nat} (h : t.HasShape n m)
    (hpivot : t.pivot row column = .ok after) : after.HasShape n m := by
  obtain ⟨e, hplace, rfl⟩ := pivot_eq_ok_iff.mp hpivot
  apply h.exchange
  · rw [Row.length_divide, h.length_coeffs e (List.mem_of_getElem? hplace.equation)]
  · rw [← h.width]
    exact hplace.column_lt

/-! ## The start -/

theorem length_slackCoeffs (m index : Nat) : (slackCoeffs m index : List α).length = m := by
  rw [slackCoeffs, List.length_set, List.length_replicate]

theorem getD_slackCoeffs {m k : Nat} (index : Nat) (hk : k < m) :
    (slackCoeffs m index : List α).getD k 0 = if index = k then 1 else 0 := by
  rw [List.getD_eq_getElem _ _ (by rwa [length_slackCoeffs])]
  simp only [slackCoeffs, List.getElem_set, List.getElem_replicate]

/-- The equation of a constraint at the start: its slack is basic. -/
theorem initial_getElem?_eq_some_iff {p : Problem α} {i : Nat} {e : Equation α} :
    (initial p).equations[i]? = some e ↔ ∃ row limit, p.a[i]? = some row ∧ p.b[i]? = some limit ∧
      e = ⟨p.numVariables + i, row ++ slackCoeffs p.numConstraints i, limit⟩ := by
  simp only [initial, List.getElem?_mapIdx, Option.map_eq_some_iff, List.getElem?_zip_eq_some,
    Prod.exists, and_assoc, eq_comm (a := e)]

theorem initial_hasShape {p : Problem α} (h : p.IsCanonical) :
    (initial p).HasShape p.numVariables p.numConstraints := by
  constructor
  case numVariables => rfl
  case numConstraints =>
    simp only [numConstraints, initial, List.length_mapIdx, List.length_zip, h.length_rows]
    exact Nat.min_self _
  case length_coeffs =>
    intro e he
    obtain ⟨i, hi⟩ := List.mem_iff_getElem?.mp he
    obtain ⟨row, limit, hrow, -, rfl⟩ := initial_getElem?_eq_some_iff.mp hi
    rw [List.length_append, length_slackCoeffs, h.length_row row (List.mem_of_getElem? hrow)]
  case basic_lt =>
    intro e he
    obtain ⟨i, hi⟩ := List.mem_iff_getElem?.mp he
    obtain ⟨row, limit, -, hlimit, rfl⟩ := initial_getElem?_eq_some_iff.mp hi
    exact Nat.add_lt_add_left (List.getElem?_eq_some_iff.mp hlimit).1 _
  case length_costs =>
    simp only [initial, List.length_append, List.length_map, List.length_replicate]
    rfl

/-! ## Sequences of pivots -/

/-- Pivots at qualifying places lead from one tableau to the other. -/
inductive Reaches (t : Tableau α) : Tableau α → Prop
  | refl : Reaches t t
  | pivot {u after : Tableau α} {row column : Nat} (h : Reaches t u)
      (hpivot : u.pivot row column = .ok after) : Reaches t after

/-- A call for a pivot. One that fails leaves the tableau as it is. -/
def pivotOrKeep (t : Tableau α) (place : Nat × Nat) : Tableau α :=
  match t.pivot place.1 place.2 with
  | .ok after => after
  | .error _ => t

/-- Calls for pivots, one after the other. -/
def pivotAll (t : Tableau α) (places : List (Nat × Nat)) : Tableau α :=
  places.foldl pivotOrKeep t

theorem Reaches.trans {t u v : Tableau α} (htu : t.Reaches u) (huv : u.Reaches v) :
    t.Reaches v := by
  induction huv with
  | refl => exact htu
  | pivot _ hpivot ih => exact .pivot ih hpivot

/-- Calls reach only what pivots reach: those that fail drop out. -/
theorem reaches_pivotAll (t : Tableau α) (places : List (Nat × Nat)) :
    t.Reaches (t.pivotAll places) := by
  induction places generalizing t with
  | nil => exact .refl
  | cons place places ih =>
    have hcall : t.Reaches (t.pivotOrKeep place) := by
      rw [pivotOrKeep]
      split
      · rename_i hpivot
        exact .pivot .refl hpivot
      · exact .refl
    exact hcall.trans (ih (t.pivotOrKeep place))

theorem HasShape.reaches {t u : Tableau α} {n m : Nat} (h : t.HasShape n m)
    (hreaches : t.Reaches u) : u.HasShape n m := by
  induction hreaches with
  | refl => exact h
  | pivot _ hpivot ih => exact ih.pivot hpivot

end Tableau

end LinearProgramming
