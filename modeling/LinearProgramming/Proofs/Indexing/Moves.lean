import LinearProgramming.Proofs.Indexing.Queries
import LinearProgramming.Proofs.Tableau.Runs

/-!
Pivots and runs on a grid. A pivot of a tableau of the right shape, asked for at
whatever place, finds all its cells and gives the grid of the tableau's own
answer; since a pivot keeps the shape, so does a run.
-/

namespace LinearProgramming

variable {α : Type} [Scalar α]

theorem Row.cells_divide (r : Row α) (divisor : α) :
    (r.divide divisor).cells = r.cells.map (· / divisor) := by
  rw [cells, cells, List.map_append]
  rfl

/-- Clearing a column goes over all cells alike. -/
theorem Grid.clear?_cells {column : Nat} {pivotRow r : Row α} (hcolumn : column < r.coeffs.length)
    (hlength : pivotRow.coeffs.length = r.coeffs.length) :
    clear? column pivotRow.cells r.cells = some (r.eliminate column pivotRow).cells := by
  rw [clear?, r.getElem?_cells hcolumn, Row.eliminate, Option.bind_eq_bind, Option.bind_some]
  split
  · rfl
  · rw [Row.cells, Row.cells, List.zipWith_append hlength.symm]
    rfl

namespace Tableau

variable {t : Tableau α} {n m : Nat}

theorem HasShape.clear?_grid (h : t.HasShape n m) {row column : Nat} {pivotRow : Row α}
    (hpivotRow : pivotRow.coeffs.length = n + m) (hcolumn : column < n + m) {i : Nat}
    (hi : i ≠ row) {cells : List α} (hcells : t.grid.rows[i]? = some cells) :
    Grid.clear? column pivotRow.cells cells =
      (t.exchange row column pivotRow).grid.rows[i]? := by
  rcases cells_of_getElem?_rows_grid hcells with ⟨e, he, rfl⟩ | ⟨rfl, rfl⟩
  · have hlength := h.length_coeffs e (List.mem_of_getElem? he)
    have hafter : (t.exchange row column pivotRow).equations[i]? =
        some { e with row := e.row.eliminate column pivotRow } := by
      rw [exchange_getElem?_ne t column pivotRow hi, he]
      rfl
    rw [getElem?_rows_grid hafter]
    exact Grid.clear?_cells (hlength ▸ hcolumn) (hpivotRow.trans hlength.symm)
  · have hafter := (t.exchange row column pivotRow).getElem?_rows_grid_objective
    rw [exchange_numConstraints, exchange_objective] at hafter
    rw [hafter]
    exact Grid.clear?_cells (h.length_costs ▸ hcolumn) (hpivotRow.trans h.length_costs.symm)

/-- The elimination leaves the pivot row and clears every other. -/
theorem HasShape.eliminate?_grid (h : t.HasShape n m) {row column : Nat} {pivotRow : Row α}
    (hrow : row < t.numConstraints) (hpivotRow : pivotRow.coeffs.length = n + m)
    (hcolumn : column < n + m) : t.grid.eliminate? row column pivotRow.cells =
      some (t.exchange row column pivotRow).grid.rows := by
  apply mapM_zipIdx_eq_some
  · rw [List.length_set, length_rows_grid, length_rows_grid, exchange_numConstraints]
  · intro i cells hcells
    rw [Nat.zero_add]
    by_cases hi : i = row
    · subst hi
      have hplace : i < t.grid.rows.length := by
        rw [length_rows_grid]
        exact Nat.lt_succ_of_lt hrow
      rw [List.getElem?_set_self hplace] at hcells
      rw [getElem?_rows_grid (t.exchange_getElem?_self column pivotRow hrow), if_pos rfl, hcells]
    · rw [List.getElem?_set_ne (Ne.symm hi)] at hcells
      rw [if_neg hi]
      exact h.clear?_grid hpivotRow hcolumn hi hcells

theorem writeAt?_basis_grid {row : Nat} (hrow : row < t.numConstraints) (column : Nat)
    (pivotRow : Row α) : writeAt? t.grid.basis row column =
      some (t.exchange row column pivotRow).grid.basis := by
  have hplace : row < t.grid.basis.length := by
    rw [grid, basis, List.length_map]
    exact hrow
  rw [writeAt?_eq_some column hplace]
  exact congrArg some (t.exchange_basis row column pivotRow).symm

/-- An exchange changes the rows and the basis, and counts as an iteration. -/
theorem grid_exchange (t : Tableau α) (row column : Nat) (pivotRow : Row α) :
    { t.grid with
      rows := (t.exchange row column pivotRow).grid.rows
      basis := (t.exchange row column pivotRow).grid.basis
      iterations := t.grid.iterations + 1 } = (t.exchange row column pivotRow).grid := by
  rw [Grid.mk.injEq]
  exact ⟨rfl, (t.exchange_numConstraints row column pivotRow).symm, rfl, rfl, rfl⟩

theorem HasShape.exchange?_grid (h : t.HasShape n m) (write : α → String) {row column : Nat}
    {pivotRow : Row α} (hrow : row < t.numConstraints)
    (hpivotRow : pivotRow.coeffs.length = n + m) (hcolumn : column < n + m) :
    t.grid.exchange? write row column pivotRow.cells =
      some (t.exchange row column pivotRow).grid := by
  simp only [Grid.exchange?, h.eliminate?_grid hrow hpivotRow hcolumn,
    writeAt?_basis_grid hrow column pivotRow, Option.bind_eq_bind, Option.bind_some,
    grid_exchange, text?_grid]
  rfl

/-- A pivot finds all its cells, wherever it is asked for. -/
theorem HasShape.pivot?_grid (h : t.HasShape n m) (write : α → String) (row column : Nat) :
    t.grid.pivot? write row column = some ((t.pivot row column).map Tableau.grid) := by
  rw [Grid.pivot?, Tableau.pivot]
  cases he : t.equations[row]? with
  | none =>
    have hrow : t.grid.numConstraints ≤ row := List.getElem?_eq_none_iff.mp he
    rw [if_pos hrow]
    rfl
  | some e =>
    have hrow : row < t.numConstraints := (List.getElem?_eq_some_iff.mp he).1
    have hinside : ¬t.grid.numConstraints ≤ row := Nat.not_le.mpr hrow
    have hlength := h.length_coeffs e (List.mem_of_getElem? he)
    rw [if_neg hinside]
    by_cases hwidth : t.width ≤ column
    · have hbeyond : t.grid.rhsColumn ≤ column := hwidth
      rw [if_pos hbeyond]
      simp only [if_pos hwidth]
      rfl
    · have hbefore : ¬t.grid.rhsColumn ≤ column := hwidth
      have hcolumn : column < n + m := h.width ▸ Nat.not_le.mp hwidth
      have hvalue := e.row.getElem?_cells (hlength ▸ hcolumn)
      rw [if_neg hbefore]
      simp only [if_neg hwidth, getElem?_basis_grid he, getElem?_rows_grid he, hvalue,
        Option.bind_eq_bind, Option.bind_some]
      split
      · rfl
      · split
        · rfl
        · have hpivotRow := (e.row.length_divide (e.row.entry column)).trans hlength
          rw [← Row.cells_divide, h.exchange?_grid write hrow hpivotRow hcolumn]
          rfl

/-! ## Runs -/

/-- A run keeps the shape, so that each of its moves finds its cells. -/
theorem HasShape.runFrom?_grid (h : t.HasShape n m) (write : α → String) (budget : Nat)
    (moves : List (Move α)) : t.grid.runFrom? write budget =
      some ((t.runFrom budget moves).outcome, (t.runFrom budget moves).final.grid) := by
  induction budget generalizing t moves with
  | zero =>
    rw [Grid.runFrom?, runFrom, h.canImprove?_grid]
    cases t.canImprove with
    | false => rfl
    | true =>
      simp only [h.objectiveValue?_grid]
      rfl
  | succ budget ih =>
    rw [Grid.runFrom?, runFrom, h.canImprove?_grid]
    cases t.canImprove with
    | false => rfl
    | true =>
      rw [step, h.enteringColumn?_grid]
      cases hcolumn : t.enteringColumn? with
      | none => rfl
      | some column =>
        have hcolumn' : column < n + m := h.length_costs ▸ enteringColumn?_lt hcolumn
        simp only [h.leavingRow?_grid hcolumn', Option.bind_eq_bind, Option.bind_some]
        cases t.leavingRow? column with
        | none => rfl
        | some row =>
          simp only [h.pivot?_grid, Option.bind_some]
          cases hpivot : t.pivot row column with
          | error error => rfl
          | ok after =>
            have hafter := h.pivot hpivot
            simp only [Except.map, hafter.objectiveValue?_grid, Option.bind_some]
            exact ih hafter (⟨row, column, after⟩ :: moves)

/-- A run from a tableau of the right shape finds all its cells. -/
theorem HasShape.run?_grid (h : t.HasShape n m) (write : α → String) (cap : Nat) :
    t.grid.run? write cap = some ((t.run cap).outcome, (t.run cap).final.grid) := by
  rw [Grid.run?, t.text?_grid write]
  exact h.runFrom?_grid write (cap - t.iterations) []

end Tableau

end LinearProgramming
