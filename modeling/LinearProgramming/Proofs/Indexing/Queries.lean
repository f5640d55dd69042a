import LinearProgramming.Proofs.Indexing.Grid
import LinearProgramming.Proofs.Tableau.Selection

/-!
Questions to a tableau, answered by its grid. A tableau of the right shape has a
cell wherever the program looks, so every question has an answer, and it is the
one that the tableau gives.
-/

namespace LinearProgramming

variable {α : Type}

/-! ## Cells -/

namespace Row

theorem length_cells (r : Row α) : r.cells.length = r.coeffs.length + 1 := by
  rw [cells, List.length_append]
  rfl

theorem getElem?_cells [Scalar α] (r : Row α) {j : Nat} (hj : j < r.coeffs.length) :
    r.cells[j]? = some (r.entry j) := by
  rw [cells, List.getElem?_append_left hj, entry_eq_getElem r hj, List.getElem?_eq_getElem hj]

theorem getElem?_cells_rhs (r : Row α) : r.cells[r.coeffs.length]? = some r.rhs := by
  rw [cells, List.getElem?_append_right le_rfl, Nat.sub_self]
  rfl

theorem leading?_cells (r : Row α) : leading? r.cells r.coeffs.length = some r.coeffs :=
  leading?_append r.coeffs [r.rhs]

end Row

namespace Tableau

theorem rows_grid (t : Tableau α) :
    t.grid.rows = t.equations.map (·.row.cells) ++ [t.objective.cells] := by
  rw [grid, rows, List.map_append, List.map_map]
  rfl

theorem length_rows_grid (t : Tableau α) : t.grid.rows.length = t.numConstraints + 1 := by
  rw [rows_grid, List.length_append, List.length_map]
  rfl

theorem getElem?_rows_grid {t : Tableau α} {i : Nat} {e : Equation α}
    (he : t.equations[i]? = some e) : t.grid.rows[i]? = some e.row.cells := by
  have hi : i < (t.equations.map (·.row.cells)).length := by
    rw [List.length_map]
    exact (List.getElem?_eq_some_iff.mp he).1
  rw [rows_grid, List.getElem?_append_left hi, List.getElem?_map, he]
  rfl

theorem getElem?_rows_grid_objective (t : Tableau α) :
    t.grid.rows[t.numConstraints]? = some t.objective.cells := by
  have hlength : (t.equations.map (·.row.cells)).length = t.numConstraints := List.length_map _
  rw [rows_grid, List.getElem?_append_right hlength.le, hlength, Nat.sub_self]
  rfl

/-- A row of the grid belongs to an equation or to the objective. -/
theorem cells_of_getElem?_rows_grid {t : Tableau α} {i : Nat} {cells : List α}
    (hcells : t.grid.rows[i]? = some cells) :
    (∃ e, t.equations[i]? = some e ∧ cells = e.row.cells) ∨
      (i = t.numConstraints ∧ cells = t.objective.cells) := by
  have hi : i < t.numConstraints + 1 :=
    t.length_rows_grid ▸ (List.getElem?_eq_some_iff.mp hcells).1
  rcases Nat.lt_succ_iff_lt_or_eq.mp hi with hequation | rfl
  · have he : t.equations[i]? = some t.equations[i] := List.getElem?_eq_getElem hequation
    refine Or.inl ⟨t.equations[i], he, ?_⟩
    exact Option.some.inj (hcells.symm.trans (getElem?_rows_grid he))
  · exact Or.inr ⟨rfl, Option.some.inj (hcells.symm.trans t.getElem?_rows_grid_objective)⟩

theorem getElem?_basis_grid {t : Tableau α} {i : Nat} {e : Equation α}
    (he : t.equations[i]? = some e) : t.grid.basis[i]? = some e.basic := by
  rw [grid, basis, List.getElem?_map, he]
  rfl

/-! ## The table -/

/-- An equation is named after its basic variable. -/
theorem line?_grid {t : Tableau α} {i : Nat} {e : Equation α} (write : α → String)
    (he : t.equations[i]? = some e) : t.grid.line? write e.row.cells i =
      some (rowLine write (columnName e.basic) e.row) := by
  have hi : i < t.grid.numConstraints := (List.getElem?_eq_some_iff.mp he).1
  rw [Grid.line?, if_pos hi, getElem?_basis_grid he]
  rfl

theorem line?_grid_objective (t : Tableau α) (write : α → String) :
    t.grid.line? write t.objective.cells t.numConstraints =
      some (rowLine write "z" t.objective) := by
  have hlast : ¬t.numConstraints < t.grid.numConstraints := Nat.lt_irrefl t.numConstraints
  rw [Grid.line?, if_neg hlast]
  rfl

theorem text?_grid (t : Tableau α) (write : α → String) :
    t.grid.text? write = some (t.text write) := by
  have hlines : t.grid.rows.zipIdx.mapM (fun item => t.grid.line? write item.1 item.2) =
      some (t.equations.map (fun e => rowLine write (columnName e.basic) e.row) ++
        [rowLine write "z" t.objective]) := by
    have hcount : (t.equations.map fun e => rowLine write (columnName e.basic) e.row).length =
        t.numConstraints := List.length_map _
    apply mapM_zipIdx_eq_some
    · rw [List.length_append, hcount, length_rows_grid]
      rfl
    · intro i cells hcells
      rw [Nat.zero_add]
      rcases cells_of_getElem?_rows_grid hcells with ⟨e, he, rfl⟩ | ⟨rfl, rfl⟩
      · have hi : i < t.numConstraints := (List.getElem?_eq_some_iff.mp he).1
        rw [List.getElem?_append_left (hi.trans_eq hcount.symm), List.getElem?_map, he]
        exact line?_grid write he
      · rw [List.getElem?_append_right hcount.le, hcount, Nat.sub_self]
        exact t.line?_grid_objective write
  rw [Grid.text?, hlines, text, lines, List.append_assoc]
  rfl

/-! ## Numbers -/

namespace HasShape

variable {t : Tableau α} {n m : Nat}

theorem rhsColumn_grid (h : t.HasShape n m) : t.grid.rhsColumn = n + m := h.width

theorem length_cells_grid (h : t.HasShape n m) {i : Nat} {cells : List α}
    (hcells : t.grid.rows[i]? = some cells) : cells.length = n + m + 1 := by
  rcases cells_of_getElem?_rows_grid hcells with ⟨e, he, rfl⟩ | ⟨-, rfl⟩
  · rw [Row.length_cells, h.length_coeffs e (List.mem_of_getElem? he)]
  · rw [Row.length_cells, h.length_costs]

theorem cell?_grid_rhs (h : t.HasShape n m) {i : Nat} {e : Equation α}
    (he : t.equations[i]? = some e) : t.grid.cell? i t.grid.rhsColumn = some e.row.rhs := by
  rw [Grid.cell?, getElem?_rows_grid he, h.rhsColumn_grid,
    ← h.length_coeffs e (List.mem_of_getElem? he)]
  exact e.row.getElem?_cells_rhs

theorem objectiveValue?_grid (h : t.HasShape n m) :
    t.grid.objectiveValue? = some t.objectiveValue := by
  have hrow : t.grid.rows[t.grid.numConstraints]? = some t.objective.cells :=
    t.getElem?_rows_grid_objective
  rw [Grid.objectiveValue?, Grid.cell?, hrow, h.rhsColumn_grid, ← h.length_costs]
  exact t.objective.getElem?_cells_rhs

theorem costs?_grid (h : t.HasShape n m) : t.grid.costs? = some t.objective.coeffs := by
  have hrow : t.grid.rows[t.grid.numConstraints]? = some t.objective.cells :=
    t.getElem?_rows_grid_objective
  rw [Grid.costs?, hrow, h.rhsColumn_grid, ← h.length_costs]
  exact t.objective.leading?_cells

theorem cell?_grid [Scalar α] (h : t.HasShape n m) {i j : Nat} {e : Equation α}
    (he : t.equations[i]? = some e) (hj : j < n + m) :
    t.grid.cell? i j = some (e.row.entry j) := by
  have hlength := h.length_coeffs e (List.mem_of_getElem? he)
  rw [Grid.cell?, getElem?_rows_grid he]
  exact e.row.getElem?_cells (hlength ▸ hj)

/-! ## Answers -/

theorem rhs?_grid (h : t.HasShape n m) : t.grid.rhs? = some t.rhs := by
  have hcut : leading? t.grid.rows t.grid.numConstraints =
      some (t.equations.map (·.row.cells)) := by
    have hlength : t.grid.numConstraints = (t.equations.map (·.row.cells)).length :=
      (List.length_map _).symm
    rw [rows_grid, hlength, leading?_append]
  rw [Grid.rhs?, hcut, Option.bind_eq_bind, Option.bind_some, List.mapM_map]
  apply mapM_eq_some_map
  intro e he
  rw [Function.comp_apply, h.rhsColumn_grid, ← h.length_coeffs e he]
  exact e.row.getElem?_cells_rhs

variable [Scalar α]

theorem canImprove?_grid (h : t.HasShape n m) : t.grid.canImprove? = some t.canImprove := by
  rw [Grid.canImprove?, h.costs?_grid]
  rfl

theorem enteringColumn?_grid (h : t.HasShape n m) :
    t.grid.enteringColumn? = some t.enteringColumn? := by
  rw [Grid.enteringColumn?, h.costs?_grid]
  rfl

/-- The column of a variable has an entry in every row. -/
theorem ratio?_grid (h : t.HasShape n m) {row column : Nat} {e : Equation α}
    (he : t.equations[row]? = some e) (hcolumn : column < n + m) :
    t.grid.ratio? column row =
      some (if 0 < e.row.entry column then some (row, e.ratio column) else none) := by
  simp only [Grid.ratio?, h.cell?_grid he hcolumn, h.cell?_grid_rhs he, Option.bind_eq_bind,
    Option.bind_some]
  split
  · rfl
  · rfl

theorem ratios?_grid (h : t.HasShape n m) {column : Nat} (hcolumn : column < n + m) :
    t.grid.ratios? column = some (t.ratios column) := by
  have hrange : List.range t.grid.numConstraints = t.equations.zipIdx.map Prod.snd := by
    rw [List.zipIdx_map_snd, List.range_eq_range']
    rfl
  have hlookup : t.equations.zipIdx.mapM (t.grid.ratio? column ∘ Prod.snd) =
      some (t.equations.zipIdx.map fun item =>
        if 0 < item.1.row.entry column then some (item.2, item.1.ratio column) else none) := by
    apply mapM_eq_some_map
    rintro ⟨e, row⟩ hmem
    exact h.ratio?_grid (List.mem_zipIdx_iff_getElem?.mp hmem) hcolumn
  rw [Grid.ratios?, hrange, List.mapM_map, hlookup, Option.bind_eq_bind, Option.bind_some,
    List.filterMap_map]
  rfl

theorem leavingRow?_grid (h : t.HasShape n m) {column : Nat} (hcolumn : column < n + m) :
    t.grid.leavingRow? (some column) = some (t.leavingRow? column) := by
  have hinside : ¬t.grid.rhsColumn ≤ column := by
    rw [h.rhsColumn_grid]
    exact Nat.not_le.mpr hcolumn
  simp only [Grid.leavingRow?, if_neg hinside, h.ratios?_grid hcolumn]
  rfl

/-- The value of a basic decision variable is written at its place. -/
theorem primalSolution?_grid (h : t.HasShape n m) :
    t.grid.primalSolution? = some t.primalSolution := by
  have hbasis : t.grid.basis.zipIdx = t.equations.zipIdx.map (Prod.map (·.basic) id) :=
    List.zipIdx_map
  rw [Grid.primalSolution?, primalSolution, hbasis, List.foldlM_map]
  rw [← List.zipIdx_map_fst 0 t.equations, List.foldl_map, List.zipIdx_map_fst]
  apply foldlM_eq_some_foldl (P := fun values : List α => values.length = t.numVariables)
  · rintro values ⟨e, row⟩ hlength hmem
    have he := List.mem_zipIdx_iff_getElem?.mp hmem
    refine ⟨?_, by rw [List.length_set, hlength]⟩
    simp only [Prod.map, id, h.cell?_grid_rhs he, Option.bind_eq_bind, Option.bind_some]
    split
    · rename_i hdecision
      exact writeAt?_eq_some _ (hlength ▸ hdecision)
    · rename_i hslack
      rw [List.set_eq_of_length_le (hlength ▸ Nat.not_lt.mp hslack)]
  · exact List.length_replicate

end HasShape

end Tableau

end LinearProgramming
