import LinearProgramming.Proofs.Answers
import LinearProgramming.Proofs.Indexing.Moves

/-!
No access is out of range. A problem either has a defect, which is found before
anything is looked up, or gives a rectangular grid, and whatever is then asked of
the grid finds its cells and leaves it rectangular. The check of the constraints
can be asked about any problem; it misses a bound if there are too few.
-/

namespace LinearProgramming

variable {α : Type} [Scalar α]

/-! ## The start -/

namespace Grid

theorem fillConstraint?_eq {p : Problem α} {i : Nat} {row : List α} {limit : α}
    (hrow : row.length = p.numVariables) (hlimit : p.b[i]? = some limit) :
    fillConstraint? p i row (List.replicate (p.numVariables + (p.numConstraints + 1)) 0) =
      some (Row.cells ⟨row ++ Tableau.slackCoeffs p.numConstraints i, limit⟩) := by
  have hi : i < p.numConstraints := (List.getElem?_eq_some_iff.mp hlimit).1
  have hcopy : copyOver? (List.replicate (p.numVariables + (p.numConstraints + 1)) (0 : α))
      p.numVariables row = some (row ++ List.replicate (p.numConstraints + 1) 0) := by
    rw [← hrow]
    exact copyOver?_replicate row 0 (p.numConstraints + 1)
  have hslack : writeAt? (row ++ List.replicate (p.numConstraints + 1) (0 : α))
      (p.numVariables + i) 1 =
        some (row ++ Tableau.slackCoeffs p.numConstraints i ++ [0]) := by
    have hplace : p.numVariables + i <
        (row ++ List.replicate (p.numConstraints + 1) (0 : α)).length := by
      rw [List.length_append, List.length_replicate, hrow]
      omega
    rw [writeAt?_eq_some _ hplace, ← hrow, List.set_append_right _ _ (Nat.le_add_right _ _),
      Nat.add_sub_cancel_left, List.replicate_succ', List.set_append_left _ _ (by simpa),
      List.append_assoc]
    rfl
  have hbound : writeAt? (row ++ Tableau.slackCoeffs p.numConstraints i ++ [0])
      (p.numVariables + p.numConstraints) limit =
        some (row ++ Tableau.slackCoeffs p.numConstraints i ++ [limit]) := by
    have hlength : (row ++ Tableau.slackCoeffs p.numConstraints i : List α).length =
        p.numVariables + p.numConstraints := by
      rw [List.length_append, hrow, Tableau.length_slackCoeffs]
    rw [← hlength, writeAt?_eq_some _ (by simp)]
    simp
  simp only [fillConstraint?, hcopy, hslack, hlimit, hbound, Option.bind_eq_bind, Option.bind_some]
  rfl

theorem fillConstraints?_eq {p : Problem α} (h : p.IsCanonical) :
    p.a.zipIdx.foldlM (fun rows (coefficients, i) =>
        changeAt? rows i (fillConstraint? p i coefficients))
      (List.replicate (p.numConstraints + 1)
        (List.replicate (p.numVariables + (p.numConstraints + 1)) 0)) =
    some ((Tableau.initial p).equations.map (·.row.cells) ++
      [List.replicate (p.numVariables + (p.numConstraints + 1)) 0]) := by
  have hcount : (Tableau.initial p).equations.length = p.a.length :=
    (Tableau.initial_hasShape h).numConstraints.trans h.length_rows.symm
  have hblank : List.replicate (p.numConstraints + 1)
        (List.replicate (p.numVariables + (p.numConstraints + 1)) (0 : α)) =
      List.replicate p.a.length (List.replicate (p.numVariables + (p.numConstraints + 1)) 0) ++
        [List.replicate (p.numVariables + (p.numConstraints + 1)) 0] := by
    rw [h.length_rows, List.replicate_succ']
  rw [hblank]
  apply foldlM_changeAt? (f := fun row i => fillConstraint? p i row)
  · rw [List.length_map, hcount]
  · intro i row hrow
    have hi : i < p.b.length := (List.getElem?_eq_some_iff.mp hrow).1.trans_eq h.length_rows
    have hlimit : p.b[i]? = some p.b[i] := List.getElem?_eq_getElem hi
    have he := Tableau.initial_getElem?_eq_some_iff.mpr ⟨row, p.b[i], hrow, hlimit, rfl⟩
    rw [fillConstraint?_eq (h.length_row row (List.mem_of_getElem? hrow)) hlimit,
      List.getElem?_map, he]
    rfl

theorem fillCosts?_eq (p : Problem α) :
    p.c.zipIdx.foldlM (fun cells (cost, j) => writeAt? cells j (-cost))
      (List.replicate (p.numVariables + (p.numConstraints + 1)) 0) =
    some (Tableau.initial p).objective.cells := by
  have hblank : List.replicate (p.numVariables + (p.numConstraints + 1)) (0 : α) =
      List.replicate p.c.length 0 ++ List.replicate (p.numConstraints + 1) 0 :=
    List.replicate_append_replicate.symm
  have hobjective : (Tableau.initial p).objective.cells =
      p.c.map (- ·) ++ List.replicate (p.numConstraints + 1) 0 := by
    rw [List.replicate_succ', ← List.append_assoc]
    rfl
  rw [hblank, hobjective]
  apply foldlM_changeAt? (f := fun cost _ _ => some (-cost))
  · exact List.length_map _
  · intro j cost hcost
    rw [List.getElem?_map, hcost]
    rfl

theorem basis_initial {p : Problem α} (h : p.IsCanonical) :
    (Tableau.initial p).basis = List.range' p.numVariables p.numConstraints := by
  apply List.ext_getElem
  · rw [Tableau.basis, List.length_map, List.length_range']
    exact (Tableau.initial_hasShape h).numConstraints
  · intro i hi _
    have hequation : i < (Tableau.initial p).equations.length := by
      rwa [Tableau.basis, List.length_map] at hi
    obtain ⟨row, limit, -, -, he⟩ :=
      Tableau.initial_getElem?_eq_some_iff.mp (List.getElem?_eq_getElem hequation)
    simp only [Tableau.basis, List.getElem_map, he, List.getElem_range', Nat.one_mul]

theorem ofProblem?_of_isValid {p : Problem α} (hp : p.IsValid) :
    ofProblem? p = some (.ok (Tableau.initial p).grid) := by
  have hcount : (Tableau.initial p).numConstraints = p.numConstraints :=
    (Tableau.initial_hasShape hp.canonical).numConstraints
  have hplace : ((Tableau.initial p).equations.map (·.row.cells)).length = p.numConstraints :=
    (List.length_map _).trans hcount
  have hcosts := foldlM_changeAt?_last
    (f := fun cells (item : α × Nat) => writeAt? cells item.2 (-item.1)) p.c.zipIdx
    ((Tableau.initial p).equations.map (·.row.cells))
    (List.replicate (p.numVariables + (p.numConstraints + 1)) 0)
  rw [fillCosts?_eq, hplace, Option.map_some, ← Tableau.rows_grid] at hcosts
  have hdefect : p.defect? = none := hp
  have hgrid : (⟨p.numVariables, p.numConstraints, (Tableau.initial p).grid.rows,
      List.range' p.numVariables p.numConstraints, 0⟩ : Grid α) = (Tableau.initial p).grid := by
    rw [← basis_initial hp.canonical, Tableau.grid, hcount]
    rfl
  simp only [ofProblem?, hdefect, fillConstraints?_eq hp.canonical, hcosts, Option.bind_eq_bind,
    Option.bind_some, hgrid]
  rfl

end Grid

/-! ## The answer -/

namespace Problem

theorem brokenRowsByIndex?_eq {p : Problem α} (hrows : p.a.length ≤ p.b.length) (x : List α)
    (tolerance : α) : p.brokenRowsByIndex? x tolerance = some (p.brokenRows x tolerance) := by
  let check (item : (List α × α) × Nat) : Option (Violation α) :=
    if item.1.2 + tolerance < Scalar.dot item.1.1 x then
      some (.constraint item.2 item.1.2 (Scalar.dot item.1.1 x)
        (Scalar.dot item.1.1 x - item.1.2))
    else
      none
  have hlookup : p.a.zipIdx.mapM (fun item => p.checkRow? x tolerance item.1 item.2) =
      some ((p.a.zip p.b).zipIdx.map check) := by
    apply mapM_zipIdx_eq_some
    · rw [List.length_map, List.length_zipIdx, List.length_zip, Nat.min_eq_left hrows]
    · intro i row hrow
      have hi : i < p.b.length := (List.getElem?_eq_some_iff.mp hrow).1.trans_le hrows
      have hlimit : p.b[i]? = some p.b[i] := List.getElem?_eq_getElem hi
      have hpair : (p.a.zip p.b)[i]? = some (row, p.b[i]) :=
        List.getElem?_zip_eq_some.mpr ⟨hrow, hlimit⟩
      simp only [checkRow?, Nat.zero_add, hlimit, List.getElem?_map, List.getElem?_zipIdx, hpair]
      rfl
  rw [brokenRowsByIndex?, hlookup, Option.bind_eq_bind, Option.bind_some, List.filterMap_map]
  rfl

/-- The first row without a bound ends the search. -/
theorem brokenRowsByIndex?_eq_none {p : Problem α} (hrows : p.b.length < p.a.length)
    (x : List α) (tolerance : α) : p.brokenRowsByIndex? x tolerance = none := by
  have hmem : (p.a[p.b.length], p.b.length) ∈ p.a.zipIdx :=
    List.mem_zipIdx_iff_getElem?.mpr (List.getElem?_eq_getElem hrows)
  have hlimit : p.b[p.b.length]? = none := List.getElem?_eq_none le_rfl
  rw [brokenRowsByIndex?, mapM_eq_none_iff.mpr]
  · rfl
  · refine ⟨_, hmem, ?_⟩
    rw [checkRow?, hlimit]
    rfl

/-- Looking up the bounds fails where a row has none, and nowhere else. -/
theorem violationsByIndex?_eq (p : Problem α) (x : List α) (tolerance : α) :
    p.violationsByIndex? x tolerance = p.violations? x tolerance := by
  rw [violationsByIndex?, violations?]
  by_cases hrows : p.a.length ≤ p.b.length
  · rw [if_pos hrows, brokenRowsByIndex?_eq hrows]
    rfl
  · rw [if_neg hrows, brokenRowsByIndex?_eq_none (Nat.not_le.mp hrows)]
    rfl

/-- A row too many, at a point that breaks no other. -/
example : (⟨[[1], [1]], [4], [1]⟩ : Problem ℚ).violationsByIndex? [3] 0 = none := rfl

end Problem

namespace Solver

theorem answer?_grid (s : Solver α) {p : Problem α} (hp : p.a.length ≤ p.b.length) {run : Run α}
    {n m : Nat} (h : run.final.HasShape n m) :
    s.answer? p run.outcome run.final.grid = some (s.solutionOf p run) := by
  rw [solutionOf]
  cases run.outcome with
  | optimal =>
    simp only [answer?, h.primalSolution?_grid, h.objectiveValue?_grid, p.violationsByIndex?_eq,
      Problem.violations?, if_pos hp, Option.bind_eq_bind, Option.bind_some]
    rfl
  | unbounded column => rfl
  | iterationLimit =>
    simp only [answer?, h.primalSolution?_grid, h.objectiveValue?_grid, Option.bind_eq_bind,
      Option.bind_some]
    rfl
  | failed error => rfl

theorem solveByIndex?_eq (write : α → String) (s : Solver α) (p : Problem α) :
    s.solveByIndex? write p =
      some ((s.run p).map fun run => (s.solutionOf p run, run.final.grid)) := by
  rw [solveByIndex?]
  cases hdefect : p.defect? with
  | some defect =>
    rw [Grid.ofProblem?, Solver.run, Tableau.ofProblem, hdefect]
    rfl
  | none =>
    have hp : p.IsValid := hdefect
    have hstart := Tableau.initial_hasShape hp.canonical
    have hfinal := hstart.reaches ((Tableau.initial p).run_visits s.maxIterations).reaches
    have hrows : p.a.length ≤ p.b.length := hp.canonical.length_rows.le
    simp only [Grid.ofProblem?_of_isValid hp, hstart.run?_grid, s.answer?_grid hrows hfinal,
      s.run_eq hp, Option.bind_eq_bind, Option.bind_some]
    rfl

end Solver

/-! ## Calls -/

/-- What can be asked of a tableau. -/
inductive Call where
  | canImprove
  | enteringColumn
  | leavingRow (column : Option Nat)
  | pivot (row column : Nat)
  | run (cap : Nat)
  | objectiveValue
  | primalSolution
  | rhs
  | text

/-- The tableau after a call. Only pivots and runs change it. -/
def Tableau.perform (t : Tableau α) (call : Call) : Tableau α :=
  match call with
  | .pivot row column => t.pivotOrKeep (row, column)
  | .run cap => (t.run cap).final
  | _ => t

/-- A call on the grid: looks up what the answer needs, and keeps the grid. -/
def Grid.perform? (write : α → String) (g : Grid α) : Call → Option (Grid α)
  | .canImprove => g.canImprove?.map fun _ => g
  | .enteringColumn => g.enteringColumn?.map fun _ => g
  | .leavingRow column => (g.leavingRow? column).map fun _ => g
  | .pivot row column => (g.pivot? write row column).map fun
    | .ok after => after
    | .error _ => g
  | .run cap => (g.run? write cap).map (·.2)
  | .objectiveValue => g.objectiveValue?.map fun _ => g
  | .primalSolution => g.primalSolution?.map fun _ => g
  | .rhs => g.rhs?.map fun _ => g
  | .text => (g.text? write).map fun _ => g

/-- A row for each constraint and one for the objective, each with a cell for
every variable and one for the right-hand side, and for each constraint the number
of a variable. -/
structure Grid.IsRectangular (g : Grid α) (n m : Nat) : Prop where
  numVariables : g.numVariables = n
  numConstraints : g.numConstraints = m
  length_rows : g.rows.length = m + 1
  length_cells : ∀ cells ∈ g.rows, cells.length = n + m + 1
  length_basis : g.basis.length = m
  basic_lt : ∀ basic ∈ g.basis, basic < n + m

namespace Tableau

theorem reaches_perform (t : Tableau α) (call : Call) : t.Reaches (t.perform call) := by
  cases call with
  | pivot row column => exact t.reaches_pivotAll [(row, column)]
  | run cap => exact (t.run_visits cap).reaches
  | _ => exact .refl

theorem reaches_foldl_perform (t : Tableau α) (calls : List Call) :
    t.Reaches (calls.foldl perform t) := by
  induction calls generalizing t with
  | nil => exact .refl
  | cons call calls ih => exact (t.reaches_perform call).trans (ih (t.perform call))

variable {t : Tableau α} {n m : Nat}

namespace HasShape

omit [Scalar α] in
theorem isRectangular_grid (h : t.HasShape n m) : t.grid.IsRectangular n m := by
  constructor
  case numVariables => exact h.numVariables
  case numConstraints => exact h.numConstraints
  case length_rows => rw [length_rows_grid, h.numConstraints]
  case length_cells =>
    intro cells hcells
    obtain ⟨i, hi⟩ := List.mem_iff_getElem?.mp hcells
    exact h.length_cells_grid hi
  case length_basis =>
    rw [grid, basis, List.length_map]
    exact h.numConstraints
  case basic_lt =>
    intro basic hbasic
    obtain ⟨e, he, rfl⟩ := List.mem_map.mp hbasic
    exact h.basic_lt e he

theorem exists_leavingRow? (h : t.HasShape n m) (column : Option Nat) :
    ∃ row, t.grid.leavingRow? column = some row := by
  cases column with
  | none => exact ⟨none, rfl⟩
  | some column =>
    by_cases hcolumn : column < n + m
    · exact ⟨_, h.leavingRow?_grid hcolumn⟩
    · have hbeyond : t.grid.rhsColumn ≤ column := h.rhsColumn_grid ▸ Nat.not_lt.mp hcolumn
      rw [Grid.leavingRow?, if_pos hbeyond]
      exact ⟨none, rfl⟩

/-- A call finds its cells, and what it leaves is the grid of the tableau after it. -/
theorem perform?_grid (h : t.HasShape n m) (write : α → String) (call : Call) :
    t.grid.perform? write call = some (t.perform call).grid := by
  cases call with
  | canImprove =>
    rw [Grid.perform?, h.canImprove?_grid]
    rfl
  | enteringColumn =>
    rw [Grid.perform?, h.enteringColumn?_grid]
    rfl
  | leavingRow column =>
    obtain ⟨row, hrow⟩ := h.exists_leavingRow? column
    rw [Grid.perform?, hrow]
    rfl
  | pivot row column =>
    rw [Grid.perform?, h.pivot?_grid, perform, pivotOrKeep]
    cases t.pivot row column with
    | ok after => rfl
    | error error => rfl
  | run cap =>
    rw [Grid.perform?, h.run?_grid]
    rfl
  | objectiveValue =>
    rw [Grid.perform?, h.objectiveValue?_grid]
    rfl
  | primalSolution =>
    rw [Grid.perform?, h.primalSolution?_grid]
    rfl
  | rhs =>
    rw [Grid.perform?, h.rhs?_grid]
    rfl
  | text =>
    rw [Grid.perform?, t.text?_grid]
    rfl

/-- So does a sequence of calls, since each keeps the shape. -/
theorem foldlM_perform?_grid (h : t.HasShape n m) (write : α → String) (calls : List Call) :
    calls.foldlM (Grid.perform? write) t.grid = some (calls.foldl perform t).grid := by
  induction calls generalizing t with
  | nil => rfl
  | cons call calls ih =>
    rw [List.foldlM_cons, h.perform?_grid]
    exact ih (h.reaches (t.reaches_perform call))

end HasShape

end Tableau

/-- No access is out of range, except that the check of the constraints, asked
about a problem with more rows than bounds, looks for a bound that is not there. -/
theorem Problem.indexes_in_range (write : α → String) (p : Problem α) :
    (∀ s : Solver α, s.solveByIndex? write p =
      some ((s.run p).map fun run => (s.solutionOf p run, run.final.grid))) ∧
    ((∃ defect, p.defect? = some defect ∧ Grid.ofProblem? p = some (.error defect)) ∨
      (Grid.ofProblem? p = some (.ok (Tableau.initial p).grid) ∧
        ∀ calls : List Call,
          calls.foldlM (Grid.perform? write) (Tableau.initial p).grid =
            some (calls.foldl Tableau.perform (Tableau.initial p)).grid ∧
          (calls.foldl Tableau.perform (Tableau.initial p)).grid.IsRectangular
            p.numVariables p.numConstraints)) ∧
    ∀ (x : List α) (tolerance : α),
      p.violationsByIndex? x tolerance = none ↔ p.b.length < p.a.length := by
  refine ⟨fun s => s.solveByIndex?_eq write p, ?_, ?_⟩
  · cases hdefect : p.defect? with
    | some defect =>
      refine Or.inl ⟨defect, rfl, ?_⟩
      rw [Grid.ofProblem?, hdefect]
    | none =>
      have hshape := Tableau.initial_hasShape (Problem.IsValid.canonical hdefect)
      refine Or.inr ⟨Grid.ofProblem?_of_isValid hdefect, fun calls => ?_⟩
      have hreaches := (Tableau.initial p).reaches_foldl_perform calls
      exact ⟨hshape.foldlM_perform?_grid write calls, (hshape.reaches hreaches).isRectangular_grid⟩
  · intro x tolerance
    rw [p.violationsByIndex?_eq, violations?, ite_eq_right_iff]
    simp only [reduceCtorEq, imp_false, Nat.not_le]

end LinearProgramming
