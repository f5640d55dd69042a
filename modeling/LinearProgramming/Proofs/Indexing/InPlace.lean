import LinearProgramming.Proofs.Indexing.Moves
import Mathlib.Data.Option.NAry

/-!
A pivot in place. The place is tested first; then the cells are overwritten one
after the other, those of the pivot row before all others, and a row is cleared
with the multiple that its pivot column held before the row was touched.

A call leaves a grid, whether it succeeds or not. If it is refused, for the first
reason that there is, the grid is the old one; otherwise every cell of it is given
by the cells of the old one. Both hold in any arithmetic.
-/

namespace LinearProgramming

variable {α : Type}

/-! ## Work on a grid -/

/-- Work on a grid. What it has written when it gives up stays written; an access out of
range ends it without any result. -/
abbrev Edit (α : Type) := ExceptT (PivotError α) (StateT (Grid α) Option)

namespace Edit

variable {β γ : Type}

/-- The answer of the work, and the grid as the work leaves it. -/
def run? (work : Edit α β) (g : Grid α) : Option (Except (PivotError α) β × Grid α) :=
  StateT.run (ExceptT.run work) g

def read? (look : Grid α → Option β) : Edit α β :=
  ExceptT.mk fun g => (look g).map fun value => (.ok value, g)

def write? (change : Grid α → Option (Grid α)) : Edit α Unit :=
  ExceptT.mk fun g => (change g).map fun after => (.ok (), after)

variable {g after : Grid α}

theorem run?_bind {work : Edit α β} {value : β} (h : run? work g = some (.ok value, after))
    (next : β → Edit α γ) : run? (work >>= next) g = run? (next value) after := by
  simp only [run?, ExceptT.run_bind, StateT.run_bind] at h ⊢
  rw [h]
  rfl

theorem run?_get_bind (next : Grid α → Edit α γ) : run? (get >>= next) g = run? (next g) g := rfl

theorem run?_read_bind {look : Grid α → Option β} {value : β} (h : look g = some value)
    (next : β → Edit α γ) : run? (read? look >>= next) g = run? (next value) g := by
  have hread : run? (read? look) g = some (.ok value, g) := congrArg (Option.map _) h
  exact run?_bind hread next

theorem run?_write {change : Grid α → Option (Grid α)} (h : change g = some after) :
    run? (write? change) g = some (.ok (), after) :=
  congrArg (Option.map _) h

theorem run?_write_bind {change : Grid α → Option (Grid α)} (h : change g = some after)
    (next : Unit → Edit α γ) : run? (write? change >>= next) g = run? (next ()) after :=
  run?_bind (run?_write h) next

end Edit

variable [Scalar α]

namespace Grid

/-! ## The program -/

def divideInPlace? (divisor : α) (cells : List α) : Option (List α) :=
  changeAll? cells fun _ old => some (old / divisor)

/-- Subtracts the multiple of the pivot row that clears the column, cell by cell. -/
def clearInPlace? (column : Nat) (pivotCells cells : List α) : Option (List α) := do
  -- Read once: the loop comes to the cell of the column, too.
  let factor ← cells[column]?
  if factor == 0 then
    return cells
  else
    changeAll? cells fun j value => do
      let pivot ← pivotCells[j]?
      return value - factor * pivot

def divideRow? (row : Nat) (divisor : α) (g : Grid α) : Option (Grid α) := do
  let rows ← changeAt? g.rows row (divideInPlace? divisor)
  return { g with rows }

/-- Clears the column in all rows but one, those of the constraints first. -/
def clearOthers? (row column : Nat) (pivotCells : List α) (g : Grid α) : Option (Grid α) := do
  let rows ← changeAll? g.rows fun i cells =>
    if i = row then some cells else clearInPlace? column pivotCells cells
  return { g with rows }

def makeBasic? (row column : Nat) (g : Grid α) : Option (Grid α) := do
  let basis ← writeAt? g.basis row column
  return { g with basis }

/-- Tests the place, then divides the pivot row, clears all other rows with a copy of it,
enters the column into the basis and counts itself. -/
def pivotInPlace (row column : Nat) : Edit α Unit := do
  let g ← get
  if g.numConstraints ≤ row then
    throw (.rowOutOfRange row g.numConstraints)
  else if g.rhsColumn ≤ column then
    throw (.columnOutOfRange column g.rhsColumn)
  else
    let basic ← Edit.read? fun g => g.basis[row]?
    if basic = column then
      throw (.alreadyBasic row column)
    else
      let value ← Edit.read? fun g => g.cell? row column
      if value == 0 || !Scalar.isFinite value then
        throw (.zeroPivot row column value)
      else
        Edit.write? (divideRow? row value)
        let pivotCells ← Edit.read? fun g => g.rows[row]?
        Edit.write? (clearOthers? row column pivotCells)
        Edit.write? (makeBasic? row column)
        Edit.write? fun g => some { g with iterations := g.iterations + 1 }

/-! ## What it has to do -/

/-- Why a place does not qualify. A reason counts only if those before it do not. -/
inductive Refuses (g : Grid α) (row column : Nat) : PivotError α → Prop
  | rowOutOfRange (hrow : g.numConstraints ≤ row) :
    Refuses g row column (.rowOutOfRange row g.numConstraints)
  | columnOutOfRange (hrow : row < g.numConstraints) (hcolumn : g.rhsColumn ≤ column) :
    Refuses g row column (.columnOutOfRange column g.rhsColumn)
  | alreadyBasic (hrow : row < g.numConstraints) (hcolumn : column < g.rhsColumn)
    (hbasic : g.basis[row]? = some column) : Refuses g row column (.alreadyBasic row column)
  | zeroPivot {value : α} (hrow : row < g.numConstraints) (hcolumn : column < g.rhsColumn)
    (hbasic : g.basis[row]? ≠ some column) (hvalue : g.cell? row column = some value)
    (hunfit : (value == 0) = true ∨ Scalar.isFinite value = false) :
    Refuses g row column (.zeroPivot row column value)

/-- The grid after a pivot on `value`, in terms of the cells of the grid before. -/
structure IsExchange (g after : Grid α) (row column : Nat) (value : α) : Prop where
  numVariables : after.numVariables = g.numVariables
  numConstraints : after.numConstraints = g.numConstraints
  iterations : after.iterations = g.iterations + 1
  basis : after.basis = g.basis.set row column
  length_rows : after.rows.length = g.rows.length
  divided : ∀ j, after.cell? row j = (g.cell? row j).map (· / value)
  kept : ∀ i factor, i ≠ row → g.cell? i column = some factor → (factor == 0) = true →
    after.rows[i]? = g.rows[i]?
  cleared : ∀ i factor, i ≠ row → g.cell? i column = some factor → (factor == 0) = false →
    ∀ j, after.cell? i j =
      Option.map₂ (fun old pivot => old - factor * pivot) (g.cell? i j) (after.cell? row j)

/-! ## One row -/

variable {column : Nat} {pivotCells cells : List α} {factor : α}

theorem clear?_of_zero (hfactor : cells[column]? = some factor) (hzero : (factor == 0) = true) :
    clear? column pivotCells cells = some cells := by
  simp [clear?, hfactor, hzero]

theorem clear?_of_nonzero (hfactor : cells[column]? = some factor)
    (hnonzero : (factor == 0) = false) : clear? column pivotCells cells =
      some (List.zipWith (fun value pivot => value - factor * pivot) cells pivotCells) := by
  simp [clear?, hfactor, hnonzero]

theorem divideInPlace?_cells (r : Row α) (divisor : α) :
    divideInPlace? divisor r.cells = some (r.divide divisor).cells := by
  rw [divideInPlace?, Row.cells_divide]
  apply changeAll?_eq_some (List.length_map _)
  intro j old hold
  rw [List.getElem?_map, hold]
  rfl

/-- The loop over the cells reads each of them before it writes it. -/
theorem clearInPlace?_eq_clear? (column : Nat) (hlength : pivotCells.length = cells.length) :
    clearInPlace? column pivotCells cells = clear? column pivotCells cells := by
  unfold clearInPlace? clear?
  congr 1
  funext factor
  split
  · rfl
  · apply changeAll?_eq_some
    · simp [hlength]
    · intro j old hold
      have hj : j < pivotCells.length := hlength ▸ (List.getElem?_eq_some_iff.mp hold).1
      simp [List.getElem?_zipWith, hold, List.getElem?_eq_getElem hj]

end Grid

namespace Tableau

variable {t : Tableau α} {n m row column : Nat} {e : Equation α}

/-! ## Refusals -/

/-- Whatever the reason for a refusal, nothing has been written by then. -/
theorem run?_pivotInPlace_of_refuses {error : PivotError α}
    (hrefuses : t.grid.Refuses row column error) :
    Edit.run? (Grid.pivotInPlace row column) t.grid = some (.error error, t.grid) := by
  rw [Grid.pivotInPlace, Edit.run?_get_bind]
  cases hrefuses with
  | rowOutOfRange hrow =>
    rw [if_pos hrow]
    rfl
  | columnOutOfRange hrow hcolumn =>
    rw [if_neg (Nat.not_le.mpr hrow), if_pos hcolumn]
    rfl
  | alreadyBasic hrow hcolumn hbasic =>
    rw [if_neg (Nat.not_le.mpr hrow), if_neg (Nat.not_le.mpr hcolumn),
      Edit.run?_read_bind hbasic, if_pos rfl]
    rfl
  | zeroPivot hrow hcolumn hbasic hvalue hunfit =>
    have he : t.equations[row]? = some t.equations[row] := List.getElem?_eq_getElem hrow
    rw [getElem?_basis_grid he] at hbasic
    have hother : t.equations[row].basic ≠ column := fun hsame => hbasic (congrArg some hsame)
    rw [if_neg (Nat.not_le.mpr hrow), if_neg (Nat.not_le.mpr hcolumn),
      Edit.run?_read_bind (getElem?_basis_grid he), if_neg hother, Edit.run?_read_bind hvalue,
      if_pos (by simpa using hunfit)]
    rfl

/-! ## The exchange -/

omit [Scalar α] in
theorem getElem?_set_rows_grid (cells : List α) (hrow : row < t.numConstraints) :
    (t.grid.rows.set row cells)[row]? = some cells := by
  apply List.getElem?_set_self
  rw [length_rows_grid]
  exact Nat.lt_succ_of_lt hrow

theorem divideRow?_grid (he : t.equations[row]? = some e) (divisor : α) :
    Grid.divideRow? row divisor t.grid =
      some { t.grid with rows := t.grid.rows.set row (e.row.divide divisor).cells } := by
  have hrows := changeAt?_eq_some (getElem?_rows_grid he)
    (Grid.divideInPlace?_cells e.row divisor)
  simp only [Grid.divideRow?, hrows, Option.bind_eq_bind, Option.bind_some]
  rfl

theorem makeBasic?_grid (hrow : row < t.numConstraints) (column : Nat) (pivotRow : Row α) :
    Grid.makeBasic? row column
      { t.grid with rows := (t.exchange row column pivotRow).grid.rows } =
        some { t.grid with
          rows := (t.exchange row column pivotRow).grid.rows
          basis := (t.exchange row column pivotRow).grid.basis } := by
  simp only [Grid.makeBasic?, writeAt?_basis_grid hrow column pivotRow, Option.bind_eq_bind,
    Option.bind_some]
  rfl

namespace HasShape

/-- The pivot row is passed over, and all others are cleared. -/
theorem clearOthers?_grid (h : t.HasShape n m) {pivotRow : Row α}
    (hpivotRow : pivotRow.coeffs.length = n + m) (hrow : row < t.numConstraints)
    (hcolumn : column < n + m) : Grid.clearOthers? row column pivotRow.cells
      { t.grid with rows := t.grid.rows.set row pivotRow.cells } =
        some { t.grid with rows := (t.exchange row column pivotRow).grid.rows } := by
  have hrows : changeAll? (t.grid.rows.set row pivotRow.cells) (fun i cells =>
      if i = row then some cells else Grid.clearInPlace? column pivotRow.cells cells) =
        some (t.exchange row column pivotRow).grid.rows := by
    apply changeAll?_eq_some
    · rw [length_rows_grid, List.length_set, length_rows_grid, exchange_numConstraints]
    · intro i cells hcells
      by_cases hi : i = row
      · subst hi
        rw [getElem?_set_rows_grid _ hrow] at hcells
        rw [if_pos rfl, ← hcells,
          getElem?_rows_grid (t.exchange_getElem?_self column pivotRow hrow)]
      · rw [List.getElem?_set_ne (Ne.symm hi)] at hcells
        have hlength : pivotRow.cells.length = cells.length := by
          rw [Row.length_cells, hpivotRow, h.length_cells_grid hcells]
        rw [if_neg hi, Grid.clearInPlace?_eq_clear? column hlength]
        exact h.clear?_grid hpivotRow hcolumn hi hcells
  simp only [Grid.clearOthers?, hrows, Option.bind_eq_bind, Option.bind_some]
  rfl

theorem isExchange_grid (h : t.HasShape n m) (he : t.equations[row]? = some e)
    (hcolumn : column < n + m) (value : α) :
    t.grid.IsExchange (t.exchange row column (e.row.divide value)).grid row column value := by
  have hrow : row < t.numConstraints := (List.getElem?_eq_some_iff.mp he).1
  have hpivotRow : (e.row.divide value).coeffs.length = n + m := by
    rw [Row.length_divide, h.length_coeffs e (List.mem_of_getElem? he)]
  have hcells := e.row.cells_divide value
  generalize e.row.divide value = pivotRow at hpivotRow hcells ⊢
  have hself : (t.exchange row column pivotRow).grid.rows[row]? = some pivotRow.cells :=
    getElem?_rows_grid (t.exchange_getElem?_self column pivotRow hrow)
  have hother : ∀ (i : Nat) (factor : α), i ≠ row → t.grid.cell? i column = some factor →
      ∃ cells, t.grid.rows[i]? = some cells ∧ cells[column]? = some factor ∧
        (t.exchange row column pivotRow).grid.rows[i]? =
          Grid.clear? column pivotRow.cells cells := by
    intro i factor hi hfactor
    obtain ⟨cells, hold, hfactor⟩ := Option.bind_eq_some_iff.mp hfactor
    exact ⟨cells, hold, hfactor, (h.clear?_grid hpivotRow hcolumn hi hold).symm⟩
  constructor
  case numVariables => rfl
  case numConstraints => exact t.exchange_numConstraints row column pivotRow
  case iterations => rfl
  case basis => exact t.exchange_basis row column pivotRow
  case length_rows => rw [length_rows_grid, length_rows_grid, exchange_numConstraints]
  case divided =>
    intro j
    simp [Grid.cell?, hself, getElem?_rows_grid he, hcells]
  case kept =>
    intro i factor hi hfactor hzero
    obtain ⟨cells, hold, hfactor, hnew⟩ := hother i factor hi hfactor
    rw [hnew, hold]
    exact Grid.clear?_of_zero hfactor hzero
  case cleared =>
    intro i factor hi hfactor hnonzero j
    obtain ⟨cells, hold, hfactor, hnew⟩ := hother i factor hi hfactor
    rw [Grid.clear?_of_nonzero hfactor hnonzero] at hnew
    simp only [Grid.cell?, hnew, hold, hself, Option.bind_eq_bind, Option.bind_some,
      List.getElem?_zipWith]
    cases cells[j]? <;> cases pivotRow.cells[j]? <;> rfl

/-! ## The call -/

/-- The writes, one after the other, make the grid that an exchange makes of new rows. -/
theorem run?_pivotInPlace_of_pivotsAt (h : t.HasShape n m) (hplace : t.PivotsAt row column e) :
    Edit.run? (Grid.pivotInPlace row column) t.grid =
      some (.ok (), (t.exchange row column (e.row.divide (e.row.entry column))).grid) := by
  have he := hplace.equation
  have hrow : row < t.numConstraints := (List.getElem?_eq_some_iff.mp he).1
  have hcolumn : column < n + m := h.width ▸ hplace.column_lt
  have hpivotRow : (e.row.divide (e.row.entry column)).coeffs.length = n + m := by
    rw [Row.length_divide, h.length_coeffs e (List.mem_of_getElem? he)]
  have hinside : ¬t.grid.numConstraints ≤ row := Nat.not_le.mpr hrow
  have hbefore : ¬t.grid.rhsColumn ≤ column := Nat.not_le.mpr hplace.column_lt
  have hfits : ¬(e.row.entry column == 0 || !Scalar.isFinite (e.row.entry column)) = true := by
    simp [hplace.nonzero, hplace.finite]
  rw [Grid.pivotInPlace, Edit.run?_get_bind, if_neg hinside, if_neg hbefore,
    Edit.run?_read_bind (getElem?_basis_grid he), if_neg hplace.basic_ne,
    Edit.run?_read_bind (h.cell?_grid he hcolumn), if_neg hfits,
    Edit.run?_write_bind (divideRow?_grid he _),
    Edit.run?_read_bind (getElem?_set_rows_grid _ hrow),
    Edit.run?_write_bind (h.clearOthers?_grid hpivotRow hrow hcolumn),
    Edit.run?_write_bind (makeBasic?_grid hrow column _)]
  exact Edit.run?_write (congrArg some (t.grid_exchange row column _))

/-! ## The answer -/

theorem refuses_of_pivot_eq_error (h : t.HasShape n m) {error : PivotError α}
    (herror : t.pivot row column = .error error) : t.grid.Refuses row column error := by
  rw [Tableau.pivot] at herror
  cases he : t.equations[row]? with
  | none =>
    rw [he] at herror
    cases herror
    exact .rowOutOfRange (List.getElem?_eq_none_iff.mp he)
  | some e =>
    have hrow : row < t.grid.numConstraints := (List.getElem?_eq_some_iff.mp he).1
    simp only [he] at herror
    split_ifs at herror with hwidth hbasic hvalue
    · cases herror
      exact .columnOutOfRange hrow hwidth
    · cases herror
      exact .alreadyBasic hrow (Nat.not_le.mp hwidth) (hbasic ▸ getElem?_basis_grid he)
    · cases herror
      have hcolumn : column < n + m := h.width ▸ Nat.not_le.mp hwidth
      refine .zeroPivot hrow (Nat.not_le.mp hwidth) ?_ (h.cell?_grid he hcolumn) ?_
      · rw [getElem?_basis_grid he]
        exact fun hsame => hbasic (Option.some.inj hsame)
      · simpa using hvalue

theorem pivot_eq_error_of_refuses (h : t.HasShape n m) {error : PivotError α}
    (hrefuses : t.grid.Refuses row column error) : t.pivot row column = .error error := by
  have hequation : row < t.grid.numConstraints → ∃ e, t.equations[row]? = some e :=
    fun hrow => ⟨_, List.getElem?_eq_getElem hrow⟩
  rw [Tableau.pivot]
  cases hrefuses with
  | rowOutOfRange hrow =>
    rw [List.getElem?_eq_none hrow]
    rfl
  | columnOutOfRange hrow hcolumn =>
    obtain ⟨e, he⟩ := hequation hrow
    simp only [he]
    exact if_pos hcolumn
  | alreadyBasic hrow hcolumn hbasic =>
    obtain ⟨e, he⟩ := hequation hrow
    rw [getElem?_basis_grid he] at hbasic
    have hinside : ¬t.width ≤ column := Nat.not_le.mpr hcolumn
    simp only [he, if_neg hinside]
    exact if_pos (Option.some.inj hbasic)
  | zeroPivot hrow hcolumn hbasic hvalue hunfit =>
    obtain ⟨e, he⟩ := hequation hrow
    rw [getElem?_basis_grid he] at hbasic
    rw [h.cell?_grid he (h.width ▸ hcolumn)] at hvalue
    cases hvalue
    have hinside : ¬t.width ≤ column := Nat.not_le.mpr hcolumn
    have hother : e.basic ≠ column := fun hsame => hbasic (congrArg some hsame)
    simp only [he, if_neg hinside, if_neg hother]
    exact if_pos (by simpa using hunfit)

/-- The tests come in the order in which the reasons count. -/
theorem pivot_eq_error_iff (h : t.HasShape n m) {error : PivotError α} :
    t.pivot row column = .error error ↔ t.grid.Refuses row column error :=
  ⟨h.refuses_of_pivot_eq_error, h.pivot_eq_error_of_refuses⟩

end HasShape

variable {p : Problem α}

/-- A pivot is refused exactly if there is a reason, with the first one, and then the
grid is the old one. Otherwise it succeeds, and the grid is the old one exchanged at
the place. -/
theorem pivot_atomic (hp : p.IsValid) : ∃ start, ofProblem p = .ok start ∧
    ∀ t, start.Reaches t → ∀ row column,
      (∀ error, t.pivot row column = .error error ↔ t.grid.Refuses row column error) ∧
      (∀ error, t.grid.Refuses row column error →
        Edit.run? (Grid.pivotInPlace row column) t.grid = some (.error error, t.grid)) ∧
      ((∀ error, ¬t.grid.Refuses row column error) → ∃ value after,
        t.grid.cell? row column = some value ∧ t.pivot row column = .ok after ∧
        Edit.run? (Grid.pivotInPlace row column) t.grid = some (.ok (), after.grid) ∧
        t.grid.IsExchange after.grid row column value) := by
  refine ⟨initial p, hp.ofProblem, ?_⟩
  intro t hreaches row column
  have hshape := (initial_hasShape hp.canonical).reaches hreaches
  refine ⟨fun error => hshape.pivot_eq_error_iff, ?_, ?_⟩
  · intro error hrefuses
    exact run?_pivotInPlace_of_refuses hrefuses
  · intro hfits
    cases hpivot : t.pivot row column with
    | error error => exact absurd (hshape.pivot_eq_error_iff.mp hpivot) (hfits error)
    | ok after =>
      obtain ⟨e, hplace, rfl⟩ := pivot_eq_ok_iff.mp hpivot
      have hcolumn := hshape.width ▸ hplace.column_lt
      exact ⟨e.row.entry column, _, hshape.cell?_grid hplace.equation hcolumn, rfl,
        hshape.run?_pivotInPlace_of_pivotsAt hplace,
        hshape.isExchange_grid hplace.equation hcolumn _⟩

/-- Exchanged at its first place, the second row holds infinities. -/
def exploding : Problem Float :=
  ⟨[[1e-200], [1e200]], [1, 1], [1]⟩

/-- The first pivot succeeds. Then an infinity is refused, and a place beyond all rows
and columns is refused for its row. -/
theorem pivot_atomic_exploding : exploding.IsValid ∧
    ∃ start after value infinity, ofProblem exploding = .ok start ∧
      start.pivot 0 0 = .ok after ∧ start.grid.IsExchange after.grid 0 0 value ∧
      Edit.run? (Grid.pivotInPlace 0 0) start.grid = some (.ok (), after.grid) ∧
      after.grid.Refuses 1 1 (.zeroPivot 1 1 infinity) ∧ infinity.isInf = true ∧
      Edit.run? (Grid.pivotInPlace 1 1) after.grid =
        some (.error (.zeroPivot 1 1 infinity), after.grid) ∧
      after.pivot 9 9 = .error (.rowOutOfRange 9 2) := by
  have hp : exploding.IsValid := by decide +kernel
  obtain ⟨start, hstart, hreached⟩ := pivot_atomic hp
  cases hp.ofProblem.symm.trans hstart
  have hrefused : ((initial exploding).pivot 0 0).toOption.map (fun after =>
      match after.pivot 1 1 with
      | .error (.zeroPivot 1 1 value) => value.isInf
      | _ => false) = some true := by
    decide +kernel
  cases hpivot : (initial exploding).pivot 0 0 with
  | error error =>
    rw [hpivot] at hrefused
    cases hrefused
  | ok after =>
    rw [hpivot] at hrefused
    have hinfinity := Option.some.inj hrefused
    dsimp only at hinfinity
    split at hinfinity
    · rename_i infinity herror
      have hfits : ∀ error, ¬(initial exploding).grid.Refuses 0 0 error := by
        intro error hrefuses
        cases hpivot.symm.trans (((hreached _ .refl 0 0).1 error).mpr hrefuses)
      obtain ⟨value, after', -, hpivot', hwritten, hexchange⟩ :=
        (hreached _ .refl 0 0).2.2 hfits
      cases hpivot.symm.trans hpivot'
      have hafter := hreached after (.pivot .refl hpivot)
      have hinfinite := ((hafter 1 1).1 _).mp herror
      have hrows : after.grid.numConstraints = 2 := hexchange.numConstraints
      have hbeyond : after.grid.Refuses 9 9 (.rowOutOfRange 9 after.grid.numConstraints) :=
        .rowOutOfRange (by omega)
      rw [hrows] at hbeyond
      exact ⟨hp, _, after, value, infinity, hstart, hpivot, hexchange, hwritten, hinfinite,
        hinfinity, (hafter 1 1).2.1 _ hinfinite, ((hafter 9 9).1 _).mpr hbeyond⟩
    · cases hinfinity

end Tableau

end LinearProgramming
