import LinearProgramming.Proofs.Exact.InverseForm
import LinearProgramming.Proofs.Exact.Uniqueness

/-!
Which pivots succeed. A pivot looks at one entry of the tableau, and in exact
arithmetic this entry is the factor by which the determinant of the basis matrix
changes when the column takes the place of the row's own. So the pivots that
succeed are the exchanges of bases: the place qualifies if and only if the
column is new and the exchanged columns of `[A | I]` are linearly independent.
-/

namespace LinearProgramming

open Matrix

namespace Tableau

/-- The columns of `[A | I]` that belong to the basis, in its order, with a column
in the place of a row's own. -/
def columnsWith (t : Tableau ℚ) (p : Problem ℚ) (row : Fin p.numConstraints) (column : ℕ) :
    Fin p.numConstraints → Fin p.numConstraints → ℚ :=
  Function.update (fun k => p.column (t.basis.getD k 0)) row (p.column column)

variable {t : Tableau ℚ} {p : Problem ℚ} {row : Fin p.numConstraints} {column : ℕ}
  {e : Equation ℚ}

/-! ## The pivot entry as a determinant -/

theorem columnsWith_eq_col (t : Tableau ℚ) (p : Problem ℚ) (row : Fin p.numConstraints)
    (column : ℕ) :
    t.columnsWith p row column = ((t.basisMatrix p).updateCol row (p.column column)).col := by
  funext k i
  rw [col_apply, updateCol_apply, columnsWith, Function.update_apply]
  split <;> rfl

/-- The inverse of the basis matrix takes every column of `[A | I]` to the column
of the tableau. -/
theorem Represents.slackBlock_mulVec_column (hp : p.IsCanonical) (h : t.Represents p)
    (hcolumn : column < p.numVariables + p.numConstraints) :
    t.slackBlock p *ᵥ p.column column =
      fun i : Fin p.numConstraints => (t.constraintRow i).entry column := by
  funext i
  obtain ⟨f, hf⟩ := h.hasShape.getElem?_equations i
  have hentry := h.slackPart_dotProduct_column hp (List.mem_of_getElem? hf) hcolumn
  rw [← constraintRow_eq hf] at hentry
  exact hentry

/-- The determinant of the exchanged basis matrix is that of the basis matrix, as
many times as the entry says. -/
theorem Represents.det_updateCol (hp : p.IsCanonical) (h : t.Represents p)
    (hcolumn : column < p.numVariables + p.numConstraints) :
    (t.slackBlock p).det * ((t.basisMatrix p).updateCol row (p.column column)).det =
      (t.constraintRow row).entry column := by
  rw [← det_mul, mul_updateCol, h.slackBlock_mul_basisMatrix hp,
    h.slackBlock_mulVec_column hp hcolumn, ← cramer_apply, cramer_one]
  rfl

theorem Represents.linearIndependent_columnsWith_iff (hp : p.IsCanonical) (h : t.Represents p)
    (hcolumn : column < p.numVariables + p.numConstraints) :
    LinearIndependent ℚ (t.columnsWith p row column) ↔
      (t.constraintRow row).entry column ≠ 0 := by
  have hinverse : (t.slackBlock p).det ≠ 0 := by
    intro hzero
    have hunit := congrArg det (h.slackBlock_mul_basisMatrix hp)
    rw [det_mul, hzero, zero_mul, det_one] at hunit
    exact zero_ne_one hunit
  rw [columnsWith_eq_col, linearIndependent_cols_iff_isUnit, isUnit_iff_isUnit_det,
    isUnit_iff_ne_zero, ← h.det_updateCol hp hcolumn, mul_ne_zero_iff_left hinverse]

/-! ## The answers of a pivot -/

theorem pivot_of_basic_eq (he : t.equations[(row : ℕ)]? = some e) (hcolumn : column < t.width)
    (hbasic : e.basic = column) : t.pivot row column = .error (.alreadyBasic row column) := by
  rw [pivot, he]
  simp only [if_neg (Nat.not_le.mpr hcolumn), if_pos hbasic]

theorem pivot_of_entry_eq_zero (he : t.equations[(row : ℕ)]? = some e)
    (hcolumn : column < t.width) (hbasic : e.basic ≠ column) (hzero : e.row.entry column = 0) :
    t.pivot row column = .error (.zeroPivot row column 0) := by
  rw [pivot, he]
  simp only [if_neg (Nat.not_le.mpr hcolumn), if_neg hbasic, hzero, BEq.rfl, Bool.true_or, if_true]

/-- In exact arithmetic every number is finite, so all that an entry has to be is
other than zero. -/
theorem exists_pivot_iff (he : t.equations[(row : ℕ)]? = some e) (hcolumn : column < t.width) :
    (∃ after, t.pivot row column = .ok after) ↔ e.basic ≠ column ∧ e.row.entry column ≠ 0 := by
  constructor
  · rintro ⟨after, hpivot⟩
    obtain ⟨f, hplace, -⟩ := pivot_eq_ok_iff.mp hpivot
    cases he.symm.trans hplace.equation
    exact ⟨hplace.basic_ne, beq_eq_false_iff_ne.mp hplace.nonzero⟩
  · rintro ⟨hbasic, hentry⟩
    exact ⟨_, pivot_eq_ok_iff.mpr
      ⟨e, ⟨he, hcolumn, hbasic, beq_eq_false_iff_ne.mpr hentry, rfl⟩, rfl⟩⟩

theorem getElem?_basis (he : t.equations[(row : ℕ)]? = some e) :
    t.basis[(row : ℕ)]? = some e.basic := by
  rw [basis, List.getElem?_map, he]
  rfl

/-- The column of another row's basic variable is zero here. -/
theorem Represents.entry_eq_zero_of_basic (h : t.Represents p)
    (he : t.equations[(row : ℕ)]? = some e) (hmem : column ∈ t.basis) (hbasic : e.basic ≠ column) :
    e.row.entry column = 0 := by
  rw [h.hasUnitColumns.entry_basic (List.mem_of_getElem? he) hmem, if_neg hbasic.symm]

/-- A pivot of a tableau that pivots have reached succeeds exactly if it exchanges
one basis for another. A column that is basic already is turned down, by its own
row as basic there and by the others for its zeros. -/
theorem pivot_isBasisExchange (hp : p.IsValid) : ∃ start, ofProblem p = .ok start ∧
    ∀ t, start.Reaches t → ∀ (row : Fin p.numConstraints) (column : ℕ),
      column < p.numVariables + p.numConstraints →
        ((∃ after, t.pivot row column = .ok after) ↔
          column ∉ t.basis ∧ LinearIndependent ℚ (t.columnsWith p row column)) ∧
        (t.basis[(row : ℕ)]? = some column →
          t.pivot row column = .error (.alreadyBasic row column)) ∧
        ∀ other, other ≠ (row : ℕ) → t.basis[other]? = some column →
          t.pivot row column = .error (.zeroPivot row column 0) := by
  refine ⟨initial p, hp.ofProblem, ?_⟩
  intro t hreaches row column hcolumn
  have h := represents_of_reaches hp.canonical hreaches
  obtain ⟨e, he⟩ := h.hasShape.getElem?_equations row
  have hwidth : column < t.width := by rwa [h.hasShape.width]
  refine ⟨?_, ?_, ?_⟩
  · rw [exists_pivot_iff he hwidth, h.linearIndependent_columnsWith_iff hp.canonical hcolumn,
      constraintRow_eq he]
    refine and_congr_left fun hentry => not_congr ?_
    constructor
    · rintro rfl
      exact List.mem_map_of_mem (List.mem_of_getElem? he)
    · intro hmem
      by_contra hbasic
      exact hentry (h.entry_eq_zero_of_basic he hmem hbasic)
  · intro hbasic
    rw [getElem?_basis he, Option.some.injEq] at hbasic
    exact pivot_of_basic_eq he hwidth hbasic
  · intro other hother hmem
    have hbasic : e.basic ≠ column := by
      rintro rfl
      obtain ⟨f, hf, hlabel⟩ := Option.map_eq_some_iff.mp (List.getElem?_map ▸ hmem)
      exact hother (h.hasUnitColumns.basic_injective hf he hlabel)
    exact pivot_of_entry_eq_zero he hwidth hbasic
      (h.entry_eq_zero_of_basic he (List.mem_of_getElem? hmem) hbasic)

/-- Two constraints in which the second variable has twice the column of the first. -/
def parallel : Problem ℚ :=
  ⟨[[1, 2], [2, 4]], [4, 8], [1, 1]⟩

/-- The first variable is basic. The second may take its place, but not stand
beside it: it is not basic, and yet its entry in the other row is zero. -/
theorem pivot_isBasisExchange_parallel : ∃ start t, ofProblem parallel = .ok start ∧
    start.Reaches t ∧ t.basis = [0, 3] ∧
    (∃ after, t.pivot 0 1 = .ok after) ∧
    LinearIndependent ℚ (t.columnsWith parallel ⟨0, by decide⟩ 1) ∧
    ¬LinearIndependent ℚ (t.columnsWith parallel ⟨1, by decide⟩ 1) ∧
    t.pivot 0 0 = .error (.alreadyBasic 0 0) ∧ t.pivot 1 0 = .error (.zeroPivot 1 0 0) := by
  obtain ⟨start, hstart, hexchange⟩ := pivot_isBasisExchange (p := parallel) (by decide +kernel)
  cases hstart
  have hreaches := reaches_pivotAll (initial parallel) [(0, 0)]
  have hbasis : ((initial parallel).pivotAll [(0, 0)]).basis = [0, 3] := by decide +kernel
  have hsucceeds : (((initial parallel).pivotAll [(0, 0)]).pivot 0 1).toBool = true := by
    decide +kernel
  have hfails : (((initial parallel).pivotAll [(0, 0)]).pivot 1 1).toBool = false := by
    decide +kernel
  generalize (initial parallel).pivotAll [(0, 0)] = t at *
  have hplace : ∃ after, t.pivot 0 1 = .ok after := by
    cases hpivot : t.pivot 0 1 with
    | error error =>
      rw [hpivot] at hsucceeds
      cases hsucceeds
    | ok after => exact ⟨after, rfl⟩
  have hentering := hexchange t hreaches ⟨0, by decide⟩ 1 (by decide)
  have hbeside := hexchange t hreaches ⟨1, by decide⟩ 1 (by decide)
  have hbasic := hexchange t hreaches ⟨0, by decide⟩ 0 (by decide)
  have hother := hexchange t hreaches ⟨1, by decide⟩ 0 (by decide)
  refine ⟨_, t, rfl, hreaches, hbasis, hplace, (hentering.1.mp hplace).2, ?_,
    hbasic.2.1 (by rw [hbasis]; rfl), hother.2.2 0 (by decide) (by rw [hbasis]; rfl)⟩
  intro hindependent
  obtain ⟨after, hpivot⟩ := hbeside.1.mpr ⟨by rw [hbasis]; decide, hindependent⟩
  rw [hpivot] at hfails
  cases hfails

end Tableau

end LinearProgramming
