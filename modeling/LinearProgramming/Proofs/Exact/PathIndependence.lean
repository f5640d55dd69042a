import LinearProgramming.Proofs.Exact.InverseForm
import LinearProgramming.Proofs.Exact.Uniqueness

/-!
The way to a basis does not matter. Tableaux of a problem that are solved for the
same variables are the same system of equations, by whatever pivots they were
reached and in whatever order their rows stand. So a pivot can be taken back: the
variable that left its row enters there again, and only the pivot count shows
that anything has happened.
-/

namespace LinearProgramming

namespace Tableau

/-- The variables that the tableau is solved for, in no order. -/
def basicSet {α : Type} (t : Tableau α) : Finset ℕ :=
  t.basis.toFinset

/-- The same equation for each basic variable and the same objective row, so the
same basic solution with the same objective. -/
structure SameSystem (t u : Tableau ℚ) : Prop where
  objective : t.objective = u.objective
  row : ∀ e ∈ t.equations, ∀ f ∈ u.equations, e.basic = f.basic → e.row = f.row
  primalSolution : t.primalSolution = u.primalSolution
  objectiveValue : t.objectiveValue = u.objectiveValue

variable {t u after : Tableau ℚ} {p : Problem ℚ} {row column : ℕ} {e : Equation ℚ}

theorem mem_basis_iff_of_basicSet_eq (h : t.basicSet = u.basicSet) (j : ℕ) :
    j ∈ t.basis ↔ j ∈ u.basis := by
  rw [← List.mem_toFinset, ← List.mem_toFinset]
  exact iff_of_eq (congrArg (j ∈ ·) h)

theorem Represents.sameSystem (ht : t.Represents p) (hu : u.Represents p)
    (h : t.basicSet = u.basicSet) : t.SameSystem u := by
  have hbasis := mem_basis_iff_of_basicSet_eq h
  have hobjective : t.objective = u.objective := (ht.objective_eq_of_basis hu hbasis).symm
  constructor
  case objective => exact hobjective
  case row =>
    intro e he f hf hlabel
    exact (ht.row_eq hu hbasis he hf hlabel.symm).symm
  case primalSolution =>
    rw [primalSolution_eq_map ht.hasShape ht.hasUnitColumns,
      primalSolution_eq_map hu.hasShape hu.hasUnitColumns]
    apply List.map_congr_left
    intro j hj
    have hj' : j < p.numVariables + p.numConstraints :=
      (List.mem_range.mp hj).trans_le (Nat.le_add_right _ _)
    exact (ht.basicPoint_eq hu hbasis hj').symm
  case objectiveValue => exact congrArg Row.rhs hobjective

/-! ## Taking a pivot back -/

/-- The variable that has left a row has the inverse of the pivot element there,
so it can enter again. -/
theorem Represents.pivotsAt_back (h : t.Represents p) (hplace : t.PivotsAt row column e) :
    (t.exchange row column (e.row.divide (e.row.entry column))).PivotsAt row e.basic
      ⟨column, e.row.divide (e.row.entry column)⟩ := by
  have he : e ∈ t.equations := List.mem_of_getElem? hplace.equation
  have hvalue : e.row.entry column ≠ 0 := by
    simpa using hplace.nonzero
  have hentry : (e.row.divide (e.row.entry column)).entry e.basic = 1 / e.row.entry column := by
    rw [Row.entry_divide_exact, h.hasUnitColumns.entry_self he]
  constructor
  case equation =>
    exact exchange_getElem?_self t column _ (List.getElem?_eq_some_iff.mp hplace.equation).1
  case column_lt =>
    rw [width, exchange_numVariables, exchange_numConstraints, ← width, h.hasShape.width]
    exact h.hasShape.basic_lt e he
  case basic_ne => exact hplace.basic_ne.symm
  case nonzero =>
    dsimp only
    rw [hentry, beq_eq_false_iff_ne]
    exact one_div_ne_zero hvalue
  case finite => rfl

/-- The old variable is put where it was. -/
theorem basis_exchange_back (he : t.equations[row]? = some e) (pivotRow backRow : Row ℚ) :
    ((t.exchange row column pivotRow).exchange row e.basic backRow).basis = t.basis := by
  have hlabel : t.basis[row]? = some e.basic := by
    rw [basis, List.getElem?_map, he]
    rfl
  obtain ⟨hrow, hbasic⟩ := List.getElem?_eq_some_iff.mp hlabel
  rw [exchange_basis, exchange_basis, List.set_set, ← hbasic, List.set_getElem_self]

/-- With the pivot count nothing is left in which tableaux may differ. -/
theorem SameData.eq_of_iterations_eq (h : t.SameData u) (hcount : t.iterations = u.iterations) :
    t = u := by
  obtain ⟨numVariables, equations, objective, iterations⟩ := t
  obtain ⟨hnumVariables, hequations, hobjective⟩ := h
  dsimp only at hnumVariables hequations hobjective hcount
  rw [hnumVariables, hequations, hobjective, hcount]

theorem Represents.pivot_back (h : t.Represents p) (he : t.equations[row]? = some e)
    (hpivot : t.pivot row column = .ok after) :
    after.pivot row e.basic = .ok { t with iterations := t.iterations + 2 } := by
  obtain ⟨e', hplace, rfl⟩ := pivot_eq_ok_iff.mp hpivot
  cases he.symm.trans hplace.equation
  have hback := pivot_eq_ok_iff.mpr ⟨_, h.pivotsAt_back hplace, rfl⟩
  have hsame := ((h.pivot hpivot).pivot hback).sameData h (basis_exchange_back he _ _)
  rw [hback]
  refine congrArg Except.ok (SameData.eq_of_iterations_eq ?_ rfl)
  exact ⟨hsame.numVariables, hsame.equations, hsame.objective⟩

/-- Two sequences of pivots that lead to the same basic variables lead to the same
system, and to the same data if the variables stand in the same rows. A pivot is
undone by the pivot that brings back the variable it replaced. -/
theorem reaches_sameSystem (hp : p.IsValid) : ∃ start, ofProblem p = .ok start ∧
    (∀ t u, start.Reaches t → start.Reaches u →
      (t.basicSet = u.basicSet → t.SameSystem u) ∧ (t.basis = u.basis → t.SameData u)) ∧
    ∀ (t after : Tableau ℚ) (row column : ℕ) (e : Equation ℚ), start.Reaches t →
      t.equations[row]? = some e → t.pivot row column = .ok after →
        after.pivot row e.basic = .ok { t with iterations := t.iterations + 2 } := by
  have hrepresents : ∀ t, (initial p).Reaches t → t.Represents p :=
    fun t ht => represents_of_reaches hp.canonical ht
  refine ⟨initial p, hp.ofProblem, ?_, ?_⟩
  · intro t u ht hu
    exact ⟨(hrepresents t ht).sameSystem (hrepresents u hu),
      (hrepresents t ht).sameData (hrepresents u hu)⟩
  · intro t after row column e ht he hpivot
    exact (hrepresents t ht).pivot_back he hpivot

/-- Both variables enter, in the one order and in the other: the rows change
places, the system does not. The second of the pivots is then taken back. -/
theorem reaches_sameSystem_crossing : ∃ start before t u : Tableau ℚ,
    ofProblem crossing = .ok start ∧ start.Reaches before ∧ before.pivot 1 1 = .ok t ∧
    start.Reaches u ∧ t.basis = [0, 1] ∧ u.basis = [1, 0] ∧ t.SameSystem u ∧
    t.pivot 1 3 = .ok { before with iterations := 3 } := by
  obtain ⟨start, hstart, hsame, hback⟩ := reaches_sameSystem (p := crossing) (by decide +kernel)
  cases hstart
  have hbefore := reaches_pivotAll (initial crossing) [(0, 0)]
  have hu := reaches_pivotAll (initial crossing) [(0, 1), (1, 0)]
  have hcount : ((initial crossing).pivotAll [(0, 0)]).iterations = 1 := by decide +kernel
  have hslack : ((initial crossing).pivotAll [(0, 0)]).basis[1]? = some 3 := by decide +kernel
  have hbasis : (((initial crossing).pivotAll [(0, 0)]).pivot 1 1).toOption.map (·.basis) =
      some [0, 1] := by
    decide +kernel
  have hbasis' : ((initial crossing).pivotAll [(0, 1), (1, 0)]).basis = [1, 0] := by
    decide +kernel
  generalize (initial crossing).pivotAll [(0, 0)] = before at *
  rw [basis, List.getElem?_map, Option.map_eq_some_iff] at hslack
  obtain ⟨e, he, hbasic⟩ := hslack
  cases hpivot : before.pivot 1 1 with
  | error error =>
    rw [hpivot] at hbasis
    cases hbasis
  | ok t =>
    rw [hpivot] at hbasis
    have ht : t.basis = [0, 1] := Option.some.inj hbasis
    have hsets : t.basicSet = ((initial crossing).pivotAll [(0, 1), (1, 0)]).basicSet := by
      rw [basicSet, basicSet, ht, hbasis']
      decide
    have htaken := hback before t 1 1 e hbefore he hpivot
    rw [hbasic, hcount] at htaken
    exact ⟨_, before, t, _, rfl, hbefore, hpivot, hu, ht, hbasis',
      (hsame _ _ (.pivot hbefore hpivot) hu).1 hsets, htaken⟩

end Tableau

end LinearProgramming
