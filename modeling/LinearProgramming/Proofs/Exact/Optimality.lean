import LinearProgramming.Proofs.Answers
import LinearProgramming.Proofs.Exact.Feasibility
import LinearProgramming.Proofs.Violations

/-!
An optimal answer is optimal. When no reduced cost is negative, the objective
row writes the objective of every feasible point as the tableau's value minus a
nonnegative amount, so the basic solution is a best point. It also passes the
check of the constraints, whatever the tolerance: in exact arithmetic every
optimal answer is certified.
-/

namespace LinearProgramming

namespace Problem

variable {p : Problem ℚ} {x : List ℚ}

/-- A feasible point breaks nothing. -/
theorem violations_eq_nil (hx : p.IsFeasible x) {tolerance : ℚ} (htolerance : 0 ≤ tolerance) :
    p.violations x tolerance = [] := by
  rw [violations_eq_nil_iff]
  constructor
  · intro i row limit hrow hlimit
    have hle : Scalar.dot row x ≤ limit + tolerance := by
      linarith [hx.row_le i row limit hrow hlimit]
    exact not_lt.mpr hle
  · intro value hvalue
    have hle : -tolerance ≤ value := by
      linarith [hx.nonneg value hvalue]
    exact not_lt.mpr hle

end Problem

namespace Tableau

variable {t : Tableau ℚ} {p : Problem ℚ}

theorem objective_entry_nonneg (hoptimal : t.canImprove = false) (j : ℕ) :
    0 ≤ t.objective.entry j := by
  rcases lt_or_ge j t.objective.coeffs.length with hj | hj
  · rw [Row.entry_eq_getElem _ hj]
    exact not_lt.mp ((canImprove_eq_false_iff t).mp hoptimal _ (List.getElem_mem hj))
  · rw [Row.entry_eq_zero _ hj]

/-- Without negative reduced costs no solution with nonnegative entries has a
larger objective than the tableau. -/
theorem valueAt_le_of_optimal (hoptimal : t.canImprove = false) {z : ℕ → ℚ}
    (hz : ∀ j < t.objective.coeffs.length, 0 ≤ z j) : t.valueAt z ≤ t.objectiveValue := by
  have hlhs : 0 ≤ t.objective.lhs z := by
    apply Finset.sum_nonneg
    intro j hj
    exact mul_nonneg (objective_entry_nonneg hoptimal j) (hz j (Finset.mem_range.mp hj))
  rw [valueAt]
  linarith

theorem Represents.objectiveAt_le (hp : p.IsCanonical) (h : t.Represents p)
    (hoptimal : t.canImprove = false) {y : List ℚ} (hy : p.IsFeasible y) :
    p.objectiveAt y ≤ t.objectiveValue := by
  have hsolved := Problem.solvedBy_withSlacks hp hy.length
  calc p.objectiveAt y
      = p.objectiveAt (p.decisions (p.withSlacks y)) := by
        rw [Problem.decisions_withSlacks hy.length]
    _ = t.valueAt (p.withSlacks y) := by
        rw [Problem.objectiveAt_decisions, h.valueAt_eq _ hsolved]
    _ ≤ t.objectiveValue := by
        apply valueAt_le_of_optimal hoptimal
        rw [h.hasShape.length_costs]
        exact hy.withSlacks_nonneg hp

end Tableau

namespace Solver

/-- A valid problem has an answer, and if it is optimal its values are a best
feasible point, its objective is theirs, and it is certified. -/
theorem solve_optimal (s : Solver ℚ) {p : Problem ℚ} (hp : p.IsValid)
    (htolerance : 0 ≤ s.tolerance) : ∃ answer, s.solve p = .ok answer ∧
      (answer.status = .optimal →
        p.IsFeasible answer.values ∧
        answer.objectiveValue = some (p.objectiveAt answer.values) ∧
        (∀ y, p.IsFeasible y → p.objectiveAt y ≤ p.objectiveAt answer.values) ∧
        answer.violations = [] ∧ answer.isCertified = true) := by
  refine ⟨_, s.solve_eq hp, ?_⟩
  intro hstatus
  obtain ⟨houtcome, hanswer⟩ := solutionOf_of_optimal hstatus
  rw [hanswer]
  have hvisits := Tableau.run_visits (Tableau.initial p) s.maxIterations
  have hends := Tableau.run_endsAt (Tableau.initial p) s.maxIterations
  rw [houtcome] at hends
  generalize ((Tableau.initial p).run s.maxIterations).final = t at hvisits hends ⊢
  have hrepresents := Tableau.represents_of_reaches hp.canonical hvisits.reaches
  have hrhs := (Tableau.initial_hasNonnegRhs hp.canonical).visits hvisits
  obtain ⟨hfeasible, hvalue⟩ := hrepresents.primalSolution_feasible hp.canonical hrhs
  have hviolations := Problem.violations_eq_nil hfeasible htolerance
  have hoptimal : t.canImprove = false := by
    cases hends with
    | optimal hoptimal => exact hoptimal
  refine ⟨hfeasible, congrArg some hvalue.symm, ?_, hviolations, ?_⟩
  · intro y hy
    exact (hrepresents.objectiveAt_le hp.canonical hoptimal hy).trans_eq hvalue.symm
  · rw [hviolations]
    rfl

/-- Three constraints, two variables, and an optimum of 36. -/
def production : Problem ℚ :=
  ⟨[[1, 0], [0, 2], [3, 2]], [4, 12, 18], [3, 5]⟩

theorem solve_optimal_production : ∃ answer,
    (⟨10, 0⟩ : Solver ℚ).solve production = .ok answer ∧ answer.status = .optimal ∧
      production.IsFeasible answer.values ∧
      (∀ y, production.IsFeasible y →
        production.objectiveAt y ≤ production.objectiveAt answer.values) := by
  obtain ⟨answer, hanswer, hoptimal⟩ :=
    solve_optimal ⟨10, 0⟩ (p := production) (by decide +kernel) le_rfl
  have hstatus : ((⟨10, 0⟩ : Solver ℚ).solve production).toOption.map (·.status) =
      some .optimal := by
    decide +kernel
  rw [hanswer] at hstatus
  have hstatus' : answer.status = .optimal := Option.some.inj hstatus
  obtain ⟨hfeasible, -, hbest, -⟩ := hoptimal hstatus'
  exact ⟨answer, hanswer, hstatus', hfeasible, hbest⟩

end Solver

end LinearProgramming
