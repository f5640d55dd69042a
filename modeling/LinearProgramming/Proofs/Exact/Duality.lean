import LinearProgramming.Proofs.Exact.InverseForm
import LinearProgramming.Proofs.Exact.Optimality

/-!
The final tableau of an optimal run proves that it is optimal. Its objective row
holds a dual solution in the slack columns and the reduced costs in the decision
columns. That neither is negative is what the search for an improving column
found, in all columns, those of the slacks included. That the objectives agree
and that the slackness is complementary holds at every tableau, since a variable
is zero or has no reduced cost.
-/

namespace LinearProgramming

open Matrix

namespace Problem

/-- The feasible point `x` and the dual solution `y` prove each other optimal:
`y ≥ 0` and `y A ≥ c`, both have the same objective, and no slack and no excess
of a column stands beside a positive variable. -/
structure IsDualCertificate (p : Problem ℚ) (x : List ℚ) (y : Fin p.numConstraints → ℚ)
    (value : ℚ) : Prop where
  feasible : p.IsFeasible x
  nonneg : ∀ i, 0 ≤ y i
  costs_le : ∀ j, p.costs j ≤ (y ᵥ* p.matrix) j
  dual_value : p.limits ⬝ᵥ y = value
  primal_value : p.objectiveAt x = value
  slack : ∀ i, y i * (p.limits - p.matrix *ᵥ p.vector x) i = 0
  excess : ∀ j, p.vector x j * ((y ᵥ* p.matrix) j - p.costs j) = 0

end Problem

namespace Tableau

variable {t : Tableau ℚ} {p : Problem ℚ}

/-- A variable is zero or has no reduced cost. -/
theorem objective_entry_mul_basicPoint (h : t.HasUnitColumns) (j : ℕ) :
    t.objective.entry j * t.basicPoint j = 0 := by
  by_cases hbasic : j ∈ t.basis
  · obtain ⟨e, he, rfl⟩ := List.mem_map.mp hbasic
    rw [h.reduced_cost_eq_zero he, zero_mul]
  · rw [basicPoint_of_not_basic hbasic, mul_zero]

/-- What the basic solution leaves of the bounds are its slacks. -/
theorem Represents.limits_sub_mulVec (hp : p.IsCanonical) (h : t.Represents p) :
    p.limits - p.matrix *ᵥ p.vector t.primalSolution = p.slackPart t.basicPoint := by
  have hvalues : t.primalSolution = p.decisions t.basicPoint :=
    primalSolution_eq_map h.hasShape h.hasUnitColumns
  have hsolved : p.SolvedBy t.basicPoint :=
    (h.holdsAt_iff _).mp (holdsAt_basicPoint h.hasShape h.hasUnitColumns)
  rw [hvalues, Problem.vector_decisions, ← (Problem.solvedBy_iff_mulVec hp _).mp hsolved,
    add_sub_cancel_left]

theorem Represents.isDualCertificate (hp : p.IsCanonical) (h : t.Represents p)
    (hrhs : t.HasNonnegRhs) (hoptimal : t.canImprove = false) :
    p.IsDualCertificate t.primalSolution (t.slackCosts p) t.objectiveValue := by
  obtain ⟨hfeasible, hvalue⟩ := h.primalSolution_feasible hp hrhs
  have hinverse := h.hasInverseForm hp
  have hreduced : ∀ j, (t.slackCosts p ᵥ* p.matrix) j - p.costs j = t.objective.entry j := by
    intro j
    exact (congrFun hinverse.decisionCosts_eq j).symm
  constructor
  case feasible => exact hfeasible
  case nonneg => exact fun i => objective_entry_nonneg hoptimal _
  case costs_le =>
    intro j
    rw [← sub_nonneg, hreduced]
    exact objective_entry_nonneg hoptimal _
  case dual_value => rw [dotProduct_comm, hinverse.objectiveValue_eq]
  case primal_value => exact hvalue
  case slack =>
    intro i
    rw [h.limits_sub_mulVec hp]
    exact objective_entry_mul_basicPoint h.hasUnitColumns _
  case excess =>
    intro j
    have hvalues : t.primalSolution = p.decisions t.basicPoint :=
      primalSolution_eq_map h.hasShape h.hasUnitColumns
    rw [hreduced, hvalues, Problem.vector_decisions, mul_comm]
    exact objective_entry_mul_basicPoint h.hasUnitColumns _

end Tableau

namespace Solver

/-- The slack columns of the objective row in which an optimal run ends are a
dual certificate for the values that it finds. -/
theorem run_dualCertificate (s : Solver ℚ) {p : Problem ℚ} (hp : p.IsValid) :
    ∃ run, s.run p = .ok run ∧ (run.outcome = .optimal →
      p.IsDualCertificate run.final.primalSolution (run.final.slackCosts p)
        run.final.objectiveValue) := by
  refine ⟨_, s.run_eq hp, ?_⟩
  intro houtcome
  have hvisits := Tableau.run_visits (Tableau.initial p) s.maxIterations
  have hends := Tableau.run_endsAt (Tableau.initial p) s.maxIterations
  rw [houtcome] at hends
  obtain ⟨hrepresents, hrhs⟩ := Tableau.represents_of_visits hp.canonical hvisits
  cases hends with
  | optimal hoptimal => exact hrepresents.isDualCertificate hp.canonical hrhs hoptimal

/-- A problem with a run in which the slack of the first row leaves the basis and
enters it again. -/
def detour : Problem ℚ :=
  ⟨[[2, 0], [2, 1]], [1, 2], [1, 1]⟩

theorem run_dualCertificate_detour : ∃ run, (⟨10, 0⟩ : Solver ℚ).run detour = .ok run ∧
    run.outcome = .optimal ∧ run.moves.map (·.column) = [0, 1, 2] ∧
      detour.IsDualCertificate [0, 2] (fun i => if (i : ℕ) = 1 then 1 else 0) 2 := by
  have hp : detour.IsValid := by decide +kernel
  obtain ⟨run, hrun, hcertificate⟩ := run_dualCertificate ⟨10, 0⟩ hp
  have hsolve : (⟨10, 0⟩ : Solver ℚ).solve detour = .ok (solutionOf ⟨10, 0⟩ detour run) := by
    rw [solve, hrun]
    rfl
  have hstatus : (solutionOf ⟨10, 0⟩ detour run).status = .optimal :=
    status_of_solve hsolve (by decide +kernel)
  have houtcome : run.outcome = .optimal := (solutionOf_of_optimal hstatus).1
  have hnumbers : ((⟨10, 0⟩ : Solver ℚ).run detour).toOption.map (fun run =>
      (run.moves.map (·.column), run.final.primalSolution, run.final.slackCosts detour,
        run.final.objectiveValue)) =
      some (([0, 1, 2], [0, 2], fun i => if (i : ℕ) = 1 then 1 else 0, 2) :
        List ℕ × List ℚ × (Fin detour.numConstraints → ℚ) × ℚ) := by
    decide +kernel
  rw [hrun] at hnumbers
  have hparts := Option.some.inj hnumbers
  simp only [Prod.mk.injEq] at hparts
  obtain ⟨hcolumns, hvalues, hcosts, hvalue⟩ := hparts
  refine ⟨run, hrun, houtcome, hcolumns, ?_⟩
  rw [← hvalues, ← hcosts, ← hvalue]
  exact hcertificate houtcome

end Solver

end LinearProgramming
