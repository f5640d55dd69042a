import LinearProgramming.Solver
import LinearProgramming.Proofs.Validity

/-!
How an answer comes out of a run, whatever the arithmetic. A valid problem is
always answered, and an answer is optimal only if the run ended so; then its
values and its violations are those of the final basic solution.
-/

namespace LinearProgramming

namespace Solver

variable {α : Type} [Scalar α]

theorem run_eq (s : Solver α) {p : Problem α} (hp : p.IsValid) :
    s.run p = .ok ((Tableau.initial p).run s.maxIterations) := by
  rw [Solver.run, hp.ofProblem]
  rfl

theorem solve_eq (s : Solver α) {p : Problem α} (hp : p.IsValid) :
    s.solve p = .ok (s.solutionOf p ((Tableau.initial p).run s.maxIterations)) := by
  rw [solve, s.run_eq hp]
  rfl

/-- The answer to a problem with a defect is the defect. -/
theorem solve_of_defect (s : Solver α) {p : Problem α} {defect : Defect α}
    (h : p.defect? = some defect) : s.solve p = .error defect := by
  rw [solve, Solver.run, Tableau.ofProblem, h]
  rfl

/-- Only valid problems are answered. -/
theorem isValid_of_solve {s : Solver α} {p : Problem α} {answer : Solution α}
    (h : s.solve p = .ok answer) : p.IsValid := by
  cases hdefect : p.defect? with
  | none => exact hdefect
  | some defect =>
    rw [s.solve_of_defect hdefect] at h
    cases h

theorem status_of_solve {s : Solver α} {p : Problem α} {answer : Solution α} {status : Status}
    (h : s.solve p = .ok answer)
    (hstatus : (s.solve p).toOption.map (·.status) = some status) : answer.status = status := by
  rw [h] at hstatus
  exact Option.some.inj hstatus

/-- Only a run that ends optimally gives an optimal answer. -/
theorem solutionOf_of_optimal {s : Solver α} {p : Problem α} {run : Run α}
    (h : (s.solutionOf p run).status = .optimal) : run.outcome = .optimal ∧
      s.solutionOf p run = .optimal run.final.primalSolution run.final.objectiveValue
        run.final.iterations (p.violations run.final.primalSolution s.tolerance) := by
  rw [solutionOf] at h ⊢
  cases hrun : run.outcome with
  | optimal => exact ⟨rfl, rfl⟩
  | unbounded column =>
    rw [hrun] at h
    cases h
  | iterationLimit =>
    rw [hrun] at h
    cases h
  | failed error =>
    rw [hrun] at h
    cases h

theorem status_solutionOf_eq_iterationLimit_iff {s : Solver α} {p : Problem α} {run : Run α} :
    (s.solutionOf p run).status = .iterationLimit ↔ run.outcome = .iterationLimit := by
  rw [solutionOf]
  cases run.outcome with
  | optimal => exact iff_of_false (by rintro ⟨⟩) (by rintro ⟨⟩)
  | unbounded column => exact iff_of_false (by rintro ⟨⟩) (by rintro ⟨⟩)
  | iterationLimit => exact iff_of_true rfl rfl
  | failed error => exact iff_of_false (by rintro ⟨⟩) (by rintro ⟨⟩)

/-- A run that is given up shows the point it has come to. -/
theorem solutionOf_of_iterationLimit (s : Solver α) (p : Problem α) {run : Run α}
    (h : run.outcome = .iterationLimit) : s.solutionOf p run =
      .iterationLimit run.final.primalSolution run.final.objectiveValue run.final.iterations := by
  rw [solutionOf, h]

/-- The report of an optimal answer is about its own values. -/
theorem violations_of_isOptimal {s : Solver α} {p : Problem α} {answer : Solution α}
    (h : s.solve p = .ok answer) (hoptimal : answer.isOptimal = true) :
    answer.violations = p.violations answer.values s.tolerance := by
  rw [s.solve_eq (isValid_of_solve h)] at h
  cases h
  rw [Solution.isOptimal, decide_eq_true_eq] at hoptimal
  obtain ⟨-, hanswer⟩ := solutionOf_of_optimal hoptimal
  rw [hanswer]
  rfl

/-- A certified answer has values that break nothing. -/
theorem violations_of_isCertified {s : Solver α} {p : Problem α} {answer : Solution α}
    (h : s.solve p = .ok answer) (hcertified : answer.isCertified = true) :
    p.violations answer.values s.tolerance = [] := by
  rw [Solution.isCertified, Bool.and_eq_true, List.isEmpty_iff] at hcertified
  rw [← violations_of_isOptimal h hcertified.1, hcertified.2]

end Solver

end LinearProgramming
