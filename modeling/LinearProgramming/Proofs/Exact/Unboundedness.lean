import LinearProgramming.Proofs.Answers
import LinearProgramming.Proofs.Exact.Feasibility

/-!
An unbounded run shows a ray. When a column improves the objective and no row
limits it, its variable may grow without end: the others follow along a ray of
solutions without negative entries, on which the objective grows at the rate of
the reduced cost. The column may belong to a slack, and any number of pivots may
come before.
-/

namespace LinearProgramming

namespace Tableau

variable {t : Tableau ℚ} {column : ℕ}

theorem ray_basic (h : t.HasUnitColumns) (hcolumn : column ∉ t.basis) {e : Equation ℚ}
    (he : e ∈ t.equations) : t.ray column e.basic = -e.row.entry column := by
  have hne : e.basic ≠ column := fun heq => hcolumn (heq ▸ List.mem_map_of_mem he)
  rw [ray, if_neg hne, spread_basic h _ he]

theorem mem_nonbasic_of_enters {n m : ℕ} (hshape : t.HasShape n m) (h : t.HasUnitColumns)
    (hcolumn : t.enteringColumn? = some column) : column ∈ t.nonbasic := by
  rw [mem_nonbasic, hshape.width, ← hshape.length_costs]
  refine ⟨(enteringColumn?_eq_some hcolumn).1, ?_⟩
  intro hbasic
  obtain ⟨e, he, heq⟩ := List.mem_map.mp hbasic
  exact h.basic_ne_of_enters hcolumn e he heq

/-- No row limits the column, so no variable falls below zero on the ray. -/
theorem HasNonnegRhs.rayPoint_nonneg (h : t.HasNonnegRhs) (hunit : t.HasUnitColumns)
    (hcolumn : column ∉ t.basis) (hrow : t.leavingRow? column = none) {distance : ℚ}
    (hdistance : 0 ≤ distance) (j : ℕ) : 0 ≤ t.rayPoint column distance j := by
  by_cases hbasic : j ∈ t.basis
  · obtain ⟨e, he, rfl⟩ := List.mem_map.mp hbasic
    have hentry : e.row.entry column ≤ 0 :=
      not_lt.mp ((leavingRow?_eq_none_iff t column).mp hrow e he)
    have hchange : distance * e.row.entry column ≤ 0 :=
      mul_nonpos_of_nonneg_of_nonpos hdistance hentry
    rw [rayPoint_basic hunit hcolumn distance he]
    linarith [h e he]
  · rw [rayPoint_of_not_basic distance hbasic]
    split
    · exact hdistance
    · exact le_rfl

/-- What an unbounded column shows at a tableau of the problem: the ray starts
at the basic point, runs through solutions without negative entries, and the
objective grows on it at the rate of the reduced cost. -/
structure ShowsRay (t : Tableau ℚ) (p : Problem ℚ) (column : ℕ) : Prop where
  basicPoint_basic : ∀ e ∈ t.equations, t.basicPoint e.basic = e.row.rhs
  ray_basic : ∀ e ∈ t.equations, t.ray column e.basic = -e.row.entry column
  ray_column : t.ray column column = 1
  zero_elsewhere : ∀ j, j ∉ t.basis →
    t.basicPoint j = 0 ∧ (j ≠ column → t.ray column j = 0)
  rate_pos : t.objective.entry column < 0
  nonneg : ∀ distance ≥ 0, ∀ j, 0 ≤ t.basicPoint j + distance * t.ray column j
  solves : ∀ distance ≥ 0, p.SolvedBy fun j => t.basicPoint j + distance * t.ray column j
  value : ∀ distance ≥ 0, p.valueAt (fun j => t.basicPoint j + distance * t.ray column j) =
    t.objectiveValue + distance * |t.objective.entry column|

theorem Represents.showsRay {p : Problem ℚ} (h : t.Represents p) (hrhs : t.HasNonnegRhs)
    (hcolumn : t.enteringColumn? = some column) (hrow : t.leavingRow? column = none) :
    t.ShowsRay p column := by
  have hnonbasic := mem_nonbasic_of_enters h.hasShape h.hasUnitColumns hcolumn
  have hout : column ∉ t.basis := (mem_nonbasic.mp hnonbasic).2
  have hrate := (enteringColumn?_eq_some hcolumn).2
  have hsolves : ∀ distance, p.SolvedBy (t.rayPoint column distance) := by
    intro distance
    exact (h.holdsAt_iff _).mp (holdsAt_rayPoint h.hasShape h.hasUnitColumns hnonbasic distance)
  constructor
  case basicPoint_basic => exact fun e he => basicPoint_basic h.hasUnitColumns he
  case ray_basic => exact fun e he => ray_basic h.hasUnitColumns hout he
  case ray_column => exact if_pos rfl
  case zero_elsewhere =>
    intro j hj
    refine ⟨basicPoint_of_not_basic hj, ?_⟩
    intro hne
    rw [ray, if_neg hne, spread_of_not_basic _ hj]
  case rate_pos => exact hrate
  case nonneg =>
    intro distance hdistance j
    exact hrhs.rayPoint_nonneg h.hasUnitColumns hout hrow hdistance j
  case solves => exact fun distance _ => hsolves distance
  case value =>
    intro distance _
    have hvalue := valueAt_rayPoint h.hasShape h.hasUnitColumns hnonbasic distance
    rw [h.valueAt_eq _ (hsolves distance)] at hvalue
    rw [abs_of_neg hrate]
    refine hvalue.trans ?_
    ring

/-- Far enough out on the ray the objective passes every bound. -/
theorem ShowsRay.exists_feasible {p : Problem ℚ} (hp : p.IsCanonical)
    (h : t.ShowsRay p column) (bound : ℚ) : ∃ x, p.IsFeasible x ∧ bound < p.objectiveAt x := by
  have hrate : 0 < |t.objective.entry column| := abs_pos.mpr h.rate_pos.ne
  obtain ⟨distance, hdistance, hfar⟩ : ∃ distance ≥ 0,
      bound - t.objectiveValue < distance * |t.objective.entry column| := by
    have hgap : 0 ≤ |bound - t.objectiveValue| + 1 := by positivity
    refine ⟨(|bound - t.objectiveValue| + 1) / |t.objective.entry column|,
      div_nonneg hgap hrate.le, ?_⟩
    rw [div_mul_cancel₀ _ hrate.ne']
    linarith [le_abs_self (bound - t.objectiveValue)]
  refine ⟨p.decisions fun j => t.basicPoint j + distance * t.ray column j, ?_, ?_⟩
  · exact Problem.isFeasible_decisions hp (h.solves distance hdistance)
      fun j _ => h.nonneg distance hdistance j
  · rw [Problem.objectiveAt_decisions, h.value distance hdistance]
    linarith

end Tableau

namespace Solver

/-- A run that ends unbounded in a column shows a ray there, and feasible points
with an objective above every bound. -/
theorem run_unbounded (s : Solver ℚ) {p : Problem ℚ} (hp : p.IsValid) :
    ∃ run, s.run p = .ok run ∧ ∀ column, run.outcome = .unbounded column →
      run.final.ShowsRay p column ∧
      ∀ bound, ∃ x, p.IsFeasible x ∧ bound < p.objectiveAt x := by
  refine ⟨_, s.run_eq hp, ?_⟩
  intro column houtcome
  have hvisits := Tableau.run_visits (Tableau.initial p) s.maxIterations
  have hends := Tableau.run_endsAt (Tableau.initial p) s.maxIterations
  rw [houtcome] at hends
  have hrepresents := Tableau.represents_of_reaches hp.canonical hvisits.reaches
  have hrhs := (Tableau.initial_hasNonnegRhs hp.canonical).visits hvisits
  cases hends with
  | unbounded hcolumn hrow =>
    have hray := hrepresents.showsRay hrhs hcolumn hrow
    exact ⟨hray, hray.exists_feasible hp.canonical⟩

/-- The first variable enters, and then the second one without a limit. -/
def unlimited : Problem ℚ :=
  ⟨[[1, -1]], [1], [1, 0]⟩

theorem run_unbounded_unlimited : ∃ run, (⟨10, 0⟩ : Solver ℚ).run unlimited = .ok run ∧
    run.outcome = .unbounded 1 ∧
      ∀ bound, ∃ x, unlimited.IsFeasible x ∧ bound < unlimited.objectiveAt x := by
  obtain ⟨run, hrun, hunbounded⟩ := run_unbounded ⟨10, 0⟩ (p := unlimited) (by decide +kernel)
  have houtcome : run.outcome = .unbounded 1 := by
    have hmatch : ((⟨10, 0⟩ : Solver ℚ).run unlimited).toOption.map (fun run =>
        match run.outcome with
        | .unbounded column => column
        | _ => 0) = some 1 := by
      decide +kernel
    rw [hrun] at hmatch
    have hcolumn := Option.some.inj hmatch
    dsimp only at hcolumn
    split at hcolumn
    · rename_i column houtcome
      rw [houtcome, hcolumn]
    · cases hcolumn
  exact ⟨run, hrun, houtcome, (hunbounded 1 houtcome).2⟩

end Solver

end LinearProgramming
