import LinearProgramming.Proofs.Answers
import LinearProgramming.Proofs.Exact.Feasibility
import LinearProgramming.Proofs.Tableau.Trajectory
import Mathlib.Algebra.Order.Field.Basic

/-!
What a run does to the basic solution. In exact arithmetic every tableau that a
run passes through has a feasible basic solution whose objective it shows, also
the one in which the run is given up. A move raises the objective by the reduced
cost for every unit that the entering variable grows, and it grows exactly if
the leaving row leaves it room; if there is none, the move exchanges the basis
and nothing else.
-/

namespace LinearProgramming

namespace Tableau

/-- The basic solution is feasible, and the tableau shows its objective. -/
structure IsFeasibleFor (t : Tableau ℚ) (p : Problem ℚ) : Prop where
  rhs_nonneg : ∀ value ∈ t.rhs, 0 ≤ value
  feasible : p.IsFeasible t.primalSolution
  objectiveValue_eq : t.objectiveValue = p.objectiveAt t.primalSolution

/-- What a move does to the basic solution, by the room that it finds: the
right-hand side of the leaving row before the move. -/
structure Advances (t after : Tableau ℚ) (room : ℚ) : Prop where
  objective_le : t.objectiveValue ≤ after.objectiveValue
  objective_lt_iff : t.objectiveValue < after.objectiveValue ↔ 0 < room
  unchanged : room = 0 → after.rhs = t.rhs ∧ after.objectiveValue = t.objectiveValue ∧
    after.primalSolution = t.primalSolution

variable {t after : Tableau ℚ} {p : Problem ℚ} {row column : ℕ} {e : Equation ℚ}

theorem Represents.isFeasibleFor (h : t.Represents p) (hp : p.IsCanonical)
    (hrhs : t.HasNonnegRhs) : t.IsFeasibleFor p := by
  obtain ⟨hfeasible, hvalue⟩ := h.primalSolution_feasible hp hrhs
  constructor
  case rhs_nonneg =>
    intro value hvalue
    obtain ⟨e, he, rfl⟩ := List.mem_map.mp hvalue
    exact hrhs e he
  case feasible => exact hfeasible
  case objectiveValue_eq => exact hvalue.symm

/-! ## One move -/

theorem objectiveValue_exchange (t : Tableau ℚ) (row column : ℕ) (e : Equation ℚ) (value : ℚ) :
    (t.exchange row column (e.row.divide value)).objectiveValue =
      t.objectiveValue - t.objective.entry column * (e.row.rhs / value) :=
  Row.rhs_eliminate_exact _ _ _

/-- A row without room leaves all right-hand sides as they are. -/
theorem rhs_exchange_of_rhs_eq_zero (he : t.equations[row]? = some e) (hzero : e.row.rhs = 0)
    (value : ℚ) : (t.exchange row column (e.row.divide value)).rhs = t.rhs := by
  have hpivotRow : (e.row.divide value).rhs = 0 := by
    rw [Row.divide, hzero, zero_div]
  apply List.ext_getElem?
  intro i
  rw [rhs, rhs, List.getElem?_map, List.getElem?_map]
  by_cases hi : i = row
  · subst hi
    rw [exchange_getElem?_self t column _ (List.getElem?_eq_some_iff.mp he).1, he]
    exact congrArg some (hpivotRow.trans hzero.symm)
  · rw [exchange_getElem?_ne t column _ hi, Option.map_map]
    congr 1
    funext f
    dsimp only [Function.comp_apply]
    rw [Row.rhs_eliminate_exact, hpivotRow, mul_zero, sub_zero]

/-- An exchange takes at most the variable of its row out of the basis. -/
theorem mem_basis_exchange (he : t.equations[row]? = some e) (pivotRow : Row ℚ) {j : ℕ}
    (hj : j ∈ t.basis) : j ∈ (t.exchange row column pivotRow).basis ∨ j = e.basic := by
  obtain ⟨f, hf, rfl⟩ := List.mem_map.mp hj
  obtain ⟨i, hi⟩ := List.mem_iff_getElem?.mp hf
  by_cases hrow : i = row
  · subst hrow
    cases he.symm.trans hi
    exact Or.inr rfl
  · have hkept := exchange_getElem?_ne t column pivotRow hrow
    rw [hi] at hkept
    exact Or.inl (List.mem_map.mpr ⟨_, List.mem_of_getElem? hkept, rfl⟩)

/-- Without room the basic point stays: the leaving variable was zero before,
and the entering one is zero after. -/
theorem Represents.basicPoint_pivot (h : t.Represents p) (hplace : t.PivotsAt row column e)
    (hpivot : t.pivot row column = .ok after) (hzero : e.row.rhs = 0) {j : ℕ}
    (hj : j < p.numVariables + p.numConstraints) : after.basicPoint j = t.basicPoint j := by
  have hafter := h.pivot hpivot
  have hholds : after.HoldsAt t.basicPoint :=
    (holdsAt_pivot_iff h.hasShape hpivot _).mpr (holdsAt_basicPoint h.hasShape h.hasUnitColumns)
  refine basicPoint_eq_of_holdsAt hafter.hasShape hafter.hasUnitColumns hholds ?_ hj
  intro k hk
  by_cases hbasic : k ∈ t.basis
  · obtain ⟨e', hplace', rfl⟩ := pivot_eq_ok_iff.mp hpivot
    cases hplace.equation.symm.trans hplace'.equation
    rcases mem_basis_exchange hplace.equation _ hbasic with hkept | rfl
    · exact absurd hkept (mem_nonbasic.mp hk).2
    · rw [basicPoint_basic h.hasUnitColumns (List.mem_of_getElem? hplace.equation), hzero]
  · exact basicPoint_of_not_basic hbasic

theorem Represents.primalSolution_pivot (h : t.Represents p) (hplace : t.PivotsAt row column e)
    (hpivot : t.pivot row column = .ok after) (hzero : e.row.rhs = 0) :
    after.primalSolution = t.primalSolution := by
  have hafter := h.pivot hpivot
  rw [primalSolution_eq_map hafter.hasShape hafter.hasUnitColumns,
    primalSolution_eq_map h.hasShape h.hasUnitColumns]
  apply List.map_congr_left
  intro j hj
  exact h.basicPoint_pivot hplace hpivot hzero
    ((List.mem_range.mp hj).trans_le (Nat.le_add_right _ _))

/-- Every move of the selection rules advances by the room of its row. -/
theorem Represents.advances (h : t.Represents p) (hrhs : t.HasNonnegRhs) {move : Move ℚ}
    (hstep : t.step = .move move) :
    ∃ room, t.rhs[move.row]? = some room ∧ t.Advances move.after room := by
  have hpivot := (step_eq_move_iff.mp hstep).2.2
  obtain ⟨e, hplace, hcost, hentry, hafter⟩ := exists_place_of_move hstep
  have hroom : 0 ≤ e.row.rhs := hrhs e (List.mem_of_getElem? hplace.equation)
  have hobjective := objectiveValue_exchange t move.row move.column e (e.row.entry move.column)
  rw [hafter] at hobjective
  have hgain : 0 < e.row.rhs ↔
      0 < -t.objective.entry move.column * (e.row.rhs / e.row.entry move.column) := by
    rw [mul_pos_iff_of_pos_left (neg_pos.mpr hcost), div_pos_iff_of_pos_right hentry]
  have hstays : 0 ≤ -t.objective.entry move.column * (e.row.rhs / e.row.entry move.column) :=
    mul_nonneg (neg_pos.mpr hcost).le (div_nonneg hroom hentry.le)
  refine ⟨e.row.rhs, ?_, ?_⟩
  · rw [rhs, List.getElem?_map, hplace.equation]
    rfl
  · constructor
    case objective_le => linarith
    case objective_lt_iff =>
      rw [hgain]
      constructor <;> intro hpositive <;> linarith
    case unchanged =>
      intro hzero
      refine ⟨?_, ?_, h.primalSolution_pivot hplace hpivot hzero⟩
      · rw [← hafter]
        exact rhs_exchange_of_rhs_eq_zero hplace.equation hzero _
      · rw [hobjective, hzero, zero_div, mul_zero, sub_zero]

end Tableau

namespace Solver

/-- Along a run of a valid problem every tableau is feasible and shows its
objective, every move advances by the room of its row, and an answer that is
given up shows a feasible point with its objective. -/
theorem run_progresses (s : Solver ℚ) {p : Problem ℚ} (hp : p.IsValid) :
    ∃ start run answer, Tableau.ofProblem p = .ok start ∧ s.run p = .ok run ∧
      s.solve p = .ok answer ∧ (run.states start).getLast? = some run.final ∧
      (∀ t ∈ run.states start, t.IsFeasibleFor p) ∧
      (∀ (i : ℕ) (move : Move ℚ), run.moves[i]? = some move → ∃ before room,
        (run.states start)[i]? = some before ∧ (run.states start)[i + 1]? = some move.after ∧
        before.pivot move.row move.column = .ok move.after ∧
        before.rhs[move.row]? = some room ∧ before.Advances move.after room) ∧
      (answer.status = .iterationLimit → p.IsFeasible answer.values ∧
        answer.objectiveValue = some (p.objectiveAt answer.values)) := by
  have hfollows := Tableau.run_follows (Tableau.initial p) s.maxIterations
  have hfeasible : ∀ t ∈ ((Tableau.initial p).run s.maxIterations).states (Tableau.initial p),
      t.IsFeasibleFor p := by
    intro t ht
    obtain ⟨hrepresents, hrhs⟩ :=
      Tableau.represents_of_visits hp.canonical (hfollows.visits_of_mem ht)
    exact hrepresents.isFeasibleFor hp.canonical hrhs
  refine ⟨_, _, _, hp.ofProblem, s.run_eq hp, s.solve_eq hp, hfollows.getLast?_states,
    hfeasible, ?_, ?_⟩
  · intro i move hmove
    have hi := (List.getElem?_eq_some_iff.mp hmove).1
    have hstep := hfollows.step i move hmove
    obtain ⟨hbefore, hrhs⟩ :=
      Tableau.represents_of_visits hp.canonical (Tableau.visits_iterate (Tableau.initial p) i)
    obtain ⟨room, hroom, hadvances⟩ := hbefore.advances hrhs hstep
    refine ⟨_, room, hfollows.getElem?_states hi.le, ?_,
      (Tableau.step_eq_move_iff.mp hstep).2.2, hroom, hadvances⟩
    rw [hfollows.getElem?_states hi, Function.iterate_succ_apply', Tableau.next_of_move hstep]
  · intro hstatus
    have houtcome := status_solutionOf_eq_iterationLimit_iff.mp hstatus
    have hfinal := hfeasible _ (List.mem_of_getLast? hfollows.getLast?_states)
    rw [s.solutionOf_of_iterationLimit p houtcome]
    exact ⟨hfinal.feasible, congrArg some hfinal.objectiveValue_eq⟩

/-- The first move finds no room, and the second one would. -/
def wedge : Problem ℚ :=
  ⟨[[1, -1], [1, 1]], [0, 4], [2, 1]⟩

theorem run_progresses_wedge : ∃ start run answer move,
    Tableau.ofProblem wedge = .ok start ∧ (⟨1, 0⟩ : Solver ℚ).run wedge = .ok run ∧
      (⟨1, 0⟩ : Solver ℚ).solve wedge = .ok answer ∧ answer.status = .iterationLimit ∧
      wedge.IsFeasible answer.values ∧ start.IsFeasibleFor wedge ∧
      run.moves[0]? = some move ∧ move.after.primalSolution = start.primalSolution := by
  have hp : wedge.IsValid := by decide +kernel
  obtain ⟨start, run, answer, hstart, hrun, hanswer, -, hstates, hmoves, hlimit⟩ :=
    run_progresses ⟨1, 0⟩ hp
  have hstatus : answer.status = .iterationLimit := status_of_solve hanswer (by decide +kernel)
  have hrow : (((⟨1, 0⟩ : Solver ℚ).run wedge).toOption.bind (·.moves[0]?)).map (·.row) =
      some 0 := by
    decide +kernel
  rw [hrun] at hrow
  obtain ⟨move, hmove, hmoveRow⟩ := Option.map_eq_some_iff.mp hrow
  obtain ⟨before, room, hbefore, -, -, hroom, hadvances⟩ := hmoves 0 move hmove
  cases hbefore
  have hzero : start.rhs[move.row]? = some 0 := by
    rw [hp.ofProblem] at hstart
    cases hstart
    rw [hmoveRow]
    rfl
  have hstays := hadvances.unchanged (Option.some.inj (hroom.symm.trans hzero))
  exact ⟨start, run, answer, move, hstart, hrun, hanswer, hstatus, (hlimit hstatus).1,
    hstates start List.mem_cons_self, hmove, hstays.2.2⟩

end Solver

end LinearProgramming
