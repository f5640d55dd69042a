import LinearProgramming.Proofs.Exact.Progress
import LinearProgramming.Proofs.Exact.Uniqueness
import Mathlib.Data.Fintype.CardEmbedding
import Mathlib.Data.Fintype.Pigeonhole

/-!
A run that is given up late enough would never have ended. There are only so
many ordered bases, and the basis says what the tableau is, so a run longer than
that meets the same data twice; from there on it repeats itself, since the
selection rules look at the data only. As the objective never falls, it stands
still all the way round: every move of the cycle finds no room.
-/

namespace LinearProgramming

/-- The number of ways to choose a basic variable for each row, none twice. -/
def Problem.orderedBases (p : Problem ℚ) : ℕ :=
  (p.numVariables + p.numConstraints).factorial / p.numVariables.factorial

/-- The run meets the same basis and the same data twice, and no move in between
finds room: the basic solution and its objective stand still. -/
structure Run.CyclesBetween (run : Run ℚ) (start : Tableau ℚ) (i j : ℕ) : Prop where
  lt : i < j
  returns : ∃ first again, (run.states start)[i]? = some first ∧
    (run.states start)[j]? = some again ∧ first.basis = again.basis ∧ first.SameData again
  stands_still : ∀ k, i ≤ k → k < j → ∃ before move, (run.states start)[k]? = some before ∧
    run.moves[k]? = some move ∧ (run.states start)[k + 1]? = some move.after ∧
    before.rhs[move.row]? = some 0 ∧ move.after.rhs = before.rhs ∧
    move.after.objectiveValue = before.objectiveValue ∧
    move.after.primalSolution = before.primalSolution

namespace Tableau

variable {t : Tableau ℚ} {p : Problem ℚ}

/-! ## Ordered bases -/

theorem HasShape.length_basis {n m : ℕ} (h : t.HasShape n m) : t.basis.length = m := by
  rw [basis, List.length_map]
  exact h.numConstraints

/-- The basis as the choice of a variable for each row. -/
def Represents.choice (h : t.Represents p) :
    Fin p.numConstraints ↪ Fin (p.numVariables + p.numConstraints) where
  toFun i := ⟨t.basis.get (i.cast h.hasShape.length_basis.symm), by
    obtain ⟨e, he, hbasic⟩ := List.mem_map.mp (List.get_mem t.basis _)
    rw [← hbasic]
    exact h.hasShape.basic_lt e he⟩
  inj' i j hij := by
    have hget := List.nodup_iff_injective_get.mp h.hasUnitColumns.nodup_basis (Fin.mk.inj hij)
    exact Fin.cast_injective _ hget

theorem Represents.basis_eq_of_choice_eq {u : Tableau ℚ} (ht : t.Represents p)
    (hu : u.Represents p) (h : ht.choice = hu.choice) : t.basis = u.basis := by
  apply List.ext_getElem
  · rw [ht.hasShape.length_basis, hu.hasShape.length_basis]
  · intro i hi hi'
    have hchoice := DFunLike.congr_fun h ⟨i, hi.trans_eq ht.hasShape.length_basis⟩
    exact Fin.mk.inj hchoice

theorem card_choices (p : Problem ℚ) :
    Fintype.card (Fin p.numConstraints ↪ Fin (p.numVariables + p.numConstraints)) =
      p.orderedBases := by
  rw [Fintype.card_embedding_eq, Fintype.card_fin, Fintype.card_fin,
    Nat.descFactorial_eq_div (Nat.le_add_left _ _), Nat.add_sub_cancel]
  rfl

/-- More tableaux of a problem than there are ordered bases: two have the same. -/
theorem exists_sameData {f : ℕ → Tableau ℚ} (h : ∀ k, (f k).Represents p) :
    ∃ i j, i < j ∧ j ≤ p.orderedBases ∧ (f i).basis = (f j).basis ∧ (f i).SameData (f j) := by
  have hcard : Fintype.card (Fin p.numConstraints ↪ Fin (p.numVariables + p.numConstraints)) <
      Fintype.card (Fin (p.orderedBases + 1)) := by
    rw [card_choices, Fintype.card_fin]
    exact Nat.lt_succ_self _
  obtain ⟨i, j, hne, hchoice⟩ :=
    Fintype.exists_ne_map_eq_of_card_lt (fun k : Fin (p.orderedBases + 1) => (h k).choice) hcard
  have hbasis : (f i).basis = (f j).basis := (h i).basis_eq_of_choice_eq (h j) hchoice
  rcases lt_or_gt_of_ne hne with hlt | hlt
  · exact ⟨i, j, hlt, Nat.le_of_lt_succ j.isLt, hbasis, (h i).sameData (h j) hbasis⟩
  · exact ⟨j, i, hlt, Nat.le_of_lt_succ i.isLt, hbasis.symm, (h j).sameData (h i) hbasis.symm⟩

/-! ## The run from the start -/

theorem Represents.objectiveValue_le_next (h : t.Represents p) (hrhs : t.HasNonnegRhs) :
    t.objectiveValue ≤ t.next.objectiveValue := by
  cases hstep : t.step with
  | stop outcome => rw [next, hstep]
  | move move =>
    obtain ⟨room, -, hadvances⟩ := h.advances hrhs hstep
    rw [next_of_move hstep]
    exact hadvances.objective_le

theorem objectiveValue_monotone (hp : p.IsCanonical) :
    Monotone fun k => (next^[k] (initial p)).objectiveValue := by
  apply monotone_nat_of_le_succ
  intro k
  obtain ⟨hrepresents, hrhs⟩ := represents_of_visits hp (visits_iterate (initial p) k)
  rw [Function.iterate_succ_apply']
  exact hrepresents.objectiveValue_le_next hrhs

/-- Where the objective comes back to what it was, no move has found room. -/
theorem room_eq_zero_of_cycle (hp : p.IsCanonical) {i j k : ℕ} (hik : i ≤ k) (hkj : k < j)
    (hcycle : (next^[i] (initial p)).SameData (next^[j] (initial p))) {move : Move ℚ}
    (hstep : (next^[k] (initial p)).step = .move move) :
    (next^[k] (initial p)).rhs[move.row]? = some 0 ∧
      (next^[k] (initial p)).Advances move.after 0 := by
  obtain ⟨hrepresents, hrhs⟩ := represents_of_visits hp (visits_iterate (initial p) k)
  obtain ⟨room, hroom, hadvances⟩ := hrepresents.advances hrhs hstep
  have hbefore : (next^[i] (initial p)).objectiveValue ≤ (next^[k] (initial p)).objectiveValue :=
    objectiveValue_monotone hp hik
  have hafter : (next^[k + 1] (initial p)).objectiveValue ≤
      (next^[j] (initial p)).objectiveValue :=
    objectiveValue_monotone hp hkj
  rw [Function.iterate_succ_apply', next_of_move hstep] at hafter
  have hends : (next^[i] (initial p)).objectiveValue = (next^[j] (initial p)).objectiveValue := by
    rw [objectiveValue, objectiveValue, hcycle.objective]
  have hnone : ¬0 < room := by
    rw [← hadvances.objective_lt_iff, not_lt]
    linarith
  have hnonneg : 0 ≤ room := by
    obtain ⟨e, he, rfl⟩ := List.mem_map.mp (List.mem_of_getElem? hroom)
    exact hrhs e he
  have hzero : room = 0 := le_antisymm (not_lt.mp hnone) hnonneg
  rw [hzero] at hroom hadvances
  exact ⟨hroom, hadvances⟩

/-- As many moves as there are ordered bases are followed by moves for ever. -/
theorem canMove_forever (hp : p.IsCanonical)
    (hmoves : ∀ k < p.orderedBases, (next^[k] (initial p)).CanMove) (k : ℕ) :
    (next^[k] (initial p)).CanMove := by
  obtain ⟨i, j, hij, hj, -, hcycle⟩ :=
    exists_sameData fun k => (represents_of_visits hp (visits_iterate (initial p) k)).1
  exact canMove_of_cycle hij hcycle (fun k hk => hmoves k (hk.trans_le hj)) k

theorem exists_cyclesBetween (hp : p.IsCanonical) {cap : ℕ} (hcap : p.orderedBases ≤ cap)
    (hmoves : ∀ k < cap, (next^[k] (initial p)).CanMove) :
    ∃ i j, j ≤ p.orderedBases ∧ ((initial p).run cap).CyclesBetween (initial p) i j := by
  obtain ⟨i, j, hij, hj, hbasis, hcycle⟩ :=
    exists_sameData fun k => (represents_of_visits hp (visits_iterate (initial p) k)).1
  have hfollows := run_follows (initial p) cap
  have hlength : ((initial p).run cap).moves.length = cap := length_moves_of_canMove hmoves
  have hstate : ∀ k ≤ cap,
      (((initial p).run cap).states (initial p))[k]? = some (next^[k] (initial p)) :=
    fun k hk => hfollows.getElem?_states (hk.trans_eq hlength.symm)
  refine ⟨i, j, hj, hij, ⟨_, _, hstate i (by omega), hstate j (by omega), hbasis, hcycle⟩, ?_⟩
  intro k hik hkj
  have hk : k < ((initial p).run cap).moves.length := by omega
  have hmove := List.getElem?_eq_getElem hk
  have hstep := hfollows.step k _ hmove
  obtain ⟨hroom, hadvances⟩ := room_eq_zero_of_cycle hp hik hkj hcycle hstep
  refine ⟨_, _, hstate k (by omega), hmove, ?_, hroom, hadvances.unchanged rfl⟩
  rw [hstate (k + 1) (by omega), Function.iterate_succ_apply', next_of_move hstep]

/-- A run that is given up late enough is given up with every cap. -/
theorem run_outcome_eq_iterationLimit (hp : p.IsCanonical) {cap : ℕ}
    (hcap : p.orderedBases ≤ cap)
    (h : ((initial p).run cap).outcome = .iterationLimit) (other : ℕ) :
    ((initial p).run other).outcome = .iterationLimit := by
  have hmoves := ((runFrom_outcome_eq_iterationLimit_iff cap (initial p)).mp h).1
  have hforever := canMove_forever hp fun k hk => hmoves k (hk.trans_le hcap)
  have hother := runFrom_outcome_eq_iterationLimit_iff other (initial p)
  exact hother.mpr ⟨fun k _ => hforever k, canImprove_of_canMove (hforever other)⟩

/-- Two late caps both give up, or they make the same run. -/
theorem run_eq_of_late (hp : p.IsCanonical) {cap other : ℕ} (hcap : p.orderedBases ≤ cap)
    (hother : p.orderedBases ≤ other) :
    (((initial p).run cap).outcome = .iterationLimit ∧
      ((initial p).run other).outcome = .iterationLimit) ∨
    (initial p).run cap = (initial p).run other := by
  by_cases hlimit : ((initial p).run cap).outcome = .iterationLimit
  · exact Or.inl ⟨hlimit, run_outcome_eq_iterationLimit hp hcap hlimit other⟩
  · have hlimit' : ((initial p).run other).outcome ≠ .iterationLimit :=
      fun h => hlimit (run_outcome_eq_iterationLimit hp hother h cap)
    rcases Nat.le_total cap other with hle | hle
    · exact Or.inr (runFrom_eq_of_le hle hlimit).symm
    · exact Or.inr (runFrom_eq_of_le hle hlimit')

end Tableau

/-- Both answers are that the run is given up, or they show the same. -/
def Solution.Agrees (answer other : Solution ℚ) : Prop :=
  answer.status = other.status ∧ (answer.status ≠ .iterationLimit →
    answer.values = other.values ∧ answer.objectiveValue = other.objectiveValue ∧
      answer.iterations = other.iterations)

namespace Solver

/-- The tolerance has no part in what is shown. -/
theorem solutionOf_agrees (s s' : Solver ℚ) (p : Problem ℚ) {run other : Run ℚ}
    (h : (run.outcome = .iterationLimit ∧ other.outcome = .iterationLimit) ∨ run = other) :
    (s.solutionOf p run).Agrees (s'.solutionOf p other) := by
  rcases h with ⟨hrun, hother⟩ | rfl
  · have hstatus := (status_solutionOf_eq_iterationLimit_iff (s := s) (p := p)).mpr hrun
    have hstatus' := (status_solutionOf_eq_iterationLimit_iff (s := s') (p := p)).mpr hother
    exact ⟨hstatus.trans hstatus'.symm, fun hne => absurd hstatus hne⟩
  · rw [solutionOf, solutionOf]
    cases run.outcome <;> exact ⟨rfl, fun _ => ⟨rfl, rfl, rfl⟩⟩

/-- With a cap that is no less than the number of ordered bases, a run is given
up only if it cycles, and then it is given up with every cap. All such caps give
answers that agree. -/
theorem solve_cycles {p : Problem ℚ} (hp : p.IsValid) :
    (∀ s : Solver ℚ, p.orderedBases ≤ s.maxIterations →
      ∃ start run answer, Tableau.ofProblem p = .ok start ∧ s.run p = .ok run ∧
        s.solve p = .ok answer ∧ (answer.status = .iterationLimit →
          (∃ i j, j ≤ p.orderedBases ∧ run.CyclesBetween start i j) ∧
          ∀ s' : Solver ℚ, ∃ answer', s'.solve p = .ok answer' ∧
            answer'.status = .iterationLimit)) ∧
    ∀ s s' : Solver ℚ, p.orderedBases ≤ s.maxIterations → p.orderedBases ≤ s'.maxIterations →
      ∃ answer answer', s.solve p = .ok answer ∧ s'.solve p = .ok answer' ∧
        answer.Agrees answer' := by
  constructor
  · intro s hcap
    refine ⟨_, _, _, hp.ofProblem, s.run_eq hp, s.solve_eq hp, ?_⟩
    intro hstatus
    have houtcome := status_solutionOf_eq_iterationLimit_iff.mp hstatus
    have hmoves := ((Tableau.runFrom_outcome_eq_iterationLimit_iff _ _).mp houtcome).1
    refine ⟨Tableau.exists_cyclesBetween hp.canonical hcap hmoves, ?_⟩
    intro s'
    refine ⟨_, s'.solve_eq hp, status_solutionOf_eq_iterationLimit_iff.mpr ?_⟩
    exact Tableau.run_outcome_eq_iterationLimit hp.canonical hcap houtcome _
  · intro s s' hcap hcap'
    refine ⟨_, _, s.solve_eq hp, s'.solve_eq hp, ?_⟩
    exact solutionOf_agrees s s' p (Tableau.run_eq_of_late hp.canonical hcap hcap')

/-- The point `(1, 0, 1, 0)` has an objective of one, and the run never leaves the
point zero: six moves exchange the basis and bring it back. -/
def merryGoRound : Problem ℚ :=
  ⟨[[1 / 2, -11 / 2, -5 / 2, 9], [1 / 2, -3 / 2, -1 / 2, 1], [1, 0, 0, 0]], [0, 0, 1],
    [10, -57, -9, -24]⟩

theorem solve_cycles_merryGoRound : merryGoRound.orderedBases = 210 ∧
    (∃ start run i j, Tableau.ofProblem merryGoRound = .ok start ∧
      (⟨210, 0⟩ : Solver ℚ).run merryGoRound = .ok run ∧ j ≤ 210 ∧
      run.CyclesBetween start i j) ∧
    ∀ s : Solver ℚ, ∃ answer, s.solve merryGoRound = .ok answer ∧
      answer.status = .iterationLimit := by
  have hp : merryGoRound.IsValid := by decide +kernel
  have hbases : merryGoRound.orderedBases = 210 := by decide +kernel
  obtain ⟨start, run, answer, hstart, hrun, hanswer, hcycles⟩ :=
    (solve_cycles hp).1 ⟨210, 0⟩ hbases.le
  obtain ⟨⟨i, j, hj, hcycle⟩, hforever⟩ :=
    hcycles (status_of_solve hanswer (by decide +kernel))
  exact ⟨hbases, ⟨start, run, i, j, hstart, hrun, hj.trans_eq hbases, hcycle⟩, hforever⟩

end Solver

end LinearProgramming
