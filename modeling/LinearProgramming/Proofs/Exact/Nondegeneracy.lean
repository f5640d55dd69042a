import LinearProgramming.Proofs.Exact.Cycling
import LinearProgramming.Proofs.Exact.Optimality
import LinearProgramming.Proofs.Exact.PathIndependence

/-!
A run that always finds room comes to an end. Every move then raises the
objective, and the basic variables say what the objective is, so no choice of
basic variables comes back. There are only so many ways to choose them: the run
stops by itself before it has used them up, and in exact arithmetic a run that
stops by itself is optimal or unbounded.
-/

namespace LinearProgramming

/-- Every move finds room: the right-hand side of its row is positive before the
move. -/
def Run.IsNondegenerate (run : Run ℚ) (start : Tableau ℚ) : Prop :=
  ∀ pair ∈ (run.states start).zip run.moves, 0 < pair.1.rhs.getD pair.2.row 0

instance (run : Run ℚ) (start : Tableau ℚ) : Decidable (run.IsNondegenerate start) :=
  inferInstanceAs (Decidable (∀ pair ∈ (run.states start).zip run.moves,
    0 < pair.1.rhs.getD pair.2.row 0))

namespace Tableau

variable {t : Tableau ℚ} {p : Problem ℚ} {run : Run ℚ}

/-! ## The objective along the run -/

theorem Follows.room_pos (hfollows : t.Follows run) (h : run.IsNondegenerate t) {k : ℕ}
    {move : Move ℚ} (hmove : run.moves[k]? = some move) {room : ℚ}
    (hroom : (next^[k] t).rhs[move.row]? = some room) : 0 < room := by
  have hk : k < run.moves.length := (List.getElem?_eq_some_iff.mp hmove).1
  have hpair : ((run.states t).zip run.moves)[k]? = some (next^[k] t, move) :=
    List.getElem?_zip_eq_some.mpr ⟨hfollows.getElem?_states hk.le, hmove⟩
  have hpositive := h _ (List.mem_of_getElem? hpair)
  rwa [List.getD_eq_getElem?_getD, hroom] at hpositive

theorem objectiveValue_lt_next (hp : p.IsCanonical) (hfollows : (initial p).Follows run)
    (h : run.IsNondegenerate (initial p)) {k : ℕ} (hk : k < run.moves.length) :
    (next^[k] (initial p)).objectiveValue < (next^[k + 1] (initial p)).objectiveValue := by
  have hmove := List.getElem?_eq_getElem hk
  have hstep := hfollows.step k _ hmove
  obtain ⟨hrepresents, hrhs⟩ := represents_of_visits hp (visits_iterate (initial p) k)
  obtain ⟨room, hroom, hadvances⟩ := hrepresents.advances hrhs hstep
  rw [Function.iterate_succ_apply', next_of_move hstep]
  exact hadvances.objective_lt_iff.mpr (hfollows.room_pos h hmove hroom)

theorem objectiveValue_strictMonoOn (hp : p.IsCanonical) (hfollows : (initial p).Follows run)
    (h : run.IsNondegenerate (initial p)) :
    StrictMonoOn (fun k => (next^[k] (initial p)).objectiveValue)
      (Set.Iic run.moves.length) :=
  strictMonoOn_Iic_of_lt_succ fun _ hk => objectiveValue_lt_next hp hfollows h hk

/-! ## The bases of the run -/

/-- The objective would have to come back with the basic variables. -/
theorem nodup_basicSets (hp : p.IsCanonical) (hfollows : (initial p).Follows run)
    (h : run.IsNondegenerate (initial p)) :
    ((run.states (initial p)).map basicSet).Nodup := by
  rw [List.nodup_iff_getElem?_ne_getElem?]
  intro i j hij hj hsets
  rw [List.length_map, Run.states, List.length_cons, List.length_map, Nat.lt_succ_iff] at hj
  have hi : i ≤ run.moves.length := hij.le.trans hj
  rw [List.getElem?_map, List.getElem?_map, hfollows.getElem?_states hi,
    hfollows.getElem?_states hj, Option.map_some, Option.map_some, Option.some.injEq] at hsets
  have hfirst := (represents_of_visits hp (visits_iterate (initial p) i)).1
  have hsecond := (represents_of_visits hp (visits_iterate (initial p) j)).1
  have hsame := (hfirst.sameSystem hsecond hsets).objectiveValue
  exact (objectiveValue_strictMonoOn hp hfollows h hi hj hij).ne hsame

theorem Represents.basicSet_mem (h : t.Represents p) : t.basicSet ∈
    (Finset.range (p.numVariables + p.numConstraints)).powersetCard p.numConstraints := by
  rw [Finset.mem_powersetCard]
  constructor
  · intro j hj
    obtain ⟨e, he, rfl⟩ := List.mem_map.mp (List.mem_toFinset.mp hj)
    exact Finset.mem_range.mpr (h.hasShape.basic_lt e he)
  · rw [basicSet, List.toFinset_card_of_nodup h.hasUnitColumns.nodup_basis,
      h.hasShape.length_basis]

/-- There are no more states than choices of basic variables. -/
theorem length_moves_lt_choose (hp : p.IsCanonical) (hfollows : (initial p).Follows run)
    (h : run.IsNondegenerate (initial p)) :
    run.moves.length < (p.numVariables + p.numConstraints).choose p.numConstraints := by
  have hsubset : ((run.states (initial p)).map basicSet).toFinset ⊆
      (Finset.range (p.numVariables + p.numConstraints)).powersetCard p.numConstraints := by
    intro basics hbasics
    obtain ⟨t, ht, rfl⟩ := List.mem_map.mp (List.mem_toFinset.mp hbasics)
    exact (represents_of_visits hp (hfollows.visits_of_mem ht)).1.basicSet_mem
  have hcard := Finset.card_le_card hsubset
  rw [List.toFinset_card_of_nodup (nodup_basicSets hp hfollows h), Finset.card_powersetCard,
    Finset.card_range, List.length_map, Run.states, List.length_cons, List.length_map] at hcard
  exact hcard

/-! ## The outcome -/

/-- In exact arithmetic a run that is not given up is optimal or unbounded: the
chosen place can always be pivoted on. -/
theorem optimal_or_unbounded_of_visits (hp : p.IsCanonical) (hvisits : (initial p).Visits t)
    {outcome : Outcome ℚ} (hends : t.EndsAt outcome) (hlimit : outcome ≠ .iterationLimit) :
    outcome = .optimal ∨ ∃ column, outcome = .unbounded column := by
  have hrepresents := (represents_of_visits hp hvisits).1
  cases hcase : outcome with
  | optimal => exact Or.inl rfl
  | unbounded column => exact Or.inr ⟨column, rfl⟩
  | iterationLimit => exact absurd hcase hlimit
  | failed error =>
    rw [hcase] at hends
    obtain ⟨_, _, _, -, -, hinfinite⟩ :=
      hrepresents.hasUnitColumns.of_failed hrepresents.hasShape hends
    cases hinfinite

end Tableau

namespace Solver

/-- With a cap that is no less than the number of choices of basic variables, a
run that always finds room visits no such choice twice, makes fewer moves than
there are choices, and ends optimal or unbounded. -/
theorem run_nondegenerate (s : Solver ℚ) {p : Problem ℚ} (hp : p.IsValid)
    (hcap : (p.numVariables + p.numConstraints).choose p.numConstraints ≤ s.maxIterations) :
    ∃ start run, Tableau.ofProblem p = .ok start ∧ s.run p = .ok run ∧
      (run.IsNondegenerate start →
        ((run.states start).map Tableau.basicSet).Nodup ∧
        run.moves.length < (p.numVariables + p.numConstraints).choose p.numConstraints ∧
        (run.outcome = .optimal ∨ ∃ column, run.outcome = .unbounded column)) := by
  refine ⟨_, _, hp.ofProblem, s.run_eq hp, ?_⟩
  intro hroom
  have hfollows := Tableau.run_follows (Tableau.initial p) s.maxIterations
  have hlength := Tableau.length_moves_lt_choose hp.canonical hfollows hroom
  refine ⟨Tableau.nodup_basicSets hp.canonical hfollows hroom, hlength, ?_⟩
  apply Tableau.optimal_or_unbounded_of_visits hp.canonical
    (Tableau.run_visits (Tableau.initial p) s.maxIterations)
    (Tableau.run_endsAt (Tableau.initial p) s.maxIterations)
  intro hlimit
  have hmoves := ((Tableau.runFrom_outcome_eq_iterationLimit_iff _ _).mp hlimit).1
  have hfull : ((Tableau.initial p).run s.maxIterations).moves.length = s.maxIterations :=
    Tableau.length_moves_of_canMove hmoves
  omega

theorem run_nondegenerate_production : production.IsValid ∧ ∃ start run,
    Tableau.ofProblem production = .ok start ∧ (⟨10, 0⟩ : Solver ℚ).run production = .ok run ∧
      run.IsNondegenerate start ∧ ((run.states start).map Tableau.basicSet).Nodup ∧
      run.moves.length < 10 ∧
      (run.outcome = .optimal ∨ ∃ column, run.outcome = .unbounded column) := by
  have hp : production.IsValid := by decide +kernel
  obtain ⟨start, run, hstart, hrun, hends⟩ :=
    run_nondegenerate ⟨10, 0⟩ hp (by decide +kernel)
  have hroom : ((⟨10, 0⟩ : Solver ℚ).run production).toOption.map
      (fun run => decide (run.IsNondegenerate (Tableau.initial production))) = some true := by
    decide +kernel
  rw [hp.ofProblem] at hstart
  cases hstart
  rw [hrun] at hroom
  have hroom' := of_decide_eq_true (Option.some.inj hroom)
  exact ⟨hp, _, run, hp.ofProblem, hrun, hroom', hends hroom'⟩

end Solver

end LinearProgramming
