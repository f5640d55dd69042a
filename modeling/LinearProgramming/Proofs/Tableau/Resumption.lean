import LinearProgramming.Proofs.Tableau.Trajectory

/-!
Runs that are interrupted and taken up again. The cap is compared with the pivot
count of the tableau, which counts the moves of earlier runs too, so a run that
is given up and resumed under a larger cap makes the moves that one run under
the larger cap makes. A run that has stopped by itself stops again at once, for
the same reason.

All of this holds in any arithmetic and from any tableau: nothing is used of a
move but that it counts itself.
-/

namespace LinearProgramming

variable {α : Type} [Scalar α]

/-- A run and another one from where it ends, taken together. -/
def Run.andThen {α : Type} (first rest : Run α) : Run α :=
  { rest with moves := first.moves ++ rest.moves }

omit [Scalar α] in
theorem Run.outcome_andThen (first rest : Run α) :
    (first.andThen rest).outcome = rest.outcome := rfl

omit [Scalar α] in
theorem Run.final_andThen (first rest : Run α) : (first.andThen rest).final = rest.final := rfl

omit [Scalar α] in
theorem Run.moves_andThen (first rest : Run α) :
    (first.andThen rest).moves = first.moves ++ rest.moves := rfl

namespace Tableau

/-! ## The pivot count -/

theorem iterations_pivot {t after : Tableau α} {row column : Nat}
    (hpivot : t.pivot row column = .ok after) : after.iterations = t.iterations + 1 := by
  obtain ⟨e, -, rfl⟩ := pivot_eq_ok_iff.mp hpivot
  rfl

theorem iterations_move {t : Tableau α} {move : Move α} (hstep : t.step = .move move) :
    move.after.iterations = t.iterations + 1 :=
  iterations_pivot (step_eq_move_iff.mp hstep).2.2

/-- The tableaux of a run are counted one by one. -/
theorem Follows.iterations_iterate {t : Tableau α} {run : Run α} (h : t.Follows run) {k : Nat}
    (hk : k ≤ run.moves.length) : (next^[k] t).iterations = t.iterations + k := by
  induction k with
  | zero => rfl
  | succ k ih =>
    have hstep := h.step k _ (List.getElem?_eq_getElem hk)
    rw [Function.iterate_succ_apply', next_of_move hstep, iterations_move hstep,
      ih (Nat.le_of_succ_le hk), Nat.add_assoc]

theorem Follows.iterations_final {t : Tableau α} {run : Run α} (h : t.Follows run) :
    run.final.iterations = t.iterations + run.moves.length := by
  rw [h.final, h.iterations_iterate le_rfl]

/-- So the count tells the tableaux of a run apart. -/
theorem Follows.eq_of_iterations_eq {t u : Tableau α} {run : Run α} (h : t.Follows run)
    (hu : u ∈ run.states t) {k : Nat} (hcount : u.iterations = t.iterations + k) :
    u = next^[k] t := by
  obtain ⟨i, hi⟩ := List.mem_iff_getElem?.mp hu
  have hlength : i ≤ run.moves.length := by
    have hlt := (List.getElem?_eq_some_iff.mp hi).1
    rw [Run.states, List.length_cons, List.length_map] at hlt
    exact Nat.le_of_lt_succ hlt
  rw [h.getElem?_states hlength] at hi
  cases hi
  rw [h.iterations_iterate hlength] at hcount
  rw [Nat.add_left_cancel hcount]

/-! ## Resuming -/

/-- Where no move can be made, a larger budget is all left for the rest. -/
theorem runFrom_resume_of_stop {t : Tableau α} {first : Run α} (hfinal : first.final = t)
    (hmoves : first.moves = []) (larger : Nat) :
    t.runFrom larger [] = first.andThen (first.final.runFrom (larger - first.moves.length) []) := by
  rw [Run.andThen, hfinal, hmoves]
  rfl

/-- A run under the larger budget is the run under the smaller one, resumed with
what that has left of the larger budget. -/
theorem runFrom_resume {budget larger : Nat} (hle : budget ≤ larger) (t : Tableau α) :
    t.runFrom larger [] = (t.runFrom budget []).andThen
      ((t.runFrom budget []).final.runFrom (larger - (t.runFrom budget []).moves.length) []) := by
  induction budget generalizing larger t with
  | zero =>
    apply runFrom_resume_of_stop
    · rw [runFrom]
      split <;> rfl
    · rw [runFrom]
      split <;> rfl
  | succ budget ih =>
    obtain ⟨rest, rfl⟩ : ∃ rest, larger = rest + 1 := Nat.exists_eq_add_one.mpr (by omega)
    cases hstep : t.step with
    | stop outcome =>
      apply runFrom_resume_of_stop
      · rw [runFrom, hstep]
        split <;> rfl
      · rw [runFrom, hstep]
        split <;> rfl
    | move move =>
      have hrest := ih (Nat.le_of_succ_le_succ hle) move.after
      rw [runFrom_of_move hstep, runFrom_of_move hstep, runFrom_moves rest,
        runFrom_moves budget, hrest]
      simp [Run.andThen]

/-- The run under the larger cap is the run under the smaller one, taken up again
under the larger one. -/
theorem run_eq_andThen (t : Tableau α) {cap larger : Nat} (hle : cap ≤ larger) :
    t.run larger = (t.run cap).andThen ((t.run cap).final.run larger) := by
  have hleft : larger - t.iterations - (t.run cap).moves.length =
      larger - (t.run cap).final.iterations := by
    rw [(run_follows t cap).iterations_final, Nat.sub_add_eq]
  have hresume := runFrom_resume (Nat.sub_le_sub_right hle t.iterations) t
  exact hresume.trans (congrArg (fun budget =>
    (t.run cap).andThen ((t.run cap).final.runFrom budget [])) hleft)

/-- Nothing is left to do under the same cap. -/
theorem run_final_run (t : Tableau α) (cap : Nat) :
    (t.run cap).final.run cap = ⟨(t.run cap).outcome, (t.run cap).final, []⟩ := by
  have hwhole := run_eq_andThen t (le_refl cap)
  have hmoves := (congrArg Run.moves hwhole).trans (Run.moves_andThen _ _)
  have houtcome := (congrArg Run.outcome hwhole).trans (Run.outcome_andThen _ _)
  have hfinal := (congrArg Run.final hwhole).trans (Run.final_andThen _ _)
  rw [houtcome, ← List.self_eq_append_right.mp hmoves]
  generalize (t.run cap).final.run cap = again at hfinal ⊢
  rw [hfinal]

/-- A run that is given up has used its cap up. -/
theorem iterations_of_iterationLimit {t : Tableau α} {cap : Nat}
    (hlimit : (t.run cap).outcome = .iterationLimit) :
    (t.run cap).moves.length = cap - t.iterations :=
  length_moves_of_canMove ((runFrom_outcome_eq_iterationLimit_iff _ t).mp hlimit).1

/-- The longer run passes through the tableau that the shorter one leaves when it
is given up, and nothing else in it has the same pivot count. -/
theorem final_of_iterationLimit {t : Tableau α} {cap larger : Nat} (hle : cap ≤ larger)
    (hlimit : (t.run cap).outcome = .iterationLimit) :
    (t.run cap).final.iterations = max cap t.iterations ∧
      (t.run cap).final ∈ (t.run larger).states t ∧
      ∀ u ∈ (t.run larger).states t, u.iterations = max cap t.iterations →
        u = (t.run cap).final := by
  have hlength := iterations_of_iterationLimit hlimit
  have hfollows := run_follows t cap
  have hwhole := run_eq_andThen t hle
  have hcount : t.iterations + (t.run cap).moves.length = max cap t.iterations := by
    omega
  refine ⟨hfollows.iterations_final.trans hcount, ?_, ?_⟩
  · have hlast := List.mem_of_getLast? hfollows.getLast?_states
    rw [hwhole, Run.states, Run.moves_andThen, List.map_append, ← List.cons_append]
    exact List.mem_append_left _ hlast
  · intro u hu hsame
    rw [hfollows.final]
    exact (run_follows t larger).eq_of_iterations_eq hu (hsame.trans hcount.symm)

/-- A run taken up again ends as one run under the larger cap does, in outcome and
tableau. Under the same cap it ends at once. What a run leaves when it is given up
is what the longer run has at the same pivot count, and a run that is not given up
is the same under every larger cap. -/
theorem run_resume (t : Tableau α) {cap larger : Nat} (hle : cap ≤ larger) :
    (((t.run cap).final.run larger).outcome = (t.run larger).outcome ∧
      ((t.run cap).final.run larger).final = (t.run larger).final) ∧
    (t.run cap).final.run cap = ⟨(t.run cap).outcome, (t.run cap).final, []⟩ ∧
    ((t.run cap).outcome = .iterationLimit →
      (t.run cap).final.iterations = max cap t.iterations ∧
      (t.run cap).final ∈ (t.run larger).states t ∧
      ∀ u ∈ (t.run larger).states t, u.iterations = max cap t.iterations →
        u = (t.run cap).final) ∧
    ((t.run cap).outcome ≠ .iterationLimit → t.run larger = t.run cap) := by
  have hwhole := run_eq_andThen t hle
  refine ⟨⟨?_, ?_⟩, run_final_run t cap, final_of_iterationLimit hle, ?_⟩
  · rw [hwhole, Run.outcome_andThen]
  · rw [hwhole, Run.final_andThen]
  · exact runFrom_eq_of_le (Nat.sub_le_sub_right hle t.iterations)

/-- After one pivot the second variable has infinite entries: it enters, and the
pivot on its positive entry fails. -/
def bursting : Problem Float :=
  ⟨[[1e-200, -1e200], [1, 1]], [1e-210, 1], [2, 1]⟩

/-- A run that is given up after the first pivot and taken up again fails as the
whole run does. -/
theorem run_resume_bursting : ∃ t error, ofProblem bursting = .ok t ∧
    (t.run 1).outcome = .iterationLimit ∧ (t.run 1).final.iterations = 1 ∧
    (t.run 5).outcome = .failed error ∧ ((t.run 1).final.run 5).outcome = .failed error := by
  have hp : bursting.IsValid := by decide +kernel
  have houtcomes : (match ((initial bursting).run 1).outcome,
        ((initial bursting).run 5).outcome with
      | .iterationLimit, .failed _ => true
      | _, _ => false) = true := by
    decide +kernel
  obtain ⟨⟨houtcome, -⟩, -, hgiven, -⟩ := run_resume (initial bursting) (by decide : 1 ≤ 5)
  split at houtcomes
  · rename_i error hlimit hfailed
    exact ⟨_, error, hp.ofProblem, hlimit, (hgiven hlimit).1, hfailed, houtcome.trans hfailed⟩
  · cases houtcomes

end Tableau

end LinearProgramming
