import LinearProgramming.Proofs.Tableau.Resumption

/-!
What decides the outcome of a run. Before each pivot the loop asks whether the
objective can be improved, then whether the cap is reached, and only then for a
place and for a pivot there. The outcome is therefore a function of the tableau
in which the run ends, and each outcome has its condition on that tableau. The
pivot count ends the loop: every move raises it by one, and none is made once it
has reached the cap, so a count that starts in a machine word stays in it.

Nothing is used of the arithmetic. Whether the objective can be improved and
which column enters are two searches through the same row, and they agree
whatever the entries are; the exit that a disagreement would open is not taken.
-/

namespace LinearProgramming

variable {α : Type} [Scalar α]

/-- A move, and then the run from where it leads. -/
def Run.cons {α : Type} (move : Move α) (rest : Run α) : Run α :=
  { rest with moves := move :: rest.moves }

namespace Tableau

/-- The outcome with which the loop stops at a tableau, or nothing if it moves
on. The questions are asked in this order. -/
def verdict? (t : Tableau α) (cap : Nat) : Option (Outcome α) :=
  if t.canImprove = false then
    some .optimal
  else if cap ≤ t.iterations then
    some .iterationLimit
  else
    match t.step with
    | .stop outcome => some outcome
    | .move _ => none

/-! ## Where a step stops -/

/-- A column enters whenever the objective can be improved. -/
theorem exists_enteringColumn? {t : Tableau α} (himprove : t.canImprove = true) :
    ∃ column, t.enteringColumn? = some column := by
  rw [← Option.ne_none_iff_exists', Ne, enteringColumn?_eq_none_iff, himprove]
  exact Bool.noConfusion

theorem step_eq_stop_optimal_iff {t : Tableau α} :
    t.step = .stop .optimal ↔ t.canImprove = false := by
  constructor
  · intro h
    cases endsAt_of_step h with
    | optimal hoptimal => exact hoptimal
  · intro hoptimal
    simp only [step, (enteringColumn?_eq_none_iff t).mpr hoptimal]

theorem step_eq_stop_unbounded_iff {t : Tableau α} {column : Nat} :
    t.step = .stop (.unbounded column) ↔
      t.enteringColumn? = some column ∧ t.leavingRow? column = none := by
  constructor
  · intro h
    cases endsAt_of_step h with
    | unbounded hcolumn hrow => exact ⟨hcolumn, hrow⟩
  · rintro ⟨hcolumn, hrow⟩
    simp only [step, hcolumn, hrow]

theorem step_eq_stop_failed_iff {t : Tableau α} {error : PivotError α} :
    t.step = .stop (.failed error) ↔ ∃ row column, t.enteringColumn? = some column ∧
      t.leavingRow? column = some row ∧ t.pivot row column = .error error := by
  constructor
  · intro h
    cases endsAt_of_step h with
    | failed hcolumn hrow hpivot => exact ⟨_, _, hcolumn, hrow, hpivot⟩
  · rintro ⟨row, column, hcolumn, hrow, hpivot⟩
    simp only [step, hcolumn, hrow, hpivot]

/-! ## The conditions of the outcomes -/

section Verdicts

variable {t : Tableau α} {cap : Nat}

/-- An outcome that a step gives is not one of those that come before it. -/
theorem ne_of_step {outcome : Outcome α} (himprove : ¬t.canImprove = false)
    (hstep : t.step = .stop outcome) : outcome ≠ .optimal ∧ outcome ≠ .iterationLimit := by
  constructor
  · rintro rfl
    exact himprove (step_eq_stop_optimal_iff.mp hstep)
  · rintro rfl
    exact t.step_ne_stop_iterationLimit hstep

theorem verdict?_eq_optimal_iff : t.verdict? cap = some .optimal ↔ t.canImprove = false := by
  rw [verdict?]
  split_ifs with hoptimal hcap
  · simp [hoptimal]
  · simp [hoptimal]
  · cases hstep : t.step with
    | stop outcome => simp [hoptimal, (ne_of_step hoptimal hstep).1]
    | move move => simp [hoptimal]

theorem verdict?_eq_iterationLimit_iff :
    t.verdict? cap = some .iterationLimit ↔ t.canImprove = true ∧ cap ≤ t.iterations := by
  rw [verdict?]
  split_ifs with hoptimal hcap
  · simp [hoptimal]
  · simp [hcap, Bool.eq_true_of_not_eq_false hoptimal]
  · cases hstep : t.step with
    | stop outcome => simp [hcap, (ne_of_step hoptimal hstep).2]
    | move move => simp [hcap]

/-- The other outcomes are those of a step below the cap. -/
theorem verdict?_eq_some_iff {outcome : Outcome α} (hoptimal : outcome ≠ .optimal)
    (hlimit : outcome ≠ .iterationLimit) : t.verdict? cap = some outcome ↔
      t.canImprove = true ∧ t.iterations < cap ∧ t.step = .stop outcome := by
  rw [verdict?]
  split_ifs with hdone hcap
  · simp [hdone, hoptimal.symm]
  · simp [Nat.not_lt.mpr hcap, hlimit.symm]
  · cases hstep : t.step <;>
      simp [Bool.eq_true_of_not_eq_false hdone, Nat.not_le.mp hcap]

theorem verdict?_eq_unbounded_iff {column : Nat} : t.verdict? cap = some (.unbounded column) ↔
    t.canImprove = true ∧ t.iterations < cap ∧ t.enteringColumn? = some column ∧
      t.leavingRow? column = none := by
  rw [verdict?_eq_some_iff (by simp) (by simp), step_eq_stop_unbounded_iff]

theorem verdict?_eq_failed_iff {error : PivotError α} : t.verdict? cap = some (.failed error) ↔
    t.canImprove = true ∧ t.iterations < cap ∧ ∃ row column, t.enteringColumn? = some column ∧
      t.leavingRow? column = some row ∧ t.pivot row column = .error error := by
  rw [verdict?_eq_some_iff (by simp) (by simp), step_eq_stop_failed_iff]

/-- Where there is no verdict, a move is made below the cap. -/
theorem exists_move_of_verdict (h : t.verdict? cap = none) :
    t.iterations < cap ∧ ∃ move, t.step = .move move := by
  rw [verdict?] at h
  split_ifs at h with hoptimal hcap
  cases hstep : t.step with
  | stop outcome =>
    rw [hstep] at h
    cases h
  | move move => exact ⟨Nat.not_le.mp hcap, move, rfl⟩

/-! ## The loop -/

/-- The loop stops where there is a verdict. -/
theorem run_of_verdict {outcome : Outcome α} (h : t.verdict? cap = some outcome) :
    t.run cap = ⟨outcome, t, []⟩ := by
  rw [verdict?] at h
  rw [run]
  split_ifs at h with hoptimal hcap
  · cases h
    cases cap - t.iterations <;> simp [runFrom, hoptimal]
  · cases h
    simp [Nat.sub_eq_zero_of_le hcap, runFrom, hoptimal]
  · obtain ⟨left, hleft⟩ := Nat.exists_eq_add_one.mpr (Nat.sub_pos_of_lt (Nat.not_le.mp hcap))
    cases hstep : t.step with
    | stop other =>
      rw [hstep] at h
      cases h
      simp [hleft, runFrom, hoptimal, hstep]
    | move move =>
      rw [hstep] at h
      cases h

/-- Elsewhere it makes its move and goes on under the same cap. -/
theorem run_of_move {move : Move α} (hcap : t.iterations < cap) (hstep : t.step = .move move) :
    t.run cap = (move.after.run cap).cons move := by
  have hleft : cap - t.iterations = cap - move.after.iterations + 1 := by
    rw [iterations_move hstep]
    omega
  rw [run, hleft, runFrom_of_move hstep, runFrom_moves]
  rfl

end Verdicts

/-- Induction along a run: the loop stops where there is a verdict, and elsewhere a move
leads to a tableau for which less is left of the cap. -/
theorem run_induction {motive : Tableau α → Prop} (cap : Nat)
    (stop : ∀ t outcome, t.verdict? cap = some outcome → t.run cap = ⟨outcome, t, []⟩ → motive t)
    (move : ∀ (t : Tableau α) (move : Move α), t.step = .move move → t.iterations < cap →
      t.run cap = (move.after.run cap).cons move →
        motive move.after → motive t) (t : Tableau α) : motive t := by
  induction hleft : cap - t.iterations using Nat.strong_induction_on generalizing t with
  | _ left ih =>
    cases hverdict : t.verdict? cap with
    | some outcome => exact stop t outcome hverdict (run_of_verdict hverdict)
    | none =>
      obtain ⟨hcap, next, hstep⟩ := exists_move_of_verdict hverdict
      have hcount := iterations_move hstep
      have hless : cap - next.after.iterations < left := by omega
      exact move t next hstep hcap (run_of_move hcap hstep) (ih _ hless next.after rfl)

/-- A run ends where there is a verdict, and its outcome is that verdict. -/
theorem verdict?_run (t : Tableau α) (cap : Nat) :
    (t.run cap).final.verdict? cap = some (t.run cap).outcome := by
  induction t using run_induction (α := α) cap with
  | stop t outcome hverdict hrun =>
    rw [hrun]
    exact hverdict
  | move t move hstep hcap hrun ih =>
    rw [hrun]
    exact ih

/-- No move is made at the cap. -/
theorem length_moves_le (t : Tableau α) (cap : Nat) :
    (t.run cap).moves.length ≤ cap - t.iterations := by
  induction t using run_induction (α := α) cap with
  | stop t outcome hverdict hrun =>
    rw [hrun]
    exact Nat.zero_le _
  | move t move hstep hcap hrun ih =>
    have hcount := iterations_move hstep
    rw [hrun, Run.cons, List.length_cons]
    omega

/-! ## What a run shows -/

/-- What a run from a tableau under a cap comes to. -/
structure EndsWithin (t : Tableau α) (cap : Nat) (run : Run α) : Prop where
  iterations_le : run.final.iterations ≤ max t.iterations cap
  /-- The run makes as many moves as it counts. -/
  iterations_eq : run.final.iterations = t.iterations + run.moves.length
  /-- Each move leads from the tableau before it to the one after it, below the cap and at
  the place that the selection rules choose. The count stays in a machine word that the cap
  fits in. -/
  move : ∀ (i : Nat) (move : Move α), run.moves[i]? = some move → ∃ before,
    (run.states t)[i]? = some before ∧ (run.states t)[i + 1]? = some move.after ∧
    before.enteringColumn? = some move.column ∧
    before.leavingRow? move.column = some move.row ∧
    before.pivot move.row move.column = .ok move.after ∧
    before.iterations < cap ∧ move.after.iterations = before.iterations + 1 ∧
    (cap < 2 ^ 64 → (UInt64.ofNat before.iterations + 1).toNat = move.after.iterations)
  final : (run.states t).getLast? = some run.final
  /-- The search for a column never comes back empty where the loop makes it. -/
  entering : ∀ u ∈ run.states t, u.canImprove = true → ∃ column, u.enteringColumn? = some column
  optimal_iff : run.outcome = .optimal ↔ run.final.canImprove = false
  iterationLimit_iff : run.outcome = .iterationLimit ↔
    run.final.canImprove = true ∧ cap ≤ run.final.iterations
  iterations_of_limit : run.outcome = .iterationLimit →
    run.final.iterations = max t.iterations cap
  unbounded_iff : ∀ column, run.outcome = .unbounded column ↔
    run.final.canImprove = true ∧ run.final.iterations < cap ∧
    run.final.enteringColumn? = some column ∧ run.final.leavingRow? column = none
  failed_iff : ∀ error, run.outcome = .failed error ↔
    run.final.canImprove = true ∧ run.final.iterations < cap ∧
    ∃ row column, run.final.enteringColumn? = some column ∧
      run.final.leavingRow? column = some row ∧ run.final.pivot row column = .error error

/-- A run ends within its cap, and the tableau in which it ends decides its outcome. -/
theorem run_endsWithin (t : Tableau α) (cap : Nat) : t.EndsWithin cap (t.run cap) := by
  have hfollows := run_follows t cap
  have hlength := length_moves_le t cap
  have hcount := hfollows.iterations_final
  have houtcome : ∀ outcome, (t.run cap).outcome = outcome ↔
      (t.run cap).final.verdict? cap = some outcome := by
    intro outcome
    rw [verdict?_run, Option.some.injEq]
  have hlimit := houtcome .iterationLimit
  rw [verdict?_eq_iterationLimit_iff] at hlimit
  constructor
  case iterations_le => omega
  case iterations_eq => exact hcount
  case move =>
    intro i move hmove
    have hi : i < (t.run cap).moves.length := (List.getElem?_eq_some_iff.mp hmove).1
    have hstep := hfollows.step i move hmove
    obtain ⟨hcolumn, hrow, hpivot⟩ := step_eq_move_iff.mp hstep
    have hbefore := hfollows.iterations_iterate hi.le
    have hafter := iterations_move hstep
    refine ⟨next^[i] t, hfollows.getElem?_states hi.le, ?_, hcolumn, hrow, hpivot, by omega,
      hafter, ?_⟩
    · rw [hfollows.getElem?_states hi, Function.iterate_succ_apply', next_of_move hstep]
    · intro hword
      rw [hafter, UInt64.toNat_add, UInt64.toNat_ofNat']
      simp only [UInt64.toNat_one]
      omega
  case final => exact hfollows.getLast?_states
  case entering => exact fun u _ himprove => exists_enteringColumn? himprove
  case optimal_iff => rw [houtcome, verdict?_eq_optimal_iff]
  case iterationLimit_iff => exact hlimit
  case iterations_of_limit =>
    intro h
    have hcap := (hlimit.mp h).2
    omega
  case unbounded_iff =>
    intro column
    rw [houtcome, verdict?_eq_unbounded_iff]
  case failed_iff =>
    intro error
    rw [houtcome, verdict?_eq_failed_iff]

end Tableau

end LinearProgramming
