import LinearProgramming.Proofs.Tableau.Runs
import Mathlib.Logic.Function.Iterate

/-!
The tableaux that a run passes through. A move is a function of the tableau, so
a run iterates one function, and a budget only says where it is cut off: runs
with different budgets pass through the same tableaux as far as both go, and a
run that has stopped by itself is not changed by a larger budget.

A pivot count says how a tableau was reached, not what it is. Tableaux with the
same data make the same moves for ever.
-/

namespace LinearProgramming

variable {α : Type}

/-- The tableaux that the run passes through from its start, the start first. -/
def Run.states (run : Run α) (start : Tableau α) : List (Tableau α) :=
  start :: run.moves.map (·.after)

namespace Tableau

/-- Nothing but the pivot count may differ. -/
structure SameData (t u : Tableau α) : Prop where
  numVariables : t.numVariables = u.numVariables
  equations : t.equations = u.equations
  objective : t.objective = u.objective

variable [Scalar α]

/-- The selection rules find a place where a pivot succeeds. -/
def CanMove (t : Tableau α) : Prop :=
  ∃ move, t.step = .move move

/-- The tableau that the selection rules lead to; where they stop it stays. -/
def next (t : Tableau α) : Tableau α :=
  match t.step with
  | .stop _ => t
  | .move move => move.after

theorem next_of_move {t : Tableau α} {move : Move α} (h : t.step = .move move) :
    t.next = move.after := by
  rw [next, h]

/-- Where a move pivots: the column improves the objective, and the entry is
positive. -/
theorem exists_place_of_move [Scalar.Lawful α] {t : Tableau α} {move : Move α}
    (h : t.step = .move move) : ∃ e, t.PivotsAt move.row move.column e ∧
      t.objective.entry move.column < 0 ∧ 0 < e.row.entry move.column ∧
      t.exchange move.row move.column (e.row.divide (e.row.entry move.column)) = move.after := by
  obtain ⟨hcolumn, hrow, hpivot⟩ := step_eq_move_iff.mp h
  obtain ⟨e, hplace, hafter⟩ := pivot_eq_ok_iff.mp hpivot
  obtain ⟨e', he', hpositive, -⟩ := leavingRow?_eq_some hrow
  cases he'.symm.trans hplace.equation
  exact ⟨e, hplace, (enteringColumn?_eq_some hcolumn).2, hpositive, hafter⟩

theorem canImprove_of_canMove {t : Tableau α} (h : t.CanMove) : t.canImprove = true := by
  obtain ⟨move, hstep⟩ := h
  have hcolumn := (step_eq_move_iff.mp hstep).1
  rw [← Bool.not_eq_false, ← enteringColumn?_eq_none_iff, hcolumn]
  exact Option.some_ne_none _

theorem visits_next (t : Tableau α) : t.Visits t.next := by
  cases hstep : t.step with
  | stop outcome =>
    rw [next, hstep]
    exact .refl
  | move move =>
    rw [next_of_move hstep]
    exact .move .refl hstep

theorem visits_iterate (t : Tableau α) (k : Nat) : t.Visits (next^[k] t) := by
  induction k with
  | zero => exact .refl
  | succ k ih =>
    rw [Function.iterate_succ_apply']
    exact ih.trans (visits_next _)

/-! ## Runs as iterations -/

theorem runFrom_of_move {t : Tableau α} {move : Move α} (hstep : t.step = .move move)
    (budget : Nat) (moves : List (Move α)) :
    t.runFrom (budget + 1) moves = move.after.runFrom budget (move :: moves) := by
  rw [runFrom, canImprove_of_canMove ⟨move, hstep⟩, hstep]
  rfl

/-- The moves made before are kept as they are. -/
theorem runFrom_moves (budget : Nat) (t : Tableau α) (moves : List (Move α)) :
    t.runFrom budget moves =
      { t.runFrom budget [] with moves := moves.reverse ++ (t.runFrom budget []).moves } := by
  induction budget generalizing t moves with
  | zero =>
    rw [runFrom, runFrom]
    split <;> simp
  | succ budget ih =>
    cases himprove : t.canImprove with
    | false =>
      rw [runFrom, runFrom, himprove]
      simp
    | true =>
      cases hstep : t.step with
      | stop outcome =>
        rw [runFrom, runFrom, himprove, hstep]
        simp
      | move move =>
        rw [runFrom_of_move hstep, runFrom_of_move hstep, ih move.after (move :: moves),
          ih move.after [move]]
        simp

/-- What the record of a run says: each move is the one that the selection rules
make where it is made, and the run ends where the last one leads. -/
structure Follows (t : Tableau α) (run : Run α) : Prop where
  step : ∀ (i : Nat) (move : Move α), run.moves[i]? = some move →
    (next^[i] t).step = .move move
  final : run.final = next^[run.moves.length] t

theorem runFrom_follows (budget : Nat) (t : Tableau α) : t.Follows (t.runFrom budget []) := by
  induction budget generalizing t with
  | zero =>
    rw [runFrom]
    split <;> exact ⟨by simp, rfl⟩
  | succ budget ih =>
    cases himprove : t.canImprove with
    | false =>
      rw [runFrom, himprove]
      exact ⟨by simp, rfl⟩
    | true =>
      cases hstep : t.step with
      | stop outcome =>
        rw [runFrom, himprove, hstep]
        exact ⟨by simp, rfl⟩
      | move move =>
        obtain ⟨hrest, hfinal⟩ := ih move.after
        rw [← next_of_move hstep] at hrest hfinal
        rw [runFrom_of_move hstep, runFrom_moves, ← next_of_move hstep]
        constructor
        case step =>
          rintro (_ | i) other hother
          · cases hother
            exact hstep
          · exact hrest i other hother
        case final => exact hfinal

theorem run_follows (t : Tableau α) (cap : Nat) : t.Follows (t.run cap) :=
  runFrom_follows _ t

theorem Follows.getElem?_states {t : Tableau α} {run : Run α} (h : t.Follows run) {i : Nat}
    (hi : i ≤ run.moves.length) : (run.states t)[i]? = some (next^[i] t) := by
  cases i with
  | zero => rfl
  | succ i =>
    have hmove := List.getElem?_eq_getElem (Nat.lt_of_succ_le hi)
    rw [Run.states, List.getElem?_cons_succ, List.getElem?_map, hmove,
      Function.iterate_succ_apply', next_of_move (h.step i _ hmove)]
    rfl

theorem Follows.getLast?_states {t : Tableau α} {run : Run α} (h : t.Follows run) :
    (run.states t).getLast? = some run.final := by
  rw [List.getLast?_eq_getElem?, h.final, ← h.getElem?_states le_rfl, Run.states,
    List.length_cons, List.length_map, Nat.add_sub_cancel]

/-- A run passes only through tableaux that the selection rules lead to. -/
theorem Follows.visits_of_mem {t : Tableau α} {run : Run α} (h : t.Follows run) {u : Tableau α}
    (hu : u ∈ run.states t) : t.Visits u := by
  obtain ⟨i, hi⟩ := List.mem_iff_getElem?.mp hu
  have hlength : i ≤ run.moves.length := by
    have hlt := (List.getElem?_eq_some_iff.mp hi).1
    rw [Run.states, List.length_cons, List.length_map] at hlt
    exact Nat.le_of_lt_succ hlt
  rw [h.getElem?_states hlength] at hi
  cases hi
  exact visits_iterate t i

/-! ## Budgets -/

theorem step_ne_stop_iterationLimit (t : Tableau α) : t.step ≠ .stop .iterationLimit := by
  rw [step]
  split
  · simp
  · split
    · simp
    · split <;> simp

theorem not_canMove_of_stop {t : Tableau α} {outcome : Outcome α} (h : t.step = .stop outcome) :
    ¬t.CanMove := by
  rintro ⟨move, hmove⟩
  rw [h] at hmove
  cases hmove

/-- A run is given up exactly if it could move as often as it was allowed to,
and the objective could still be improved. -/
theorem runFrom_outcome_eq_iterationLimit_iff (budget : Nat) (t : Tableau α) :
    (t.runFrom budget []).outcome = .iterationLimit ↔
      (∀ k < budget, (next^[k] t).CanMove) ∧ (next^[budget] t).canImprove = true := by
  induction budget generalizing t with
  | zero =>
    rw [runFrom]
    cases himprove : t.canImprove <;> simp [himprove]
  | succ budget ih =>
    cases hstep : t.step with
    | stop outcome =>
      have hother : (t.runFrom (budget + 1) []).outcome ≠ .iterationLimit := by
        intro hlimit
        rw [runFrom, hstep] at hlimit
        split at hlimit
        · cases hlimit
        · exact t.step_ne_stop_iterationLimit (hstep.trans (congrArg Step.stop hlimit))
      simp only [hother, false_iff, not_and]
      intro hmoves
      exact absurd (hmoves 0 (Nat.succ_pos budget)) (not_canMove_of_stop hstep)
    | move move =>
      have hcan : (next^[0] t).CanMove := ⟨move, hstep⟩
      rw [runFrom_of_move hstep, runFrom_moves, Nat.forall_lt_succ_left, and_iff_right hcan]
      simp only [Function.iterate_succ_apply, next_of_move hstep]
      exact ih move.after

theorem length_moves_of_canMove {t : Tableau α} {budget : Nat}
    (h : ∀ k < budget, (next^[k] t).CanMove) : (t.runFrom budget []).moves.length = budget := by
  induction budget generalizing t with
  | zero =>
    rw [runFrom]
    split <;> rfl
  | succ budget ih =>
    obtain ⟨move, hstep⟩ : t.CanMove := h 0 (Nat.succ_pos budget)
    have hrest : ∀ k < budget, (next^[k] move.after).CanMove := by
      intro k hk
      rw [← next_of_move hstep]
      exact h (k + 1) (Nat.succ_lt_succ hk)
    rw [runFrom_of_move hstep, runFrom_moves, List.length_append, ih hrest]
    exact Nat.add_comm 1 budget

/-- A run that is not given up makes no use of a larger budget. -/
theorem runFrom_eq_of_le {t : Tableau α} {budget larger : Nat} {moves : List (Move α)}
    (hle : budget ≤ larger) (h : (t.runFrom budget moves).outcome ≠ .iterationLimit) :
    t.runFrom larger moves = t.runFrom budget moves := by
  induction budget generalizing t larger moves with
  | zero =>
    cases himprove : t.canImprove with
    | false => cases larger <;> simp [runFrom, himprove]
    | true =>
      rw [runFrom, himprove] at h
      exact absurd rfl h
  | succ budget ih =>
    obtain ⟨rest, rfl⟩ : ∃ rest, larger = rest + 1 := Nat.exists_eq_add_one.mpr (by omega)
    cases hstep : t.step with
    | stop outcome => simp only [runFrom, hstep]
    | move move =>
      rw [runFrom_of_move hstep] at h ⊢
      rw [runFrom_of_move hstep]
      exact ih (Nat.le_of_succ_le_succ hle) h

/-! ## The same data -/

omit [Scalar α] in
theorem SameData.symm {t u : Tableau α} (h : t.SameData u) : u.SameData t :=
  ⟨h.numVariables.symm, h.equations.symm, h.objective.symm⟩

theorem SameData.pivot {t u after : Tableau α} (h : t.SameData u) {row column : Nat}
    (hpivot : t.pivot row column = .ok after) :
    ∃ after', u.pivot row column = .ok after' ∧ after.SameData after' := by
  obtain ⟨e, hplace, rfl⟩ := pivot_eq_ok_iff.mp hpivot
  have hwidth : t.width = u.width := by
    rw [width, width, Tableau.numConstraints, Tableau.numConstraints, h.numVariables, h.equations]
  have hplace' : u.PivotsAt row column e :=
    { hplace with
      equation := h.equations ▸ hplace.equation
      column_lt := hwidth ▸ hplace.column_lt }
  refine ⟨_, pivot_eq_ok_iff.mpr ⟨e, hplace', rfl⟩, ?_⟩
  constructor
  case numVariables => exact h.numVariables
  case equations => rw [exchange, exchange, h.equations]
  case objective => rw [exchange_objective, exchange_objective, h.objective]

/-- The selection rules look at the data only. -/
theorem SameData.step {t u : Tableau α} (h : t.SameData u) {move : Move α}
    (hstep : t.step = .move move) :
    ∃ after, u.step = .move ⟨move.row, move.column, after⟩ ∧ move.after.SameData after := by
  obtain ⟨hcolumn, hrow, hpivot⟩ := step_eq_move_iff.mp hstep
  obtain ⟨after, hafter, hsame⟩ := h.pivot hpivot
  refine ⟨after, step_eq_move_iff.mpr ⟨?_, ?_, hafter⟩, hsame⟩
  · rw [← hcolumn, enteringColumn?, enteringColumn?, improvingColumns, improvingColumns,
      h.objective]
  · rw [← hrow, leavingRow?, leavingRow?, ratios, ratios, h.equations]

theorem SameData.canMove {t u : Tableau α} (h : t.SameData u) (hmove : t.CanMove) :
    u.CanMove := by
  obtain ⟨move, hstep⟩ := hmove
  obtain ⟨after, hstep', -⟩ := h.step hstep
  exact ⟨_, hstep'⟩

theorem SameData.next {t u : Tableau α} (h : t.SameData u) : t.next.SameData u.next := by
  cases hstep : t.step with
  | move move =>
    obtain ⟨after, hstep', hsame⟩ := h.step hstep
    rw [next_of_move hstep, next_of_move hstep']
    exact hsame
  | stop outcome =>
    cases hstep' : u.step with
    | move move =>
      exact absurd (h.symm.canMove ⟨move, hstep'⟩) (not_canMove_of_stop hstep)
    | stop outcome' =>
      rw [Tableau.next, Tableau.next, hstep, hstep']
      exact h

theorem SameData.iterate {t u : Tableau α} (h : t.SameData u) (k : Nat) :
    (Tableau.next^[k] t).SameData (Tableau.next^[k] u) := by
  induction k with
  | zero => exact h
  | succ k ih =>
    rw [Function.iterate_succ_apply', Function.iterate_succ_apply']
    exact ih.next

/-- Data that come back once come back for ever, so a run never stops by itself
once it has met the same data twice. -/
theorem canMove_of_cycle {t : Tableau α} {i j : Nat} (hij : i < j)
    (hcycle : (next^[i] t).SameData (next^[j] t)) (hmoves : ∀ k < j, (next^[k] t).CanMove)
    (k : Nat) : (next^[k] t).CanMove := by
  induction k using Nat.strong_induction_on with
  | _ k ih =>
    rcases Nat.lt_or_ge k j with hk | hk
    · exact hmoves k hk
    · obtain ⟨further, rfl⟩ := Nat.exists_eq_add_of_le' hk
      have hsame := hcycle.iterate further
      rw [← Function.iterate_add_apply, ← Function.iterate_add_apply] at hsame
      exact hsame.canMove (ih (further + i) (by omega))

end Tableau

end LinearProgramming
