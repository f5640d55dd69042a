import LinearProgramming.Run
import LinearProgramming.Proofs.Tableau.Selection

/-!
What a run does, whatever the arithmetic: it moves by the selection rules, and
the tableau it ends in bears out the outcome. Both follow from what one step
does, by induction on the pivots that are left.
-/

namespace LinearProgramming

variable {α : Type} [Scalar α]

namespace Tableau

/-- The selection rules lead from one tableau to the other. -/
inductive Visits (t : Tableau α) : Tableau α → Prop
  | refl : Visits t t
  | move {u : Tableau α} {move : Move α} (h : Visits t u) (hstep : u.step = .move move) :
      Visits t move.after

/-- Why a run may end in a tableau with an outcome. -/
inductive EndsAt (t : Tableau α) : Outcome α → Prop
  | optimal (hoptimal : t.canImprove = false) : EndsAt t .optimal
  | unbounded {column : Nat} (hcolumn : t.enteringColumn? = some column)
      (hrow : t.leavingRow? column = none) : EndsAt t (.unbounded column)
  | iterationLimit (himprove : t.canImprove = true) : EndsAt t .iterationLimit
  | failed {row column : Nat} {error : PivotError α} (hcolumn : t.enteringColumn? = some column)
      (hrow : t.leavingRow? column = some row) (hpivot : t.pivot row column = .error error) :
      EndsAt t (.failed error)

/-! ## One step -/

theorem step_eq_move_iff {t : Tableau α} {move : Move α} : t.step = .move move ↔
    t.enteringColumn? = some move.column ∧ t.leavingRow? move.column = some move.row ∧
      t.pivot move.row move.column = .ok move.after := by
  obtain ⟨row, column, after⟩ := move
  rw [step]
  constructor
  · intro h
    split at h
    · cases h
    · rename_i hcolumn
      split at h
      · cases h
      · rename_i hrow
        split at h
        · cases h
        · rename_i hpivot
          cases h
          exact ⟨hcolumn, hrow, hpivot⟩
  · rintro ⟨hcolumn, hrow, hpivot⟩
    simp only [hcolumn, hrow, hpivot]

theorem endsAt_of_step {t : Tableau α} {outcome : Outcome α} (h : t.step = .stop outcome) :
    t.EndsAt outcome := by
  rw [step] at h
  split at h
  · rename_i hcolumn
    cases h
    exact .optimal ((enteringColumn?_eq_none_iff t).mp hcolumn)
  · rename_i hcolumn
    split at h
    · rename_i hrow
      cases h
      exact .unbounded hcolumn hrow
    · rename_i hrow
      split at h
      · rename_i hpivot
        cases h
        exact .failed hcolumn hrow hpivot
      · cases h

/-! ## Runs -/

theorem Visits.trans {t u v : Tableau α} (htu : t.Visits u) (huv : u.Visits v) :
    t.Visits v := by
  induction huv with
  | refl => exact htu
  | move _ hstep ih => exact .move ih hstep

theorem Visits.reaches {t u : Tableau α} (h : t.Visits u) : t.Reaches u := by
  induction h with
  | refl => exact .refl
  | move _ hstep ih => exact .pivot ih (step_eq_move_iff.mp hstep).2.2

theorem runFrom_spec (budget : Nat) (t : Tableau α) (moves : List (Move α)) :
    t.Visits (t.runFrom budget moves).final ∧
      (t.runFrom budget moves).final.EndsAt (t.runFrom budget moves).outcome := by
  induction budget generalizing t moves with
  | zero =>
    rw [runFrom]
    cases himprove : t.canImprove with
    | false => exact ⟨.refl, .optimal himprove⟩
    | true => exact ⟨.refl, .iterationLimit himprove⟩
  | succ budget ih =>
    rw [runFrom]
    cases himprove : t.canImprove with
    | false => exact ⟨.refl, .optimal himprove⟩
    | true =>
      cases hstep : t.step with
      | stop outcome => exact ⟨.refl, endsAt_of_step hstep⟩
      | move move =>
        obtain ⟨hvisits, hends⟩ := ih move.after (move :: moves)
        exact ⟨(Visits.move .refl hstep).trans hvisits, hends⟩

theorem run_visits (t : Tableau α) (cap : Nat) : t.Visits (t.run cap).final :=
  (runFrom_spec _ t []).1

/-- The tableau in which a run ends bears out its outcome. -/
theorem run_endsAt (t : Tableau α) (cap : Nat) :
    (t.run cap).final.EndsAt (t.run cap).outcome :=
  (runFrom_spec _ t []).2

end Tableau

end LinearProgramming
