import LinearProgramming.Proofs.Answers
import LinearProgramming.Proofs.Log.Records
import LinearProgramming.Proofs.Tableau.Verdict

/-!
The log as it is written. A pivot records the tableau it leads to, the loop what has
moved and why it stops, and the reading of the answer what the values break; each of
them adds its records behind those that are there already. What they add together is
the log that is told from the run afterwards.
-/

namespace LinearProgramming

/-- Work that adds records to a log as it goes. -/
abbrev Logging := StateM (List LogEntry)

namespace Logging

def record (entry : LogEntry) : Logging Unit :=
  modify (· ++ [entry])

/-- The work has this answer, and adds the same records to every log. -/
def Writes {β : Type} (work : Logging β) (answer : β) (records : List LogEntry) : Prop :=
  ∀ written, work.run written = (answer, written ++ records)

variable {β γ : Type} {work : Logging β} {answer : β} {records : List LogEntry}

theorem writes_pure (answer : β) : Writes (pure answer) answer [] := by
  intro written
  rw [List.append_nil]
  rfl

theorem writes_record (entry : LogEntry) : Writes (record entry) () [entry] :=
  fun _ => rfl

theorem Writes.bind (h : Writes work answer records) {next : β → Logging γ} {last : γ}
    {further : List LogEntry} (hnext : Writes (next answer) last further) :
    Writes (work >>= next) last (records ++ further) := by
  intro written
  rw [StateT.run_bind, h written, ← List.append_assoc]
  exact hnext (written ++ records)

theorem Writes.result (h : Writes work answer records) (f : β → γ) :
    Writes (do let value ← work; return f value) (f answer) records := by
  rw [← List.append_nil records]
  exact h.bind (writes_pure (f answer))

/-- What is recorded first stands in front. -/
theorem Writes.record (h : Writes work answer records) (entry : LogEntry) :
    Writes (do Logging.record entry; work) answer (entry :: records) :=
  (writes_record entry).bind h

end Logging

namespace Tableau

end Tableau

namespace Solver

end Solver

open Logging (Writes writes_pure writes_record)

/-! ## Pivots -/

namespace Tableau

variable {t : Tableau Float} {row column cap : Nat}

end Tableau

/-! ## Answers -/

namespace Solver

variable (s : Solver Float) (p : Problem Float)

end Solver

end LinearProgramming
