import LinearProgramming.Log
import LinearProgramming.Proofs.Text.Counts

/-!
What can be read back from the records of a log. A record of a pivot names its place,
and one of an iteration its number and the place, so that a log can be taken for
instructions. No other record is mistaken for one of these.
-/

namespace LinearProgramming

open Json (dropWord?)

namespace LogEntry

/-- The place of the pivot after which the tableau was recorded. -/
def place? (entry : LogEntry) : Option (Nat × Nat) :=
  match entry.level, numbersBetween? ["tableau after pivot (", ", ", "):\n"]
    entry.message.toList with
  | .trace, some [row, column] => some (row, column)
  | _, _ => none

/-- The place of the pivot and the number of the iteration. -/
def iteration? (entry : LogEntry) : Option ((Nat × Nat) × Nat) :=
  match entry.level, numbersBetween? ["iteration ", ": x[", "] enters at row ", ", objective "]
    entry.message.toList with
  | .debug, some [count, column, row] => some ((row, column), count)
  | _, _ => none

@[simp] theorem place?_pivoted (row column : Nat) (after : Tableau Float) :
    (pivoted row column after).place? = some (row, column) := by
  have hmessage : (pivoted row column after).message.toList =
      "tableau after pivot (".toList ++ ((toString row).toList ++ (", ".toList ++
        ((toString column).toList ++ ("):\n".toList ++ after.display.toList)))) := by
    simp only [pivoted, toString, String.toList_append, List.append_assoc]
  have hnumbers : numbersBetween? ["tableau after pivot (", ", ", "):\n"]
      (pivoted row column after).message.toList = some [row, column] := by
    rw [hmessage, numbersBetween?_cons, numbersBetween?_cons, numbersBetween?_last]
    · rfl
    · exact .cons rfl _
    · exact .cons rfl _
  rw [place?, hnumbers]
  rfl

@[simp] theorem iteration?_iteration (count row column : Nat) (objective : Float) :
    (iteration count row column objective).iteration? = some ((row, column), count) := by
  have hmessage : (iteration count row column objective).message.toList =
      "iteration ".toList ++ ((toString count).toList ++ (": x[".toList ++
        ((toString column).toList ++ ("] enters at row ".toList ++ ((toString row).toList ++
          (", objective ".toList ++ (Layout.prose.text objective).toList)))))) := by
    simp only [iteration, toString, String.toList_append, List.append_assoc]
  have hnumbers : numbersBetween? ["iteration ", ": x[", "] enters at row ", ", objective "]
      (iteration count row column objective).message.toList = some [count, column, row] := by
    rw [hmessage, numbersBetween?_cons, numbersBetween?_cons, numbersBetween?_cons,
      numbersBetween?_last]
    · rfl
    · exact .cons rfl _
    · exact .cons rfl _
    · exact .cons rfl _
  rw [iteration?, hnumbers]
  rfl

example : iteration? ⟨.debug, "iteration 12: x[3] enters at row 0, objective 7.5"⟩ =
    some ((0, 3), 12) := by
  decide +kernel

@[simp] theorem place?_initial (start : Tableau Float) : (initial start).place? = none := by
  simp [place?, initial, numbersBetween?, dropWord?]

@[simp] theorem place?_iteration (count row column : Nat) (objective : Float) :
    (iteration count row column objective).place? = none := by
  simp [place?, iteration]

@[simp] theorem iteration?_initial (start : Tableau Float) :
    (initial start).iteration? = none := by
  simp [iteration?, initial]

@[simp] theorem iteration?_pivoted (row column : Nat) (after : Tableau Float) :
    (pivoted row column after).iteration? = none := by
  simp [iteration?, pivoted]

/-- A number is expected where this record says what the number is of. -/
@[simp] theorem iteration?_limited (cap : Nat) (objective : Float) :
    (limited cap objective).iteration? = none := by
  simp [iteration?, limited, toString, numbersBetween?, dropWord?, scanNumber?,
    Numeral.scanDigits?]

@[simp] theorem iteration?_unlimited (column : Nat) : (unlimited column).iteration? = none := by
  simp [iteration?, unlimited, toString, numbersBetween?, dropWord?]

@[simp] theorem iteration?_failed (error : PivotError Float) :
    (failed error).iteration? = none := by
  simp [iteration?, failed, numbersBetween?, dropWord?]

@[simp] theorem iteration?_violated (violations : List (Violation Float)) :
    (violated violations).iteration? = none := by
  simp [iteration?, violated, numbersBetween?, dropWord?]

end LogEntry

end LinearProgramming
