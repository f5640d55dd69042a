import LinearProgramming.Log
import LinearProgramming.Proofs.Tableau.Shape
import LinearProgramming.Proofs.Text.Counts
import LinearProgramming.Proofs.Text.Words

/-!
What the text of a tableau tells: the size, the basis, and what is written in the cells.
All of it is read back, whatever the size and however wide the texts of the cells, and
there is nothing else in the text. The pivot count is not, nor is what two decimals leave
out of a number.

The shape of the tableau and the numbers in it play no part: the lines are read one by
one, and a cell may be written in any way that makes a word.
-/

namespace LinearProgramming

/-- What stands in the text of a tableau. -/
structure Sheet where
  numConstraints : Nat
  numVariables : Nat
  basis : List Nat
  /-- The texts of the cells row by row, those of the objective last. -/
  cells : List (List String)

namespace Sheet

/-- The variable that a line is named after. The line of the objective is not named
after one. -/
def basic? (line : List Char) : Option Nat :=
  match (words line).head?.bind fun label => numbersBetween? ["x[", "]"] label.toList with
  | some [column] => some column
  | _ => none

/-- Reads a table by its line breaks and blanks. The heads of the columns follow from
the size. -/
def ofText? (text : String) : Option Sheet :=
  match text.toList.splitOn '\n' with
  | size :: _ :: lines =>
    match numbersBetween? ["m = ", ", n = ", ""] size with
    | some [m, n] => some ⟨m, n, lines.filterMap basic?, lines.map fun line => (words line).drop 2⟩
    | _ => none
  | _ => none

end Sheet

namespace Tableau

variable {α : Type} {cell : α → String} {t u : Tableau α}

def sheet (cell : α → String) (t : Tableau α) : Sheet where
  numConstraints := t.numConstraints
  numVariables := t.numVariables
  basis := t.basis
  cells := t.rows.map (·.cells.map cell)

/-! ## The lines of a table -/

theorem toList_sizeLine (t : Tableau α) : t.sizeLine.toList =
    "m = ".toList ++ ((toString t.numConstraints).toList ++
      (", n = ".toList ++ (toString t.numVariables).toList)) := by
  simp only [sizeLine, toString, String.toList_append, List.append_assoc]

theorem isLine_sizeLine (t : Tableau α) : IsLine t.sizeLine := by
  have hnumber : ∀ n : Nat, '\n' ∉ (toString n).toList := by
    intro n hmem
    exact List.any_eq_false.mp (any_isWhitespace_toString n) '\n' hmem rfl
  constructor
  · simp [← String.toList_eq_nil_iff, toList_sizeLine]
  · rw [toList_sizeLine]
    simp only [List.mem_append, not_or]
    exact ⟨by decide, hnumber _, by decide, hnumber _⟩

theorem isLine_headLine (t : Tableau α) : IsLine t.headLine := by
  have hheads : ∀ text ∈ (List.range t.width).map columnName ++ ["b"], IsWord text := by
    rw [List.forall_mem_append]
    exact ⟨List.forall_mem_map.mpr fun column _ => isWord_columnName column, by decide⟩
  have hblanks : (alignRight 8 "").toList = List.replicate 8 ' ' := rfl
  constructor
  · simp [← String.toList_eq_nil_iff, headLine, hblanks]
  · rw [headLine, String.toList_append, List.mem_append, not_or]
    exact ⟨by decide, newline_not_mem_alignCells hheads⟩

theorem isWord_of_mem_cells (hcell : ∀ value, IsWord (cell value)) (row : Row α) :
    ∀ text ∈ row.cells.map cell, IsWord text :=
  List.forall_mem_map.mpr fun value _ => hcell value

theorem isLine_rowLine (hcell : ∀ value, IsWord (cell value)) {label : String}
    (hlabel : IsWord label) (row : Row α) : IsLine (rowLine cell label row) := by
  constructor
  · simp [← String.toList_eq_nil_iff, rowLine]
  · simp only [rowLine, String.toList_append, List.mem_append, not_or]
    exact ⟨⟨newline_not_mem_alignRight (hlabel.not_mem rfl) 6, by decide⟩,
      newline_not_mem_alignCells (isWord_of_mem_cells hcell row)⟩

theorem isLine_of_mem_lines (hcell : ∀ value, IsWord (cell value)) (t : Tableau α) :
    ∀ line ∈ t.lines cell, IsLine line := by
  simp only [lines, List.forall_mem_append, List.forall_mem_cons, List.forall_mem_map]
  exact ⟨⟨⟨t.isLine_sizeLine, t.isLine_headLine, by simp⟩,
    fun e _ => isLine_rowLine hcell (isWord_columnName e.basic) e.row⟩,
    isLine_rowLine hcell (by decide) t.objective, by simp⟩

theorem lines_ne_nil (cell : α → String) (t : Tableau α) : t.lines cell ≠ [] := by
  simp [lines]

theorem length_lines (cell : α → String) (t : Tableau α) :
    (t.lines cell).length = t.numConstraints + 3 := by
  simp [lines, numConstraints]

/-! ## Reading the lines -/

theorem numbersBetween?_sizeLine (t : Tableau α) :
    numbersBetween? ["m = ", ", n = ", ""] t.sizeLine.toList =
      some [t.numConstraints, t.numVariables] := by
  rw [toList_sizeLine, ← List.append_nil (toString t.numVariables).toList,
    numbersBetween?_cons, numbersBetween?_cons]
  · rfl
  · exact .nil _
  · exact .cons rfl _

/-- A line holds its label, the sign behind it, and the texts of the cells. -/
theorem words_rowLine (hcell : ∀ value, IsWord (cell value)) {label : String}
    (hlabel : IsWord label) (row : Row α) :
    words (rowLine cell label row).toList = label :: "=" :: row.cells.map cell := by
  have hsign : (alignRight 6 label ++ " =").toList =
      (alignRight 6 label).toList ++ ' ' :: "=".toList := by
    rw [String.toList_append]
    rfl
  rw [rowLine, String.toList_append, words_append_alignCells (isWord_of_mem_cells hcell row),
    hsign, words_append_blank, hlabel.words_alignRight, IsWord.words_toList (by decide)]
  rfl

theorem basic?_rowLine (hcell : ∀ value, IsWord (cell value)) (column : Nat) (row : Row α) :
    Sheet.basic? (rowLine cell (columnName column) row).toList = some column := by
  have hnumber : numbersBetween? ["x[", "]"] (columnName column).toList = some [column] := by
    rw [toList_columnName, numbersBetween?_cons]
    · rfl
    · exact .cons rfl _
  rw [Sheet.basic?, words_rowLine hcell (isWord_columnName column), List.head?_cons,
    Option.bind_some, hnumber]

theorem basic?_rowLine_objective (hcell : ∀ value, IsWord (cell value)) (row : Row α) :
    Sheet.basic? (rowLine cell "z" row).toList = none := by
  rw [Sheet.basic?, words_rowLine hcell (by decide)]
  rfl

theorem filterMap_basic?_lines (hcell : ∀ value, IsWord (cell value)) (t : Tableau α) :
    (((t.lines cell).drop 2).map String.toList).filterMap Sheet.basic? = t.basis := by
  simp [lines, List.filterMap_map, Function.comp_def, basic?_rowLine hcell,
    basic?_rowLine_objective hcell, basis]

theorem map_words_lines (hcell : ∀ value, IsWord (cell value)) (t : Tableau α) :
    (((t.lines cell).drop 2).map String.toList).map (fun line => (words line).drop 2) =
      t.rows.map (·.cells.map cell) := by
  have hlast : IsWord "z" := by decide
  simp [lines, Function.comp_def, words_rowLine hcell, isWord_columnName, hlast, rows]

/-- The text of a tableau is read back. -/
theorem ofText?_text (hcell : ∀ value, IsWord (cell value)) (t : Tableau α) :
    Sheet.ofText? (t.text cell) = some (t.sheet cell) := by
  have hlines : t.lines cell = t.sizeLine :: t.headLine :: (t.lines cell).drop 2 := rfl
  rw [Sheet.ofText?, text, splitOn_newline (t.lines_ne_nil cell) (t.isLine_of_mem_lines hcell),
    hlines, List.map_cons, List.map_cons]
  simp only [numbersBetween?_sizeLine, filterMap_basic?_lines hcell, map_words_lines hcell]
  rfl

/-! ## The same text -/

/-- There is nothing else in the text. -/
theorem text_eq_of_sheet_eq (h : t.sheet cell = u.sheet cell) : t.text cell = u.text cell := by
  simp only [sheet, Sheet.mk.injEq, rows, List.map_append, List.map_map, List.map_singleton] at h
  obtain ⟨hconstraints, hvariables, hbasis, hcells⟩ := h
  obtain ⟨hequations, hobjective⟩ := List.append_inj' hcells rfl
  have hsize : t.sizeLine = u.sizeLine := by
    rw [sizeLine, sizeLine, hconstraints, hvariables]
  have hheads : t.headLine = u.headLine := by
    rw [headLine, headLine, width, width, hconstraints, hvariables]
  -- A line is made of a name and of texts, so the two lists are looked at as one.
  have hnamed : t.equations.map (fun e => (e.basic, e.row.cells.map cell)) =
      u.equations.map (fun e => (e.basic, e.row.cells.map cell)) := by
    rw [← List.zip_map', ← List.zip_map']
    exact congrArg₂ List.zip hbasis hequations
  have hrows : t.equations.map (fun e => rowLine cell (columnName e.basic) e.row) =
      u.equations.map (fun e => rowLine cell (columnName e.basic) e.row) := by
    have hlabelled := congrArg (List.map fun named : Nat × List String =>
      alignRight 6 (columnName named.1) ++ " =" ++ alignCells named.2) hnamed
    rwa [List.map_map, List.map_map] at hlabelled
  have hlast : rowLine cell "z" t.objective = rowLine cell "z" u.objective := by
    rw [rowLine, rowLine, List.singleton_inj.mp hobjective]
  rw [text, text, lines, lines, hsize, hheads, hrows, hlast]

theorem text_eq_iff_sheet_eq (hcell : ∀ value, IsWord (cell value)) :
    t.text cell = u.text cell ↔ t.sheet cell = u.sheet cell := by
  constructor
  · intro htext
    have hread := congrArg Sheet.ofText? htext
    rw [ofText?_text hcell, ofText?_text hcell] at hread
    exact Option.some.inj hread
  · exact text_eq_of_sheet_eq

/-- Whatever is in a tableau, its text has a line for the size, one for the heads, one
for each equation and one for the objective, and no break behind the last. Two tableaus
have the same text exactly if they have the same size and basis and the same texts in
all cells. -/
theorem text_determines (hcell : ∀ value, IsWord (cell value)) :
    (∀ t : Tableau α, ((t.text cell).toList.splitOn '\n').length = t.numConstraints + 3 ∧
      (t.text cell).toList.getLast? ≠ some '\n') ∧
    ∀ t u : Tableau α, t.text cell = u.text cell ↔
      t.numConstraints = u.numConstraints ∧ t.numVariables = u.numVariables ∧
        t.basis = u.basis ∧ t.rows.map (·.cells.map cell) = u.rows.map (·.cells.map cell) := by
  constructor
  · intro t
    have hne := t.lines_ne_nil cell
    have hlines := t.isLine_of_mem_lines hcell
    constructor
    · rw [text, splitOn_newline hne hlines, List.length_map, length_lines]
    · exact getLast?_ne_newline hne hlines
  · intro t u
    rw [text_eq_iff_sheet_eq hcell, sheet, sheet, Sheet.mk.injEq]

/-- A bound is wider than its column, and after two pivots some numbers are infinite or
undefined. -/
def sprawling (small : Float) : Problem Float :=
  ⟨[[small, 1], [1, 1]], [1e200, 1], [1, 1]⟩

/-- Another small coefficient makes no difference to the text, but pivots do. -/
theorem text_determines_sprawling : ∃ start other after,
    ofProblem (sprawling 1e-200) = .ok start ∧ ofProblem (sprawling 2e-200) = .ok other ∧
    start.Reaches after ∧ after.rhs.map cellText = ["NaN", "inf"] ∧
    (after.display.toList.splitOn '\n').length = 5 ∧
    start.display = other.display ∧ start.display ≠ after.display := by
  have hp : (sprawling 1e-200).IsValid := by decide +kernel
  have hq : (sprawling 2e-200).IsValid := by decide +kernel
  have hstart : ∀ small, (initial (sprawling small)).numConstraints = 2 ∧
      (initial (sprawling small)).numVariables = 2 ∧
      (initial (sprawling small)).basis = [2, 3] :=
    fun _ => ⟨rfl, rfl, rfl⟩
  obtain ⟨hm, hn, hbasis⟩ := hstart 1e-200
  obtain ⟨hm', hn', hbasis'⟩ := hstart 2e-200
  have hcells : (initial (sprawling 1e-200)).rows.map (·.cells.map cellText) =
      (initial (sprawling 2e-200)).rows.map (·.cells.map cellText) := by
    decide +kernel
  let after := (initial (sprawling 1e-200)).pivotAll [(0, 0), (1, 1)]
  have hafter : after.numConstraints = 2 ∧ after.basis = [0, 1] ∧
      after.rhs.map cellText = ["NaN", "inf"] := by
    decide +kernel
  obtain ⟨hlines, hsame⟩ := text_determines isWord_cellText
  refine ⟨_, _, after, hp.ofProblem, hq.ofProblem, reaches_pivotAll _ _, hafter.2.2, ?_, ?_, ?_⟩
  · rw [display, (hlines after).1, hafter.1]
  · exact (hsame _ _).mpr
      ⟨hm.trans hm'.symm, hn.trans hn'.symm, hbasis.trans hbasis'.symm, hcells⟩
  · intro htext
    obtain ⟨-, -, hchanged, -⟩ := (hsame _ _).mp htext
    rw [hbasis, hafter.2.1] at hchanged
    cases hchanged

end Tableau

end LinearProgramming
