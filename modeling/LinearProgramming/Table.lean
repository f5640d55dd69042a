import LinearProgramming.Tableau

/-!
The tableau as a table of text: its size, a line of column heads, a line for
each equation under the name of its basic variable, and a last line for the
objective. Columns are aligned to the right; a text that is too long pushes the
rest of its line along, but is always preceded by a blank.
-/

namespace LinearProgramming

def alignRight (width : Nat) (text : String) : String :=
  String.ofList (text.toList.leftpad width ' ')

def columnName (column : Nat) : String :=
  s!"x[{column}]"

namespace Tableau

variable {α : Type}

/-- Each text has nine places and a blank before them. -/
def alignCells (texts : List String) : String :=
  String.join (texts.map fun text => " " ++ alignRight 9 text)

def sizeLine (t : Tableau α) : String :=
  let m := t.numConstraints
  let n := t.numVariables
  s!"m = {m}, n = {n}"

def headLine (t : Tableau α) : String :=
  alignRight 8 "" ++ alignCells ((List.range t.width).map columnName ++ ["b"])

/-- A row behind its label, every number written by `cell`. -/
def rowLine (cell : α → String) (label : String) (row : Row α) : String :=
  alignRight 6 label ++ " =" ++ alignCells (row.cells.map cell)

def lines (cell : α → String) (t : Tableau α) : List String :=
  [t.sizeLine, t.headLine]
    ++ t.equations.map (fun e => rowLine cell (columnName e.basic) e.row)
    ++ [rowLine cell "z" t.objective]

def text (cell : α → String) (t : Tableau α) : String :=
  "\n".intercalate (t.lines cell)

end Tableau

end LinearProgramming
