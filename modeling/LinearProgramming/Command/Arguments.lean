import LinearProgramming.Decimal.Numeral

/-!
The command line of the solver: a command, and behind it options and file names
in any order.
-/

namespace LinearProgramming

inductive Command where
  | demo (showTableau : Bool)
  | solve (file : String) (showTableau : Bool) (maxIterations : Option Nat) (format : String)
  deriving DecidableEq

structure Arguments where
  file : Option String := none
  tableau : Bool := false
  maxIterations : Option Nat := none
  format : Option String := none

inductive ValueOption where
  | maxIterations
  | format
  deriving DecidableEq

/-- A count below the bound, with or without a plus sign. -/
def parseCount? (text : String) : Option Nat :=
  let digits := match text.toList with
    | '+' :: digits => digits
    | digits => digits
  if digits.isEmpty ∨ !digits.all Char.isDigit then
    none
  else
    let count := Nat.ofDigitChars 10 digits 0
    if count < countBound then some count else none

namespace Arguments

/-- The flag may be given once. -/
def setTableau? (a : Arguments) : Option Arguments :=
  if a.tableau then none else some { a with tableau := true }

/-- A problem has one file, and its name is not empty. -/
def setFile? (a : Arguments) (file : String) : Option Arguments :=
  if a.file.isSome ∨ file.isEmpty then none else some { a with file := some file }

/-- An option may be given once. -/
def setValue? (a : Arguments) (option : ValueOption) (text : String) : Option Arguments :=
  match option with
  | .maxIterations =>
    if a.maxIterations.isSome then
      none
    else
      (parseCount? text).map fun count => { a with maxIterations := some count }
  | .format => if a.format.isSome then none else some { a with format := some text }

/-- The letters behind a single hyphen. Flags may stand side by side; what
follows the letter of an option, less an equals sign, is its value. If nothing
follows, the option is handed back, and the next argument is its value. -/
def readLetters? (a : Arguments) : List Char → Option (Arguments × Option ValueOption)
  | [] => some (a, none)
  | 't' :: letters => a.setTableau?.bind (·.readLetters? letters)
  | 'm' :: letters => readValue? a .maxIterations letters
  | 'f' :: letters => readValue? a .format letters
  | _ => none
where
  readValue? (a : Arguments) (option : ValueOption) : List Char → Option (Arguments × Option ValueOption)
    | [] => some (a, some option)
    | '=' :: value => (a.setValue? option (String.ofList value)).map (·, none)
    | value => (a.setValue? option (String.ofList value)).map (·, none)

/-- The name of an option behind two hyphens, with its value behind an equals
sign if there is one. -/
def readName? (a : Arguments) (name : List Char) (value : Option String) :
    Option (Arguments × Option ValueOption) :=
  match String.ofList name, value with
  | "tableau", none => a.setTableau?.map (·, none)
  | "max-iterations", none => some (a, some .maxIterations)
  | "max-iterations", some value => (a.setValue? .maxIterations value).map (·, none)
  | "format", none => some (a, some .format)
  | "format", some value => (a.setValue? .format value).map (·, none)
  | _, _ => none

def splitValue (text : List Char) : List Char × Option String :=
  match text.dropWhile (· ≠ '=') with
  | [] => (text, none)
  | _ :: value => (text.takeWhile (· ≠ '='), some (String.ofList value))

/-- One argument in front of the separator, with the option that still needs a
value. A hyphen by itself is a file name. -/
def readOne? (a : Arguments) (argument : String) : Option (Arguments × Option ValueOption) :=
  match argument.toList with
  | '-' :: '-' :: text =>
    let (name, value) := splitValue text
    a.readName? name value
  | '-' :: letter :: letters => a.readLetters? (letter :: letters)
  | _ => (a.setFile? argument).map (·, none)

/-- The next argument can be the value of an option: it is not an option
itself. -/
def isValue (argument : String) : Bool :=
  match argument.toList with
  | '-' :: _ :: _ => false
  | _ => true

/-- All arguments. Behind the separator `--` there are file names only. -/
def read? (a : Arguments) : List String → Option Arguments
  | [] => some a
  | "--" :: files => files.foldlM setFile? a
  | argument :: rest =>
    match a.readOne? argument with
    | none => none
    | some (a, none) => a.read? rest
    | some (a, some option) =>
      match rest with
      | [] => none
      | text :: rest =>
        if isValue text then (a.setValue? option text).bind (·.read? rest) else none

end Arguments

namespace Command

/-- The format that is used when none is asked for. -/
def defaultFormat : String := "pretty"

/-- The examples know the flag only. -/
def ofDemo? (a : Arguments) : Option Command :=
  if a.file.isSome ∨ a.maxIterations.isSome ∨ a.format.isSome then none
  else some (demo a.tableau)

def ofSolve? (a : Arguments) : Option Command :=
  a.file.map fun file =>
    solve file a.tableau a.maxIterations (a.format.getD defaultFormat)

def ofArguments? : List String → Option Command
  | "demo" :: rest => (Arguments.read? {} rest).bind ofDemo?
  | "solve" :: rest => (Arguments.read? {} rest).bind ofSolve?
  | _ => none

end Command

end LinearProgramming
