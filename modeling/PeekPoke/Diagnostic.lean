import PeekPoke.Location
set_option autoImplicit false

/-!
# Diagnostics

A diagnostic is one line of report (a code, a severity, a message, a location) and any number of
notes under it.  `Diagnostic.text` is the plain report; `Diagnostic.render` writes the same report
for a terminal, ended by a line break, and with colours it wraps only the severity and the code.
-/

namespace PeekPoke

/-- What went wrong, as a searchable code.  The first twelve are found while a script is built, the
other five while it runs. -/
inductive Code where
  | namingConflict
  | undefinedVariable
  | constantRequired
  | mappingFailure
  | constantDivisionByZero
  | undefinedSubroutine
  | argumentCount
  | invalidLiteral
  | invalidFormat
  | nestedSubroutine
  | constantEvaluation
  | invalidLoopStart
  | divisionByZero
  | moduloByZero
  | noMapping
  | busError
  | subroutineUnavailable
  deriving DecidableEq, Repr, Inhabited

namespace Code

/-- All codes in the order of their texts. -/
def all : List Code :=
  [namingConflict, undefinedVariable, constantRequired, mappingFailure, constantDivisionByZero,
    undefinedSubroutine, argumentCount, invalidLiteral, invalidFormat, nestedSubroutine,
    constantEvaluation, invalidLoopStart, divisionByZero, moduloByZero, noMapping, busError,
    subroutineUnavailable]

/-- The code as it is printed. -/
def text : Code → String
  | namingConflict => "E1001"
  | undefinedVariable => "E1002"
  | constantRequired => "E1003"
  | mappingFailure => "E1004"
  | constantDivisionByZero => "E1005"
  | undefinedSubroutine => "E1006"
  | argumentCount => "E1007"
  | invalidLiteral => "E1008"
  | invalidFormat => "E1009"
  | nestedSubroutine => "E1010"
  | constantEvaluation => "E1011"
  | invalidLoopStart => "E1012"
  | divisionByZero => "E2001"
  | moduloByZero => "E2002"
  | noMapping => "E2003"
  | busError => "E2004"
  | subroutineUnavailable => "E2005"

/-- The code that is printed so, if there is one. -/
def ofText? (t : String) : Option Code := all.find? (·.text == t)

/-- Whether the code belongs to the running of a script. -/
def isRunTime : Code → Bool
  | divisionByZero => true
  | moduloByZero => true
  | noMapping => true
  | busError => true
  | subroutineUnavailable => true
  | _ => false

/-- Whether the code belongs to the building of a script. -/
def isBuildTime (c : Code) : Bool := !c.isRunTime

theorem mem_all (c : Code) : c ∈ all := by cases c <;> decide

end Code

/-- How grave a diagnostic is. -/
inductive Severity where
  | error
  | warning
  | note
  deriving DecidableEq, Repr, Inhabited

namespace Severity

/-- The severity as it is printed. -/
def text : Severity → String
  | error => "error"
  | warning => "warning"
  | note => "note"

/-- The terminal sequence that starts the severity's colour: red, yellow or cyan, all bold. -/
def color : Severity → String
  | error => "\x1b[1;31m"
  | warning => "\x1b[1;33m"
  | note => "\x1b[1;36m"

end Severity

/-- The terminal sequence that ends a colour. -/
def colorReset : String := "\x1b[0m"

/-- A report of one problem. -/
structure Diagnostic where
  code : Code
  severity : Severity := .error
  message : String := ""
  location : Location := .unknown
  notes : List String := []
  deriving DecidableEq, Repr, Inhabited

namespace Diagnostic

/-- Whether the diagnostic is an error and neither a warning nor a note. -/
def isError (d : Diagnostic) : Bool := d.severity == .error

/-- Adds a note below the ones already there. -/
def withNote (d : Diagnostic) (note : String) : Diagnostic := { d with notes := d.notes ++ [note] }

/-- The severity and the code: the part a terminal colours. -/
def tag (d : Diagnostic) : String := d.severity.text ++ "[" ++ d.code.text ++ "]"

/-- One line, then a line for each note, without a line break at the end. -/
def text (d : Diagnostic) : String :=
  d.notes.foldl (fun t note => t ++ "\n  = note: " ++ note)
    (d.location.text ++ ": " ++ d.tag ++ ": " ++ d.message)

/-- What a terminal is sent for one diagnostic. -/
def render (colored : Bool) (d : Diagnostic) : String :=
  let tag := if colored then d.severity.color ++ d.tag ++ colorReset else d.tag
  let line := d.location.text ++ ": " ++ tag ++ ": " ++ d.message ++ "\n"
  d.notes.foldl (fun t note => t ++ "  = note: " ++ note ++ "\n") line

/-- What a terminal is sent for a list of diagnostics. -/
def renderAll (colored : Bool) (ds : List Diagnostic) : String :=
  ds.foldl (fun t d => t ++ d.render colored) ""

end Diagnostic

end PeekPoke
