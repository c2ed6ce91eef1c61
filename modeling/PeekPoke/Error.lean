import PeekPoke.Diagnostic
import PeekPoke.Operator
set_option autoImplicit false

/-!
# Signals and failures

Three things end the work on a script early.  A `Signal` leaves a construct on purpose and is caught
by the construct it is meant for.  A `RunError` is a failure while a script runs, a `BuildError` one
while it is built; both are a cause and the location it concerns, and both are reported as a
diagnostic.  The wording of every cause is in `RunCause.message` and `BuildCause.message`.
-/

namespace PeekPoke

/-- A transfer of control out of a construct. -/
inductive Signal where
  /-- Leave the innermost loop. -/
  | breakLoop
  /-- Leave the current call, import or top-level script. -/
  | exit
  /-- End the program. -/
  | quit
  /-- A stop was requested from outside. -/
  | terminate
  deriving DecidableEq, Repr, Inhabited

/-- The signal's name in a script and in messages. -/
def Signal.text : Signal → String
  | breakLoop => "break"
  | exit => "exit"
  | quit => "quit"
  | terminate => "terminate"

/-- Why a running script failed. -/
inductive RunCause where
  | divisionByZero
  | moduloByZero
  | noMapping (address : Word) (width : Width)
  | busError (address : Word) (width : Width)
  | subroutineUnavailable (name : String)
  deriving DecidableEq, Repr, Inhabited

namespace RunCause

/-- What is said of the cause. -/
def message : RunCause → String
  | divisionByZero => "division by zero"
  | moduloByZero => "modulo by zero"
  | noMapping address width =>
    "no mapping for " ++ Text.decimal width.bytes ++ " bytes at " ++ Text.hex address.toNat
  | busError address width =>
    "bus error accessing " ++ Text.decimal width.bytes ++ " bytes at " ++ Text.hex address.toNat
  | subroutineUnavailable name => "subroutine " ++ name ++ " is no longer available"

/-- The code of the cause. -/
def code : RunCause → Code
  | divisionByZero => .divisionByZero
  | moduloByZero => .moduloByZero
  | noMapping .. => .noMapping
  | busError .. => .busError
  | subroutineUnavailable _ => .subroutineUnavailable

end RunCause

/-- A failure while a script runs. -/
structure RunError where
  cause : RunCause
  location : Location
  deriving DecidableEq, Repr, Inhabited

namespace RunError

/-- The location and the cause on one line. -/
def message (e : RunError) : String := e.location.text ++ ": " ++ e.cause.message

/-- The report of the failure. -/
def diagnostic (e : RunError) : Diagnostic :=
  { code := e.cause.code, message := e.cause.message, location := e.location }

end RunError

/-- What unwinds the running of a script. -/
inductive Unwind where
  | signal (s : Signal)
  | failure (e : RunError)
  deriving DecidableEq, Repr, Inhabited

/-- Why a script could not be built. -/
inductive BuildCause where
  | namingConflict (name : String)
  | undefinedVariable (name : String)
  | constantRequired
  | mappingFailure (start length : Word) (device reason : String)
  | constantDivisionByZero
  | undefinedSubroutine (name : String)
  | argumentCount (name : String) (expected got : Nat)
  | invalidLiteral (message : String)
  | invalidFormat (width : Width)
  | nestedSubroutine (name : String)
  | constantEvaluation (message : String)
  | invalidLoopStart
  deriving DecidableEq, Repr, Inhabited

namespace BuildCause

/-- What is said of the cause. -/
def message : BuildCause → String
  | namingConflict name => "naming conflict: " ++ name
  | undefinedVariable name => "undefined variable: " ++ name
  | constantRequired => "constant expression required"
  | mappingFailure start length device reason =>
    "failed to map " ++ Text.hex length.toNat ++ " bytes at " ++ Text.hex start.toNat ++ " from "
      ++ device ++ ": " ++ reason
  | constantDivisionByZero => "division by zero in constant expression"
  | undefinedSubroutine name => "undefined subroutine: " ++ name
  | argumentCount name expected got =>
    name ++ " expects " ++ Text.decimal expected ++ " arguments, got " ++ Text.decimal got
  | invalidLiteral message => message
  | invalidFormat width => "float format requires 64 bits, got " ++ Text.decimal width.bits
  | nestedSubroutine name =>
    "subroutine " ++ name ++ " cannot be defined inside another subroutine"
  | constantEvaluation message => "constant expression failed: " ++ message
  | invalidLoopStart => "for loop must start with an assignment to the loop variable"

/-- The code of the cause. -/
def code : BuildCause → Code
  | namingConflict _ => .namingConflict
  | undefinedVariable _ => .undefinedVariable
  | constantRequired => .constantRequired
  | mappingFailure .. => .mappingFailure
  | constantDivisionByZero => .constantDivisionByZero
  | undefinedSubroutine _ => .undefinedSubroutine
  | argumentCount .. => .argumentCount
  | invalidLiteral _ => .invalidLiteral
  | invalidFormat _ => .invalidFormat
  | nestedSubroutine _ => .nestedSubroutine
  | constantEvaluation _ => .constantEvaluation
  | invalidLoopStart => .invalidLoopStart

/-- The notes that explain the cause. -/
def notes : BuildCause → List String
  | constantDivisionByZero => ["the expression is evaluated when the script is loaded"]
  | _ => []

end BuildCause

/-- A failure while a script is built. -/
structure BuildError where
  cause : BuildCause
  location : Location
  deriving DecidableEq, Repr, Inhabited

namespace BuildError

/-- The location and the cause on one line. -/
def message (e : BuildError) : String := e.location.text ++ ": " ++ e.cause.message

/-- The report of the failure. -/
def diagnostic (e : BuildError) : Diagnostic :=
  { code := e.cause.code, message := e.cause.message, location := e.location,
    notes := e.cause.notes }

/-- The failure of a constant expression that was evaluated at `location`.  A run-time failure keeps
the location of the construct that raised it. -/
def ofUnwind (location : Location) : Unwind → BuildError
  | .failure ⟨.divisionByZero, place⟩ => ⟨.constantDivisionByZero, place⟩
  | .failure ⟨.moduloByZero, place⟩ => ⟨.constantDivisionByZero, place⟩
  | .failure ⟨cause, place⟩ => ⟨.constantEvaluation cause.message, place⟩
  | .signal s => ⟨.constantEvaluation ("unexpected " ++ s.text), location⟩

end BuildError

namespace BinaryOp

/-- The failure of an operator that has no value for its operands. -/
def zeroDivisor : BinaryOp → RunCause
  | mod => .moduloByZero
  | _ => .divisionByZero

/-- Applies the operator at a location, where a zero divisor is reported. -/
def eval (op : BinaryOp) (l r : Word) (location : Location) : Except RunError Word :=
  match op.value? l r with
  | some w => .ok w
  | none => .error ⟨op.zeroDivisor, location⟩

end BinaryOp

end PeekPoke
