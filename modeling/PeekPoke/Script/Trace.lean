import PeekPoke.Word
import PeekPoke.Location
set_option autoImplicit false

/-!
# Traces

What building and running a script reports to an observer, event by event.  A trace that is switched
off keeps nothing.
-/

namespace PeekPoke

/-- How a run ended without a failure. -/
inductive RunOutcome where
  /-- The root ran to its end, or was left by `exit` or `break`. -/
  | completed
  /-- `quit` was executed. -/
  | quit
  /-- A stop was requested. -/
  | terminated
  deriving DecidableEq, Repr, Inhabited

/-- The outcome as it is shown. -/
def RunOutcome.text : RunOutcome → String
  | completed => "Completed"
  | quit => "Quit"
  | terminated => "Terminated"

/-- One event of a trace. -/
inductive TraceEvent where
  | nodeCreated (kind : String) (location : Location) (constant : Bool)
  | execute (kind : String) (location : Location)
  | folded (value : Word) (location : Location)
  | constantDefined (name : String) (value : Word)
  | familyDefined (name base : String) (value : Word)
  | variableAllocated (name : String)
  | staticAllocated (name : String)
  | constantAllocated (name : String)
  | mapped (start length : Word) (device : String)
  | alreadyMapped (start length : Word) (device : String)
  | definitionStarted (name : String) (parameters : Nat)
  | defined (name : String)
  | redefined (name : String)
  | definitionAborted (name : String)
  | dropped (name : String)
  | runEntered (location : Location)
  | runFinished (outcome : RunOutcome)
  | runFailed (message : String)
  | runLeft (location : Location)
  | callEntered (name : String)
  | callLeft (name : String)
  | framePushed (depth : Nat)
  | frameEntered (depth : Nat)
  | framePopped (depth : Nat)
  | sleepInterrupted
  deriving DecidableEq, Repr, Inhabited

namespace TraceEvent

/-- The fields of a mapping event. -/
def rangeFields (start length : Word) (device : String) : String :=
  "phys=" ++ Text.decimal start.toNat ++ " len=" ++ Text.decimal length.toNat ++ " device="
    ++ device

/-- The event on one line: level, message and fields.  Entering a span is marked by `>`, leaving
it by `<`. -/
def line : TraceEvent → String
  | nodeCreated kind location constant =>
    "TRACE node created kind=" ++ kind ++ " location=" ++ location.text ++ " constant="
      ++ (if constant then "true" else "false")
  | execute kind location => "TRACE execute kind=" ++ kind ++ " location=" ++ location.text
  | folded value location =>
    "DEBUG folded constant value=" ++ Text.decimal value.toNat ++ " location=" ++ location.text
  | constantDefined name value =>
    "DEBUG constant defined name=" ++ name ++ " value=" ++ Text.decimal value.toNat
  | familyDefined name base value =>
    "DEBUG constant family defined name=" ++ name ++ " from=" ++ base ++ " value="
      ++ Text.decimal value.toNat
  | variableAllocated name => "TRACE variable allocated name=" ++ name
  | staticAllocated name => "TRACE static allocated name=" ++ name
  | constantAllocated name => "TRACE constant allocated name=" ++ name
  | mapped start length device => "DEBUG mapped " ++ rangeFields start length device
  | alreadyMapped start length device =>
    "DEBUG range already mapped " ++ rangeFields start length device
  | definitionStarted name parameters =>
    "DEBUG subroutine definition started name=" ++ name ++ " params=" ++ Text.decimal parameters
  | defined name => "DEBUG subroutine defined name=" ++ name
  | redefined name => "DEBUG subroutine redefined, previous body released name=" ++ name
  | definitionAborted name => "DEBUG subroutine definition aborted name=" ++ name
  | dropped name => "DEBUG subroutine dropped name=" ++ name
  | runEntered location => "> INFO run location=" ++ location.text
  | runFinished outcome => "DEBUG run finished outcome=" ++ outcome.text
  | runFailed message => "DEBUG run failed error=" ++ message
  | runLeft location => "< INFO run location=" ++ location.text
  | callEntered name => "> DEBUG execute_call name=" ++ name
  | callLeft name => "< DEBUG execute_call name=" ++ name
  | framePushed depth => "TRACE frame pushed depth=" ++ Text.decimal depth
  | frameEntered depth => "TRACE frame entered depth=" ++ Text.decimal depth
  | framePopped depth => "TRACE frame popped depth=" ++ Text.decimal depth
  | sleepInterrupted => "TRACE sleep interrupted by stop request"

end TraceEvent

/-- The events so far, newest first, if they are wanted. -/
structure Trace where
  enabled : Bool := false
  events : List TraceEvent := []
  deriving DecidableEq, Repr, Inhabited

namespace Trace

/-- Adds an event to a trace that is switched on. -/
def add (t : Trace) (e : TraceEvent) : Trace :=
  if t.enabled then { t with events := e :: t.events } else t

/-- The lines of the trace, oldest first. -/
def lines (t : Trace) : List String := t.events.reverse.map TraceEvent.line

/-- Forgets the events so far. -/
def clear (t : Trace) : Trace := { t with events := [] }

@[simp] theorem enabled_add (t : Trace) (e : TraceEvent) : (t.add e).enabled = t.enabled := by
  unfold add
  split <;> rfl

end Trace

end PeekPoke
