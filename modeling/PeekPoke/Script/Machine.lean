import Std.Data.TreeSet
import PeekPoke.Bus
import PeekPoke.Script.Trace
import PeekPoke.Script.Variable
set_option autoImplicit false

/-!
# The machine

Everything a running script can change: the bus, the values of the variables, which static
declarations were carried out, the printed text, the stop request and the trace.  Names and
definitions are not here, so running a script cannot change them.
-/

namespace PeekPoke

/-! ## Printed text -/

/-- Where printed text goes: it is collected, or it is thrown away. -/
inductive Sink where
  | collect (text : String)
  | discard
  deriving DecidableEq, Repr, Inhabited

namespace Sink

/-- Prints a text. -/
def print : Sink → String → Sink
  | collect sofar, text => collect (sofar ++ text)
  | discard, _ => discard

/-- What was collected. -/
def text : Sink → String
  | collect text => text
  | discard => ""

/-- Forgets what was collected. -/
def clear : Sink → Sink
  | collect _ => collect ""
  | discard => discard

end Sink

/-! ## Stop requests -/

/-- What the one who watches a run can tell of it: it is about to make an access or to sleep, or a
statement of a block has ended. -/
inductive Occasion where
  | access (window : Nat) (a : Access)
  | sleep (micros : Nat)
  | statement
  deriving DecidableEq, Repr, Inhabited

/-- The one who watches a run and may ask it to stop, by whether this is done on the first of some
occasions, which are listed newest first. -/
abbrev Supervisor : Type := List Occasion → Bool

/-- A request to stop, and the supervisor who makes it.  It is looked for on occasions only, so that
asking at any other moment is asking on the next occasion. -/
structure StopFlag where
  requested : Bool := false
  supervisor : Supervisor := fun _ => false
  /-- The occasions since the supervisor took over, newest first. -/
  past : List Occasion := []
  deriving Inhabited

namespace StopFlag

/-- Asks the running script to stop. -/
def request (f : StopFlag) : StopFlag := { f with requested := true }

/-- Withdraws the request. -/
def reset (f : StopFlag) : StopFlag := { f with requested := false }

/-- Another supervisor takes over. -/
def superviseBy (f : StopFlag) (supervisor : Supervisor) : StopFlag :=
  { f with supervisor, past := [] }

/-- Comes to an occasion, on which the supervisor may ask for a stop. -/
def meet (f : StopFlag) (o : Occasion) : StopFlag :=
  let past := o :: f.past
  { f with requested := f.requested || f.supervisor past, past }

/-- Sleeps for some microseconds.  The sleep is cut short, with the result `false`, by a request
that is already there or that comes meanwhile. -/
def sleep (f : StopFlag) (micros : Nat) : Bool × StopFlag :=
  let f := f.meet (.sleep micros)
  (!f.requested, f)

/-- No occasion withdraws a request. -/
theorem requested_meet {f : StopFlag} (h : f.requested = true) (o : Occasion) :
    (f.meet o).requested = true := by
  simp [meet, h]

end StopFlag

/-! ## Device traffic -/

/-- What a device sees: a request for a mapping, or an access through a window. -/
inductive BusEvent where
  | map (start length : Word) (device : String)
  | access (window : Nat) (access : Access)
  deriving DecidableEq, Repr, Inhabited

/-- The event on one line. -/
def BusEvent.text : BusEvent → String
  | map start length device =>
    "map " ++ Text.hex start.toNat ++ " " ++ Text.hex length.toNat ++ " " ++ device
  | access _ a => a.text

/-! ## The machine -/

/-- Everything a running script can change. -/
structure Machine where
  bus : Bus := {}
  stores : Stores := {}
  /-- The static declarations that were carried out. -/
  initialised : Std.TreeSet Nat := {}
  sink : Sink := .collect ""
  stop : StopFlag := {}
  /-- What the devices saw, newest first. -/
  traffic : List BusEvent := []
  trace : Trace := {}
  deriving Inhabited

namespace Machine

/-- Adds an event to the trace. -/
def emit (m : Machine) (e : TraceEvent) : Machine := { m with trace := m.trace.add e }

/-- Adds an event that depends on the machine; it is only made if the trace is switched on. -/
def emitFrom (m : Machine) (event : Machine → TraceEvent) : Machine :=
  if m.trace.enabled then m.emit (event m) else m

theorem emitFrom_eq (m : Machine) (event : Machine → TraceEvent) :
    m.emitFrom event = m.emit (event m) := by
  unfold emitFrom
  split
  · rfl
  · simp_all [emit, Trace.add]

/-- Gives a variable a value. -/
def assign (m : Machine) (v : Variable) (w : Word) : Machine :=
  { m with stores := m.stores.set v w }

/-- Records that a static declaration was carried out. -/
def initialise (m : Machine) (cell : Nat) : Machine :=
  { m with initialised := m.initialised.insert cell }

/-- Prints a text. -/
def print (m : Machine) (text : String) : Machine := { m with sink := m.sink.print text }

/-- Comes to an occasion to stop. -/
def meet (m : Machine) (o : Occasion) : Machine := { m with stop := m.stop.meet o }

/-- Carries out an access through a window.  A stop that is asked for on this occasion is there before
the access takes effect. -/
def access (m : Machine) (window : Nat) (a : Access) : Word × Machine :=
  let m := m.meet (.access window a)
  let (w, bus) := m.bus.perform window a
  (w, { m with bus, traffic := .access window a :: m.traffic })

/-- Ends a statement of a block, with whether a stop is requested by then. -/
def endStatement (m : Machine) : Bool × Machine :=
  let m := m.meet .statement
  (m.stop.requested, m)

end Machine

end PeekPoke
