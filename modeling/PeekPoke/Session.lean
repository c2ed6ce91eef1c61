import PeekPoke.Script.Execute
import PeekPoke.Script.Source
set_option autoImplicit false

/-!
# Sessions

An embedder works on one system by commands: it builds and runs scripts, defines subroutines, looks
at variables, memory and mappings, and asks for a stop or has a supervisor do so.  Each command has
an answer and a new session, so every history of a system is a list of commands (`Session.steps`).
-/

namespace PeekPoke

/-- The head of a subroutine definition. -/
structure Header where
  location : Location
  name : String
  parameters : List String
  result : Option String
  deriving DecidableEq, Repr, Inhabited

/-- What a name can be newly bound as. -/
inductive Binding where
  | plain
  | static
  | constant
  deriving DecidableEq, Repr, Inhabited

/-- What an embedder can ask for. -/
inductive Command where
  /-- Build a script and keep it under a key. -/
  | build (key : String) (source : Source)
  | run (key : String)
  /-- Execute a script and answer its value. -/
  | execute (key : String)
  | values (names : List String)
  | lookup (name : String)
  | assign (name : String) (value : Word)
  | bind (binding : Binding) (name : String)
  | members (name : String)
  /-- Define a subroutine with its body. -/
  | define (header : Header) (body : Source)
  | beginDefinition (header : Header)
  /-- Close the open definition with a stored script as its body, by a token for a definition of
  some name, whichever system gave it. -/
  | endDefinition (key name : String)
  /-- Give up the open definition, by such a token. -/
  | abortDefinition (name : String)
  | drop (name : String)
  | subroutine (name : String)
  | hold (name key : String)
  | release (key : String)
  | readMemory (address : Word) (width : Width)
  | writeMemory (address : Word) (width : Width) (value : Word)
  | injectFault (address : Word)
  | clearFaults
  | map (start length : Word) (device : String)
  | find (address : Word) (width : Width)
  /-- Have the runs from here on watched. -/
  | supervise (supervisor : Supervisor)
  | requestStop
  | resetStop
  | stopState
  | nap (micros : Nat)
  | defaultWidth
  deriving Inhabited

/-- What is answered. -/
inductive Answer where
  | built (constant : Bool) (literal : Option Word) (location : Location)
  | noNode
  | buildError (e : BuildError)
  | runError (e : RunError)
  | mapError (e : MapError)
  | outcome (o : RunOutcome)
  | value (w : Word)
  | signal (s : Signal)
  /-- The execution did not end within the steps it was given. -/
  | unfinished
  | values (ws : List (Option Word))
  | absent
  | variable (v : Variable) (value : Word)
  | members (names : List String)
  | subroutine (s : Subroutine) (active : Nat)
  | began (name : String)
  | aborted (done : Bool)
  | dropped (done : Bool)
  | released (done : Bool)
  | done
  | mapped
  | window (w : Window)
  | stopState (requested : Bool)
  | slept (undisturbed : Bool)
  | width (s : Width)
  deriving Inhabited

/-- A workshop to which an embedder gives commands. -/
structure Session where
  workshop : Workshop := {}
  deriving Inhabited

namespace Session

/-- The environment of the session. -/
def env (s : Session) : Environment := s.workshop.system.env

/-- The machine of the session. -/
def machine (s : Session) : Machine := s.workshop.system.machine

/-- The session in another system. -/
def withSystem (s : Session) (system : System) : Session :=
  { workshop := { s.workshop with system } }

/-- The session with another environment. -/
def withEnv (s : Session) (env : Environment) : Session :=
  s.withSystem { s.workshop.system with env }

/-- The session with another machine. -/
def withMachine (s : Session) (machine : Machine) : Session :=
  s.withSystem { s.workshop.system with machine }

/-- The session with another memory. -/
def withMemory (s : Session) (f : Memory → Memory) : Session :=
  let m := s.machine
  s.withMachine { m with bus := m.bus.withMemory f }

/-- The session with another stop flag. -/
def withStop (s : Session) (f : StopFlag → StopFlag) : Session :=
  s.withMachine { s.machine with stop := f s.machine.stop }

/-! ## Answers -/

/-- The answer to a building that failed. -/
def failure : SourceError → Answer
  | .noNode _ => .noNode
  | .build e => .buildError e

/-- A variable with its value. -/
def describeVariable (s : Session) (v : Variable) : Answer :=
  .variable v (s.machine.stores.get v)

/-- A subroutine with the number of its activations. -/
def describeSubroutine (s : Session) (id : Nat) : Answer :=
  match s.env.subroutines[id]? with
  | some r => .subroutine r (s.machine.stores.depth id)
  | none => .absent

/-- The variable of a new binding, in the session it leads to. -/
def answerBinding (s : Session) : Option (Variable × System) → Answer × Session
  | none => (.absent, s)
  | some (v, system) =>
    let next := s.withSystem system
    (next.describeVariable v, next)

/-- How an execution is answered. -/
def answerResult : Except Unwind Word → Answer
  | .ok w => .value w
  | .error (.signal sig) => .signal sig
  | .error (.failure e) => .runError e

/-- How a run is answered. -/
def answerRun : Except RunError RunOutcome → Answer
  | .ok o => .outcome o
  | .error e => .runError e

/-! ## Scripts -/

/-- Builds a script and stores it. -/
def build (s : Session) (key : String) (source : Source) : Answer × Session :=
  match source.build s.workshop with
  | .ok node w =>
    (.built node.isConstant node.literal? node.location, { workshop := w.store key node })
  | .error e w => (failure e, { workshop := w })

/-- Runs a stored script. -/
def run (s : Session) (key : String) : Answer × Session :=
  match s.workshop.node? key with
  | none => (.noNode, s)
  | some root =>
    match root.run s.env s.machine with
    | none => (.unfinished, s)
    | some (result, m) => (answerRun result, s.withMachine m)

/-- Executes a stored script. -/
def execute (s : Session) (key : String) : Answer × Session :=
  match s.workshop.node? key with
  | none => (.noNode, s)
  | some root =>
    match root.execute s.env s.machine with
    | none => (.unfinished, s)
    | some (result, m) => (answerResult result, s.withMachine m)

/-! ## Subroutines -/

/-- Opens a definition in the system of the session. -/
def openDefinition (s : Session) (h : Header) : Except BuildError Unit × Session :=
  match Build.beginSubroutine h.location h.name h.parameters h.result s.workshop.system with
  | .ok _ system => (.ok (), s.withSystem system)
  | .error e system => (.error e, s.withSystem system)

/-- Closes the open definition under a name.  If that cannot be done, no definition is open any
more. -/
def closeDefinition (s : Session) (name : String) (body : Node) : Answer × Session :=
  match s.workshop.system.finish? name body with
  | none => (.absent, s.withEnv s.env.abandon)
  | some (id, system) =>
    let next := s.withSystem system
    (next.describeSubroutine id, next)

/-- Defines a subroutine.  If its body cannot be built, the definition is given up. -/
def define (s : Session) (h : Header) (body : Source) : Answer × Session :=
  match s.openDefinition h with
  | (.error e, s) => (.buildError e, s)
  | (.ok _, s) =>
    match body.build s.workshop with
    | .ok node w => Session.closeDefinition { workshop := w } h.name node
    | .error e w =>
      let s : Session := { workshop := w }
      (failure e, s.withSystem (s.workshop.system.abandon h.name))

/-- Opens a definition. -/
def beginDefinition (s : Session) (h : Header) : Answer × Session :=
  match s.openDefinition h with
  | (.error e, s) => (.buildError e, s)
  | (.ok _, s) => (.began h.name, s)

/-- Closes the open definition under a name with a stored script, which is used up. -/
def endDefinition (s : Session) (key name : String) : Answer × Session :=
  match s.workshop.node? key with
  | none => (.noNode, s)
  | some body => Session.closeDefinition { workshop := s.workshop.remove key } name body

/-- Gives up the open definition. -/
def abortDefinition (s : Session) (name : String) : Answer × Session :=
  (.aborted true, s.withSystem (s.workshop.system.abandon name))

/-! ## Commands -/

/-- Carries out a command. -/
def step (s : Session) : Command → Answer × Session
  | .build key source => s.build key source
  | .run key => s.run key
  | .execute key => s.execute key
  | .values names => (.values (names.map fun n => (s.env.lookup n).map s.machine.stores.get), s)
  | .lookup name =>
    match s.env.lookup name with
    | none => (.absent, s)
    | some v => (s.describeVariable v, s)
  | .assign name w =>
    match s.env.lookup name with
    | none => (.absent, s)
    | some v =>
      let next := s.withSystem (s.workshop.system.assign v w)
      (next.describeVariable v, next)
  | .bind .plain name => s.answerBinding (s.workshop.system.assignable? name)
  | .bind .static name => s.answerBinding (s.workshop.system.newStatic? name)
  | .bind .constant name => s.answerBinding (s.workshop.system.newConstant? name)
  | .members name => (.members (s.env.members name), s)
  | .define header body => s.define header body
  | .beginDefinition header => s.beginDefinition header
  | .endDefinition key name => s.endDefinition key name
  | .abortDefinition name => s.abortDefinition name
  | .drop name =>
    match s.workshop.system.drop? name with
    | none => (.dropped false, s)
    | some system => (.dropped true, s.withSystem system)
  | .subroutine name =>
    match s.env.subroutineId? name with
    | none => (.absent, s)
    | some id => (s.describeSubroutine id, s)
  | .hold name key =>
    match s.env.subroutineId? name with
    | none => (.absent, s)
    | some id => (s.describeSubroutine id, s.withEnv (s.env.hold key id))
  | .release key =>
    (.released (s.env.held.lookup key).isSome, s.withEnv (s.env.release key))
  | .readMemory address width => (.value (s.machine.bus.memory.read address width), s)
  | .writeMemory address width w => (.done, s.withMemory (·.write address width w))
  | .injectFault address => (.done, s.withMemory (·.injectFault address))
  | .clearFaults => (.done, s.withMemory Memory.clearFaults)
  | .map start length device =>
    let system := s.workshop.system.noteRequest start length device
    match system.map start length device with
    | .ok system => (.mapped, s.withSystem system)
    | .error e => (.mapError e, s.withSystem system)
  | .find address width =>
    match (s.machine.bus.find? address width).bind (s.machine.bus.windows[·]?) with
    | none => (.absent, s)
    | some w => (.window w, s)
  | .supervise supervisor => (.done, s.withStop (·.superviseBy supervisor))
  | .requestStop => (.done, s.withStop StopFlag.request)
  | .resetStop => (.done, s.withStop StopFlag.reset)
  | .stopState => (.stopState s.machine.stop.requested, s)
  | .nap micros =>
    let (undisturbed, stop) := s.machine.stop.sleep micros
    (.slept undisturbed, s.withStop fun _ => stop)
  | .defaultWidth => (.width s.env.defaultWidth, s)

/-! ## Reports -/

/-- The answer to a command, with what was printed, what the devices saw and what was traced while
it was carried out. -/
structure Report where
  answer : Answer
  printed : String
  traffic : List BusEvent
  trace : Option (List String)
  deriving Inhabited

/-- Empties what has been reported. -/
def clearReport (s : Session) : Session :=
  let m := s.machine
  s.withMachine { m with sink := m.sink.clear, traffic := [], trace := m.trace.clear }

/-- The report on a command that was answered and left this session behind. -/
def reportOn (s : Session) (answer : Answer) : Report :=
  let m := s.machine
  { answer
    printed := m.sink.text
    traffic := m.traffic.reverse
    trace := if m.trace.enabled then some m.trace.lines else none }

/-- Carries out a command and reports on it. -/
def report (s : Session) (c : Command) : Report × Session :=
  let (answer, next) := s.step c
  (next.reportOn answer, next.clearReport)

/-- Carries out commands one after the other. -/
def steps (s : Session) : List Command → List Report × Session
  | [] => ([], s)
  | c :: rest =>
    let (first, s) := s.report c
    let (others, s) := s.steps rest
    (first :: others, s)

theorem steps_append (s : Session) (cs ds : List Command) :
    (s.steps (cs ++ ds)).2 = ((s.steps cs).2.steps ds).2 := by
  induction cs generalizing s with
  | nil => rfl
  | cons c rest ih => exact ih (s.report c).2

/-- A session that has just been opened. -/
def start (defaultWidth : Width) (denied : List String) (port : Port) (silent trace : Bool) :
    Session :=
  { workshop :=
    { system :=
      { env := { defaultWidth }
        machine :=
          { bus := { port, denied }
            sink := if silent then .discard else .collect ""
            trace := { enabled := trace } } } } }

end Session

end PeekPoke
