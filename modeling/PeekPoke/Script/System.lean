import PeekPoke.Script.Exec
set_option autoImplicit false

/-!
# Environment and machine together

Building a script changes names and definitions, and it also gives constants their values, maps
ranges and reports to the trace.  The operations here act on both halves of the state; each of them
either succeeds or leaves everything as it was.
-/

namespace PeekPoke

/-- Names and definitions, and everything a running script can change. -/
structure System where
  env : Environment := {}
  machine : Machine := {}
  deriving Inhabited

namespace System

/-- Adds an event to the trace. -/
def emit (s : System) (e : TraceEvent) : System := { s with machine := s.machine.emit e }

/-- The value of a variable. -/
def get (s : System) (v : Variable) : Word := s.machine.stores.get v

/-- Gives a variable a value. -/
def assign (s : System) (v : Variable) (w : Word) : System :=
  { s with machine := s.machine.assign v w }

/-! ## Names -/

/-- The variable that an assignment to a name writes. -/
def assignable? (s : System) (name : String) : Option (Variable × System) :=
  (s.env.assignable? name).map fun (v, env) =>
    let next := { s with env }
    (v, if (s.env.lookup name).isSome then next else next.emit (.variableAllocated name))

/-- A new static variable. -/
def newStatic? (s : System) (name : String) : Option (Variable × System) :=
  (s.env.newStatic? name).map fun (v, env) => (v, { s with env }.emit (.staticAllocated name))

/-- A new constant. -/
def newConstant? (s : System) (name : String) : Option (Variable × System) :=
  (s.env.newConstant? name).map fun (v, env) => (v, { s with env }.emit (.constantAllocated name))

/-! ## Mappings -/

/-- Decides on a request for a mapping and carries it out. -/
def map (s : System) (start length : Word) (device : String) : Except MapError System :=
  let m := s.machine
  let reply := m.bus.request start length device
  match reply with
  | .rejected e => .error e
  | .denied e => .error e
  | .covered => .ok (s.emit (.alreadyMapped start length device))
  | .mapped _ =>
    .ok ({ s with machine := { m with bus := m.bus.afterRequest reply } }.emit
      (.mapped start length device))

/-- Notes that a device is asked for a mapping, if it is. -/
def noteRequest (s : System) (start length : Word) (device : String) : System :=
  if (s.machine.bus.request start length device).isAsked then
    { s with machine :=
        { s.machine with traffic := .map start length device :: s.machine.traffic } }
  else s

/-! ## Subroutines -/

/-- Closes the open definition and registers it under a name. -/
def finish? (s : System) (name : String) (body : Node) : Option (Nat × System) :=
  (s.env.finish? name body).map fun (id, env) =>
    let known := (s.env.registered.lookup name).isSome
    (id, { s with env }.emit (if known then .redefined name else .defined name))

/-- A system closes a definition when its environment does. -/
theorem env_finish? {s s' : System} {name : String} {body : Node} {id : Nat}
    (h : s.finish? name body = some (id, s')) : s.env.finish? name body = some (id, s'.env) := by
  obtain ⟨closed, hclosed, hmade⟩ := Option.map_eq_some_iff.mp h
  cases hmade
  exact hclosed

/-- Then the definition was open, its subroutine had no body, and nothing but this and the trace is
changed. -/
theorem finish?_eq_some {s s' : System} {name : String} {body : Node} {id : Nat}
    (h : s.finish? name body = some (id, s')) :
    s.env.pendingId? = some id ∧ s.env.isDefined id = false ∧
      ∃ e, s' = { s with env := s.env.close id name body }.emit e := by
  obtain ⟨⟨_, env⟩, hclosed, hmade⟩ := Option.map_eq_some_iff.mp h
  cases hmade
  obtain ⟨hpending, hdefined, rfl⟩ := Environment.finish?_eq_some hclosed
  exact ⟨hpending, hdefined, _, rfl⟩

/-- Gives up the open definition, on behalf of the one who opened it under a name. -/
def abandon (s : System) (name : String) : System :=
  { s with env := s.env.abandon }.emit (.definitionAborted name)

/-- Removes a registration, if there is one under the name. -/
def drop? (s : System) (name : String) : Option System :=
  (s.env.registered.lookup name).map fun _ =>
    { s with env := s.env.unregister name }.emit (.dropped name)

theorem drop?_eq_some {s s' : System} {name : String} (h : s.drop? name = some s') :
    s' = { s with env := s.env.unregister name }.emit (.dropped name) := by
  obtain ⟨_, -, hdropped⟩ := Option.map_eq_some_iff.mp h
  exact hdropped.symm

end System

end PeekPoke
