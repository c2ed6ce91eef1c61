import PeekPoke.Proofs.Construction
import PeekPoke.Session
set_option autoImplicit false

/-!
# Everything an embedder can do

A `World` is a system with all that an embedder has obtained from it: the nodes it has built and the
variables it has got hold of.  The embedder may do anything at any time (`World.Step`): call a
constructor with any nodes it has, bind names, open, close, give up, drop, hold and release
subroutines, set variables that are no constants, execute nodes, and do to devices, memory and stop
flag what does not concern the script.  A world is reached if such steps lead to it from a session
that has just been opened (`World.Reached`).

Every history of a session in which no constant is set is such a sequence of steps
(`Session.steps_reached` in `Histories`).
-/

namespace PeekPoke

/-! ## Variables of an environment and of a node -/

/-- A variable that a name is bound to, or that belongs to a subroutine. -/
inductive Environment.Has (env : Environment) (v : Variable) : Prop where
  | global {name : String} : env.globals[name]? = some v → Has env v
  | inner {name : String} : env.locals[name]? = some v → Has env v
  | parameter {id : Nat} {s : Subroutine} : env.subroutines[id]? = some s → v ∈ s.parameters →
      Has env v
  | result {id : Nat} {s : Subroutine} : env.subroutines[id]? = some s → s.result = some v →
      Has env v

theorem Environment.Has.of_lookup {env : Environment} {name : String} {v : Variable}
    (h : env.lookup name = some v) : env.Has v := by
  rcases Option.or_eq_some_iff.mp h with h | ⟨_, h⟩
  · exact .inner h
  · exact .global h

/-- The first node is the second one or inside it. -/
inductive Node.Part (part : Node) : Node → Prop where
  | self : Part part part
  | child {node child : Node} : child ∈ node.children → Part part child → Part part node

/-- The node itself reads the variable or gives it values. -/
def Node.Mentions (node : Node) (v : Variable) : Prop :=
  node.target? = some v ∨ node.source? = some v

/-! ## Worlds -/

/-- A system, the nodes that were built in it, and the variables the embedder has got hold of. -/
structure World where
  system : System
  nodes : List Node := []
  obtained : List Variable := []

namespace World

/-- The environment of the world. -/
def env (w : World) : Environment := w.system.env

/-- The machine of the world. -/
def machine (w : World) : Machine := w.system.machine

/-- The world in another system. -/
def withSystem (w : World) (system : System) : World := { w with system }

/-- The world with another environment. -/
def withEnv (w : World) (env : Environment) : World := w.withSystem { w.system with env }

/-- The world with another machine. -/
def withMachine (w : World) (machine : Machine) : World := w.withSystem { w.system with machine }

/-- The world after a call of a constructor. -/
def after (w : World) : EStateM.Result BuildError System Node → World
  | .ok node system => { w with system, nodes := node :: w.nodes }
  | .error _ system => { w with system }

/-- A variable the embedder, a name, a subroutine or a node refers to. -/
inductive Has (w : World) (v : Variable) : Prop where
  | env : w.env.Has v → Has w v
  | obtained : v ∈ w.obtained → Has w v
  | node {node part : Node} : node ∈ w.nodes → part.Part node → part.Mentions v → Has w v

/-- One thing that an embedder does. -/
inductive Step (w : World) : World → Prop where
  /-- Call a constructor, which may fail. -/
  | construct {x : Build Node} : Construction w.nodes x → Step w (w.after (x w.system))
  /-- Bind a variable or a static, map a range, or open a definition. -/
  | move {system : System} : System.Move w.system system → Step w (w.withSystem system)
  /-- Bind a constant without giving it a value. -/
  | newConstant {name : String} {v : Variable} {system : System} :
      w.system.newConstant? name = some (v, system) → Step w (w.withSystem system)
  /-- Get hold of a variable. -/
  | obtain {v : Variable} : w.env.Has v → Step w { w with obtained := v :: w.obtained }
  /-- Set a variable that is no constant. -/
  | assign {v : Variable} (value : Word) : v ∈ w.obtained → v.isConstant = false →
      Step w (w.withSystem (w.system.assign v value))
  /-- Close the open definition with a body. -/
  | finish {name : String} {body : Node} {id : Nat} {system : System} : body ∈ w.nodes →
      w.system.finish? name body = some (id, system) → Step w (w.withSystem system)
  /-- Close a definition that cannot be closed, which is then no longer open. -/
  | finishFails {name : String} {body : Node} : w.system.finish? name body = none →
      Step w (w.withEnv w.env.abandon)
  /-- Give up the open definition. -/
  | abandon (name : String) : Step w (w.withSystem (w.system.abandon name))
  | drop {name : String} {system : System} : w.system.drop? name = some system →
      Step w (w.withSystem system)
  | hold (key : String) (id : Nat) : Step w (w.withEnv (w.env.hold key id))
  | release (key : String) : Step w (w.withEnv (w.env.release key))
  /-- Execute a node. -/
  | execute {node : Node} {fuel : Nat} {r : Except Unwind Word} {m : Machine} : node ∈ w.nodes →
      exec w.env fuel node w.machine = some (r, m) → Step w (w.withMachine m)
  /-- Change what is neither a value nor a mapping. -/
  | outside {m : Machine} : m.stores = w.machine.stores →
      m.bus.windows = w.machine.bus.windows → Step w (w.withMachine m)

/-- Any number of steps. -/
def Steps : World → World → Prop := Relation.ReflTransGen Step

/-- The world of a session that has just been opened. -/
def opened (defaultWidth : Width) (denied : List String) (port : Port) (silent trace : Bool) :
    World where
  system := (Session.start defaultWidth denied port silent trace).workshop.system

/-- A world that can come about. -/
def Reached (w : World) : Prop :=
  ∃ defaultWidth denied port silent trace,
    Steps (opened defaultWidth denied port silent trace) w

theorem after_system (w : World) (x : EStateM.Result BuildError System Node) :
    (w.after x).system = stateAfter x := by
  cases x <;> rfl

variable {w w' : World}

theorem Reached.steps (h : w.Reached) (hs : w.Steps w') : w'.Reached := by
  obtain ⟨defaultWidth, denied, port, silent, trace, hw⟩ := h
  exact ⟨defaultWidth, denied, port, silent, trace, hw.trans hs⟩

/-- What holds of a new session and is kept by every step holds of every world that is reached. -/
theorem Reached.induction {P : World → Prop} (h : w.Reached)
    (hopened : ∀ defaultWidth denied port silent trace,
      P (opened defaultWidth denied port silent trace))
    (hstep : ∀ {w w' : World}, P w → w.Step w' → P w') : P w := by
  obtain ⟨defaultWidth, denied, port, silent, trace, hw⟩ := h
  induction hw with
  | refl => exact hopened _ _ _ _ _
  | tail _ hlast ih => exact hstep ih hlast

/-- Nodes that were built stay at hand. -/
theorem Step.nodes (h : w.Step w') {node : Node} (hn : node ∈ w.nodes) : node ∈ w'.nodes := by
  cases h with
  | construct hx =>
    unfold after
    split
    · exact List.mem_cons_of_mem _ hn
    · exact hn
  | _ => exact hn

theorem Steps.nodes (h : w.Steps w') {node : Node} (hn : node ∈ w.nodes) : node ∈ w'.nodes := by
  induction h with
  | refl => exact hn
  | tail _ hlast ih => exact hlast.nodes ih

end World

end PeekPoke
