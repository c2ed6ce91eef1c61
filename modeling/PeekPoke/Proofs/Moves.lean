import Mathlib.Logic.Relation
import PeekPoke.Script.Constant
import PeekPoke.Script.Source
set_option autoImplicit false

/-!
# What building does to a system

Every step of building a script is made of a few moves: an event for the trace, a new variable, a
new static declaration, a new constant with its value, a request for a mapping, the opening of a
definition (`System.Move`).  Main statement: building a source leads from the system there was to
the one that is left by such moves, whether the building succeeds or fails
(`Source.build_leads`).  So what every move keeps, all building keeps.
-/

/-! ## Steps one after the other -/

section

variable {ε σ α β : Type}

theorem EStateM.bind_of_ok {x : EStateM ε σ α} {s middle : σ} {a : α} (h : x s = .ok a middle)
    (f : α → EStateM ε σ β) : (x >>= f) s = f a middle := by
  show EStateM.bind x f s = _
  rw [EStateM.bind, h]

theorem EStateM.bind_of_error {x : EStateM ε σ α} {s middle : σ} {e : ε}
    (h : x s = .error e middle) (f : α → EStateM ε σ β) : (x >>= f) s = .error e middle := by
  show EStateM.bind x f s = _
  rw [EStateM.bind, h]

theorem EStateM.bind_eq_ok {x : EStateM ε σ α} {f : α → EStateM ε σ β} {s s' : σ} {b : β}
    (h : (x >>= f) s = .ok b s') : ∃ a middle, x s = .ok a middle ∧ f a middle = .ok b s' := by
  cases hx : x s with
  | error e middle =>
    rw [EStateM.bind_of_error hx] at h
    cases h
  | ok a middle =>
    rw [EStateM.bind_of_ok hx] at h
    exact ⟨a, middle, rfl, h⟩

theorem EStateM.get_bind (f : σ → EStateM ε σ β) (s : σ) : (get >>= f) s = f s s :=
  EStateM.bind_of_ok rfl f

end

namespace PeekPoke

/-! ## What new names do to a system -/

namespace System

/-- A name that is assigned changes the environment, and besides that the trace only. -/
theorem assignable?_eq (s : System) (name : String) :
    ∃ trace, s.assignable? name =
      (s.env.assignable? name).map fun made => (made.1, ⟨made.2, s.machine.withTrace trace⟩) := by
  unfold assignable?
  cases (s.env.lookup name).isSome with
  | true => exact ⟨s.machine.trace, rfl⟩
  | false => exact ⟨s.machine.trace.add (.variableAllocated name), rfl⟩

theorem newStatic?_eq (s : System) (name : String) :
    ∃ trace, s.newStatic? name =
      (s.env.newStatic? name).map fun made => (made.1, ⟨made.2, s.machine.withTrace trace⟩) :=
  ⟨s.machine.trace.add (.staticAllocated name), rfl⟩

theorem newConstant?_eq (s : System) (name : String) :
    ∃ trace, s.newConstant? name =
      (s.env.newConstant? name).map fun made => (made.1, ⟨made.2, s.machine.withTrace trace⟩) :=
  ⟨s.machine.trace.add (.constantAllocated name), rfl⟩

/-- What was made, where the environment was changed and the machine up to the trace was not. -/
theorem eq_some_of_map {made : Option (Variable × Environment)} {machine : Machine} {v : Variable}
    {s : System} (h : (made.map fun m => (m.1, (⟨m.2, machine⟩ : System))) = some (v, s)) :
    made = some (v, s.env) ∧ s.machine = machine := by
  obtain ⟨_, hmade, heq⟩ := Option.map_eq_some_iff.mp h
  cases heq
  exact ⟨hmade, rfl⟩

variable {s s' : System} {name : String} {v : Variable}

theorem assignable?_eq_some (h : s.assignable? name = some (v, s')) :
    s.env.assignable? name = some (v, s'.env) ∧
      ∃ trace, s'.machine = s.machine.withTrace trace := by
  obtain ⟨trace, heq⟩ := s.assignable?_eq name
  rw [heq] at h
  exact ⟨(eq_some_of_map h).1, trace, (eq_some_of_map h).2⟩

theorem newStatic?_eq_some (h : s.newStatic? name = some (v, s')) :
    s.env.newStatic? name = some (v, s'.env) ∧
      ∃ trace, s'.machine = s.machine.withTrace trace := by
  obtain ⟨trace, heq⟩ := s.newStatic?_eq name
  rw [heq] at h
  exact ⟨(eq_some_of_map h).1, trace, (eq_some_of_map h).2⟩

theorem newConstant?_eq_some (h : s.newConstant? name = some (v, s')) :
    s.env.newConstant? name = some (v, s'.env) ∧
      ∃ trace, s'.machine = s.machine.withTrace trace := by
  obtain ⟨trace, heq⟩ := s.newConstant?_eq name
  rw [heq] at h
  exact ⟨(eq_some_of_map h).1, trace, (eq_some_of_map h).2⟩

end System

/-! ## Moves -/

/-- One thing that building does to a system. -/
inductive System.Move : System → System → Prop where
  | trace (s : System) (t : Trace) : Move s { s with machine := s.machine.withTrace t }
  | plain {s s' : System} {name : String} {v : Variable} :
      s.assignable? name = some (v, s') → Move s s'
  | static {s s' : System} {name : String} {v : Variable} :
      s.newStatic? name = some (v, s') → Move s s'
  | cell (s : System) : Move s { s with env := s.env.newStaticCell.2 }
  | constant {s s' : System} {name : String} {v : Variable} (w : Word) :
      s.newConstant? name = some (v, s') → Move s (s'.assign v w)
  | request (s : System) (start length : Word) (device : String) :
      Move s (s.noteRequest start length device)
  | map {s s' : System} {start length : Word} {device : String} :
      s.map start length device = .ok s' → Move s s'
  | begin {s : System} (name : String) {parameters : List String} {result : Option String} :
      s.env.pending = none → Environment.repeated? [] (parameters ++ result.toList) = none →
      Move s { s with env := s.env.begin name parameters result }

/-- Any number of moves. -/
def System.Moves : System → System → Prop := Relation.ReflTransGen System.Move

/-! ## Steps with a state -/

section

variable {ε σ α β : Type}

/-- The state a step leaves behind, whether it succeeds or fails. -/
def stateAfter : EStateM.Result ε σ α → σ
  | .ok _ s => s
  | .error _ s => s

/-- The step leads from every state to a related one. -/
def Leads (R : σ → σ → Prop) (x : EStateM ε σ α) : Prop := ∀ s, R s (stateAfter (x s))

namespace Leads

variable {R : σ → σ → Prop}

theorem pure (hrefl : ∀ s, R s s) (a : α) : Leads R (Pure.pure a : EStateM ε σ α) :=
  fun s => hrefl s

theorem bind (htrans : ∀ {a b c}, R a b → R b c → R a c) {x : EStateM ε σ α}
    {f : α → EStateM ε σ β} (hx : Leads R x) (hf : ∀ a, Leads R (f a)) : Leads R (x >>= f) := by
  intro s
  have hfirst := hx s
  cases hxs : x s with
  | ok a s' =>
    rw [hxs] at hfirst
    rw [EStateM.bind_of_ok hxs]
    exact htrans hfirst (hf a s')
  | error e s' =>
    rw [hxs] at hfirst
    rw [EStateM.bind_of_error hxs]
    exact hfirst

theorem get_bind {f : σ → EStateM ε σ β} (hf : ∀ s, Leads R (f s)) : Leads R (get >>= f) :=
  fun s => hf s s

end Leads

end

namespace Build

variable {α : Type}

theorem orFail_of_none {result : System → Option (α × System)} {s : System} (h : result s = none)
    (cause : BuildCause) (location : Location) :
    orFail result cause location s = .error ⟨cause, location⟩ s := by
  rw [orFail, EStateM.get_bind, h]
  rfl

theorem orFail_of_some {result : System → Option (α × System)} {s s' : System} {a : α}
    (h : result s = some (a, s')) (cause : BuildCause) (location : Location) :
    orFail result cause location s = .ok a s' := by
  rw [orFail, EStateM.get_bind, h]
  rfl

/-- Evaluating a constant node gives its value, or the failure that belongs to it, and touches
nothing but the trace. -/
theorem evaluate_of_isConstant {node : Node} (hc : node.isConstant = true) (s : System) :
    ∃ trace, evaluate node s =
      match node.constantValue s.machine.stores.get with
      | .ok w => .ok w { s with machine := s.machine.withTrace trace }
      | .error u =>
        .error (.ofUnwind node.location u) { s with machine := s.machine.withTrace trace } := by
  obtain ⟨trace, h⟩ := exec_of_isConstant s.env node.height hc (Nat.le_refl _) s.machine
  refine ⟨trace, ?_⟩
  rw [evaluate, EStateM.get_bind, h]
  dsimp only
  cases node.constantValue s.machine.stores.get with
  | ok w => rfl
  | error u => rfl

theorem evaluate_eq_ok {node : Node} (hc : node.isConstant = true) {s s' : System} {w : Word}
    (h : evaluate node s = .ok w s') :
    node.constantValue s.machine.stores.get = .ok w ∧
      ∃ trace, s' = { s with machine := s.machine.withTrace trace } := by
  obtain ⟨trace, heq⟩ := evaluate_of_isConstant hc s
  rw [heq] at h
  cases hvalue : node.constantValue s.machine.stores.get with
  | error e =>
    rw [hvalue] at h
    cases h
  | ok w' =>
    rw [hvalue] at h
    cases h
    exact ⟨rfl, trace, rfl⟩

end Build

/-! ## Building nodes -/

namespace System

/-- A relation between systems that can be chained, that does not look at the trace, and that the
changes respect which constructors of nodes make.  Constants are bound only to certain names. -/
structure Respected (defines : String → Prop) (R : System → System → Prop) : Prop where
  refl : ∀ s, R s s
  trans : ∀ {a b c : System}, R a b → R b c → R a c
  onTrace : ∀ (s : System) (t : Trace), R s { s with machine := s.machine.withTrace t }
  onPlain : ∀ {s s' : System} {name : String} {v : Variable},
    s.assignable? name = some (v, s') → R s s'
  onStatic : ∀ {s s' : System} {name : String} {v : Variable},
    s.newStatic? name = some (v, s') → R s s'
  onCell : ∀ s : System, R s { s with env := s.env.newStaticCell.2 }
  onConstant : ∀ {s s' : System} {name : String} {v : Variable} (w : Word), defines name →
    s.newConstant? name = some (v, s') → R s (s'.assign v w)
  onRequest : ∀ (s : System) (start length : Word) (device : String),
    R s (s.noteRequest start length device)
  onMap : ∀ {s s' : System} {start length : Word} {device : String},
    s.map start length device = .ok s' → R s s'

/-- Constructors make moves. -/
theorem moves_respected : Respected (fun _ => True) Moves where
  refl _ := .refl
  trans := .trans
  onTrace s t := .single (.trace s t)
  onPlain h := .single (.plain h)
  onStatic h := .single (.static h)
  onCell s := .single (.cell s)
  onConstant w _ h := .single (.constant w h)
  onRequest s start length device := .single (.request s start length device)
  onMap h := .single (.map h)

namespace Respected

variable {α β : Type} {defines : String → Prop} {R : System → System → Prop}
  (hR : Respected defines R)

include hR

theorem pure (a : α) : Leads R (Pure.pure a : Build α) := Leads.pure hR.refl a

theorem bind {x : Build α} {f : α → Build β} (hx : Leads R x) (hf : ∀ a, Leads R (f a)) :
    Leads R (x >>= f) := Leads.bind (R := R) hR.trans hx hf

theorem fail (cause : BuildCause) (location : Location) :
    Leads R (Build.fail cause location : Build α) := fun s => hR.refl s

theorem emit (e : TraceEvent) : Leads R (Build.emit e) :=
  fun s => hR.onTrace s (s.machine.trace.add e)

theorem create (node : Node) : Leads R (Build.create node) :=
  hR.bind (hR.emit _) fun _ => hR.pure node

/-- A step that goes on in the system that was made. -/
theorem orFail {result : System → Option (α × System)} (cause : BuildCause)
    (location : Location) (h : ∀ s a s', result s = some (a, s') → R s s') :
    Leads R (Build.orFail result cause location) := by
  intro s
  cases hr : result s with
  | none =>
    rw [Build.orFail_of_none hr]
    exact hR.refl s
  | some made =>
    rw [Build.orFail_of_some hr]
    exact h s made.1 made.2 hr

theorem resolve (location : Location) (name : String) : Leads R (Build.resolve location name) := by
  refine hR.orFail _ _ fun s a s' h => ?_
  obtain ⟨v, _, hv⟩ := Option.map_eq_some_iff.mp h
  cases hv
  exact hR.refl s

theorem evaluate {node : Node} (hc : node.isConstant = true) : Leads R (Build.evaluate node) := by
  intro s
  obtain ⟨trace, h⟩ := Build.evaluate_of_isConstant hc s
  rw [h]
  cases node.constantValue s.machine.stores.get with
  | ok w => exact hR.onTrace s trace
  | error u => exact hR.onTrace s trace

theorem requireConstant (node : Node) : Leads R (Build.requireConstant node) := by
  unfold Build.requireConstant
  split
  · exact hR.evaluate ‹_›
  · exact hR.fail _ _

/-! ### Leaves and children -/

theorem literalOf (location : Location) (r : Except Numeral.LiteralError Word) :
    Leads R (Build.literalOf location r) := by
  cases r with
  | ok w => exact hR.create _
  | error e => exact hR.fail _ _

theorem attach (child : Node) : Leads R (Build.attach child) := by
  refine Leads.get_bind fun s => ?_
  split
  · rename_i h
    have hc : child.isConstant = true := by
      simp only [Bool.and_eq_true] at h
      exact h.1.2
    exact hR.bind (hR.evaluate hc) fun _ => hR.bind (hR.emit _) fun _ => hR.create _
  · exact hR.pure child

theorem attachAll (children : List Node) : Leads R (Build.attachAll children) := by
  induction children with
  | nil => exact hR.pure []
  | cons child rest ih =>
    exact hR.bind (hR.attach child) fun _ => hR.bind ih fun _ => hR.pure _

theorem attachOption (child : Option Node) : Leads R (Build.attachOption child) := by
  cases child with
  | none => exact hR.pure none
  | some child => exact hR.bind (hR.attach child) fun _ => hR.pure _

/-! ### Statements -/

theorem block (location : Location) (statements : List Node) :
    Leads R (Build.block location statements) :=
  hR.bind (hR.attachAll statements) fun _ => hR.create _

theorem assign (location : Location) (name : String) (value : Node) :
    Leads R (Build.assign location name value) :=
  hR.bind (hR.attach value) fun _ =>
    hR.bind (hR.orFail _ _ fun _ _ _ h => hR.onPlain h) fun _ => hR.create _

theorem static (location : Location) (name : String) (value : Node) :
    Leads R (Build.static location name value) :=
  hR.bind (hR.attach value) fun _ =>
    hR.bind (hR.orFail _ _ fun _ _ _ h => hR.onStatic h) fun _ =>
      hR.bind hR.onCell fun _ => hR.create _

/-- The two steps of binding a constant are one move: it is never seen without its value. -/
theorem newConstant (location : Location) {name : String} (hname : defines name) (w : Word) :
    Leads R (Build.newConstant location name w) := by
  intro s
  unfold Build.newConstant
  cases h : s.newConstant? name with
  | none =>
    rw [EStateM.bind_of_error (Build.orFail_of_none h _ _)]
    exact hR.refl s
  | some made =>
    rw [EStateM.bind_of_ok (Build.orFail_of_some h _ _)]
    exact hR.onConstant w hname h

theorem define (location : Location) {name : String} (hname : defines name) (value : Node) :
    Leads R (Build.define location name value) :=
  hR.bind (hR.requireConstant value) fun _ => hR.bind (hR.newConstant _ hname _) fun _ =>
    hR.bind (hR.emit _) fun _ => hR.create _

theorem defineMembers (location : Location) {name : String}
    (hmember : ∀ member, defines (Build.memberName name member)) (base : String) (baseValue : Word)
    (members : List String) :
    Leads R (Build.defineMembers location name base baseValue members) := by
  induction members with
  | nil => exact hR.pure ()
  | cons member rest ih =>
    refine Leads.get_bind fun s => ?_
    split
    · exact hR.fail _ _
    · exact hR.bind (hR.newConstant _ (hmember member) _) fun _ => ih

theorem defineFrom (location : Location) {name : String} (hname : defines name)
    (hmember : ∀ member, defines (Build.memberName name member)) (value : Node) (base : String) :
    Leads R (Build.defineFrom location name value base) := by
  refine hR.bind (hR.requireConstant value) fun w =>
    hR.bind (hR.newConstant _ hname _) fun _ => Leads.get_bind fun s => ?_
  split
  · exact hR.fail _ _
  · split
    · exact hR.bind (hR.defineMembers _ hmember _ _ _) fun _ =>
        hR.bind (hR.emit _) fun _ => hR.create _
    · exact hR.fail _ _

theorem map (location : Location) (start length : Node) (device : Option String) :
    Leads R (Build.map location start length device) := by
  refine hR.bind (hR.requireConstant start) fun first =>
    hR.bind (hR.requireConstant length) fun size =>
      hR.bind (fun s => hR.onRequest s first size _) fun _ s => ?_
  rw [EStateM.get_bind]
  cases h : s.map first size (device.getD defaultDevice) with
  | error e => exact hR.refl s
  | ok s' => exact hR.trans (hR.onMap h) (hR.create _ s')

theorem cond (location : Location) (condition thenBranch : Node) (elseBranch : Option Node) :
    Leads R (Build.cond location condition thenBranch elseBranch) :=
  hR.bind (hR.attach condition) fun _ => hR.bind (hR.attach thenBranch) fun _ =>
    hR.bind (hR.attachOption elseBranch) fun _ => hR.create _

theorem whileLoop (location : Location) (condition body : Node) :
    Leads R (Build.whileLoop location condition body) :=
  hR.bind (hR.attach condition) fun _ => hR.bind (hR.attach body) fun _ => hR.create _

theorem forLoop (location : Location) (start target : Node) (step : Option Node)
    (body : Node) : Leads R (Build.forLoop location start target step body) := by
  unfold Build.forLoop
  split
  · exact hR.bind (hR.attach target) fun _ => hR.bind (hR.attachOption step) fun _ =>
      hR.bind (hR.attach body) fun _ => hR.create _
  · exact hR.fail _ _

theorem printParts (items : List (PrintItem Node)) : Leads R (Build.printParts items) := by
  induction items with
  | nil => exact hR.pure []
  | cons item rest ih =>
    cases item with
    | text text => exact hR.bind ih fun _ => hR.pure _
    | value expr format =>
      refine Leads.get_bind fun s => ?_
      dsimp only
      split
      · exact hR.bind (hR.attach expr) fun _ => hR.bind ih fun _ => hR.pure _
      · exact hR.fail _ _

theorem print (location : Location) (items : List (PrintItem Node))
    (trailing : Option String) : Leads R (Build.print location items trailing) :=
  hR.bind (hR.printParts items) fun _ => hR.create _

theorem sleep (location : Location) (micros : Node) : Leads R (Build.sleep location micros) :=
  hR.bind (hR.attach micros) fun _ => hR.create _

/-! ### Expressions -/

theorem var (location : Location) (name : String) : Leads R (Build.var location name) :=
  hR.bind (hR.resolve location name) fun _ => hR.create _

theorem indexed (location : Location) (name : String) (offset : Node) :
    Leads R (Build.indexed location name offset) :=
  hR.bind (hR.resolve location name) fun _ => hR.bind (hR.attach offset) fun _ =>
    hR.create _

theorem unary (location : Location) (op : UnaryOp) (operand : Node) :
    Leads R (Build.unary location op operand) :=
  hR.bind (hR.attach operand) fun _ => hR.create _

theorem binary (location : Location) (op : BinaryOp) (left right : Node) :
    Leads R (Build.binary location op left right) :=
  hR.bind (hR.attach left) fun _ => hR.bind (hR.attach right) fun _ => hR.create _

theorem narrow (location : Location) (width : Width) (operand : Node) :
    Leads R (Build.narrow location width operand) :=
  hR.bind (hR.attach operand) fun _ => hR.create _

theorem peek (location : Location) (address : Node) (width : Width) :
    Leads R (Build.peek location address width) :=
  hR.bind (hR.attach address) fun _ => hR.create _

theorem poke (location : Location) (address value : Node) (mask : Option Node)
    (width : Width) : Leads R (Build.poke location address value mask width) :=
  hR.bind (hR.attach address) fun _ => hR.bind (hR.attach value) fun _ =>
    hR.bind (hR.attachOption mask) fun _ => hR.create _

theorem call (location : Location) (name : String) (arguments : List Node) :
    Leads R (Build.call location name arguments) := by
  refine Leads.get_bind fun s => ?_
  dsimp only
  split
  · exact hR.fail _ _
  · split
    · exact hR.bind (hR.attachAll arguments) fun _ => hR.create _
    · exact hR.fail _ _

end Respected

end System

namespace Build

/-- The step is made of moves. -/
abbrev Made {α : Type} (x : Build α) : Prop := Leads System.Moves x

theorem made_beginSubroutine (location : Location) (name : String) (parameters : List String)
    (result : Option String) : Made (beginSubroutine location name parameters result) := by
  intro s
  rw [beginSubroutine, EStateM.get_bind]
  split
  · exact .refl
  · rename_i hpending
    have hnone : s.env.pending = none := by simpa using hpending
    cases hr : Environment.repeated? [] (parameters ++ result.toList) with
    | some twice => exact .refl
    | none =>
      have hbegin : System.Moves s { s with env := s.env.begin name parameters result } :=
        .single (.begin name hnone hr)
      exact hbegin.trans (System.moves_respected.emit _ _)

/-- A definition can be opened only if none is. -/
theorem beginSubroutine_eq_ok {l : Location} {name : String} {parameters : List String}
    {result : Option String} {s s' : System}
    (h : beginSubroutine l name parameters result s = .ok () s') :
    s.env.pending = none ∧ s'.env = s.env.begin name parameters result := by
  rw [beginSubroutine, EStateM.get_bind] at h
  split at h
  · cases h
  · rename_i hpending
    have hnone : s.env.pending = none := by simpa using hpending
    cases hr : Environment.repeated? [] (parameters ++ result.toList) with
    | some twice =>
      rw [hr] at h
      cases h
    | none =>
      rw [hr] at h
      cases h
      exact ⟨hnone, rfl⟩

end Build

/-! ## Building sources -/

/-- The step changes the system of the workshop by moves. -/
abbrev Assembly.Made {α : Type} (x : Assembly α) : Prop :=
  Leads (fun w w' : Workshop => System.Moves w.system w'.system) x

namespace Assembly

variable {α β : Type}

theorem made_pure (a : α) : Made (pure a) := Leads.pure (fun _ => .refl) a

theorem made_bind {x : Assembly α} {f : α → Assembly β} (hx : Made x) (hf : ∀ a, Made (f a)) :
    Made (x >>= f) := Leads.bind .trans hx hf

theorem made_lift {x : Build α} (hx : Build.Made x) : Made (lift x) := by
  intro w
  have hmoves := hx w.system
  unfold lift
  cases h : x w.system with
  | ok a s =>
    rw [h] at hmoves
    exact hmoves
  | error e s =>
    rw [h] at hmoves
    exact hmoves

/-- Taking a node out of the workshop leaves the system as it is. -/
theorem take_of_none {key : String} {w : Workshop} (h : w.node? key = none) :
    take key w = .error (.noNode key) w := by
  rw [take, EStateM.get_bind, h]
  rfl

theorem take_of_some {key : String} {w : Workshop} {node : Node} (h : w.node? key = some node) :
    take key w = .ok node (w.remove key) := by
  rw [take, EStateM.get_bind, h]
  rfl

theorem made_take (key : String) : Made (take key) := by
  intro w
  cases h : w.node? key with
  | none =>
    rw [take_of_none h]
    exact .refl
  | some node =>
    rw [take_of_some h]
    exact .refl

end Assembly

open PeekPoke.System (moves_respected) in
open Assembly (made_bind made_lift made_pure made_take) in
mutual

/-- **Building.**  Whether it succeeds or fails, building a source changes the system by moves
only. -/
theorem Source.build_leads : (source : Source) → Assembly.Made source.build
  | .literal _ _ => made_lift (moves_respected.create _)
  | .integer _ _ => made_lift (moves_respected.literalOf _ _)
  | .float _ _ => made_lift (moves_respected.literalOf _ _)
  | .jump _ _ => made_lift (moves_respected.create _)
  | .block _ statements =>
    made_bind (buildAll_leads statements) fun _ => made_lift (moves_respected.block _ _)
  | .assign _ _ value =>
    made_bind value.build_leads fun _ => made_lift (moves_respected.assign _ _ _)
  | .static _ _ value =>
    made_bind value.build_leads fun _ => made_lift (moves_respected.static _ _ _)
  | .define _ _ value =>
    made_bind value.build_leads fun _ => made_lift (moves_respected.define _ trivial _)
  | .defineFrom _ _ value _ =>
    made_bind value.build_leads fun _ =>
      made_lift (moves_respected.defineFrom _ trivial (fun _ => trivial) _ _)
  | .map _ start length _ =>
    made_bind start.build_leads fun _ => made_bind length.build_leads fun _ =>
      made_lift (moves_respected.map _ _ _ _)
  | .cond _ condition thenBranch elseBranch =>
    made_bind condition.build_leads fun _ => made_bind thenBranch.build_leads fun _ =>
      made_bind (buildOption_leads elseBranch) fun _ => made_lift (moves_respected.cond _ _ _ _)
  | .whileLoop _ condition body =>
    made_bind condition.build_leads fun _ => made_bind body.build_leads fun _ =>
      made_lift (moves_respected.whileLoop _ _ _)
  | .forLoop _ start target step body =>
    made_bind start.build_leads fun _ => made_bind target.build_leads fun _ =>
      made_bind (buildOption_leads step) fun _ => made_bind body.build_leads fun _ =>
        made_lift (moves_respected.forLoop _ _ _ _ _)
  | .print _ items _ =>
    made_bind (buildItems_leads items) fun _ => made_lift (moves_respected.print _ _ _)
  | .sleep _ micros => made_bind micros.build_leads fun _ => made_lift (moves_respected.sleep _ _)
  | .imported _ root =>
    made_bind (buildOption_leads root) fun _ => made_lift (moves_respected.create _)
  | .var _ _ => made_lift (moves_respected.var _ _)
  | .indexed _ _ offset =>
    made_bind offset.build_leads fun _ => made_lift (moves_respected.indexed _ _ _)
  | .unary _ _ operand =>
    made_bind operand.build_leads fun _ => made_lift (moves_respected.unary _ _ _)
  | .binary _ _ left right =>
    made_bind left.build_leads fun _ => made_bind right.build_leads fun _ =>
      made_lift (moves_respected.binary _ _ _ _)
  | .narrow _ _ operand =>
    made_bind operand.build_leads fun _ => made_lift (moves_respected.narrow _ _ _)
  | .peek _ address _ =>
    made_bind address.build_leads fun _ => made_lift (moves_respected.peek _ _ _)
  | .poke _ address value mask _ =>
    made_bind address.build_leads fun _ => made_bind value.build_leads fun _ =>
      made_bind (buildOption_leads mask) fun _ => made_lift (moves_respected.poke _ _ _ _ _)
  | .call _ _ arguments =>
    made_bind (buildAll_leads arguments) fun _ => made_lift (moves_respected.call _ _ _)
  | .stored key => made_take key

theorem buildAll_leads : (sources : List Source) → Assembly.Made (buildAll sources)
  | [] => made_pure []
  | source :: rest =>
    made_bind source.build_leads fun _ => made_bind (buildAll_leads rest) fun _ => made_pure _

theorem buildOption_leads : (source : Option Source) → Assembly.Made (buildOption source)
  | none => made_pure none
  | some source => made_bind source.build_leads fun _ => made_pure _

theorem buildItem_leads : (item : PrintItem Source) → Assembly.Made (buildItem item)
  | .text _ => made_pure _
  | .value expr _ => made_bind expr.build_leads fun _ => made_pure _

theorem buildItems_leads : (items : List (PrintItem Source)) → Assembly.Made (buildItems items)
  | [] => made_pure []
  | item :: rest =>
    made_bind (buildItem_leads item) fun _ => made_bind (buildItems_leads rest) fun _ => made_pure _

end

end PeekPoke
