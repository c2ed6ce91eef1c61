import PeekPoke.Script.Environment
import PeekPoke.Script.Run
set_option autoImplicit false

/-!
# Execution

Executing a node evaluates its children from left to right, and only those whose value is needed.
`Node.step` says what one node does, given a way to evaluate its children; `exec` ties the knot with
a number of steps as fuel, which bounds the nesting of evaluations and the rounds of each loop.  An
execution that finishes does not depend on the fuel it had left.  The rules are written for every
`MonadScript`; `exec` is what they mean.

Signals are caught where they belong: `break` by loops, `exit` and a stray `break` by calls and
imports, `quit` and a requested stop nowhere.
-/

namespace PeekPoke

open MonadScript

section

variable {M : Type → Type} [MonadScript M]

/-! ## Parts of statements -/

/-- Executes statements one after the other.  After each of them a requested stop ends the block. -/
@[specialize] def execStatements (eval : Node → M Word) : List Node → M Word
  | [] => pure 0
  | statement :: rest => do
    let _ ← eval statement
    if ← act Machine.endStatement then signal .terminate
    else execStatements eval rest

/-- Evaluates expressions from left to right. -/
@[specialize] def evalAll (eval : Node → M Word) : List Node → M (List Word)
  | [] => pure []
  | expr :: rest => do
    let w ← eval expr
    let ws ← evalAll eval rest
    return w :: ws

/-- The text of a print statement, after a text that is known already; nothing is printed before all
of it is known. -/
@[specialize] def evalParts (eval : Node → M Word) : String → List (PrintPart Node) → M String
  | sofar, [] => pure sofar
  | sofar, .text text :: rest => evalParts eval (sofar ++ text) rest
  | sofar, .value expr style width :: rest => do
    let w ← eval expr
    evalParts eval (sofar ++ style.render width w) rest

/-- Rounds of a loop that goes on while a condition is not zero. -/
@[specialize] def repeatWhile (condition body : M Word) : Nat → M Unit
  | 0 => unfinished
  | rounds + 1 => do
    if (← condition) = 0 then pure ()
    else if ← untilBreak body then repeatWhile condition body rounds
    else pure ()

/-- Whether a counting loop with this step has not passed its target. -/
def inBounds (target step i : Int) : Bool := (0 < step && i ≤ target) || (step < 0 && target ≤ i)

/-- Rounds of a counting loop.  The count `i` is the loop's own: the body sees it in the counter and
cannot steer it.  A step past the signed range ends the loop. -/
@[specialize] def repeatFor (counter : Variable) (target step : Int) (body : M Word) :
    Nat → Int → M Unit
  | 0, _ => unfinished
  | rounds + 1, i => do
    if inBounds target step i then
      if ← untilBreak body then
        let next := i + step
        if -0x8000000000000000 ≤ next ∧ next < 0x8000000000000000 then
          store counter (Word.ofSigned next)
          repeatFor counter target step body rounds next
        else pure ()
      else pure ()
    else pure ()

/-! ## Register accesses -/

/-- Makes one access through a window and fails at `location` if it faults. -/
@[specialize] def access (location : Location) (window : Nat) (a : Access) : M Word := do
  let w ← act (·.access window a)
  if ← look (·.bus.failed window) then fail (.busError a.address a.width) location
  else pure w

/-- The window an access at an address goes through. -/
@[specialize] def findWindow (location : Location) (address : Word) (width : Width) : M Nat := do
  match ← look (·.bus.find? address width) with
  | some window => pure window
  | none => fail (.noMapping address width) location

/-! ## Calls -/

/-- Starts an activation of a subroutine. -/
def enterFrame (id : Nat) (m : Machine) : Machine :=
  let m := { m with stores := m.stores.push id }
  (m.emitFrom fun m => .framePushed (m.stores.depth id)).emitFrom fun m =>
    .frameEntered (m.stores.depth id)

/-- Ends the innermost activation of a subroutine. -/
def leaveFrame (id : Nat) (m : Machine) : Machine :=
  let m := { m with stores := m.stores.pop id }
  m.emitFrom fun m => .framePopped (m.stores.depth id)

/-- Gives parameters their values. -/
@[specialize] def bindParameters : List Variable → List Word → M Unit
  | v :: vs, w :: ws => do
    store v w
    bindParameters vs ws
  | _, _ => pure ()

/-- One activation of a subroutine: a new frame, the parameters, the body, and the value of the
return variable, which is zero if there is none. -/
@[specialize] def activate (id : Nat) (s : Subroutine) (body : M Word) (arguments : List Word) :
    M Word :=
  bracket (enterFrame id) (leaveFrame id) do
    bindParameters s.parameters arguments
    untilExit body
    match s.result with
    | some v => valueOf v
    | none => pure 0

/-- A call.  Whether the subroutine can be called is decided before any argument is evaluated, and
the arguments are evaluated before the activation starts. -/
@[specialize] def execCall (env : Environment) (eval : Node → M Word) (location : Location)
    (name : String) (id : Nat) (arguments : List Node) : M Word :=
  bracket (·.emit (.callEntered name)) (·.emit (.callLeft name))
    (match env.callable? id with
    | none => fail (.subroutineUnavailable name) location
    | some (s, body) => do
      let values ← evalAll eval arguments
      activate id s (eval body) values)

/-! ## Nodes -/

/-- What one node does, given a way to evaluate other nodes and a bound on the rounds of a loop. -/
@[specialize] def Node.step (env : Environment) (rounds : Nat) (eval : Node → M Word) :
    Node → M Word
  | .literal _ w => pure w
  | .directive _ => pure 0
  | .block _ statements => execStatements eval statements
  | .jump _ j => signal j.signal
  | .assign _ target value => do
    let w ← eval value
    store target w
    return 0
  | .static _ cell target value => do
    if ← look (·.initialised.contains cell) then return 0
    else
      let w ← eval value
      store target w
      change (·.initialise cell)
      return 0
  | .var _ v => valueOf v
  | .indexed _ v offset => do
    let offset ← eval offset
    let w ← valueOf v
    return w + offset
  | .unary _ op operand => do
    let w ← eval operand
    return op.apply w
  | .binary location op left right => do
    let l ← eval left
    match op.decided? l with
    | some w => return w
    | none =>
      let r ← eval right
      match op.eval l r location with
      | .ok w => return w
      | .error e => raise (.failure e)
  | .narrow _ width operand => do
    let w ← eval operand
    return width.truncate w
  | .cond _ condition thenBranch elseBranch => do
    if (← eval condition) = 0 then
      match elseBranch with
      | some branch =>
        let _ ← eval branch
        return 0
      | none => return 0
    else
      let _ ← eval thenBranch
      return 0
  | .whileLoop _ condition body => do
    repeatWhile (eval condition) (eval body) rounds
    return 0
  | .forLoop _ startLocation counter start target step body => do
    let _ ← eval (.assign startLocation counter start)
    let target ← eval target
    let step ←
      match step with
      | some step => eval step
      | none => pure 1
    let first ← valueOf counter
    repeatFor counter target.signed step.signed (eval body) rounds first.signed
    return 0
  | .peek location address width => do
    let address ← eval address
    let window ← findWindow location address width
    let w ← access location window ⟨.read, address, width⟩
    return width.truncate w
  | .poke location address value mask width => do
    let address ← eval address
    let value ← eval value
    let window ← findWindow location address width
    match mask with
    | none =>
      let _ ← access location window ⟨.write (width.truncate value), address, width⟩
      return 0
    | some mask =>
      let mask ← eval mask
      let field := width.truncate mask
      let _ ← access location window ⟨.clearBits field, address, width⟩
      let _ ← access location window
        ⟨.setBits (width.truncate value &&& field), address, width⟩
      return 0
  | .print _ parts trailing => do
    let text ← evalParts eval "" parts
    change (·.print (text ++ trailing))
    return 0
  | .sleep _ micros => do
    let micros ← eval micros
    let undisturbed ← act fun m =>
      let (undisturbed, stop) := m.stop.sleep micros.toNat
      (undisturbed, { m with stop })
    if undisturbed then return 0
    else
      emit .sleepInterrupted
      return 0
  | .call location name id arguments => execCall env eval location name id arguments
  | .imported _ root =>
    match root with
    | some root => do
      untilExit (eval root)
      return 0
    | none => pure 0

end

/-- Executes a node, nesting at most `fuel` evaluations and making fewer than `fuel` rounds of each
loop. -/
def exec (env : Environment) : Nat → Node → Run Word
  | 0, _ => unfinished
  | fuel + 1, node => do
    emit (.execute node.kind node.location)
    node.step env fuel (exec env fuel)

end PeekPoke
