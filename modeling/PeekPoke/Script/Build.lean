import PeekPoke.Numeral.Decimal
import PeekPoke.Script.System
set_option autoImplicit false

/-!
# Building nodes

Scripts are built from the leaves up.  Each function here makes one node from children that are
already built: it resolves names, carries out `def` and `map`, and replaces every child that is
constant by a literal of its value (`attach`).  A failure says what is wrong and where; what was
done before it stays done.
-/

namespace PeekPoke

/-- A step of building a script. -/
abbrev Build := EStateM BuildError System

/-- One item of a print statement as it is written: an expression with a format, or text. -/
inductive PrintItem (α : Type) where
  | value (expr : α) (format : PrintFormat)
  | text (text : String)
  deriving Repr, Inhabited

namespace Build

variable {α : Type}

/-! ## Steps -/

/-- Fails for a cause at a location. -/
def fail (cause : BuildCause) (location : Location) : Build α := throw ⟨cause, location⟩

/-- Adds an event to the trace. -/
def emit (e : TraceEvent) : Build Unit := modify (·.emit e)

/-- Goes on in the system that was made, or fails where there is none. -/
def orFail (result : System → Option (α × System)) (cause : BuildCause) (location : Location) :
    Build α := do
  match result (← get) with
  | some (a, s) =>
    set s
    return a
  | none => fail cause location

/-- Hands out a new node. -/
def create (node : Node) : Build Node := do
  emit (.nodeCreated node.kind node.location node.isConstant)
  return node

/-- The value of a node that is executed while the script is built.  Only constant nodes are, and
their height is all the fuel they need. -/
def evaluate (node : Node) : Build Word := do
  let s ← get
  match exec s.env node.height node s.machine with
  | some (.ok w, machine) =>
    set { s with machine }
    return w
  | some (.error u, machine) =>
    set { s with machine }
    throw (BuildError.ofUnwind node.location u)
  | none => fail (.constantEvaluation "evaluation did not finish") node.location

/-- The value of an expression that has to be known while the script is built. -/
def requireConstant (node : Node) : Build Word :=
  if node.isConstant then evaluate node else fail .constantRequired node.location

/-! ## Leaves -/

/-- A literal. -/
def literal (location : Location) (w : Word) : Build Node := create (.literal location w)

/-- A literal read from text. -/
def literalOf (location : Location) : Except Numeral.LiteralError Word → Build Node
  | .ok w => literal location w
  | .error e => fail (.invalidLiteral e.message) location

/-- An integer literal. -/
def integer (location : Location) (text : String) : Build Node :=
  literalOf location (Numeral.integer text)

/-- A float literal, which stands for its bits. -/
def float (location : Location) (text : String) : Build Node :=
  literalOf location (Numeral.float text)

/-- A jump. -/
def jump (location : Location) (j : Jump) : Build Node := create (.jump location j)

/-! ## Children -/

/-- Makes a node the child of another one: a constant that is not a literal yet becomes one. -/
def attach (child : Node) : Build Node := do
  if (← get).env.foldConstants && child.isConstant && child.literal?.isNone then
    let w ← evaluate child
    emit (.folded w child.location)
    literal child.location w
  else
    return child

/-- Attaches children from left to right. -/
def attachAll : List Node → Build (List Node)
  | [] => return []
  | child :: rest => do
    let child ← attach child
    let rest ← attachAll rest
    return child :: rest

/-- Attaches a child that may be absent. -/
def attachOption : Option Node → Build (Option Node)
  | none => return none
  | some child => do
    let child ← attach child
    return some child

/-! ## Statements -/

/-- A block of statements. -/
def block (location : Location) (statements : List Node) : Build Node := do
  let statements ← attachAll statements
  create (.block location statements)

/-- An assignment.  It makes the name a variable unless it is one already. -/
def assign (location : Location) (name : String) (value : Node) : Build Node := do
  let value ← attach value
  let v ← orFail (·.assignable? name) (.namingConflict name) location
  create (.assign location v value)

/-- The declaration of a static variable with its initial value. -/
def static (location : Location) (name : String) (value : Node) : Build Node := do
  let value ← attach value
  let v ← orFail (·.newStatic? name) (.namingConflict name) location
  let cell ← modifyGet fun s =>
    let (cell, env) := s.env.newStaticCell
    (cell, { s with env })
  create (.static location cell v value)

/-- Binds a constant to a value. -/
def newConstant (location : Location) (name : String) (w : Word) : Build Unit := do
  let v ← orFail (·.newConstant? name) (.namingConflict name) location
  modify (·.assign v w)

/-- The definition of a constant. -/
def define (location : Location) (name : String) (value : Node) : Build Node := do
  let w ← requireConstant value
  newConstant location name w
  emit (.constantDefined name w)
  create (.directive location)

/-- The name of a member. -/
def memberName (base member : String) : String := base ++ "." ++ member

/-- For each member `m` of `base` defines `name.m` as `base.m - base`. -/
def defineMembers (location : Location) (name base : String) (baseValue : Word) :
    List String → Build Unit
  | [] => return ()
  | member :: rest => do
    let s ← get
    match s.env.lookup (memberName base member) with
    | none => fail (.undefinedVariable (memberName base member)) location
    | some source =>
      newConstant location (memberName name member) (s.get source - baseValue)
      defineMembers location name base baseValue rest

/-- The definition of a constant together with the members it takes from another constant. -/
def defineFrom (location : Location) (name : String) (value : Node) (base : String) :
    Build Node := do
  let w ← requireConstant value
  newConstant location name w
  let s ← get
  match s.env.lookup base with
  | none => fail (.namingConflict base) location
  | some source =>
    if source.isConstant then
      defineMembers location name base (s.get source) (s.env.members base)
      emit (.familyDefined name base w)
      create (.directive location)
    else
      fail (.namingConflict base) location

/-- The mapping of a range, from the default device unless one is named. -/
def map (location : Location) (start length : Node) (device : Option String) : Build Node := do
  let start ← requireConstant start
  let length ← requireConstant length
  let device := device.getD defaultDevice
  modify (·.noteRequest start length device)
  match (← get).map start length device with
  | .ok s =>
    set s
    create (.directive location)
  | .error e => fail (.mappingFailure start length device e.message) location

/-- A conditional statement. -/
def cond (location : Location) (condition thenBranch : Node) (elseBranch : Option Node) :
    Build Node := do
  let condition ← attach condition
  let thenBranch ← attach thenBranch
  let elseBranch ← attachOption elseBranch
  create (.cond location condition thenBranch elseBranch)

/-- A loop with a condition. -/
def whileLoop (location : Location) (condition body : Node) : Build Node := do
  let condition ← attach condition
  let body ← attach body
  create (.whileLoop location condition body)

/-- A counting loop, which has to start with an assignment to its counter. -/
def forLoop (location : Location) (start target : Node) (step : Option Node) (body : Node) :
    Build Node :=
  match start with
  | .assign startLocation counter first => do
    let target ← attach target
    let step ← attachOption step
    let body ← attach body
    create (.forLoop location startLocation counter first target step body)
  | other => fail .invalidLoopStart other.location

/-- The parts of a print statement, checked and attached from left to right. -/
def printParts : List (PrintItem Node) → Build (List (PrintPart Node))
  | [] => return []
  | .text text :: rest => do
    let rest ← printParts rest
    return .text text :: rest
  | .value expr format :: rest => do
    let width := format.width (← get).env.defaultWidth
    if PrintFormat.fits format.style width then
      let expr ← attach expr
      let rest ← printParts rest
      return .value expr format.style width :: rest
    else
      fail (.invalidFormat width) expr.location

/-- A print statement; the text after its items is a line break unless one is given. -/
def print (location : Location) (items : List (PrintItem Node)) (trailing : Option String) :
    Build Node := do
  let parts ← printParts items
  create (.print location parts (trailing.getD "\n"))

/-- A pause. -/
def sleep (location : Location) (micros : Node) : Build Node := do
  let micros ← attach micros
  create (.sleep location micros)

/-- An import; the root of the unit stays as it is. -/
def imported (location : Location) (root : Option Node) : Build Node :=
  create (.imported location root)

/-! ## Expressions -/

/-- The variable a name is bound to. -/
def resolve (location : Location) (name : String) : Build Variable :=
  orFail (fun s => (s.env.lookup name).map (·, s)) (.undefinedVariable name) location

/-- The value of a variable. -/
def var (location : Location) (name : String) : Build Node := do
  let v ← resolve location name
  create (.var location v)

/-- The value of a variable plus an offset. -/
def indexed (location : Location) (name : String) (offset : Node) : Build Node := do
  let v ← resolve location name
  let offset ← attach offset
  create (.indexed location v offset)

/-- A unary operation. -/
def unary (location : Location) (op : UnaryOp) (operand : Node) : Build Node := do
  let operand ← attach operand
  create (.unary location op operand)

/-- A binary operation. -/
def binary (location : Location) (op : BinaryOp) (left right : Node) : Build Node := do
  let left ← attach left
  let right ← attach right
  create (.binary location op left right)

/-- The low bits of a value. -/
def narrow (location : Location) (width : Width) (operand : Node) : Build Node := do
  let operand ← attach operand
  create (.narrow location width operand)

/-- The read of a register. -/
def peek (location : Location) (address : Node) (width : Width) : Build Node := do
  let address ← attach address
  create (.peek location address width)

/-- The write of a register, or with a mask of some of its bits. -/
def poke (location : Location) (address value : Node) (mask : Option Node) (width : Width) :
    Build Node := do
  let address ← attach address
  let value ← attach value
  let mask ← attachOption mask
  create (.poke location address value mask width)

/-- A call.  It is bound to the subroutine the name refers to now. -/
def call (location : Location) (name : String) (arguments : List Node) : Build Node := do
  let env := (← get).env
  match env.subroutineId? name with
  | none => fail (.undefinedSubroutine name) location
  | some id =>
    let arity := (env.subroutines[id]?).elim 0 Subroutine.arity
    if arity = arguments.length then
      let arguments ← attachAll arguments
      create (.call location name id arguments)
    else
      fail (.argumentCount name arity arguments.length) location

/-! ## Subroutines -/

/-- Opens the definition of a subroutine. -/
def beginSubroutine (location : Location) (name : String) (parameters : List String)
    (result : Option String) : Build Unit := do
  if (← get).env.pending.isSome then fail (.nestedSubroutine name) location
  else
    match Environment.repeated? [] (parameters ++ result.toList) with
    | some twice => fail (.namingConflict twice) location
    | none =>
      modify fun s => { s with env := s.env.begin name parameters result }
      emit (.definitionStarted name parameters.length)

end Build

end PeekPoke
