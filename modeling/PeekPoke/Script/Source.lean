import Std.Data.TreeMap
import PeekPoke.Script.Build
set_option autoImplicit false

/-!
# Scripts as they are written

A `Source` is a script before any name is resolved.  Building it builds the children first, in the
order in which they are written, and then the node itself; the first failure ends the building.  A
source can also contain nodes that were built earlier and are kept in a workshop by a key: such a
node is taken out and becomes part of the new one.
-/

namespace PeekPoke

/-- A script before names are resolved. -/
inductive Source where
  | literal (location : Location) (value : Word)
  | integer (location : Location) (text : String)
  | float (location : Location) (text : String)
  | jump (location : Location) (jump : Jump)
  | block (location : Location) (statements : List Source)
  | assign (location : Location) (name : String) (value : Source)
  | static (location : Location) (name : String) (value : Source)
  | define (location : Location) (name : String) (value : Source)
  | defineFrom (location : Location) (name : String) (value : Source) (base : String)
  | map (location : Location) (start length : Source) (device : Option String)
  | cond (location : Location) (condition thenBranch : Source) (elseBranch : Option Source)
  | whileLoop (location : Location) (condition body : Source)
  | forLoop (location : Location) (start target : Source) (step : Option Source) (body : Source)
  | print (location : Location) (items : List (PrintItem Source)) (trailing : Option String)
  | sleep (location : Location) (micros : Source)
  | imported (location : Location) (root : Option Source)
  | var (location : Location) (name : String)
  | indexed (location : Location) (name : String) (offset : Source)
  | unary (location : Location) (op : UnaryOp) (operand : Source)
  | binary (location : Location) (op : BinaryOp) (left right : Source)
  | narrow (location : Location) (width : Width) (operand : Source)
  | peek (location : Location) (address : Source) (width : Width)
  | poke (location : Location) (address value : Source) (mask : Option Source) (width : Width)
  | call (location : Location) (name : String) (arguments : List Source)
  /-- A node that was built earlier. -/
  | stored (key : String)
  deriving Inhabited

/-- A system and the nodes built in it so far, by key. -/
structure Workshop where
  system : System := {}
  nodes : Std.TreeMap String Node := {}
  deriving Inhabited

/-- Why a source could not be built. -/
inductive SourceError where
  /-- No node is stored under the key. -/
  | noNode (key : String)
  | build (e : BuildError)
  deriving DecidableEq, Repr, Inhabited

namespace Workshop

/-- The node stored under a key. -/
def node? (w : Workshop) (key : String) : Option Node := w.nodes[key]?

/-- Removes the node stored under a key. -/
def remove (w : Workshop) (key : String) : Workshop :=
  { w with nodes := w.nodes.erase key }

/-- Stores a node under a key, in place of what was there. -/
def store (w : Workshop) (key : String) (node : Node) : Workshop :=
  { w with nodes := w.nodes.insert key node }

end Workshop

/-- A step of building a source in a workshop. -/
abbrev Assembly := EStateM SourceError Workshop

namespace Assembly

/-- A step of building, carried out in the system of the workshop. -/
def lift {α : Type} (x : Build α) : Assembly α := fun w =>
  match x w.system with
  | .ok a system => .ok a { w with system }
  | .error e system => .error (.build e) { w with system }

/-- Takes the node stored under a key out of the workshop. -/
def take (key : String) : Assembly Node := do
  match (← get).node? key with
  | none => throw (.noNode key)
  | some node =>
    modify (·.remove key)
    return node

end Assembly

mutual

/-- Builds a script. -/
def Source.build : Source → Assembly Node
  | .literal location w => Assembly.lift (Build.literal location w)
  | .integer location text => Assembly.lift (Build.integer location text)
  | .float location text => Assembly.lift (Build.float location text)
  | .jump location j => Assembly.lift (Build.jump location j)
  | .block location statements => do
    let statements ← buildAll statements
    Assembly.lift (Build.block location statements)
  | .assign location name value => do
    let value ← value.build
    Assembly.lift (Build.assign location name value)
  | .static location name value => do
    let value ← value.build
    Assembly.lift (Build.static location name value)
  | .define location name value => do
    let value ← value.build
    Assembly.lift (Build.define location name value)
  | .defineFrom location name value base => do
    let value ← value.build
    Assembly.lift (Build.defineFrom location name value base)
  | .map location start length device => do
    let start ← start.build
    let length ← length.build
    Assembly.lift (Build.map location start length device)
  | .cond location condition thenBranch elseBranch => do
    let condition ← condition.build
    let thenBranch ← thenBranch.build
    let elseBranch ← buildOption elseBranch
    Assembly.lift (Build.cond location condition thenBranch elseBranch)
  | .whileLoop location condition body => do
    let condition ← condition.build
    let body ← body.build
    Assembly.lift (Build.whileLoop location condition body)
  | .forLoop location start target step body => do
    let start ← start.build
    let target ← target.build
    let step ← buildOption step
    let body ← body.build
    Assembly.lift (Build.forLoop location start target step body)
  | .print location items trailing => do
    let items ← buildItems items
    Assembly.lift (Build.print location items trailing)
  | .sleep location micros => do
    let micros ← micros.build
    Assembly.lift (Build.sleep location micros)
  | .imported location root => do
    let root ← buildOption root
    Assembly.lift (Build.imported location root)
  | .var location name => Assembly.lift (Build.var location name)
  | .indexed location name offset => do
    let offset ← offset.build
    Assembly.lift (Build.indexed location name offset)
  | .unary location op operand => do
    let operand ← operand.build
    Assembly.lift (Build.unary location op operand)
  | .binary location op left right => do
    let left ← left.build
    let right ← right.build
    Assembly.lift (Build.binary location op left right)
  | .narrow location width operand => do
    let operand ← operand.build
    Assembly.lift (Build.narrow location width operand)
  | .peek location address width => do
    let address ← address.build
    Assembly.lift (Build.peek location address width)
  | .poke location address value mask width => do
    let address ← address.build
    let value ← value.build
    let mask ← buildOption mask
    Assembly.lift (Build.poke location address value mask width)
  | .call location name arguments => do
    let arguments ← buildAll arguments
    Assembly.lift (Build.call location name arguments)
  | .stored key => Assembly.take key

/-- Builds scripts from left to right. -/
def buildAll : List Source → Assembly (List Node)
  | [] => return []
  | source :: rest => do
    let node ← source.build
    let nodes ← buildAll rest
    return node :: nodes

/-- Builds a script that may be absent. -/
def buildOption : Option Source → Assembly (Option Node)
  | none => return none
  | some source => do
    let node ← source.build
    return some node

/-- Builds the expression of a print item. -/
def buildItem : PrintItem Source → Assembly (PrintItem Node)
  | .text text => return .text text
  | .value expr format => do
    let node ← expr.build
    return .value node format

/-- Builds the items of a print statement from left to right. -/
def buildItems : List (PrintItem Source) → Assembly (List (PrintItem Node))
  | [] => return []
  | item :: rest => do
    let item ← buildItem item
    let items ← buildItems rest
    return item :: items

end

end PeekPoke
