import PeekPoke.Error
import PeekPoke.Format
import PeekPoke.Script.Variable
set_option autoImplicit false

/-!
# Built scripts

A `Node` is a script whose names are resolved: variables are slots, calls name the subroutine they
were bound to, formats have their width.  `def` and `map` do all their work while the script is
built and leave a `directive` behind.  A node is constant (`Node.isConstant`) when it is made of
literals, constants and operators only.
-/

namespace PeekPoke

/-- Statements that leave a construct early. -/
inductive Jump where
  | breakLoop
  | exit
  | quit
  deriving DecidableEq, Repr, Inhabited

/-- The signal a jump raises. -/
def Jump.signal : Jump → Signal
  | breakLoop => .breakLoop
  | exit => .exit
  | quit => .quit

/-- One part of a print statement: an expression in a style at a width, or fixed text. -/
inductive PrintPart (α : Type) where
  | value (expr : α) (style : Style) (width : Width)
  | text (text : String)
  deriving Repr, Inhabited

/-- A script whose names are resolved. -/
inductive Node where
  | literal (location : Location) (value : Word)
  /-- What is left of a statement that was carried out while the script was built. -/
  | directive (location : Location)
  | block (location : Location) (statements : List Node)
  | jump (location : Location) (jump : Jump)
  | assign (location : Location) (target : Variable) (value : Node)
  /-- An assignment that is carried out once; `cell` tells its declaration from all others. -/
  | static (location : Location) (cell : Nat) (target : Variable) (value : Node)
  | var (location : Location) (source : Variable)
  /-- The value of a variable plus an offset. -/
  | indexed (location : Location) (source : Variable) (offset : Node)
  | unary (location : Location) (op : UnaryOp) (operand : Node)
  | binary (location : Location) (op : BinaryOp) (left right : Node)
  /-- The low bits of a value. -/
  | narrow (location : Location) (width : Width) (operand : Node)
  | cond (location : Location) (condition thenBranch : Node) (elseBranch : Option Node)
  | whileLoop (location : Location) (condition body : Node)
  /-- A counting loop: the assignment `start` to `counter`, made at `startLocation`, the target, the
  step and the body. -/
  | forLoop (location startLocation : Location) (counter : Variable) (start target : Node)
      (step : Option Node) (body : Node)
  | peek (location : Location) (address : Node) (width : Width)
  | poke (location : Location) (address value : Node) (mask : Option Node) (width : Width)
  | print (location : Location) (parts : List (PrintPart Node)) (trailing : String)
  | sleep (location : Location) (micros : Node)
  | call (location : Location) (name : String) (subroutine : Nat) (arguments : List Node)
  /-- The root of an imported unit; `none` for a unit that was imported before. -/
  | imported (location : Location) (root : Option Node)
  deriving Inhabited

namespace Node

/-- Where the construct stands. -/
def location : Node → Location
  | literal l _ => l
  | directive l => l
  | block l _ => l
  | jump l _ => l
  | assign l _ _ => l
  | static l _ _ _ => l
  | var l _ => l
  | indexed l _ _ => l
  | unary l _ _ => l
  | binary l _ _ _ => l
  | narrow l _ _ => l
  | cond l _ _ _ => l
  | whileLoop l _ _ => l
  | forLoop l _ _ _ _ _ _ => l
  | peek l _ _ => l
  | poke l _ _ _ _ => l
  | print l _ _ => l
  | sleep l _ => l
  | call l _ _ _ => l
  | imported l _ => l

/-- The name of the construct in a trace. -/
def kind : Node → String
  | literal .. => "constant"
  | directive .. => "directive"
  | block .. => "block"
  | jump .. => "jump"
  | assign .. => "assign"
  | static .. => "static"
  | var .. => "var"
  | indexed .. => "var"
  | unary .. => "unary"
  | binary .. => "binary"
  | narrow .. => "restriction"
  | cond .. => "if"
  | whileLoop .. => "while"
  | forLoop .. => "for"
  | peek .. => "peek"
  | poke .. => "poke"
  | print .. => "print"
  | sleep .. => "sleep"
  | call .. => "call"
  | imported .. => "import"

/-- The value of a literal. -/
def literal? : Node → Option Word
  | literal _ w => some w
  | _ => none

/-- Whether the node is made of literals, constants and operators only. -/
def isConstant : Node → Bool
  | literal .. => true
  | var _ v => v.isConstant
  | indexed _ v offset => v.isConstant && offset.isConstant
  | unary _ _ operand => operand.isConstant
  | binary _ _ left right => left.isConstant && right.isConstant
  | narrow _ _ operand => operand.isConstant
  | _ => false

/-- How deep the evaluation of a constant node nests. -/
def height : Node → Nat
  | indexed _ _ offset => offset.height + 1
  | unary _ _ operand => operand.height + 1
  | binary _ _ left right => max left.height right.height + 1
  | narrow _ _ operand => operand.height + 1
  | _ => 1

theorem height_pos (node : Node) : 0 < node.height := by
  cases node <;> simp [height]

end Node

end PeekPoke
