import PeekPoke.Error
import PeekPoke.Script.Machine
set_option autoImplicit false

/-!
# What execution can do

The rules of execution are written once, for every way to carry them out.  Such a way is a monad
that can change a machine, unwind, look at how a part ended, and give up; everything else a script
does is made of these.
-/

namespace PeekPoke

/-- Computations of a running script. -/
class MonadScript (M : Type → Type) extends Monad M where
  /-- Does not finish. -/
  unfinished {α : Type} : M α
  /-- Unwinds. -/
  raise {α : Type} (u : Unwind) : M α
  /-- Changes the machine and takes a value from it. -/
  act {α : Type} (f : Machine → α × Machine) : M α
  /-- Carries out a part and ends as is decided by how that part ended and what it left behind. -/
  ending {α β : Type} (x : M α)
    (settle : Except Unwind α → Machine → Except Unwind β × Machine) : M β

namespace MonadScript

variable {M : Type → Type} [MonadScript M] {α : Type}

/-- Unwinds with a signal. -/
@[inline] def signal (s : Signal) : M α := raise (.signal s)

/-- Unwinds with a failure. -/
@[inline] def fail (cause : RunCause) (location : Location) : M α :=
  raise (.failure ⟨cause, location⟩)

/-- Looks at the machine. -/
@[inline] def look (f : Machine → α) : M α := act fun m => (f m, m)

/-- Changes the machine. -/
@[inline] def change (f : Machine → Machine) : M Unit := act fun m => ((), f m)

/-- Adds an event to the trace. -/
@[inline] def emit (e : TraceEvent) : M Unit := change (·.emit e)

/-- The value of a variable. -/
@[inline] def valueOf (v : Variable) : M Word := look (·.stores.get v)

/-- Gives a variable a value. -/
@[inline] def store (v : Variable) (w : Word) : M Unit := change (·.assign v w)

/-- Changes the machine before a part and after it, however it ends. -/
@[inline] def bracket (enter leave : Machine → Machine) (x : M α) : M α := do
  change enter
  ending x fun r m => (r, leave m)

/-- How a loop goes on after a round: `true` if it does, `false` if the round broke out of it. -/
def afterRound : Except Unwind Word → Except Unwind Bool
  | .ok _ => .ok true
  | .error (.signal .breakLoop) => .ok false
  | .error u => .error u

/-- Carries out one round of a loop. -/
@[inline] def untilBreak (x : M Word) : M Bool := ending x fun r m => (afterRound r, m)

/-- How a call or an import ends after its body: `exit` and a stray `break` only end the body. -/
def afterBody : Except Unwind Word → Except Unwind Unit
  | .ok _ => .ok ()
  | .error (.signal .breakLoop) => .ok ()
  | .error (.signal .exit) => .ok ()
  | .error u => .error u

/-- Carries out the body of a call or of an import. -/
@[inline] def untilExit (x : M Word) : M Unit := ending x fun r m => (afterBody r, m)

end MonadScript

end PeekPoke
