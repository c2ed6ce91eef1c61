import PeekPoke.Bus.Port
import PeekPoke.Bus.Window
set_option autoImplicit false

/-!
# The bus

A port together with the windows that were mapped in front of it, in the order of their mapping.  An
access goes to the first window that contains all of its bytes (`find?`).  A range that a window of
the same device already covers needs no new one; any other nonempty range that does not reach past
the address space is asked of the device, which may deny it.
-/

namespace PeekPoke

/-- Why a range could not be mapped. -/
inductive MapError where
  | emptyRange (start : Word)
  | overflow (start length : Word)
  | device (name reason : String)
  deriving DecidableEq, Repr, Inhabited

/-- What is said of a range that could not be mapped. -/
def MapError.message : MapError → String
  | emptyRange start => "cannot map an empty range at " ++ Text.hex start.toNat
  | overflow start length =>
    "range " ++ Text.hex start.toNat ++ "+" ++ Text.hex length.toNat ++ " wraps the address space"
  | device name reason => "cannot map " ++ name ++ ": " ++ reason

/-- The device of a mapping that names none. -/
def defaultDevice : String := "/dev/mem"

/-- A port, the windows in front of it, and the devices that cannot be mapped. -/
structure Bus where
  port : Port := .simulated {}
  windows : List Window := []
  denied : List String := []
  deriving Inhabited

/-- What came of a request for a mapping. -/
inductive MapReply where
  /-- The range itself is unusable. -/
  | rejected (e : MapError)
  /-- A window covers the range already. -/
  | covered
  /-- The device was asked and denied it. -/
  | denied (e : MapError)
  /-- The device was asked and gave a window. -/
  | mapped (w : Window)
  deriving DecidableEq, Repr, Inhabited

/-- Whether the device was asked. -/
def MapReply.isAsked : MapReply → Bool
  | denied _ => true
  | mapped _ => true
  | _ => false

namespace Bus

/-- Decides on a request for a mapping. -/
def request (b : Bus) (start length : Word) (device : String) : MapReply :=
  if length = 0 then .rejected (.emptyRange start)
  else if UInt64.size ≤ start.toNat + length.toNat then .rejected (.overflow start length)
  else if b.windows.any (·.covers start length device) then .covered
  else if b.denied.contains device then .denied (.device device "permission denied")
  else .mapped { base := start, length, device }

/-- Puts a window behind the ones already mapped. -/
def addWindow (b : Bus) (w : Window) : Bus := { b with windows := b.windows ++ [w] }

/-- The bus after a request for a mapping. -/
def afterRequest (b : Bus) : MapReply → Bus
  | .mapped w => b.addWindow w
  | _ => b

/-- The position of the first window that contains an access. -/
def find? (b : Bus) (a : Word) (s : Width) : Option Nat := b.windows.findIdx? (·.contains a s)

/-- Whether the most recent access through the window faulted. -/
def failed (b : Bus) (window : Nat) : Bool := (b.windows[window]?).any (·.failed)

/-- Whether an access through the window faults. -/
def faults (b : Bus) (window : Nat) (a : Access) : Bool := (b.port.perform window a).1.failed

/-- Carries out an access through a window, which takes over its fault state. -/
def perform (b : Bus) (window : Nat) (a : Access) : Word × Bus :=
  let (reply, port) := b.port.perform window a
  (reply.word, { b with port, windows := b.windows.modify window (·.latch reply.failed) })

/-- The simulated memory behind the windows. -/
def memory (b : Bus) : Memory := b.port.memory

/-- Changes the simulated memory behind the windows. -/
def withMemory (b : Bus) (f : Memory → Memory) : Bus := { b with port := b.port.withMemory f }

/-- Right after an access through a mapped window its fault state is that of the access, whatever
it was before. -/
theorem failed_perform (b : Bus) {window : Nat} (h : window < b.windows.length) (a : Access) :
    (b.perform window a).2.failed window = b.faults window a := by
  simp [failed, perform, faults, List.getElem?_eq_getElem h, Window.latch]

/-! ## The simulated memory -/

/-- What lies behind the windows is a simulated memory. -/
def Simulated (b : Bus) : Prop := b.port = .simulated b.memory

namespace Simulated

variable {b : Bus}

theorem faults_eq (h : b.Simulated) (window : Nat) (a : Access) :
    b.faults window a = b.memory.faults? a := by
  rw [faults, h]
  rfl

theorem word_perform (h : b.Simulated) (window : Nat) (a : Access) :
    (b.perform window a).1 = b.memory.result a := by
  rw [Bus.perform, h]
  rfl

theorem memory_perform (h : b.Simulated) (window : Nat) (a : Access) :
    (b.perform window a).2.memory = b.memory.after a := by
  rw [Bus.perform, h]
  rfl

theorem memory_withMemory (h : b.Simulated) (f : Memory → Memory) :
    (b.withMemory f).memory = f b.memory := by
  rw [Bus.withMemory, h]
  rfl

theorem perform (h : b.Simulated) (window : Nat) (a : Access) :
    (b.perform window a).2.Simulated := by
  unfold Simulated
  rw [Bus.perform, h]
  rfl

theorem withMemory (h : b.Simulated) (f : Memory → Memory) : (b.withMemory f).Simulated := by
  unfold Simulated
  rw [Bus.withMemory, h]
  rfl

end Simulated

end Bus

end PeekPoke
