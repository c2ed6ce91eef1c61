import PeekPoke.Bus.Memory
set_option autoImplicit false

/-!
# Ports

A port is what lies behind the windows.  It answers each access that is made through one of them
with the word that was read and with whether the access faulted, and being accessed may change it.
The simulated port is one memory that all windows share.  Any other device is known by its answers
only, and each of these may depend on all accesses there have been.
-/

namespace PeekPoke

/-- What comes of an access. -/
structure Reply where
  /-- The word that was read; an access that only writes reads nothing. -/
  word : Word
  failed : Bool
  deriving DecidableEq, Repr, Inhabited

/-- What lies behind the windows. -/
inductive Port where
  | simulated (memory : Memory)
  /-- A device, by its answer to the first of some accesses, which are listed newest first and each
  with the position of its window. -/
  | device (answer : List (Nat × Access) → Reply) (past : List (Nat × Access))
  deriving Inhabited

namespace Port

/-- Carries out an access through the window at a position. -/
def perform : Port → Nat → Access → Reply × Port
  | simulated memory, _, a => (⟨memory.result a, memory.faults? a⟩, simulated (memory.after a))
  | device answer past, window, a =>
    let past := (window, a) :: past
    (answer past, device answer past)

/-- The simulated memory; of a device nothing can be seen from here. -/
def memory : Port → Memory
  | simulated memory => memory
  | device _ _ => {}

/-- Changes the simulated memory. -/
def withMemory : Port → (Memory → Memory) → Port
  | simulated memory, f => simulated (f memory)
  | device answer past, _ => device answer past

end Port

end PeekPoke
