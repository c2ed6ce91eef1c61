import PeekPoke.Bus
set_option autoImplicit false

/-!
# A bench for the bus

Direct work on a bus, without a script: mapping ranges, making accesses through the mapped windows,
and opening windows beside them that are neither searched nor checked for their range.
-/

namespace PeekPoke

/-- A bus, and the windows opened beside it. -/
structure Bench where
  bus : Bus := {}
  opened : List (String × Window) := []
  deriving Inhabited

namespace Bench

/-- What can be asked for.  An access of no kind looks at the window and touches nothing. -/
inductive Command where
  | map (start length : Word) (device : String)
  | find (address : Word) (width : Width)
  | access (kind : Option AccessKind) (address : Word) (width : Width)
  | openWindow (key : String) (base length : Word) (device : String)
  | accessOpened (key : String) (kind : Option AccessKind) (address : Word) (width : Width)
  | contains (key : String) (address : Word) (width : Width)
  | readMemory (address : Word) (width : Width)
  | writeMemory (address : Word) (width : Width) (value : Word)
  | injectFault (address : Word)
  | clearFaults
  deriving Inhabited

/-- What is answered. -/
inductive Answer where
  /-- The result of a mapping, and the number of windows after it. -/
  | mapped (error : Option MapError) (windows : Nat)
  | window (w : Window)
  | absent
  /-- The fault state of the window, and the word if the access was a read. -/
  | accessed (failed : Bool) (value : Option Word)
  | contains (b : Bool)
  | value (w : Word)
  | done
  deriving Inhabited

/-- Makes an access through a window that is not part of the bus. -/
def touch (b : Bench) (w : Window) (a : Access) : Word × Window × Bench :=
  let memory := b.bus.memory
  (memory.result a, w.latch (memory.faults? a),
    { b with bus := b.bus.withMemory (·.after a) })

/-- The word to show for an access: that of a read. -/
def shown (kind : AccessKind) (w : Word) : Option Word :=
  match kind with
  | .read => some w
  | _ => none

/-- Replaces the memory. -/
def withMemory (b : Bench) (f : Memory → Memory) : Bench :=
  { b with bus := b.bus.withMemory f }

/-- Replaces or adds an opened window. -/
def setOpened (b : Bench) (key : String) (w : Window) : Bench :=
  { b with opened := (key, w) :: b.opened.filter (·.1 != key) }

/-- Carries out a command. -/
def step (b : Bench) : Command → Answer × Bench
  | .map start length device =>
    let reply := b.bus.request start length device
    let bus := b.bus.afterRequest reply
    let error :=
      match reply with
      | .rejected e => some e
      | .denied e => some e
      | _ => none
    (.mapped error bus.windows.length, { b with bus })
  | .find address width =>
    match (b.bus.find? address width).bind (b.bus.windows[·]?) with
    | none => (.absent, b)
    | some w => (.window w, b)
  | .access kind address width =>
    match b.bus.find? address width with
    | none => (.absent, b)
    | some window =>
      match kind with
      | none => (.accessed (b.bus.failed window) none, b)
      | some kind =>
        let (w, bus) := b.bus.perform window ⟨kind, address, width⟩
        (.accessed (bus.failed window) (shown kind w), { b with bus })
  | .openWindow key base length device =>
    let w : Window := { base, length, device }
    (.window w, b.setOpened key w)
  | .accessOpened key kind address width =>
    match b.opened.lookup key with
    | none => (.absent, b)
    | some window =>
      match kind with
      | none => (.accessed window.failed none, b)
      | some kind =>
        let (w, window, b) := b.touch window ⟨kind, address, width⟩
        (.accessed window.failed (shown kind w), b.setOpened key window)
  | .contains key address width =>
    match b.opened.lookup key with
    | none => (.absent, b)
    | some window => (.contains (window.contains address width), b)
  | .readMemory address width => (.value (b.bus.memory.read address width), b)
  | .writeMemory address width w => (.done, b.withMemory (·.write address width w))
  | .injectFault address => (.done, b.withMemory (·.injectFault address))
  | .clearFaults => (.done, b.withMemory Memory.clearFaults)

/-- Carries out commands one after the other. -/
def steps (b : Bench) : List Command → List Answer × Bench
  | [] => ([], b)
  | c :: rest =>
    let (first, b) := b.step c
    let (others, b) := b.steps rest
    (first :: others, b)

end Bench

end PeekPoke
