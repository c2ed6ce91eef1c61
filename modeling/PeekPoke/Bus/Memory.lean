import Std.Data.TreeMap
import Std.Data.TreeSet
import PeekPoke.Word
import PeekPoke.Text.Digits
set_option autoImplicit false

/-!
# Memory

A sparse memory of bytes over the whole 64-bit address space, in which bytes never written are zero,
and a set of faulty addresses.  Words are stored little-endian at any address and wrap around at the
end of the address space.  An `Access` is one primitive operation on a register; it takes effect
even where it touches a faulty address, the fault is only reported.
-/

namespace PeekPoke

/-- Bytes and faulty addresses. -/
structure Memory where
  bytes : Std.TreeMap Word UInt8 := {}
  faults : Std.TreeSet Word := {}
  deriving Inhabited

namespace Memory

/-- The byte at an address; zero where nothing was written. -/
def byte (m : Memory) (a : Word) : UInt8 := m.bytes.getD a 0

/-- Replaces one byte. -/
def setByte (m : Memory) (a : Word) (b : UInt8) : Memory := { m with bytes := m.bytes.insert a b }

/-- The little-endian value of `n` bytes from `a` on. -/
def load (m : Memory) (a : Word) : Nat → Word
  | 0 => 0
  | n + 1 => (m.byte a).toUInt64 ||| (m.load (a + 1) n <<< 8)

/-- Stores the low `n` bytes of `w` from `a` on, least significant first. -/
def store (m : Memory) (a : Word) : Nat → Word → Memory
  | 0, _ => m
  | n + 1, w => (m.setByte a w.toUInt8).store (a + 1) n (w >>> 8)

/-- Reads a word of the width, zero-extended. -/
def read (m : Memory) (a : Word) (s : Width) : Word := m.load a s.bytes

/-- Writes the low bytes of a word. -/
def write (m : Memory) (a : Word) (s : Width) (w : Word) : Memory := m.store a s.bytes w

/-- Makes every access that touches the address report a fault. -/
def injectFault (m : Memory) (a : Word) : Memory := { m with faults := m.faults.insert a }

/-- Makes every address sound again. -/
def clearFaults (m : Memory) : Memory := { m with faults := {} }

/-- Whether one of `n` addresses from `a` on is faulty. -/
def faulty (m : Memory) (a : Word) : Nat → Bool
  | 0 => false
  | n + 1 => m.faults.contains a || m.faulty (a + 1) n

@[simp] theorem byte_setByte_self (m : Memory) (a : Word) (b : UInt8) :
    (m.setByte a b).byte a = b := by
  simp [byte, setByte]

theorem byte_setByte_of_ne (m : Memory) {a c : Word} (b : UInt8) (h : c ≠ a) :
    (m.setByte a b).byte c = m.byte c := by
  simp only [byte, setByte, Std.TreeMap.getD_insert]
  split
  · rename_i heq
    exact absurd (Std.LawfulEqOrd.eq_of_compare heq).symm h
  · rfl

@[simp] theorem faults_setByte (m : Memory) (a : Word) (b : UInt8) :
    (m.setByte a b).faults = m.faults := rfl

@[simp] theorem faults_store (m : Memory) (a : Word) (n : Nat) (w : Word) :
    (m.store a n w).faults = m.faults := by
  induction n generalizing m a w with
  | zero => rfl
  | succ n ih => rw [store, ih, faults_setByte]

/-- Storing moves no fault. -/
@[simp] theorem faults_write (m : Memory) (a : Word) (s : Width) (w : Word) :
    (m.write a s w).faults = m.faults := faults_store m a s.bytes w

end Memory

/-- What an access does to the register it addresses. -/
inductive AccessKind where
  | read
  /-- Stores the value. -/
  | write (value : Word)
  /-- Clears the bits of the mask and keeps the others. -/
  | clearBits (mask : Word)
  /-- Sets the bits of the mask and keeps the others. -/
  | setBits (mask : Word)
  deriving DecidableEq, Repr, Inhabited

/-- One primitive operation on a register. -/
structure Access where
  kind : AccessKind
  address : Word
  width : Width
  deriving DecidableEq, Repr, Inhabited

/-- The access on one line: a letter and the bits, the address, and the value or mask. -/
def Access.text (a : Access) : String :=
  let place := Text.decimal a.width.bits ++ " " ++ Text.hex a.address.toNat
  match a.kind with
  | .read => "r" ++ place
  | .write value => "w" ++ place ++ " " ++ Text.hex value.toNat
  | .clearBits mask => "c" ++ place ++ " " ++ Text.hex mask.toNat
  | .setBits mask => "s" ++ place ++ " " ++ Text.hex mask.toNat

namespace Memory

/-- Whether the access touches a faulty address. -/
def faults? (m : Memory) (a : Access) : Bool := m.faulty a.address a.width.bytes

/-- The word an access reads; accesses that only write read nothing. -/
def result (m : Memory) (a : Access) : Word :=
  match a.kind with
  | .read => m.read a.address a.width
  | _ => 0

/-- The memory after an access. -/
def after (m : Memory) (a : Access) : Memory :=
  match a.kind with
  | .read => m
  | .write value => m.write a.address a.width value
  | .clearBits mask => m.write a.address a.width (m.read a.address a.width &&& ~~~mask)
  | .setBits mask => m.write a.address a.width (m.read a.address a.width ||| mask)

@[simp] theorem faults_after (m : Memory) (a : Access) : (m.after a).faults = m.faults := by
  unfold after
  split <;> simp

end Memory

end PeekPoke
