import PeekPoke.Bus.Memory
set_option autoImplicit false

/-!
# Windows

A window makes one range of physical addresses of a device accessible.  It keeps the fault state of
the most recent access made through it.
-/

namespace PeekPoke

/-- A mapped range of physical addresses. -/
structure Window where
  base : Word
  length : Word
  device : String
  /-- Whether the most recent access through the window faulted. -/
  failed : Bool := false
  deriving DecidableEq, Repr, Inhabited

namespace Window

/-- Whether the window has no addresses. -/
def isEmpty (w : Window) : Bool := w.length == 0

/-- Whether the bytes of an access lie in the window, all of them and without wrapping around. -/
def contains (w : Window) (a : Word) (s : Width) : Bool :=
  w.base ≤ a && a.toNat - w.base.toNat + s.bytes ≤ w.length.toNat

/-- Whether the window makes a whole range of a device accessible. -/
def covers (w : Window) (start length : Word) (device : String) : Bool :=
  w.device == device && w.base ≤ start
    && start.toNat + length.toNat ≤ w.base.toNat + w.length.toNat

/-- Takes over the fault state of an access. -/
def latch (w : Window) (failed : Bool) : Window := { w with failed }

theorem contains_iff (w : Window) (a : Word) (s : Width) :
    w.contains a s = true ↔
      w.base.toNat ≤ a.toNat ∧ a.toNat + s.bytes ≤ w.base.toNat + w.length.toNat := by
  simp only [contains, Bool.and_eq_true, decide_eq_true_eq, UInt64.le_iff_toNat_le]
  omega

theorem covers_iff (w : Window) (start length : Word) (device : String) :
    w.covers start length device = true ↔
      w.device = device ∧ w.base.toNat ≤ start.toNat ∧
        start.toNat + length.toNat ≤ w.base.toNat + w.length.toNat := by
  simp only [covers, Bool.and_eq_true, beq_iff_eq, decide_eq_true_eq, UInt64.le_iff_toNat_le,
    and_assoc]

@[simp] theorem contains_latch (w : Window) (failed : Bool) :
    (w.latch failed).contains = w.contains := rfl

@[simp] theorem covers_latch (w : Window) (failed : Bool) :
    (w.latch failed).covers = w.covers := rfl

end Window

end PeekPoke
