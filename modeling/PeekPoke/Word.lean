set_option autoImplicit false

/-!
# Words and access widths

Every value of a script is a 64-bit word.  Signed and floating-point readings are views of the
same bits, taken where an operator or a print format asks for them.  A `Width` is the size of one
register access or of one print conversion; it cuts a word down (`truncate`) or reads its low bits
as a two's complement number (`signExtend`).
-/

namespace PeekPoke

/-- The only value type of a script: 64 bits. -/
abbrev Word := UInt64

namespace Word

/-- What a comparison or a logical operator yields when it holds: every bit set. -/
def yes : Word := 0xffffffffffffffff

/-- What a comparison or a logical operator yields when it does not hold. -/
def no : Word := 0

/-- The word that stands for a truth value. -/
def ofBool (b : Bool) : Word := if b then yes else no

/-- The two's complement reading of a word. -/
def signed (w : Word) : Int := w.toInt64.toInt

/-- The word whose two's complement reading is `i`, modulo `2 ^ 64`. -/
def ofSigned (i : Int) : Word := (Int64.ofInt i).toUInt64

@[simp] theorem signed_ofSigned {i : Int} (lo : -0x8000000000000000 ≤ i)
    (hi : i < 0x8000000000000000) :
    signed (ofSigned i) = i := by
  show (BitVec.ofInt 64 i).toInt = i
  rw [BitVec.toInt_ofInt, Int.bmod_eq_of_le] <;> omega

@[simp] theorem ofSigned_signed (w : Word) : ofSigned (signed w) = w := by
  simp [signed, ofSigned]

end Word

/-- The size of a register access or of a print conversion. -/
inductive Width where
  | w8
  | w16
  | w32
  | w64
  deriving DecidableEq, Repr, Inhabited

namespace Width

/-- All widths, narrowest first. -/
def all : List Width := [w8, w16, w32, w64]

/-- Number of bytes. -/
def bytes : Width → Nat
  | w8 => 1
  | w16 => 2
  | w32 => 4
  | w64 => 8

/-- Number of bits. -/
def bits (s : Width) : Nat := 8 * s.bytes

/-- The width of that many bits, if there is one. -/
def ofBits? (n : Nat) : Option Width := all.find? (·.bits == n)

/-- The width of a machine word on the host. -/
def native : Width := w64

/-- Position in `all`. -/
def index : Width → Nat
  | w8 => 0
  | w16 => 1
  | w32 => 2
  | w64 => 3

/-- Every bit of the width set. -/
def mask : Width → Word
  | w8 => 0xff
  | w16 => 0xffff
  | w32 => 0xffffffff
  | w64 => 0xffffffffffffffff

/-- The low bits of `w`; the bits above the width are dropped. -/
def truncate (s : Width) (w : Word) : Word := w &&& s.mask

/-- The low bits of `w` read as a two's complement number of this width. -/
def signExtend (s : Width) (w : Word) : Int := (w.toNat : Int).bmod (1 <<< s.bits)

theorem ofBits?_bits (s : Width) : ofBits? s.bits = some s := by cases s <;> rfl

theorem toNat_mask (s : Width) : s.mask.toNat = (1 <<< s.bits) - 1 := by cases s <;> rfl

/-- Truncation is the remainder modulo the number of values of the width. -/
theorem toNat_truncate (s : Width) (w : Word) : (s.truncate w).toNat = w.toNat % (1 <<< s.bits) := by
  rw [truncate, UInt64.toNat_and, toNat_mask, Nat.one_shiftLeft, Nat.and_two_pow_sub_one_eq_mod]

@[simp] theorem truncate_truncate (s : Width) (w : Word) :
    s.truncate (s.truncate w) = s.truncate w := by
  apply UInt64.toNat_inj.1
  simp [toNat_truncate]

@[simp] theorem truncate_w64 (w : Word) : w64.truncate w = w := by
  apply UInt64.toNat_inj.1
  rw [toNat_truncate]
  exact Nat.mod_eq_of_lt w.toNat_lt

theorem truncate_and (s : Width) (v w : Word) :
    s.truncate v &&& s.truncate w = s.truncate (v &&& w) := by
  calc v &&& s.mask &&& (w &&& s.mask)
      = v &&& w &&& (s.mask &&& s.mask) := by ac_rfl
    _ = s.truncate (v &&& w) := by rw [UInt64.and_self, truncate]

end Width

end PeekPoke
