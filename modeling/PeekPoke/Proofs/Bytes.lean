import Mathlib.Algebra.BigOperators.Ring.Finset
import PeekPoke.Bench
set_option autoImplicit false

/-!
# Sized accesses over a memory of bytes

A memory is accessed directly, through the windows of its table and through windows opened beside
the table, with four widths at any alignment and around the end of the address space.  Main
statement: whatever the sequence of these accesses was, a read shows the little-endian number of
the bytes it covers, each of which is what the last access that covered it made of it and zero if
there was none; and an access changes the bytes it covers as the whole word, and no others
(`Bench.refinesBytes`).

Loads and stores are described byte by byte (`Memory.toNat_load`, `Memory.byte_store`); what one
access does to one byte is `Memory.byte_after`, and the history of a byte follows by induction
over the actions.
-/

namespace PeekPoke

/-! ## Bytes of words -/

namespace Word

/-- Byte `i` of a word, counted from the least significant. -/
def byte (w : Word) (i : Nat) : UInt8 := UInt8.ofNat (w.toNat / 256 ^ i)

theorem toNat_byte (w : Word) (i : Nat) : (w.byte i).toNat = w.toNat / 256 ^ i % 256 := by
  simp [byte]

theorem byte_zero (w : Word) : w.byte 0 = w.toUInt8 := by
  apply UInt8.toNat_inj.1
  simp [toNat_byte]

/-- Shifting a word down by eight bits drops its lowest byte. -/
theorem byte_shiftRight (w : Word) (i : Nat) : (w >>> 8 : Word).byte i = w.byte (i + 1) := by
  apply UInt8.toNat_inj.1
  have shifted : (w >>> 8 : Word).toNat = w.toNat / 256 := by
    rw [UInt64.toNat_shiftRight]
    exact Nat.shiftRight_eq_div_pow _ 8
  rw [toNat_byte, toNat_byte, shifted, Nat.div_div_eq_div_mul, Nat.pow_succ, Nat.mul_comm]

/-- The lowest bytes of a word make up its remainder. -/
theorem sum_byte (w : Word) (n : Nat) :
    ∑ i ∈ Finset.range n, 256 ^ i * (w.byte i).toNat = w.toNat % 256 ^ n := by
  induction n with
  | zero => simp [Nat.mod_one]
  | succ n ih => rw [Finset.sum_range_succ, ih, toNat_byte, Nat.mod_pow_succ]

theorem testBit_byte (w : Word) (i k : Nat) :
    (w.byte i).toNat.testBit k = (decide (k < 8) && w.toNat.testBit (k + 8 * i)) := by
  rw [toNat_byte, show (256 : Nat) = 2 ^ 8 from rfl, ← Nat.pow_mul, Nat.testBit_mod_two_pow,
    Nat.testBit_div_two_pow]

theorem byte_or (v w : Word) (i : Nat) : (v ||| w).byte i = v.byte i ||| w.byte i := by
  apply UInt8.toNat_inj.1
  apply Nat.eq_of_testBit_eq
  intro k
  rw [UInt8.toNat_or, Nat.testBit_or, testBit_byte, testBit_byte, testBit_byte, UInt64.toNat_or,
    Nat.testBit_or, Bool.and_or_distrib_left]

theorem byte_and (v w : Word) (i : Nat) : (v &&& w).byte i = v.byte i &&& w.byte i := by
  apply UInt8.toNat_inj.1
  apply Nat.eq_of_testBit_eq
  intro k
  rw [UInt8.toNat_and, Nat.testBit_and, testBit_byte, testBit_byte, testBit_byte, UInt64.toNat_and,
    Nat.testBit_and]
  cases decide (k < 8) <;> simp

/-- The bytes of the complement, as far as a word has bytes. -/
theorem byte_not (w : Word) {i : Nat} (h : i < 8) : (~~~w).byte i = ~~~(w.byte i) := by
  apply UInt8.toNat_inj.1
  apply Nat.eq_of_testBit_eq
  intro k
  have wide : (~~~w).toNat = 2 ^ 64 - (w.toNat + 1) := by
    rw [UInt64.toNat_not, UInt64.size]
    omega
  have narrow : (~~~(w.byte i)).toNat = 2 ^ 8 - ((w.byte i).toNat + 1) := by
    rw [UInt8.toNat_not, UInt8.size]
    omega
  rw [narrow, Nat.testBit_two_pow_sub_succ (w.byte i).toNat_lt, testBit_byte, testBit_byte, wide,
    Nat.testBit_two_pow_sub_succ w.toNat_lt]
  by_cases hk : k < 8
  · have inside : k + 8 * i < 64 := by omega
    simp [hk, inside]
  · simp [hk]

end Word

/-- The number of values of a width, in bytes. -/
theorem Width.one_shiftLeft_bits (s : Width) : 1 <<< s.bits = 256 ^ s.bytes := by
  cases s <;> rfl

theorem Width.bytes_le_eight (s : Width) : s.bytes ≤ 8 := by cases s <;> decide

/-! ## Addresses of an access -/

namespace Access

/-- The address is one of those the access touches, counted on around the end of the address
space. -/
def Covers (a : Access) (c : Word) : Prop :=
  ∃ i < a.width.bytes, c = a.address + UInt64.ofNat i

/-- How far an address lies behind that of the access. -/
def index (a : Access) (c : Word) : Nat := (c - a.address).toNat

theorem index_add (a : Access) {i : Nat} (h : i < 2 ^ 64) :
    a.index (a.address + UInt64.ofNat i) = i := by
  rw [index, UInt64.add_comm, UInt64.add_sub_cancel, UInt64.toNat_ofNat']
  exact Nat.mod_eq_of_lt h

theorem add_index (a : Access) (c : Word) : a.address + UInt64.ofNat (a.index c) = c := by
  rw [index, UInt64.ofNat_toNat, UInt64.add_comm, UInt64.sub_add_cancel]

theorem covers_iff (a : Access) (c : Word) : a.Covers c ↔ a.index c < a.width.bytes := by
  constructor
  · rintro ⟨i, hi, rfl⟩
    have small := a.width.bytes_le_eight
    rwa [a.index_add (by omega)]
  · intro h
    exact ⟨a.index c, h, (a.add_index c).symm⟩

instance (a : Access) (c : Word) : Decidable (a.Covers c) :=
  decidable_of_iff _ (a.covers_iff c).symm

end Access

namespace AccessKind

/-- What an access makes of byte `i` of the bytes it covers. -/
def makes : AccessKind → Nat → UInt8 → UInt8
  | read, _, old => old
  | write value, i, _ => Word.byte value i
  | clearBits mask, i, old => old &&& ~~~(Word.byte mask i)
  | setBits mask, i, old => old ||| Word.byte mask i

/-- What an access makes of the word it covers, before that is cut down to the width. -/
def makesWord : AccessKind → Word → Word
  | read, old => old
  | write value, _ => value
  | clearBits mask, old => old &&& ~~~mask
  | setBits mask, old => old ||| mask

/-- The bytes of the word are made each from its own byte. -/
theorem byte_makesWord (kind : AccessKind) (old : Word) {i : Nat} (h : i < 8) :
    (kind.makesWord old).byte i = kind.makes i (old.byte i) := by
  cases kind with
  | read => rfl
  | write value => rfl
  | clearBits mask => rw [makesWord, makes, Word.byte_and, Word.byte_not mask h]
  | setBits mask => rw [makesWord, makes, Word.byte_or]

end AccessKind

/-! ## Loads and stores -/

namespace Memory

/-- Loading one more byte in front. -/
theorem toNat_load_succ (m : Memory) (a : Word) (n : Nat)
    (small : (m.load (a + 1) n).toNat < 256 ^ 7) :
    (m.load a (n + 1)).toNat = 256 * (m.load (a + 1) n).toNat + (m.byte a).toNat := by
  have shifted : (m.load (a + 1) n <<< 8).toNat = 2 ^ 8 * (m.load (a + 1) n).toNat := by
    rw [UInt64.toNat_shiftLeft, show (8 : Word).toNat % 64 = 8 from rfl, Nat.shiftLeft_eq,
      Nat.mul_comm, Nat.mod_eq_of_lt (by omega)]
  rw [load, UInt64.toNat_or, UInt8.toNat_toUInt64, shifted, Nat.or_comm]
  exact (Nat.two_pow_add_eq_or_of_lt (m.byte a).toNat_lt _).symm

theorem toNat_load_lt (m : Memory) (a : Word) {n : Nat} (h : n ≤ 8) :
    (m.load a n).toNat < 256 ^ n := by
  induction n generalizing a with
  | zero => simp [load]
  | succ n ih =>
    have tail := ih (a + 1) (by omega)
    have bound : 256 ^ n ≤ 256 ^ 7 := Nat.pow_le_pow_right (by decide) (by omega)
    have first := (m.byte a).toNat_lt
    rw [m.toNat_load_succ a n (by omega), Nat.pow_succ]
    omega

/-- What lies behind the first byte of a load is small enough for another byte in front. -/
theorem toNat_load_lt_of_succ_le (m : Memory) (a : Word) {n : Nat} (h : n + 1 ≤ 8) :
    (m.load a n).toNat < 256 ^ 7 := by
  calc (m.load a n).toNat < 256 ^ n := m.toNat_load_lt a (by omega)
    _ ≤ 256 ^ 7 := Nat.pow_le_pow_right (by decide) (by omega)

theorem add_ofNat_succ (a : Word) (i : Nat) :
    a + UInt64.ofNat (i + 1) = a + 1 + UInt64.ofNat i := by
  rw [UInt64.ofNat_add, UInt64.add_assoc, UInt64.add_comm (UInt64.ofNat i)]
  rfl

/-- A load is the little-endian number of the bytes from its address on. -/
theorem toNat_load (m : Memory) (a : Word) {n : Nat} (h : n ≤ 8) :
    (m.load a n).toNat =
      ∑ i ∈ Finset.range n, 256 ^ i * (m.byte (a + UInt64.ofNat i)).toNat := by
  induction n generalizing a with
  | zero => simp [load]
  | succ n ih =>
    rw [m.toNat_load_succ a n (m.toNat_load_lt_of_succ_le _ h), ih (a + 1) (by omega),
      Finset.sum_range_succ', Finset.mul_sum]
    congr 1
    · apply Finset.sum_congr rfl
      intro i _
      rw [add_ofNat_succ, Nat.pow_succ', Nat.mul_assoc]
    · simp

/-- The bytes of a load are those of the memory. -/
theorem byte_load (m : Memory) (a : Word) {n i : Nat} (h : n ≤ 8) (hi : i < n) :
    (m.load a n).byte i = m.byte (a + UInt64.ofNat i) := by
  induction n generalizing a i with
  | zero => omega
  | succ n ih =>
    have first := (m.byte a).toNat_lt
    have loaded := m.toNat_load_succ a n (m.toNat_load_lt_of_succ_le _ h)
    apply UInt8.toNat_inj.1
    cases i with
    | zero =>
      rw [Word.toNat_byte, loaded, Nat.pow_zero, Nat.div_one, Nat.mul_add_mod,
        Nat.mod_eq_of_lt first]
      simp
    | succ i =>
      have behind : (256 * (m.load (a + 1) n).toNat + (m.byte a).toNat) / 256
          = (m.load (a + 1) n).toNat := by omega
      rw [add_ofNat_succ, ← ih (a + 1) (by omega) (by omega), Word.toNat_byte, Word.toNat_byte,
        loaded, Nat.pow_succ', ← Nat.div_div_eq_div_mul, behind]

/-- A store puts the bytes of the word over those from its address on. -/
theorem byte_store (m : Memory) (a : Word) {n : Nat} (h : n ≤ 8) (w c : Word) :
    (m.store a n w).byte c =
      if (c - a).toNat < n then w.byte (c - a).toNat else m.byte c := by
  induction n generalizing m a w with
  | zero => simp [store]
  | succ n ih =>
    rw [store, ih _ _ (by omega)]
    by_cases first : c = a
    · subst first
      -- The rest of the store starts one address on and is too short to come around to this one.
      have around : ¬ (c - (c + 1)).toNat < n := by
        rw [UInt64.toNat_sub, UInt64.toNat_add]
        have := c.toNat_lt
        simp only [UInt64.toNat_one]
        omega
      rw [if_neg around, byte_setByte_self, UInt64.sub_self, if_pos (by simp), UInt64.toNat_zero,
        Word.byte_zero]
    · have behind : (c - a).toNat = (c - (a + 1)).toNat + 1 := by
        have apart : c.toNat ≠ a.toNat := fun same => first (UInt64.toNat_inj.1 same)
        rw [UInt64.toNat_sub, UInt64.toNat_sub, UInt64.toNat_add]
        have := c.toNat_lt
        have := a.toNat_lt
        simp only [UInt64.toNat_one]
        omega
      rw [byte_setByte_of_ne _ _ first, behind, Word.byte_shiftRight]
      simp only [Nat.add_lt_add_iff_right]

/-- A read is the little-endian number of the bytes it covers. -/
theorem toNat_read (m : Memory) (a : Word) (s : Width) :
    (m.read a s).toNat =
      ∑ i ∈ Finset.range s.bytes, 256 ^ i * (m.byte (a + UInt64.ofNat i)).toNat :=
  m.toNat_load a s.bytes_le_eight

@[simp] theorem truncate_read (m : Memory) (a : Word) (s : Width) :
    s.truncate (m.read a s) = m.read a s := by
  apply UInt64.toNat_inj.1
  rw [Width.toNat_truncate, s.one_shiftLeft_bits]
  exact Nat.mod_eq_of_lt (m.toNat_load_lt a s.bytes_le_eight)

theorem byte_write (m : Memory) (a : Access) (v c : Word) :
    (m.write a.address a.width v).byte c =
      if a.Covers c then v.byte (a.index c) else m.byte c := by
  simp only [a.covers_iff]
  exact m.byte_store a.address a.width.bytes_le_eight v c

/-- What is written is read back, cut down to the width. -/
theorem read_write (m : Memory) (a : Word) (s : Width) (v : Word) :
    (m.write a s v).read a s = s.truncate v := by
  apply UInt64.toNat_inj.1
  rw [toNat_read, Width.toNat_truncate, s.one_shiftLeft_bits, ← v.sum_byte]
  apply Finset.sum_congr rfl
  intro i hi
  let covering : Access := ⟨.read, a, s⟩
  have inside : i < s.bytes := Finset.mem_range.1 hi
  have small := s.bytes_le_eight
  rw [m.byte_write covering v, if_pos ⟨i, inside, rfl⟩, covering.index_add (by omega)]

/-! ## One access -/

/-- An access that does not only read writes back the word that it makes of the old one. -/
theorem after_eq_write (m : Memory) {a : Access} (h : a.kind ≠ .read) :
    m.after a =
      m.write a.address a.width (a.kind.makesWord (m.read a.address a.width)) := by
  unfold after
  cases kind : a.kind with
  | read => exact absurd kind h
  | write value => rfl
  | clearBits mask => rfl
  | setBits mask => rfl

/-- An access changes the bytes it covers, each by itself, and no others. -/
theorem byte_after (m : Memory) (a : Access) (c : Word) :
    (m.after a).byte c =
      if a.Covers c then a.kind.makes (a.index c) (m.byte c) else m.byte c := by
  by_cases reads : a.kind = .read
  · simp [after, AccessKind.makes, reads]
  · rw [m.after_eq_write reads, byte_write]
    split
    · rename_i covered
      have inside := (a.covers_iff c).1 covered
      have small := a.width.bytes_le_eight
      rw [AccessKind.byte_makesWord _ _ (by omega), read, m.byte_load _ small inside, a.add_index]
    · rfl

/-- The word an access covers becomes what the access makes of it, cut down to the width. -/
theorem read_after (m : Memory) (a : Access) :
    (m.after a).read a.address a.width =
      a.width.truncate (a.kind.makesWord (m.read a.address a.width)) := by
  by_cases reads : a.kind = .read
  · simp [after, AccessKind.makesWord, reads]
  · rw [m.after_eq_write reads, read_write]

end Memory

/-! ## Actions on a bench -/

namespace Bench

/-- What can be done with a bench: carry out a command, go on using a window of the table wherever
an access lies, and use any other window onto the memory. -/
inductive Action where
  | command (c : Command)
  | held (window : Nat) (a : Access)
  | through (w : Window) (a : Access)
  deriving Inhabited

/-- The bench after an action. -/
def act (b : Bench) : Action → Bench
  | .command c => (b.step c).2
  | .held window a => { b with bus := (b.bus.perform window a).2 }
  | .through w a => (b.touch w a).2.2

/-- The access to the memory that an action makes, if it makes one: a window of the table is there
only for addresses it contains, and an opened window only under its key. -/
def access? (b : Bench) : Action → Option Access
  | .command (.access (some kind) address width) =>
    (b.bus.find? address width).map fun _ => ⟨kind, address, width⟩
  | .command (.accessOpened key (some kind) address width) =>
    (b.opened.lookup key).map fun _ => ⟨kind, address, width⟩
  | .command (.readMemory address width) => some ⟨.read, address, width⟩
  | .command (.writeMemory address width value) => some ⟨.write value, address, width⟩
  | .held _ a => some a
  | .through _ a => some a
  | _ => none

/-- The word an answer shows, if it shows one. -/
def Answer.word? : Answer → Option Word
  | .accessed _ w => w
  | .value w => some w
  | _ => none

/-- The word that an action gives back, if it gives one. -/
def word? (b : Bench) : Action → Option Word
  | .command c => (b.step c).1.word?
  | .held window a => shown a.kind (b.bus.perform window a).1
  | .through w a => shown a.kind (b.touch w a).1

/-- An action that makes an access leaves the memory as the access does and gives back what the
access shows, whichever window it goes through. -/
theorem act_of_access {b : Bench} (simulated : b.bus.Simulated) {x : Action} {a : Access}
    (h : b.access? x = some a) :
    (b.act x).bus.memory = b.bus.memory.after a ∧
      b.word? x = shown a.kind (b.bus.memory.result a) := by
  cases x with
  | held window a' =>
    obtain rfl := Option.some.inj h
    exact ⟨simulated.memory_perform window a',
      congrArg (shown a'.kind) (simulated.word_perform window a')⟩
  | through w a' =>
    obtain rfl := Option.some.inj h
    exact ⟨simulated.memory_withMemory _, rfl⟩
  | command c =>
    cases c with
    | access kind address width =>
      cases kind with
      | none => simp [access?] at h
      | some kind =>
        obtain ⟨window, found, rfl⟩ := Option.map_eq_some_iff.1 h
        simp only [act, word?, step, found, Answer.word?, simulated.memory_perform,
          simulated.word_perform, and_self]
    | accessOpened key kind address width =>
      cases kind with
      | none => simp [access?] at h
      | some kind =>
        obtain ⟨window, found, rfl⟩ := Option.map_eq_some_iff.1 h
        simp only [act, word?, step, found, touch, setOpened, Answer.word?,
          simulated.memory_withMemory, and_self]
    | readMemory address width =>
      obtain rfl := Option.some.inj h
      exact ⟨rfl, rfl⟩
    | writeMemory address width value =>
      obtain rfl := Option.some.inj h
      exact ⟨simulated.memory_withMemory _, rfl⟩
    | _ => simp [access?] at h

/-- An action that makes no access leaves the bytes of the memory. -/
theorem byte_act_of_no_access {b : Bench} (simulated : b.bus.Simulated) {x : Action}
    (h : b.access? x = none) : (b.act x).bus.memory.byte = b.bus.memory.byte := by
  cases x with
  | held window a => simp [access?] at h
  | through w a => simp [access?] at h
  | command c =>
    cases c with
    | access kind address width =>
      cases kind with
      | none =>
        simp only [act, step]
        split <;> rfl
      | some kind =>
        have missing : b.bus.find? address width = none := Option.map_eq_none_iff.1 h
        simp only [act, step, missing]
    | accessOpened key kind address width =>
      cases kind with
      | none =>
        simp only [act, step]
        split <;> rfl
      | some kind =>
        have missing : b.opened.lookup key = none := Option.map_eq_none_iff.1 h
        simp only [act, step, missing]
    | map start length device =>
      simp only [act, step]
      cases b.bus.request start length device <;> rfl
    | find address width =>
      simp only [act, step]
      split <;> rfl
    | contains key address width =>
      simp only [act, step]
      split <;> rfl
    | readMemory address width => rfl
    | writeMemory address width value => simp [access?] at h
    | injectFault address =>
      have changed := congrArg Memory.byte (simulated.memory_withMemory (·.injectFault address))
      exact changed
    | clearFaults =>
      have changed := congrArg Memory.byte (simulated.memory_withMemory Memory.clearFaults)
      exact changed
    | _ => rfl

/-- No action on a simulated memory puts anything else in its place. -/
theorem simulated_act {b : Bench} (simulated : b.bus.Simulated) (x : Action) :
    (b.act x).bus.Simulated := by
  cases x with
  | held window a => exact simulated.perform window a
  | through w a => exact simulated.withMemory _
  | command c =>
    cases c with
    | map start length device =>
      simp only [act, step]
      cases b.bus.request start length device <;> exact simulated
    | find address width =>
      simp only [act, step]
      split <;> exact simulated
    | access kind address width =>
      simp only [act, step]
      split
      · exact simulated
      · cases kind with
        | none => exact simulated
        | some kind => exact simulated.perform _ _
    | accessOpened key kind address width =>
      simp only [act, step]
      split
      · exact simulated
      · cases kind with
        | none => exact simulated
        | some kind => exact simulated.withMemory _
    | contains key address width =>
      simp only [act, step]
      split <;> exact simulated
    | writeMemory | injectFault | clearFaults => exact simulated.withMemory _
    | _ => exact simulated

/-! ## Histories of bytes -/

/-- The byte at an address after some accesses, of which the last is listed first: what the last
one that covered the address made of the byte before it. -/
def lastByte (c : Word) : List Access → UInt8
  | [] => 0
  | a :: earlier =>
    if a.Covers c then a.kind.makes (a.index c) (lastByte c earlier) else lastByte c earlier

/-- A new bench after some actions, of which the last is listed first. -/
def after : List Action → Bench
  | [] => {}
  | x :: earlier => (after earlier).act x

/-- The accesses made by actions on a new bench, in the order of the actions. -/
def accesses : List Action → List Access
  | [] => []
  | x :: earlier => ((after earlier).access? x).toList ++ accesses earlier

theorem simulated_after (xs : List Action) : (after xs).bus.Simulated := by
  induction xs with
  | nil => rfl
  | cons x earlier ih => exact simulated_act ih x

/-- The bytes of the memory are those of the history. -/
theorem byte_after (xs : List Action) (c : Word) :
    (after xs).bus.memory.byte c = lastByte c (accesses xs) := by
  induction xs with
  | nil => simp [after, accesses, lastByte, Bus.memory, Port.memory, Memory.byte]
  | cons x earlier ih =>
    have simulated := simulated_after earlier
    cases made : (after earlier).access? x with
    | none => rw [after, accesses, made, byte_act_of_no_access simulated made, ih,
        Option.toList_none, List.nil_append]
    | some a =>
      rw [after, accesses, made, (act_of_access simulated made).1, Memory.byte_after, ih,
        Option.toList_some, List.singleton_append, lastByte]

example :
    (after [.held 0 ⟨.clearBits 0x10, 0, .w8⟩,
      .command (.writeMemory 0xffffffffffffffff .w16 0x1234)]).bus.memory.byte 0 = 0x02 := by
  rw [byte_after]
  decide

/-- What the accesses to a memory mean, when `past` lists those made before, the last one first. -/
structure RefinesBytes (b : Bench) (past : List Access) : Prop where
  /-- Every action that reads gives back the little-endian number of the bytes it covers. -/
  reads : ∀ x address s, b.access? x = some ⟨.read, address, s⟩ →
    ∃ w, b.word? x = some w ∧
      w.toNat = ∑ i ∈ Finset.range s.bytes,
        256 ^ i * (lastByte (address + UInt64.ofNat i) past).toNat
  /-- An access changes the word it covers as its kind says, within the width. -/
  changes : ∀ x a, b.access? x = some a →
    (b.act x).bus.memory.read a.address a.width =
      a.width.truncate (a.kind.makesWord (b.bus.memory.read a.address a.width))
  /-- No action changes a byte that its access does not cover. -/
  keeps : ∀ x c, (∀ a, b.access? x = some a → ¬ a.Covers c) →
    (b.act x).bus.memory.byte c = b.bus.memory.byte c

/-- After any actions on a new bench, through whatever windows, sized accesses are accesses to the
bytes that the earlier accesses left. -/
theorem refinesBytes (xs : List Action) : (after xs).RefinesBytes (accesses xs) where
  reads := by
    intro x address s reading
    refine ⟨_, (act_of_access (simulated_after xs) reading).2, ?_⟩
    simp only [Memory.result, Memory.toNat_read, byte_after]
  changes := by
    intro x a made
    rw [(act_of_access (simulated_after xs) made).1, Memory.read_after]
  keeps := by
    intro x c apart
    cases made : (after xs).access? x with
    | none => rw [byte_act_of_no_access (simulated_after xs) made]
    | some a =>
      rw [(act_of_access (simulated_after xs) made).1, Memory.byte_after, if_neg (apart a made)]

end Bench

end PeekPoke
