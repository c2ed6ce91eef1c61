import Mathlib.Data.Int.ModEq
import PeekPoke.Format
import PeekPoke.Proofs.Literals
set_option autoImplicit false

/-!
# Printed integers

What the integer styles write is described by what it spells, in the grammar of integer literals:
digits of a number without leading zeros (`Radix.spells_toDigits`), filled up with zeros
(`Radix.Spells.zeros`), or one digit for each bit (`Style.value_bits`).  Main statement: read as
literals, the decimal, hexadecimal and binary texts of a word give the word cut to the width; the signed
text is the one plain spelling of the signed number that the low bits stand for; hexadecimal texts have
two digits for each byte, and binary texts groups of four bits (`Style.readsBack`).
-/

namespace PeekPoke

/-! ## What digits spell -/

namespace Numeral.Radix

variable {r : Radix} {c : Char} {d n : Nat} {digits : List Char}

theorem Digit.isDigit (h : r.Digit c d) : r.isDigit c = true := by
  rw [isDigit_iff, (digit_iff.mp h).1]
  exact h

theorem digit_digitChar (h : d < r.base) : r.Digit (Nat.digitChar d) d := by
  have hsmall : ∀ d < 16, smallDigits[d]? = some (Nat.digitChar d) := by decide
  exact ⟨h, Or.inl (hsmall d (Nat.lt_of_lt_of_le h r.base_le))⟩

theorem spells_singleton (h : r.Digit c d) : r.Spells [c] d :=
  ⟨[d], by simp, .cons h .nil, Nat.ofDigits_singleton⟩

/-- One more digit at the end. -/
theorem Spells.concat (h : r.Spells digits n) (hc : r.Digit c d) :
    r.Spells (digits ++ [c]) (n * r.base + d) := by
  obtain ⟨hne, hall, hn⟩ := spells_iff.mp h
  refine spells_iff.mpr ⟨by simp, by rw [List.all_append, hall]; simp [hc.isDigit], ?_⟩
  rw [value] at hn ⊢
  rw [List.foldl_concat, hn, (digit_iff.mp hc).1, Option.getD_some]

/-- What is spelled without the last digit. -/
theorem Spells.of_concat (h : r.Spells (digits ++ [c]) n) :
    ∃ d, r.Digit c d ∧
      ((digits = [] ∧ n = d) ∨ ∃ n', r.Spells digits n' ∧ n = n' * r.base + d) := by
  obtain ⟨-, hall, hn⟩ := spells_iff.mp h
  rw [List.all_append, Bool.and_eq_true, List.all_cons, Bool.and_eq_true] at hall
  rw [value, List.foldl_concat] at hn
  refine ⟨_, isDigit_iff.mp hall.2.1, ?_⟩
  cases digits with
  | nil => exact Or.inl ⟨rfl, by simpa using hn.symm⟩
  | cons first rest => exact Or.inr ⟨_, spells_iff.mpr ⟨rfl, hall.1, rfl⟩, hn.symm⟩

/-- Zeros in front count for nothing. -/
theorem Spells.zeros (h : r.Spells digits n) (k : Nat) :
    r.Spells (List.replicate k '0' ++ digits) n := by
  induction k with
  | zero => exact h
  | succ k ih =>
    obtain ⟨-, hall, hn⟩ := spells_iff.mp ih
    have hzero : r.isDigit '0' = true := (digit_digitChar (d := 0) (by cases r <;> decide)).isDigit
    rw [List.replicate_succ, List.cons_append]
    refine spells_iff.mpr ⟨rfl, by rw [List.all_cons, hzero, hall]; rfl, ?_⟩
    rw [← hn, value, value, List.foldl_cons, Nat.zero_mul]
    rfl

/-- The first digit of several counts for its value times a power of the base. -/
theorem value_cons (r : Radix) (c : Char) (digits : List Char) :
    r.value (c :: digits) =
      r.value digits + r.base ^ digits.length * (digitValue? c).getD 0 := by
  rw [value_eq_ofDigits, value_eq_ofDigits, List.map_cons, List.reverse_cons, Nat.ofDigits_append,
    Nat.ofDigits_singleton, List.length_reverse, List.length_map]

/-- What holds of every digit and is kept by one more digit at the end holds of the digits of every
number. -/
theorem toDigits_induction {b : Nat} {P : Nat → List Char → Prop} (hb : 1 < b)
    (hdigit : ∀ d < b, P d [Nat.digitChar d])
    (hmore : ∀ n d, 0 < n → d < b → P n (Nat.toDigits b n) →
      P (n * b + d) (Nat.toDigits b n ++ [Nat.digitChar d])) (n : Nat) :
    P n (Nat.toDigits b n) := by
  induction n using Nat.strongRecOn with
  | ind n ih =>
    by_cases hn : n < b
    · rw [Nat.toDigits_of_lt_base hn]
      exact hdigit n hn
    · have hle : b ≤ n := Nat.le_of_not_lt hn
      have hpos : 0 < b := Nat.zero_lt_of_lt hb
      have hlast := hmore (n / b) (n % b) (Nat.div_pos hle hpos) (Nat.mod_lt n hpos)
        (ih _ (Nat.div_lt_self (Nat.lt_of_lt_of_le hpos hle) hb))
      rw [Nat.div_add_mod'] at hlast
      rw [Nat.toDigits_of_base_le hb hle]
      exact hlast

/-- The digits of a number spell it. -/
theorem spells_toDigits (r : Radix) (n : Nat) : r.Spells (Nat.toDigits r.base n) n :=
  toDigits_induction (P := fun n digits => r.Spells digits n) r.one_lt_base
    (fun _ hd => spells_singleton (digit_digitChar hd))
    (fun _ _ _ hd h => h.concat (digit_digitChar hd)) n

/-- Digits are written with small letters. -/
theorem small_of_mem_toDigits (n : Nat) : ∀ c ∈ Nat.toDigits 16 n, c ∈ smallDigits := by
  have hsmall : ∀ d < 16, Nat.digitChar d ∈ smallDigits := by decide
  refine toDigits_induction (P := fun _ digits => ∀ c ∈ digits, c ∈ smallDigits) (by decide)
    (fun d hd => ?_) (fun n d _ hd h => ?_) n
  · simpa using hsmall d hd
  · exact List.forall_mem_append.mpr ⟨h, by simpa using hsmall d hd⟩

/-- No number but zero starts with the digit zero. -/
theorem head?_toDigits (n : Nat) : 0 < n → (Nat.toDigits 10 n).head? ≠ some '0' := by
  have hzero : ∀ d < 10, 0 < d → Nat.digitChar d ≠ '0' := by decide
  refine toDigits_induction (P := fun n digits => 0 < n → digits.head? ≠ some '0') (by decide)
    (fun d hd hpos => ?_) (fun n d hn _ h _ => ?_) n
  · simpa using hzero d hd hpos
  · rw [List.head?_append_of_ne_nil _ Nat.toDigits_ne_nil]
    exact h hn

/-- Decimal digits that do not start with a zero are the digits of what they spell. -/
theorem Spells.eq_toDigits (h : decimal.Spells digits n) (hhead : digits.head? ≠ some '0') :
    digits = Nat.toDigits 10 n := by
  have hchar : ∀ {c : Char} {d : Nat}, decimal.Digit c d → c = Nat.digitChar d := by
    have hboth : ∀ d < 10, smallDigits[d]? = some (Nat.digitChar d) ∧
        capitalDigits[d]? = some (Nat.digitChar d) := by decide
    rintro c d ⟨hd, hc | hc⟩
    · exact Option.some.inj (hc.symm.trans (hboth d hd).1)
    · exact Option.some.inj (hc.symm.trans (hboth d hd).2)
  induction digits using List.reverseRecOn generalizing n with
  | nil => cases (spells_iff.mp h).1
  | append_singleton digits c ih =>
    obtain ⟨d, hd, ⟨rfl, rfl⟩ | ⟨n', hn', rfl⟩⟩ := h.of_concat
    · rw [Nat.toDigits_of_lt_base (show n < 10 from hd.1), hchar hd]
      rfl
    · have hne : digits ≠ [] := by simpa using (spells_iff.mp hn').1
      rw [List.head?_append_of_ne_nil _ hne] at hhead
      have hdigits := ih hn' hhead
      have hpos : 0 < n' := by
        refine Nat.pos_of_ne_zero fun hzero => hhead ?_
        rw [hdigits, hzero]
        rfl
      have happend := Nat.toDigits_append_toDigits (by decide) hpos hd.1
      rw [hchar hd, hdigits, Nat.mul_comm, ← Nat.toDigits_of_lt_base hd.1]
      exact happend

end Numeral.Radix

/-! ## Plain spellings of integers -/

namespace Numeral

/-- The text is the number in decimal digits without a leading zero, after a minus sign if it is
negative. -/
inductive PlainDecimal : String → Int → Prop where
  | zero : PlainDecimal "0" 0
  | positive {digits : List Char} {n : Nat} : Radix.decimal.Spells digits n →
      digits.head? ≠ some '0' → PlainDecimal (String.ofList digits) n
  | negative {digits : List Char} {n : Nat} : Radix.decimal.Spells digits n →
      digits.head? ≠ some '0' → PlainDecimal (String.ofList ('-' :: digits)) (-n)

/-- Every integer has one plain spelling. -/
theorem plainDecimal_iff {text : String} {i : Int} :
    PlainDecimal text i ↔ text = Text.signedDecimal i := by
  constructor
  · intro h
    cases h with
    | zero => rfl
    | positive h hhead =>
      rw [h.eq_toDigits hhead]
      rfl
    | @negative digits n h hhead =>
      have hdigits := h.eq_toDigits hhead
      cases n with
      | zero => exact absurd (by rw [hdigits]; rfl) hhead
      | succ n =>
        rw [hdigits]
        show _ = "-" ++ Text.decimal (n + 1)
        rw [Text.decimal, String.ofList_cons]
        rfl
  · rintro rfl
    cases i with
    | ofNat n =>
      cases n with
      | zero => exact .zero
      | succ n =>
        exact .positive (Radix.spells_toDigits .decimal _) (Radix.head?_toDigits _ (Nat.succ_pos n))
    | negSucc n =>
      have h := PlainDecimal.negative (Radix.spells_toDigits .decimal (n + 1))
        (Radix.head?_toDigits _ (Nat.succ_pos n))
      rw [String.ofList_cons] at h
      exact h

end Numeral

/-! ## Texts of words -/

namespace Style

/-- The digit of a bit. -/
def bitDigit (w : Word) (i : Nat) : Char := if w.toNat.testBit i then '1' else '0'

/-- The digits of the lowest bits, most significant first. -/
def bits (w : Word) : Nat → List Char
  | 0 => []
  | i + 1 => bitDigit w i :: bits w i

/-- The same digits in groups of four. -/
def groups (w : Word) : Nat → List (List Char)
  | 0 => []
  | k + 1 =>
    [bitDigit w (4 * k + 3), bitDigit w (4 * k + 2), bitDigit w (4 * k + 1), bitDigit w (4 * k)] ::
      groups w k

theorem bitDigit_cases (w : Word) (i : Nat) : bitDigit w i = '0' ∨ bitDigit w i = '1' := by
  unfold bitDigit
  split
  · exact Or.inr rfl
  · exact Or.inl rfl

theorem digit_bitDigit (w : Word) (i : Nat) :
    Numeral.Radix.binary.Digit (bitDigit w i) (w.toNat.testBit i).toNat := by
  unfold bitDigit
  cases w.toNat.testBit i with
  | false => exact Numeral.Radix.digit_digitChar (r := .binary) (d := 0) (by decide)
  | true => exact Numeral.Radix.digit_digitChar (r := .binary) (d := 1) (by decide)

theorem bitGroups_succ (w : Word) (i : Nat) :
    bitGroups w (i + 1) =
      bitDigit w i :: if 0 < i ∧ i % 4 = 0 then ' ' :: bitGroups w i else bitGroups w i := by
  rw [bitGroups, bitDigit]
  split
  · rfl
  · rfl

/-- Without the spaces there is one digit for each bit. -/
theorem filter_bitGroups (w : Word) (n : Nat) : (bitGroups w n).filter (· != ' ') = bits w n := by
  induction n with
  | zero => rfl
  | succ i ih =>
    have hdigit : (bitDigit w i != ' ') = true := by
      rcases bitDigit_cases w i with h | h
      · rw [h]
        rfl
      · rw [h]
        rfl
    rw [bitGroups_succ, List.filter_cons, if_pos hdigit, bits]
    split
    · rw [List.filter_cons, if_neg (by decide), ih]
    · rw [ih]

/-- The spaces are between groups of four digits. -/
theorem bitGroups_eq_intercalate (w : Word) (k : Nat) :
    bitGroups w (4 * k) = [' '].intercalate (groups w k) := by
  induction k with
  | zero => rfl
  | succ k ih =>
    rw [show 4 * (k + 1) = 4 * k + 1 + 1 + 1 + 1 from rfl, bitGroups_succ, bitGroups_succ,
      bitGroups_succ, bitGroups_succ, if_neg (by omega), if_neg (by omega), if_neg (by omega), groups]
    cases k with
    | zero => rfl
    | succ k =>
      have hmore : groups w (k + 1) ≠ [] := List.cons_ne_nil _ _
      rw [if_pos (by omega), ih, List.intercalate_cons_of_ne_nil hmore]
      rfl

theorem length_groups (w : Word) (k : Nat) : (groups w k).length = k := by
  induction k with
  | zero => rfl
  | succ k ih => rw [groups, List.length_cons, ih]

/-- Every group has four digits. -/
theorem group_of_mem {w : Word} {k : Nat} {group : List Char} (h : group ∈ groups w k) :
    group.length = 4 ∧ ∀ c ∈ group, c = '0' ∨ c = '1' := by
  induction k with
  | zero => cases h
  | succ k ih =>
    rcases List.mem_cons.mp h with rfl | h
    · exact ⟨rfl, by simp [bitDigit_cases]⟩
    · exact ih h

theorem length_bits (w : Word) (n : Nat) : (bits w n).length = n := by
  induction n with
  | zero => rfl
  | succ n ih => rw [bits, List.length_cons, ih]

/-- The digits of the lowest bits have the value of these bits. -/
theorem value_bits (w : Word) (n : Nat) :
    Numeral.Radix.binary.value (bits w n) = w.toNat % 2 ^ n := by
  induction n with
  | zero => rw [Nat.pow_zero, Nat.mod_one]; rfl
  | succ n ih =>
    rw [bits, Numeral.Radix.value_cons, ih, length_bits,
      (Numeral.Radix.digit_iff.mp (digit_bitDigit w n)).1, Option.getD_some, Nat.toNat_testBit,
      Nat.mod_pow_succ]
    rfl

theorem spells_bits (w : Word) {n : Nat} (hn : 0 < n) :
    Numeral.Radix.binary.Spells (bits w n) (w.toNat % 2 ^ n) := by
  have hall : ∀ n, (bits w n).all Numeral.Radix.binary.isDigit = true := by
    intro n
    induction n with
    | zero => rfl
    | succ n ih => rw [bits, List.all_cons, (digit_bitDigit w n).isDigit, ih]; rfl
  refine Numeral.Radix.spells_iff.mpr ⟨?_, hall n, value_bits w n⟩
  rw [List.isEmpty_eq_false_iff, ← List.length_pos_iff, length_bits]
  exact hn

end Style

/-- A number is the signed number of the width that the low bits of a word stand for. -/
def Width.Signed (s : Width) (w : Word) (i : Int) : Prop :=
  -2 ^ (s.bits - 1) ≤ i ∧ i < 2 ^ (s.bits - 1) ∧ i ≡ w.toNat [ZMOD 2 ^ s.bits]

theorem Width.signExtend_eq_iff {s : Width} {w : Word} {i : Int} :
    s.signExtend w = i ↔ s.Signed w i := by
  have hsize : 0 < 1 <<< s.bits := by cases s <;> decide
  unfold signExtend Signed
  rw [Int.bmod_eq_iff hsize, Int.modEq_comm, Int.modEq_iff_dvd]
  cases s <;> rfl

namespace Style

/-- The text without its spaces. -/
def unspaced (text : String) : String := String.ofList (text.toList.filter (· != ' '))

/-- How the integer styles write a word at a width. -/
structure ReadsBack (s : Width) (w : Word) : Prop where
  /-- Decimal texts are read as the word cut to the width. -/
  decimal : Numeral.integer (Style.decimal.render s w) = .ok (UInt64.ofNat (w.toNat % 2 ^ s.bits))
  /-- So are hexadecimal texts. -/
  hex : Numeral.integer (Style.hex.render s w) = .ok (UInt64.ofNat (w.toNat % 2 ^ s.bits))
  /-- So are binary texts after `0b` and without their spaces. -/
  binary : Numeral.integer ("0b" ++ unspaced (Style.binary.render s w)) =
    .ok (UInt64.ofNat (w.toNat % 2 ^ s.bits))
  /-- A signed text is the only plain spelling of the only signed number that the low bits stand
  for. -/
  signed : ∃ i, s.Signed w i ∧ (∀ j, s.Signed w j → j = i) ∧
    ∀ text, Numeral.PlainDecimal text i ↔ text = Style.signed.render s w
  /-- A hexadecimal text has as many digits as the width takes, with small letters. -/
  hexDigits : ∃ digits : List Char, Style.hex.render s w = "0x" ++ String.ofList digits ∧
    digits.length = s.bits / 4 ∧ ∀ c ∈ digits, c ∈ Numeral.Radix.smallDigits
  /-- A binary text is made of groups of four bits with one space between them. -/
  binaryDigits : ∃ groups : List (List Char),
    Style.binary.render s w = String.ofList ([' '].intercalate groups) ∧
    groups.length = s.bits / 4 ∧
    ∀ group ∈ groups, group.length = 4 ∧ ∀ c ∈ group, c = '0' ∨ c = '1'

variable (s : Width) (w : Word)

theorem toNat_truncate_eq : (s.truncate w).toNat = w.toNat % 2 ^ s.bits := by
  rw [Width.toNat_truncate, Nat.one_shiftLeft]

/-- A literal with the value of the word cut to the width is read as that. -/
theorem integer_of_cut {text : String} (h : Numeral.Literal text (w.toNat % 2 ^ s.bits)) :
    Numeral.integer text = .ok (UInt64.ofNat (w.toNat % 2 ^ s.bits)) := by
  have hsmall : w.toNat % 2 ^ s.bits < 2 ^ 64 :=
    Nat.lt_of_le_of_lt (Nat.mod_le _ _) w.toNat_lt
  rw [Numeral.integer_of_literal h, if_pos hsmall]

theorem bits_div_four : s.bits / 4 = 2 * s.bytes := by cases s <;> rfl

/-- **Printed integers.**  Whatever the word and the width are, what is printed reads back. -/
theorem readsBack : ReadsBack s w where
  decimal := by
    refine integer_of_cut s w ?_
    rw [← toNat_truncate_eq]
    exact .decimal (Numeral.Radix.spells_toDigits .decimal _)
  hex := by
    refine integer_of_cut s w ?_
    rw [← toNat_truncate_eq, render, hexText]
    have hspells := (Numeral.Radix.spells_toDigits .hexadecimal (s.truncate w).toNat).zeros
      (2 * s.bytes - (Nat.toDigits 16 (s.truncate w).toNat).length)
    have hliteral := Numeral.Literal.hexadecimal (Or.inl rfl) hspells
    exact (@String.ofList_append ['0', 'x'] _).symm ▸ hliteral
  binary := by
    refine integer_of_cut s w ?_
    have hbits : 0 < s.bits := by cases s <;> decide
    rw [unspaced, render, String.toList_ofList, filter_bitGroups]
    have hliteral := Numeral.Literal.binary (Or.inl rfl) (spells_bits w hbits)
    exact (@String.ofList_append ['0', 'b'] _).symm ▸ hliteral
  signed := by
    have hsigned : s.Signed w (s.signExtend w) := Width.signExtend_eq_iff.mp rfl
    exact ⟨s.signExtend w, hsigned, fun j hj => (Width.signExtend_eq_iff.mpr hj).symm,
      fun text => Numeral.plainDecimal_iff⟩
  hexDigits := by
    have hfits : (s.truncate w).toNat < 16 ^ (2 * s.bytes) := by
      rw [toNat_truncate_eq]
      exact Nat.lt_of_lt_of_eq (Nat.mod_lt _ (Nat.two_pow_pos _)) (by cases s <;> rfl)
    have hlength := (Nat.length_toDigits_le_iff (by decide) (by cases s <;> decide)).mpr hfits
    refine ⟨_, rfl, ?_, fun c hc => ?_⟩
    · rw [List.length_leftpad, bits_div_four, Nat.max_eq_left hlength]
    · rcases List.mem_append.mp hc with hc | hc
      · rw [List.eq_of_mem_replicate hc]
        decide
      · exact Numeral.Radix.small_of_mem_toDigits _ c hc
  binaryDigits := by
    refine ⟨groups w (s.bits / 4), ?_, length_groups w _, fun group => group_of_mem⟩
    rw [render, ← bitGroups_eq_intercalate]
    cases s <;> rfl

end Style

end PeekPoke
