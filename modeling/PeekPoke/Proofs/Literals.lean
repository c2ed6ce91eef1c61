import Mathlib.Data.List.Forall2
import Mathlib.Data.List.Induction
import Mathlib.Data.Nat.Digits.Defs
import PeekPoke.Numeral.Integer
set_option autoImplicit false

/-!
# The grammar of integer literals

`Literal text n` says that a text is an integer literal with the value `n`, without a word on how
texts are read: a digit stands at the place of its value in one of two alphabets (`Radix.Digit`), and
a run of digits has their positional value (`Radix.Spells`).  Main statement: what is read from a text
is the value of the literal that the text is, if that fits into 64 bits; a larger literal is out of
range, and every other text is invalid (`integer_reads`).
-/

namespace PeekPoke.Numeral

namespace Radix

/-! ## Runs of digits -/

/-- The digits of the widest notation by their values, with small letters. -/
def smallDigits : List Char :=
  ['0', '1', '2', '3', '4', '5', '6', '7', '8', '9', 'a', 'b', 'c', 'd', 'e', 'f']

/-- The same digits with capitals. -/
def capitalDigits : List Char :=
  ['0', '1', '2', '3', '4', '5', '6', '7', '8', '9', 'A', 'B', 'C', 'D', 'E', 'F']

/-- The character is the digit of the notation that has this value. -/
def Digit (r : Radix) (c : Char) (d : Nat) : Prop :=
  d < r.base ∧ (smallDigits[d]? = some c ∨ capitalDigits[d]? = some c)

/-- The characters are at least one digit of the notation, and `n` is their positional value. -/
def Spells (r : Radix) (digits : List Char) (n : Nat) : Prop :=
  ∃ values : List Nat, values ≠ [] ∧ List.Forall₂ r.Digit digits values ∧
    Nat.ofDigits r.base values.reverse = n

variable {r : Radix} {c : Char} {d n : Nat} {digits : List Char}

theorem base_le (r : Radix) : r.base ≤ 16 := by cases r <;> decide

theorem one_lt_base (r : Radix) : 1 < r.base := by cases r <;> decide

/-- If an alphabet holds a range of characters from some place on, each of them is found there. -/
theorem getElem?_of_range {alphabet : List Char} {first last : Char} (start : Nat)
    (halphabet : ∀ k ≤ last.toNat - first.toNat,
      alphabet[k + start]? = some (Char.ofNat (first.toNat + k)))
    (hc : first ≤ c ∧ c ≤ last) : alphabet[c.toNat - first.toNat + start]? = some c := by
  have hlow : first.toNat ≤ c.toNat := hc.1
  have hhigh : c.toNat ≤ last.toNat := hc.2
  rw [halphabet _ (Nat.sub_le_sub_right hhigh _), Nat.add_sub_cancel' hlow, Char.ofNat_toNat]

/-- Digits are recognised by ranges of characters, which are those of the alphabets. -/
theorem digitValue?_eq_some_iff :
    digitValue? c = some d ↔ smallDigits[d]? = some c ∨ capitalDigits[d]? = some c := by
  constructor
  · intro h
    unfold digitValue? at h
    split at h
    · rename_i hrange
      cases h
      exact Or.inl (getElem?_of_range 0 (by decide) hrange)
    · split at h
      · rename_i hrange
        cases h
        exact Or.inl (getElem?_of_range 10 (by decide) hrange)
      · split at h
        · rename_i hrange
          cases h
          exact Or.inr (getElem?_of_range 10 (by decide) hrange)
        · cases h
  · have hsmall : ∀ d < 16, smallDigits[d]?.bind digitValue? = some d := by decide
    have hcapital : ∀ d < 16, capitalDigits[d]?.bind digitValue? = some d := by decide
    rintro (h | h)
    · rw [← hsmall d (List.getElem?_eq_some_iff.mp h).1, h, Option.bind_some]
    · rw [← hcapital d (List.getElem?_eq_some_iff.mp h).1, h, Option.bind_some]

theorem digit_iff : r.Digit c d ↔ digitValue? c = some d ∧ d < r.base := by
  rw [Digit, digitValue?_eq_some_iff, and_comm]

theorem isDigit_iff : r.isDigit c = true ↔ r.Digit c ((digitValue? c).getD 0) := by
  rw [digit_iff, isDigit]
  cases digitValue? c <;> simp

/-- The values of digits are what the reader takes them for. -/
theorem forall₂_digit_iff {values : List Nat} :
    List.Forall₂ r.Digit digits values ↔
      digits.all r.isDigit = true ∧ values = digits.map fun c => (digitValue? c).getD 0 := by
  constructor
  · intro h
    induction h with
    | nil => exact ⟨rfl, rfl⟩
    | @cons c d digits values hd _ ih =>
      have hvalue : (digitValue? c).getD 0 = d := by rw [(digit_iff.mp hd).1, Option.getD_some]
      rw [List.all_cons, List.map_cons, hvalue, ih.1, ← ih.2, isDigit_iff.mpr (hvalue.symm ▸ hd)]
      exact ⟨rfl, rfl⟩
  · rintro ⟨hall, rfl⟩
    rw [List.forall₂_map_right_iff, List.forall₂_same]
    exact fun c hc => isDigit_iff.mp (List.all_eq_true.mp hall c hc)

/-- Adding digits from the left gives their positional value. -/
theorem value_eq_ofDigits (r : Radix) (digits : List Char) :
    r.value digits =
      Nat.ofDigits r.base (digits.map fun c => (digitValue? c).getD 0).reverse := by
  induction digits using List.reverseRecOn with
  | nil => rfl
  | append_singleton digits c ih =>
    rw [value] at ih ⊢
    rw [List.foldl_concat, ih, List.map_append, List.map_singleton, List.reverse_append,
      List.reverse_singleton, List.singleton_append, Nat.ofDigits_cons, Nat.mul_comm, Nat.add_comm]

/-- What a run of digits spells, as the reader finds out. -/
theorem spells_iff :
    r.Spells digits n ↔ digits.isEmpty = false ∧ digits.all r.isDigit = true ∧ r.value digits = n := by
  rw [value_eq_ofDigits]
  constructor
  · rintro ⟨values, hne, hdigits, hn⟩
    obtain ⟨hall, rfl⟩ := forall₂_digit_iff.mp hdigits
    exact ⟨by simpa using hne, hall, hn⟩
  · rintro ⟨hne, hall, hn⟩
    exact ⟨_, by simpa using hne, forall₂_digit_iff.mpr ⟨hall, rfl⟩, hn⟩

theorem Spells.unique {n' : Nat} (h : r.Spells digits n) (h' : r.Spells digits n') : n = n' :=
  (spells_iff.mp h).2.2.symm.trans (spells_iff.mp h').2.2

end Radix

/-! ## Literals -/

/-- The text is an integer literal with this value. -/
inductive Literal : String → Nat → Prop where
  | decimal {digits : List Char} {n : Nat} : Radix.decimal.Spells digits n →
      Literal (String.ofList digits) n
  | hexadecimal {x : Char} {digits : List Char} {n : Nat} : x = 'x' ∨ x = 'X' →
      Radix.hexadecimal.Spells digits n → Literal (String.ofList ('0' :: x :: digits)) n
  | binary {b : Char} {digits : List Char} {n : Nat} : b = 'b' ∨ b = 'B' →
      Radix.binary.Spells digits n → Literal (String.ofList ('0' :: b :: digits)) n

variable {text : String} {n : Nat}

/-- A run of decimal digits announces no other notation. -/
theorem Radix.split_of_decimal {digits : List Char} (h : digits.all decimal.isDigit = true) :
    split digits = (decimal, digits) := by
  unfold split
  split
  · exact absurd h (by simp [isDigit, digitValue?, base])
  · exact absurd h (by simp [isDigit, digitValue?, base])
  · exact absurd h (by simp [isDigit, digitValue?, base])
  · exact absurd h (by simp [isDigit, digitValue?, base])
  · rfl

/-- A literal is read in the notation it announces. -/
theorem literal_iff :
    Literal text n ↔
      (Radix.split text.toList).1.Spells (Radix.split text.toList).2 n := by
  constructor
  · intro h
    cases h with
    | decimal h =>
      rw [String.toList_ofList, Radix.split_of_decimal (Radix.spells_iff.mp h).2.1]
      exact h
    | hexadecimal hx h =>
      rw [String.toList_ofList]
      rcases hx with rfl | rfl
      · exact h
      · exact h
    | binary hb h =>
      rw [String.toList_ofList]
      rcases hb with rfl | rfl
      · exact h
      · exact h
  · obtain ⟨chars, rfl⟩ : ∃ chars, text = String.ofList chars :=
      ⟨text.toList, String.ofList_toList.symm⟩
    rw [String.toList_ofList]
    fun_cases Radix.split chars with
    | case1 => exact .hexadecimal (Or.inl rfl)
    | case2 => exact .hexadecimal (Or.inr rfl)
    | case3 => exact .binary (Or.inl rfl)
    | case4 => exact .binary (Or.inr rfl)
    | case5 => exact .decimal

theorem Literal.unique {n' : Nat} (h : Literal text n) (h' : Literal text n') : n = n' :=
  (literal_iff.mp h).unique (literal_iff.mp h')

/-- A literal is not invalid. -/
theorem integer_of_literal (h : Literal text n) :
    integer text =
      if n < 2 ^ 64 then .ok (UInt64.ofNat n) else .error (.outOfRange text) := by
  obtain ⟨hne, hall, hn⟩ := Radix.spells_iff.mp (literal_iff.mp h)
  unfold integer
  dsimp only
  rw [hne, hall, hn]
  rfl

/-- Everything else is. -/
theorem integer_of_not_literal (h : ∀ n, ¬ Literal text n) :
    integer text = .error (.invalid text) := by
  have hspells : ∀ n, ¬ (Radix.split text.toList).1.Spells (Radix.split text.toList).2 n :=
    fun n hn => h n (literal_iff.mpr hn)
  unfold integer
  dsimp only
  refine if_pos ?_
  by_contra hno
  simp only [Bool.or_eq_true, Bool.not_eq_true', not_or, Bool.not_eq_true, Bool.not_eq_false] at hno
  exact hspells _ (Radix.spells_iff.mpr ⟨hno.1, hno.2, rfl⟩)

/-- **Reading integer literals.**  A text is accepted exactly if it is a literal whose value fits into
64 bits, and then it is read as that value; a literal whose value does not fit is out of range; a text
that is no literal is invalid. -/
theorem integer_reads (text : String) :
    (∀ n, (∃ w, integer text = .ok w ∧ w.toNat = n) ↔ Literal text n ∧ n < 2 ^ 64) ∧
    (integer text = .error (.outOfRange text) ↔ ∃ n, Literal text n ∧ 2 ^ 64 ≤ n) ∧
    (integer text = .error (.invalid text) ↔ ∀ n, ¬ Literal text n) ∧
    ∀ n n', Literal text n → Literal text n' → n = n' := by
  by_cases hliteral : ∃ n, Literal text n
  · obtain ⟨n, h⟩ := hliteral
    have hunique : ∀ n', Literal text n' → n = n' := fun n' h' => h.unique h'
    have hread := integer_of_literal h
    by_cases hfits : n < 2 ^ 64
    · rw [if_pos hfits] at hread
      rw [hread]
      refine ⟨fun n' => ⟨?_, ?_⟩, ⟨nofun, ?_⟩, ⟨nofun, ?_⟩, fun _ _ => Literal.unique⟩
      · rintro ⟨w, hw, rfl⟩
        cases hw
        rw [UInt64.toNat_ofNat_of_lt' hfits]
        exact ⟨h, hfits⟩
      · rintro ⟨h', -⟩
        obtain rfl := hunique n' h'
        exact ⟨_, rfl, UInt64.toNat_ofNat_of_lt' hfits⟩
      · rintro ⟨n', h', hlarge⟩
        obtain rfl := hunique n' h'
        exact absurd hfits (Nat.not_lt_of_le hlarge)
      · exact fun hno => absurd h (hno n)
    · rw [if_neg hfits] at hread
      rw [hread]
      refine ⟨fun n' => ⟨nofun, ?_⟩, ⟨fun _ => ⟨n, h, Nat.le_of_not_lt hfits⟩, fun _ => rfl⟩,
        ⟨nofun, ?_⟩, fun _ _ => Literal.unique⟩
      · rintro ⟨h', hsmall⟩
        obtain rfl := hunique n' h'
        exact absurd hsmall hfits
      · exact fun hno => absurd h (hno n)
  · have hno : ∀ n, ¬ Literal text n := fun n h => hliteral ⟨n, h⟩
    rw [integer_of_not_literal hno]
    refine ⟨fun n => ⟨nofun, fun h => absurd h.1 (hno n)⟩, ⟨nofun, ?_⟩, ⟨fun _ => hno, fun _ => rfl⟩,
      fun _ _ => Literal.unique⟩
    rintro ⟨n, h, -⟩
    exact absurd h (hno n)

end PeekPoke.Numeral
