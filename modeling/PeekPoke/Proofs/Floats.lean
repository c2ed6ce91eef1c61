import Mathlib.Data.Nat.Bitwise
import PeekPoke.Format
import PeekPoke.Proofs.Decimals
import PeekPoke.Proofs.Rendering
set_option autoImplicit false

/-!
# Printed floats

What the float style writes is described by a grammar of decimal texts, `Writes form text y`, that says
what number a text denotes without a word on how it was made, and by the fields of a binary64 number
(`Binary64.value?`).  Main statement: the text of a number other than zero denotes the number rounded to
six significant digits, and no other, in scientific form exactly if the rounded number is less than
`10 ^ -4` or reaches `10 ^ 6` (`Style.float_writes`).
-/

namespace PeekPoke

namespace Numeral

/-! ## The grammar of decimal texts -/

/-- Digits, and behind a point a fraction that does not end in a zero; without a fraction there is no
point. -/
inductive Pointed (whole : List Char) : List Char → ℚ → Prop where
  | integer {n : ℕ} : Radix.decimal.Spells whole n → Pointed whole whole n
  | fraction {n m : ℕ} {digits : List Char} : Radix.decimal.Spells whole n →
      Radix.decimal.Spells digits m → digits.getLast? ≠ some '0' →
      Pointed whole (whole ++ '.' :: digits) (n + m / 10 ^ digits.length)

/-- A sign and at least two digits, of which the first is a zero only if there are no more than two. -/
inductive Power : List Char → ℤ → Prop where
  | positive {n : ℕ} {digits : List Char} : Radix.decimal.Spells digits n → 2 ≤ digits.length →
      (2 < digits.length → digits.head? ≠ some '0') → Power ('+' :: digits) n
  | negative {n : ℕ} {digits : List Char} : Radix.decimal.Spells digits n → 2 ≤ digits.length →
      (2 < digits.length → digits.head? ≠ some '0') → Power ('-' :: digits) (-n)

/-- The ways to write a number. -/
inductive Form where
  | positional
  | scientific
  deriving DecidableEq, Repr

/-- The text is a number without a sign.  In positional form only a single zero before the point may
be a zero in front; in scientific form there is one digit before the point, not a zero, and a power of
ten. -/
inductive Unsigned : Form → List Char → ℚ → Prop where
  | positional {whole text : List Char} {y : ℚ} : Pointed whole text y →
      (whole.head? = some '0' → whole = ['0']) → Unsigned .positional text y
  | scientific {first : Char} {mantissa power : List Char} {y : ℚ} {e : ℤ} :
      Pointed [first] mantissa y → first ≠ '0' → Power power e →
      Unsigned .scientific (mantissa ++ 'e' :: power) (y * 10 ^ e)

/-- The text is a number written in a form, after a minus sign if it is negative. -/
inductive Writes (form : Form) : List Char → ℚ → Prop where
  | positive {text : List Char} {y : ℚ} : Unsigned form text y → Writes form text y
  | negative {text : List Char} {y : ℚ} : Unsigned form text y → Writes form ('-' :: text) (-y)

/-! ## A text denotes one number -/

section unique

variable {whole whole' text digits : List Char} {c : Char} {n : ℕ} {y y' : ℚ} {e e' : ℤ}
  {form form' : Form}

theorem Radix.Spells.notMem (h : Radix.decimal.Spells digits n)
    (hc : Radix.decimal.isDigit c = false) : c ∉ digits := by
  intro hmem
  rw [List.all_eq_true.mp (Radix.spells_iff.mp h).2.1 c hmem] at hc
  cases hc

theorem Pointed.notMem (h : Pointed whole text y) (hc : Radix.decimal.isDigit c = false)
    (hpoint : c ≠ '.') : c ∉ text := by
  cases h with
  | integer h => exact h.notMem hc
  | fraction hwhole hdigits _ =>
    simp only [List.mem_append, List.mem_cons, not_or]
    exact ⟨hwhole.notMem hc, hpoint, hdigits.notMem hc⟩

theorem Pointed.unique (h : Pointed whole text y) (h' : Pointed whole' text y') : y = y' := by
  have hpoint : Radix.decimal.isDigit '.' = false := by decide
  cases h with
  | integer h =>
    generalize htext : whole = text at h'
    cases h' with
    | integer h' => rw [h.unique (htext ▸ h')]
    | fraction => exact absurd (htext ▸ h) fun h => h.notMem hpoint (by simp)
  | fraction hwhole hdigits hlast =>
    generalize htext : whole ++ '.' :: _ = text at h'
    cases h' with
    | integer h' => exact absurd (htext ▸ h') fun h => h.notMem hpoint (by simp)
    | fraction hwhole' hdigits' hlast' =>
      obtain ⟨rfl, -, rfl⟩ := (List.append_cons_inj_of_notMem (hwhole.notMem hpoint)
        (hdigits.notMem hpoint)).mp htext
      rw [hwhole.unique hwhole', hdigits.unique hdigits']

theorem Power.notMem (h : Power text e) (hc : Radix.decimal.isDigit c = false)
    (hplus : c ≠ '+') (hminus : c ≠ '-') : c ∉ text := by
  cases h with
  | positive h => exact List.not_mem_cons_of_ne_of_not_mem hplus (h.notMem hc)
  | negative h => exact List.not_mem_cons_of_ne_of_not_mem hminus (h.notMem hc)

theorem Power.unique (h : Power text e) (h' : Power text e') : e = e' := by
  cases h with
  | positive h => cases h' with | positive h' => rw [h.unique h']
  | negative h => cases h' with | negative h' => rw [h.unique h']

theorem Unsigned.unique (h : Unsigned form text y) (h' : Unsigned form' text y') :
    form = form' ∧ y = y' := by
  have hmark : Radix.decimal.isDigit 'e' = false := by decide
  cases h with
  | positional h =>
    cases h' with
    | positional h' => exact ⟨rfl, h.unique h'⟩
    | scientific => exact absurd (by simp) (h.notMem hmark (by decide))
  | scientific h hfirst hpower =>
    generalize htext : _ ++ 'e' :: _ = text at h'
    cases h' with
    | positional h' => exact absurd (htext ▸ by simp) (h'.notMem hmark (by decide))
    | scientific h' hfirst' hpower' =>
      obtain ⟨rfl, -, rfl⟩ := (List.append_cons_inj_of_notMem (h.notMem hmark (by decide))
        (hpower.notMem hmark (by decide) (by decide))).mp htext
      rw [h.unique h', hpower.unique hpower']
      exact ⟨rfl, rfl⟩

/-- The first character is a digit. -/
theorem Pointed.exists_head (h : Pointed whole text y) :
    ∃ first rest, text = first :: rest ∧ Radix.decimal.isDigit first = true := by
  have hstarts : ∀ {n : ℕ} {digits : List Char}, Radix.decimal.Spells digits n →
      ∃ first rest, digits = first :: rest ∧ Radix.decimal.isDigit first = true := by
    intro n digits hspells
    obtain ⟨hne, hall, -⟩ := Radix.spells_iff.mp hspells
    cases digits with
    | nil => cases hne
    | cons first rest => exact ⟨first, rest, rfl, List.all_eq_true.mp hall first List.mem_cons_self⟩
  cases h with
  | integer hwhole => exact hstarts hwhole
  | fraction hwhole hdigits hlast =>
    obtain ⟨first, rest, rfl, hfirst⟩ := hstarts hwhole
    exact ⟨first, _, List.cons_append, hfirst⟩

/-- No number starts with a minus sign. -/
theorem Unsigned.ne_minus_cons {rest : List Char} (h : Unsigned form text y) : text ≠ '-' :: rest := by
  have hdigit : ∃ first rest, text = first :: rest ∧ Radix.decimal.isDigit first = true := by
    cases h with
    | positional h _ => exact h.exists_head
    | scientific h _ _ =>
      obtain ⟨first, rest, rfl, hfirst⟩ := h.exists_head
      exact ⟨first, _, List.cons_append, hfirst⟩
  rintro rfl
  obtain ⟨first, rest', htext, hfirst⟩ := hdigit
  rw [← (List.cons.inj htext).1] at hfirst
  exact absurd hfirst (by decide)

theorem Writes.unique (h : Writes form text y) (h' : Writes form' text y') :
    form = form' ∧ y = y' := by
  cases h with
  | positive h =>
    generalize htext : text = text' at h'
    cases h' with
    | positive h' => exact h.unique (htext ▸ h')
    | negative => exact absurd htext h.ne_minus_cons
  | negative h =>
    generalize htext : '-' :: _ = text' at h'
    cases h' with
    | positive h' => exact absurd htext.symm h'.ne_minus_cons
    | negative h' =>
      obtain ⟨hform, hy⟩ := h.unique ((List.cons.inj htext).2 ▸ h')
      exact ⟨hform, by rw [hy]⟩

end unique

/-! ## The digits of a number -/

namespace Radix

variable {whole rest : List Char} {n : ℕ}

theorem value_append (r : Radix) (whole rest : List Char) :
    r.value (whole ++ rest) = r.value whole * r.base ^ rest.length + r.value rest := by
  induction whole with
  | nil => simp [value]
  | cons c whole ih =>
    rw [List.cons_append, value_cons, value_cons, ih, List.length_append, Nat.pow_add]
    ring

theorem value_zeros (k : ℕ) : decimal.value (List.replicate k '0') = 0 := by
  induction k with
  | zero => rfl
  | succ k ih =>
    have hzero : (digitValue? '0').getD 0 = 0 := rfl
    rw [List.replicate_succ, value_cons, ih, hzero, Nat.mul_zero]

/-- A part of a run of digits is one, if it is not empty. -/
theorem spells_of_all (hne : whole ≠ []) (hall : whole.all decimal.isDigit = true) :
    decimal.Spells whole (decimal.value whole) :=
  spells_iff.mpr ⟨by simpa using hne, hall, rfl⟩

end Radix

namespace General

open Radix

/-- Only zeros are dropped. -/
theorem trimZeros_append (fraction : List Char) :
    ∃ k, fraction = trimZeros fraction ++ List.replicate k '0' := by
  refine ⟨(fraction.reverse.takeWhile (· == '0')).length, ?_⟩
  have hzeros : fraction.reverse.takeWhile (· == '0') =
      List.replicate (fraction.reverse.takeWhile (· == '0')).length '0' := by
    refine List.eq_replicate_iff.mpr ⟨rfl, fun c hc => ?_⟩
    exact eq_of_beq (List.all_eq_true.mp List.all_takeWhile c hc)
  rw [trimZeros, ← List.reverse_replicate, ← hzeros, ← List.reverse_append,
    List.takeWhile_append_dropWhile, List.reverse_reverse]

/-- All of them at the end are. -/
theorem getLast?_trimZeros (fraction : List Char) : (trimZeros fraction).getLast? ≠ some '0' := by
  rw [trimZeros, List.getLast?_reverse]
  have hnot := List.head?_dropWhile_not (· == '0') fraction.reverse
  intro hlast
  rw [hlast] at hnot
  exact absurd hnot (by decide)

/-- A point put into the digits of a number. -/
theorem pointed_pointed {whole fraction : List Char} {n : ℕ} (hne : whole ≠ [])
    (h : decimal.Spells (whole ++ fraction) n) :
    Pointed whole (pointed whole fraction).toList (n / 10 ^ fraction.length) := by
  obtain ⟨-, hall, hn⟩ := spells_iff.mp h
  obtain ⟨k, hk⟩ := trimZeros_append fraction
  have hlast := getLast?_trimZeros fraction
  unfold pointed
  generalize trimZeros fraction = rest at hk hlast
  rw [hk, List.all_append, List.all_append, Bool.and_eq_true, Bool.and_eq_true] at hall
  have hvalue : (n : ℚ) / 10 ^ fraction.length =
      decimal.value whole + decimal.value rest / 10 ^ rest.length := by
    rw [← hn, hk, value_append, value_append, value_zeros, List.length_append, List.length_replicate]
    have hbase : decimal.base = 10 := rfl
    rw [hbase]
    push_cast
    rw [pow_add]
    field_simp
    ring
  have hwhole := spells_of_all hne hall.1
  rw [hvalue]
  cases rest with
  | nil =>
    rw [show decimal.value [] = 0 from rfl, Nat.cast_zero, zero_div, add_zero, String.toList_ofList]
    exact .integer hwhole
  | cons c rest =>
    have htext : (String.ofList whole ++ "." ++ String.ofList (c :: rest)).toList =
        whole ++ '.' :: c :: rest := by
      simp
    show Pointed whole (String.ofList whole ++ "." ++ String.ofList (c :: rest)).toList _
    rw [htext]
    exact .fraction hwhole (spells_of_all (List.cons_ne_nil _ _) hall.2.1) hlast

/-- Exponents are written with two digits at least. -/
theorem power_exponentText (e : ℤ) : Power (exponentText e).toList e := by
  obtain ⟨digits, htext, hspells, htwo, hmore⟩ : ∃ digits : List Char,
      (if e.natAbs < 10 then "0" ++ Text.decimal e.natAbs else Text.decimal e.natAbs).toList = digits ∧
        decimal.Spells digits e.natAbs ∧ 2 ≤ digits.length ∧
        (2 < digits.length → digits.head? ≠ some '0') := by
    have hspells := spells_toDigits .decimal e.natAbs
    have hshort : (Nat.toDigits 10 e.natAbs).length ≤ 1 ↔ e.natAbs < 10 :=
      Nat.length_toDigits_le_iff (by decide) (by decide)
    have hpos : 0 < (Nat.toDigits 10 e.natAbs).length := List.length_pos_of_ne_nil Nat.toDigits_ne_nil
    split
    · refine ⟨'0' :: Nat.toDigits 10 e.natAbs, by simp [Text.decimal], hspells.zeros 1, ?_, ?_⟩
      · rw [List.length_cons]
        omega
      · rw [List.length_cons]
        omega
    · refine ⟨Nat.toDigits 10 e.natAbs, by simp [Text.decimal], hspells, by omega, fun _ => ?_⟩
      exact head?_toDigits _ (by omega)
  unfold exponentText
  dsimp only
  rw [String.toList_append, htext]
  split
  · have hneg : e = -(e.natAbs : ℤ) := by omega
    rw [hneg]
    exact .negative hspells htwo hmore
  · have hpos : e = (e.natAbs : ℤ) := by omega
    rw [hpos]
    exact .positive hspells htwo hmore

/-- The scientific form shows the digits the number was rounded to. -/
theorem Rounded.Rounds.unsigned_scientific {r : Rounded} {x : ℚ} (h : r.Rounds x) :
    Unsigned .scientific r.scientific.toList (significant precision x) := by
  have hlength : (Nat.toDigits 10 r.digits).length = 6 := by
    have hle : (Nat.toDigits 10 r.digits).length ≤ 6 :=
      (Nat.length_toDigits_le_iff (by decide) (by decide)).mpr h.below
    have hnot : ¬ (Nat.toDigits 10 r.digits).length ≤ 5 := by
      rw [Nat.length_toDigits_le_iff (by decide) (by decide)]
      exact Nat.not_lt.mpr h.least
    omega
  have hhead := head?_toDigits r.digits (Nat.lt_of_lt_of_le (by decide) h.least)
  have hspells := spells_toDigits .decimal r.digits
  unfold Rounded.scientific
  change decimal.Spells (Nat.toDigits 10 r.digits) r.digits at hspells
  generalize Nat.toDigits 10 r.digits = digits at hlength hhead hspells
  cases digits with
  | nil => cases hlength
  | cons first rest =>
    have hrest : rest.length = 5 := Nat.succ.inj hlength
    have hmantissa : Pointed [first] (pointed [first] rest).toList (r.digits / 10 ^ rest.length) :=
      pointed_pointed (List.cons_ne_nil _ _) hspells
    have hfirst : first ≠ '0' := fun hzero => hhead (congrArg some hzero)
    have hvalue : significant precision x = r.digits / 10 ^ rest.length * 10 ^ r.exponent := by
      rw [h.value, hrest, ← ten_pow_mul 5 r.exponent, div_mul_eq_mul_div, mul_left_comm,
        mul_div_cancel_left₀ _ (by norm_num)]
      rfl
    rw [hvalue, String.toList_append, String.toList_append, List.append_assoc]
    exact .scientific hmantissa hfirst (power_exponentText r.exponent)

/-- The digits of a number with at least one before the point.  Either there are zeros in front, and
then the digit before the point is one of them, or none. -/
theorem spells_leftpad (decimals : ℕ) {digits : ℕ} (hpos : 0 < digits) :
    decimal.Spells ((Nat.toDigits 10 digits).leftpad (decimals + 1) '0') digits ∧
      decimals < ((Nat.toDigits 10 digits).leftpad (decimals + 1) '0').length ∧
      (((Nat.toDigits 10 digits).leftpad (decimals + 1) '0').length = decimals + 1 ∨
        ((Nat.toDigits 10 digits).leftpad (decimals + 1) '0').head? ≠ some '0') := by
  have hpadded : (Nat.toDigits 10 digits).leftpad (decimals + 1) '0' =
      List.replicate (decimals + 1 - (Nat.toDigits 10 digits).length) '0' ++ Nat.toDigits 10 digits :=
    rfl
  rw [hpadded, List.length_append, List.length_replicate]
  refine ⟨(spells_toDigits .decimal digits).zeros _, by omega, ?_⟩
  by_cases hshort : (Nat.toDigits 10 digits).length ≤ decimals + 1
  · exact Or.inl (by omega)
  · rw [Nat.sub_eq_zero_of_le (by omega)]
    exact Or.inr (head?_toDigits digits hpos)

/-- The positional form shows the digits of the number rounded to some decimals. -/
theorem unsigned_positional (decimals : ℕ) {n d digits : ℕ} (hpos : 0 < digits)
    (h : roundDiv (n * Nat.pow 10 decimals) d = digits) :
    Unsigned .positional (positional decimals n d).toList (digits / 10 ^ decimals) := by
  obtain ⟨hspells, hless, hfront⟩ := spells_leftpad decimals hpos
  unfold positional
  rw [h]
  dsimp only
  generalize (Nat.toDigits 10 digits).leftpad (decimals + 1) '0' = padded at hspells hless hfront
  have hfraction : (padded.drop (padded.length - decimals)).length = decimals := by
    rw [List.length_drop]
    omega
  have hwhole : (padded.take (padded.length - decimals)).length = padded.length - decimals := by
    rw [List.length_take]
    omega
  have hne : padded.take (padded.length - decimals) ≠ [] :=
    List.ne_nil_of_length_pos (by omega)
  rw [← List.take_append_drop (padded.length - decimals) padded] at hspells
  have hpointed := pointed_pointed hne hspells
  rw [hfraction] at hpointed
  refine .positional hpointed fun hzero => ?_
  rcases hfront with hone | hfirst
  · rw [hone, Nat.add_sub_cancel_left] at hwhole hzero ⊢
    obtain ⟨first, hfirst⟩ := List.length_eq_one_iff.mp hwhole
    rw [hfirst] at hzero ⊢
    rw [Option.some.inj hzero]
  · rw [List.head?_take, if_neg (by omega)] at hzero
    exact absurd hzero hfirst

/-- The text of a ratio denotes it in six significant digits. -/
theorem ratioText_unsigned {n d : ℕ} (hn : 0 < n) (hd : 0 < d) :
    ∃ form, Unsigned form (ratioText n d).toList (significant precision (n / d)) ∧
      (form = .scientific ↔ Int.log 10 |significant precision (n / d : ℚ)| < -4 ∨
        6 ≤ Int.log 10 |significant precision (n / d : ℚ)|) := by
  have hrounds := rounds_round hn hd
  rw [hrounds.log]
  unfold ratioText
  dsimp only
  generalize round n d = r at hrounds
  split
  · rename_i hplain
    obtain ⟨hleast, hbelow⟩ := hplain
    have hleast' : -4 ≤ r.exponent := hleast
    have hbelow' : r.exponent < 6 := hbelow
    refine ⟨.positional, ?_, ⟨nofun, fun hextreme => by omega⟩⟩
    obtain ⟨decimals, hdecimals⟩ : ∃ decimals : ℕ, (5 - r.exponent).toNat = decimals := ⟨_, rfl⟩
    have hplace : r.exponent - 5 = -(decimals : ℤ) := by omega
    -- The positional form rounds the ratio again; the place it rounds at is that of the last digit, also
    -- after a carry, and there it comes to the same digits.
    have hunits : roundDiv (n * Nat.pow 10 decimals) d = r.digits := by
      have hnearest := hrounds.nearest
      rw [hplace, zpow_neg, div_inv_eq_mul, zpow_natCast, div_mul_eq_mul_div] at hnearest
      have hround := roundDiv_eq (n * Nat.pow 10 decimals) hd
      rw [Nat.pow_eq] at hround ⊢
      push_cast at hround
      exact_mod_cast hround.trans hnearest
    have hvalue : significant precision (n / d) = r.digits / 10 ^ decimals := by
      rw [hrounds.value, hplace, zpow_neg, zpow_natCast, div_eq_mul_inv]
    rw [hvalue]
    show Unsigned .positional (positional (5 - r.exponent).toNat n d).toList _
    rw [hdecimals]
    exact unsigned_positional decimals (Nat.lt_of_lt_of_le (by decide) hrounds.least) hunits
  · rename_i hextreme
    refine ⟨.scientific, hrounds.unsigned_scientific, ⟨fun _ => ?_, fun _ => rfl⟩⟩
    by_contra hno
    exact hextreme ⟨show -4 ≤ r.exponent by omega, show r.exponent < 6 by omega⟩

end General

/-! ## The numbers words stand for -/

namespace Binary64

variable {w m : Word} {x : ℚ}

/-- The number a word stands for by its fields: a sign, eleven bits of an exponent and fifty-two bits
of a fraction.  The largest exponent belongs to the infinities and to the words that are not numbers,
the smallest one to fractions without a one in front. -/
def value? (w : Word) : Option ℚ :=
  let sign : ℚ := if w.toNat < 2 ^ 63 then 1 else -1
  let biased : ℕ := w.toNat / 2 ^ 52 % 2 ^ 11
  let fraction : ℚ := (w.toNat % 2 ^ 52 : ℕ) / 2 ^ 52
  if biased = 2047 then none
  else if biased = 0 then some (sign * (fraction * 2 ^ (-1022 : ℤ)))
  else some (sign * ((1 + fraction) * 2 ^ ((biased : ℤ) - 1023)))

theorem toNat_magnitude (w : Word) : (magnitude w).toNat = w.toNat % 2 ^ 63 := by
  rw [magnitude, UInt64.toNat_and]
  exact Nat.and_two_pow_sub_one_eq_mod _ 63

theorem isNegative_iff (w : Word) : isNegative w = true ↔ 2 ^ 63 ≤ w.toNat := by
  have hbit : (w &&& signBit).toNat = (w.toNat.testBit 63).toNat * 2 ^ 63 := by
    rw [UInt64.toNat_and]
    exact Nat.and_two_pow _ 63
  have hlt : w.toNat < 2 ^ 64 := w.toNat_lt
  rw [isNegative, bne_iff_ne, ne_eq, ← UInt64.toNat_inj, hbit, Nat.testBit_eq_decide_div_mod_eq]
  by_cases hset : w.toNat / 2 ^ 63 % 2 = 1
  · rw [decide_eq_true hset]
    exact ⟨fun _ => by omega, fun _ => by decide⟩
  · rw [decide_eq_false hset]
    exact ⟨fun hne => absurd rfl hne, fun hge => by omega⟩

/-- The ratio of a finite magnitude. -/
theorem ratio_eq (m : Word) :
    0 < (ratio m).2 ∧ ((ratio m).1 : ℚ) / (ratio m).2 = significand m * 2 ^ exponent m := by
  obtain ⟨hpos, hvalue⟩ :=
    scaleDown_eq (by decide : 0 < 2) (significand m) Nat.one_pos (-exponent m)
  refine ⟨hpos, hvalue.trans ?_⟩
  rw [Nat.cast_one, div_one, zpow_neg, div_inv_eq_mul]
  rfl

/-- The fields of a word give its magnitude and its sign. -/
theorem value?_eq_some (h : value? w = some x) :
    magnitude w < infinity ∧
      x = (if isNegative w then -1 else 1) *
        (significand (magnitude w) * 2 ^ exponent (magnitude w)) := by
  have hsign : (if w.toNat < 2 ^ 63 then 1 else -1 : ℚ) = if isNegative w then -1 else 1 := by
    by_cases hneg : isNegative w = true
    · rw [if_pos hneg, if_neg (Nat.not_lt.mpr ((isNegative_iff w).mp hneg))]
    · rw [if_neg hneg, if_pos (Nat.lt_of_not_le (mt (isNegative_iff w).mpr hneg))]
  have hmagnitude := toNat_magnitude w
  have hfields : (magnitude w).toNat / 2 ^ 52 = w.toNat / 2 ^ 52 % 2 ^ 11 := by omega
  have hfraction : (magnitude w).toNat % 2 ^ 52 = w.toNat % 2 ^ 52 := by omega
  unfold value? at h
  dsimp only at h
  rw [hsign, ← hfields, ← hfraction] at h
  have hinfinity : infinity.toNat = 2047 * 2 ^ 52 := rfl
  unfold significand exponent
  rw [UInt64.lt_iff_toNat_lt, hinfinity, Nat.shiftRight_eq_div_pow, Nat.one_shiftLeft]
  generalize (magnitude w).toNat = m at h hmagnitude
  split at h
  · cases h
  · rename_i hfinite
    refine ⟨by omega, ?_⟩
    split at h
    · rename_i hsubnormal
      rw [← Option.some.inj h, if_pos hsubnormal, hsubnormal]
      have hplace : (2 : ℚ) ^ (((max 0 1 : ℕ) : ℤ) - 1075) = 2 ^ (-1022 : ℤ) / 2 ^ 52 := by
        rw [show ((max 0 1 : ℕ) : ℤ) - 1075 = -1022 - (52 : ℕ) by decide, zpow_sub₀ (by norm_num),
          zpow_natCast]
      rw [hplace]
      ring
    · rename_i hnormal
      rw [← Option.some.inj h, if_neg hnormal, Nat.max_eq_left (Nat.pos_of_ne_zero hnormal)]
      have hplace : (2 : ℚ) ^ (((m / 2 ^ 52 : ℕ) : ℤ) - 1075) =
          2 ^ (((m / 2 ^ 52 : ℕ) : ℤ) - 1023) / 2 ^ 52 := by
        rw [show ((m / 2 ^ 52 : ℕ) : ℤ) - 1075 = ((m / 2 ^ 52 : ℕ) : ℤ) - 1023 - (52 : ℕ) by omega,
          zpow_sub₀ (by norm_num), zpow_natCast]
      rw [hplace]
      push_cast
      ring

end Binary64

namespace General

open Binary64

/-- The text of a number other than zero denotes it in six significant digits. -/
theorem text_writes {w : Word} {x : ℚ} (hx : value? w = some x) (hzero : x ≠ 0) :
    ∃ form, Writes form (text w).toList (significant precision x) ∧
      (form = .scientific ↔ Int.log 10 |significant precision x| < -4 ∨
        6 ≤ Int.log 10 |significant precision x|) := by
  obtain ⟨hfinite, rfl⟩ := value?_eq_some hx
  obtain ⟨hd, hratio⟩ := ratio_eq (magnitude w)
  rw [← hratio] at hzero ⊢
  have hn : 0 < (ratio (magnitude w)).1 := by
    refine Nat.pos_of_ne_zero fun hnone => hzero ?_
    rw [hnone, Nat.cast_zero, zero_div, mul_zero]
  have hmagnitude : magnitudeText (magnitude w) =
      ratioText (ratio (magnitude w)).1 (ratio (magnitude w)).2 := by
    have hsome : magnitude w ≠ 0 := by
      intro hnone
      rw [hnone] at hn
      exact absurd hn (by decide)
    rw [magnitudeText, if_neg (UInt64.lt_asymm hfinite), if_neg (UInt64.ne_of_lt hfinite), if_neg hsome]
  obtain ⟨form, hwrites, hform⟩ := ratioText_unsigned hn hd
  refine ⟨form, ?_⟩
  unfold text
  rw [hmagnitude]
  dsimp only
  by_cases hneg : isNegative w = true
  · rw [if_pos hneg, if_pos hneg, neg_one_mul, significant_neg, abs_neg, String.toList_append]
    exact ⟨.negative hwrites, hform⟩
  · rw [if_neg hneg, if_neg hneg, one_mul]
    exact ⟨.positive hwrites, hform⟩

end General

end Numeral

namespace Style

open Numeral

/-- **Printed floats.**  The text of a number other than zero denotes the number rounded to six
significant digits, ties to even, and no other number.  It is in scientific form if the first digit of
the rounded number stands for less than `10 ^ -4` or at least `10 ^ 6`, and in positional form
otherwise; in both a fraction does not end in a zero, and nowhere is a point without a fraction. -/
theorem float_writes (s : Width) {w : Word} {x : ℚ} (hx : Binary64.value? w = some x) (hzero : x ≠ 0)
    (form : Form) (y : ℚ) :
    Writes form (float.render s w).toList y ↔
      y = significant 6 x ∧
        (form = .scientific ↔ Int.log 10 |y| < -4 ∨ 6 ≤ Int.log 10 |y|) := by
  obtain ⟨chosen, hwrites, hchosen⟩ := General.text_writes hx hzero
  change Writes chosen (float.render s w).toList (significant 6 x) at hwrites
  change chosen = .scientific ↔ Int.log 10 |significant 6 x| < -4 ∨ _ at hchosen
  constructor
  · intro h
    obtain ⟨rfl, rfl⟩ := h.unique hwrites
    exact ⟨rfl, hchosen⟩
  · rintro ⟨rfl, hform⟩
    have hsame : form = chosen := by
      have hboth := hform.trans hchosen.symm
      cases form <;> cases chosen <;> simp_all
    exact hsame ▸ hwrites

/-- The number 999999.5 is carried to a million, which is out of reach of the positional form. -/
theorem million_writes :
    Binary64.value? 0x412e847f00000000 = some (1999999 / 2) ∧ (1999999 / 2 : ℚ) ≠ 0 ∧
      float.render .w64 0x412e847f00000000 = "1e+06" ∧
      Writes .scientific (float.render .w64 0x412e847f00000000).toList 1000000 ∧
      1000000 = significant 6 (1999999 / 2) := by
  have hvalue : Binary64.value? 0x412e847f00000000 = some (1999999 / 2) := by
    have hword : (0x412e847f00000000 : Word).toNat = 0x412e847f00000000 := by decide
    rw [Binary64.value?, hword]
    norm_num
  have hzero : (1999999 / 2 : ℚ) ≠ 0 := by norm_num
  have htext : float.render .w64 0x412e847f00000000 = "1e+06" := by decide +kernel
  have hmillion : Writes .scientific (float.render .w64 0x412e847f00000000).toList 1000000 := by
    have hone : Pointed ['1'] ['1'] (1 : ℕ) := .integer (Radix.spells_toDigits .decimal 1)
    have hsix : Power ['+', '0', '6'] (6 : ℕ) :=
      .positive ((Radix.spells_toDigits .decimal 6).zeros 1) (by decide) (by decide)
    have hnumber := Unsigned.scientific hone (by decide) hsix
    rw [show ((1 : ℕ) : ℚ) * 10 ^ ((6 : ℕ) : ℤ) = 1000000 by norm_num] at hnumber
    rw [htext]
    exact .positive hnumber
  exact ⟨hvalue, hzero, htext, hmillion,
    ((float_writes .w64 hvalue hzero .scientific 1000000).mp hmillion).1⟩

end Style

end PeekPoke
