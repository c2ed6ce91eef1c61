import Mathlib.Algebra.Order.Floor.Ring
import Mathlib.Data.Int.Log
import Mathlib.Data.Rat.Floor
import Mathlib.Tactic.FieldSimp
import Mathlib.Tactic.Linarith
import Mathlib.Tactic.Positivity
import PeekPoke.Numeral.General
set_option autoImplicit false

/-!
# Rounding to decimal digits

What it means to round a rational number, ties to even, to an integer (`nearestEven`) and to some
significant decimal digits (`significant`), and that the exact arithmetic on ratios of natural numbers
does that (`roundDiv_eq`, `floorLog_eq`).  Main statement: the number that a ratio is rounded to has
six digits, is the ratio in six significant digits, and also the ratio rounded directly at the place
of the last digit, even if a carry has moved that place (`General.rounds_round`).
-/

namespace PeekPoke.Numeral

/-! ## Rounding to an integer -/

/-- The integer nearest to a number; of two that are equally near, the even one. -/
def nearestEven (q : ℚ) : ℤ :=
  if Int.fract q < 1 / 2 ∨ Int.fract q = 1 / 2 ∧ Even ⌊q⌋ then ⌊q⌋ else ⌊q⌋ + 1

/-- The integer is at most half a unit away from the number, and if it is half a unit away, it is
even. -/
def IsNearest (q : ℚ) (k : ℤ) : Prop := |q - k| ≤ 1 / 2 ∧ (|q - k| = 1 / 2 → Even k)

variable {q : ℚ} {k : ℤ}

theorem isNearest_nearestEven (q : ℚ) : IsNearest q (nearestEven q) := by
  have hlow : 0 ≤ Int.fract q := Int.fract_nonneg q
  have hhigh : Int.fract q < 1 := Int.fract_lt_one q
  have hfloor : q - ⌊q⌋ = Int.fract q := rfl
  unfold nearestEven
  split
  · rename_i h
    unfold IsNearest
    rw [hfloor, abs_of_nonneg hlow]
    rcases h with h | ⟨h, heven⟩
    · exact ⟨h.le, fun htie => absurd htie h.ne⟩
    · exact ⟨h.le, fun _ => heven⟩
  · rename_i h
    obtain ⟨hhalf, htie⟩ := not_or.mp h
    have habove : q - (⌊q⌋ + 1 : ℤ) = Int.fract q - 1 := by
      rw [← hfloor]
      push_cast
      ring
    unfold IsNearest
    rw [habove, abs_of_neg (by linarith)]
    refine ⟨by linarith, fun hequal => Int.even_add_one.mpr fun heven => ?_⟩
    exact htie ⟨by linarith, heven⟩

/-- Two integers next to each other are not both even. -/
theorem IsNearest.le {j : ℤ} (hj : IsNearest q j) (hk : IsNearest q k) : k ≤ j := by
  by_contra! hlt
  obtain ⟨hj, hjeven⟩ := hj
  obtain ⟨hk, hkeven⟩ := hk
  have hstep : (j : ℚ) + 1 ≤ k := by exact_mod_cast hlt
  obtain ⟨-, hj⟩ := abs_le.mp hj
  obtain ⟨hk, -⟩ := abs_le.mp hk
  have hmiddle : q = j + 1 / 2 := by linarith
  have hnext : k = j + 1 := by
    have hcast : (k : ℚ) = (j + 1 : ℤ) := by
      push_cast
      linarith
    exact_mod_cast hcast
  have hodd : Even (j + 1) := by
    refine hnext ▸ hkeven ?_
    rw [hmiddle, hnext]
    push_cast
    rw [abs_of_neg (by linarith)]
    ring
  refine Int.even_add_one.mp hodd (hjeven ?_)
  rw [hmiddle, add_sub_cancel_left, abs_of_pos (by norm_num)]

theorem nearestEven_eq_iff : nearestEven q = k ↔ IsNearest q k := by
  constructor
  · rintro rfl
    exact isNearest_nearestEven q
  · intro h
    exact le_antisymm (h.le (isNearest_nearestEven q)) ((isNearest_nearestEven q).le h)

theorem nearestEven_neg (q : ℚ) : nearestEven (-q) = -nearestEven q := by
  obtain ⟨hnear, heven⟩ := isNearest_nearestEven q
  have hsame : |-q - (-nearestEven q : ℤ)| = |q - nearestEven q| := by
    rw [← abs_neg]
    push_cast
    ring_nf
  exact nearestEven_eq_iff.mpr
    ⟨hsame ▸ hnear, fun htie => (heven (hsame ▸ htie)).neg⟩

/-- Rounding passes over no integer. -/
theorem le_nearestEven (h : (k : ℚ) ≤ q) : k ≤ nearestEven q := by
  obtain ⟨-, hnear⟩ := abs_le.mp (isNearest_nearestEven q).1
  have hlt : (k : ℚ) < (nearestEven q + 1 : ℤ) := by
    push_cast
    linarith
  exact Int.lt_add_one_iff.mp (by exact_mod_cast hlt)

theorem nearestEven_le (h : q ≤ k) : nearestEven q ≤ k := by
  obtain ⟨hnear, -⟩ := abs_le.mp (isNearest_nearestEven q).1
  have hlt : (nearestEven q : ℚ) < (k + 1 : ℤ) := by
    push_cast
    linarith
  exact Int.lt_add_one_iff.mp (by exact_mod_cast hlt)

/-- What is rounded to a multiple of ten is so near to it that it is rounded to the same number at a
place that counts for ten times as much. -/
theorem nearestEven_div_ten (h : nearestEven q = 10 * k) : nearestEven (q / 10) = k := by
  obtain ⟨hnear, -⟩ := isNearest_nearestEven q
  rw [h] at hnear
  push_cast at hnear
  have hless : |q / 10 - k| < 1 / 2 := by
    have hscaled : q / 10 - k = (q - 10 * k) / 10 := by ring
    rw [hscaled, abs_div, abs_of_pos (by norm_num : (0 : ℚ) < 10)]
    linarith
  exact nearestEven_eq_iff.mpr ⟨hless.le, fun htie => absurd htie hless.ne⟩

/-! ## Ratios of natural numbers -/

variable {n d base : ℕ}

theorem roundDiv_eq (n : ℕ) (hd : 0 < d) : (roundDiv n d : ℤ) = nearestEven (n / d) := by
  have hd' : (0 : ℚ) < d := by exact_mod_cast hd
  have hfloor : ⌊(n / d : ℚ)⌋ = (n / d : ℕ) := Rat.floor_natCast_div_natCast n d
  have hfract : Int.fract (n / d : ℚ) = (n % d : ℕ) / d := Int.fract_div_natCast_eq_div_natCast_mod
  have hless : Int.fract (n / d : ℚ) < 1 / 2 ↔ 2 * (n % d) < d := by
    rw [hfract, div_lt_div_iff₀ hd' (by norm_num), one_mul, mul_comm]
    exact_mod_cast Iff.rfl
  have htie : Int.fract (n / d : ℚ) = 1 / 2 ↔ 2 * (n % d) = d := by
    rw [hfract, div_eq_div_iff hd'.ne' (by norm_num), one_mul, mul_comm]
    exact_mod_cast Iff.rfl
  have heven : Even ((n / d : ℕ) : ℤ) ↔ n / d % 2 = 0 := by
    rw [Int.even_coe_nat, Nat.even_iff]
  unfold nearestEven roundDiv
  simp only [hless, htie, hfloor, heven]
  split
  · rw [if_pos (Or.inl ‹_›)]
  · split
    · rw [if_neg (by omega)]
      push_cast
      rfl
    · by_cases hparity : n / d % 2 = 0
      · rw [if_pos (by omega), hparity, Nat.add_zero]
      · rw [if_neg (by omega), show n / d % 2 = 1 by omega]
        push_cast
        rfl

theorem digitsAfterFirst_eq (hbase : 2 ≤ base) (hn : 0 < n) :
    digitsAfterFirst base n = Nat.log base n := by
  obtain ⟨hfirst, hpos, hless⟩ := leading_spec hbase hn
  rw [Nat.pow_eq] at hfirst
  have hpower : 0 < base ^ (leading base n).2 := Nat.pow_pos (by omega)
  rw [hfirst] at hpos hless
  refine ((Nat.log_eq_iff (Or.inr ⟨hbase, hn.ne'⟩)).mpr ⟨?_, ?_⟩).symm
  · exact (Nat.div_pos_iff.mp hpos).2
  · rw [Nat.pow_succ, Nat.mul_comm]
    exact (Nat.div_lt_iff_lt_mul hpower).mp hless

/-- A scaled ratio, as a number. -/
theorem scaleDown_eq (hbase : 0 < base) (n : ℕ) (hd : 0 < d) (e : ℤ) :
    0 < (scaleDown base n d e).2 ∧
      ((scaleDown base n d e).1 : ℚ) / (scaleDown base n d e).2 = n / d / (base : ℚ) ^ e := by
  have hbase' : (base : ℚ) ≠ 0 := by exact_mod_cast hbase.ne'
  cases e with
  | ofNat k =>
    refine ⟨Nat.mul_pos hd (Nat.pow_pos hbase), ?_⟩
    simp only [scaleDown, Nat.pow_eq, Int.ofNat_eq_natCast, zpow_natCast]
    push_cast
    rw [div_div]
  | negSucc k =>
    refine ⟨hd, ?_⟩
    simp only [scaleDown, Nat.pow_eq, zpow_negSucc]
    push_cast
    rw [div_inv_eq_mul, div_mul_eq_mul_div]

/-- The power of the base that a ratio reaches. -/
theorem floorLog_eq (hbase : 2 ≤ base) (hn : 0 < n) (hd : 0 < d) :
    floorLog base n d = Int.log base (n / d : ℚ) := by
  have hbase' : (0 : ℚ) < base := by exact_mod_cast (by omega : 0 < base)
  have hn' : (0 : ℚ) < n := by exact_mod_cast hn
  have hd' : (0 : ℚ) < d := by exact_mod_cast hd
  have hratio : (0 : ℚ) < n / d := div_pos hn' hd'
  have hnlow : (base : ℚ) ^ Nat.log base n ≤ n := by exact_mod_cast Nat.pow_log_le_self base hn.ne'
  have hnhigh : (n : ℚ) < (base : ℚ) ^ (Nat.log base n + 1) := by
    exact_mod_cast Nat.lt_pow_succ_log_self hbase n
  have hdlow : (base : ℚ) ^ Nat.log base d ≤ d := by exact_mod_cast Nat.pow_log_le_self base hd.ne'
  have hdhigh : (d : ℚ) < (base : ℚ) ^ (Nat.log base d + 1) := by
    exact_mod_cast Nat.lt_pow_succ_log_self hbase d
  unfold floorLog
  rw [digitsAfterFirst_eq hbase hn, digitsAfterFirst_eq hbase hd]
  -- The logarithms of the two numbers leave two powers to choose from; a comparison decides.
  generalize he : (Nat.log base n : ℤ) - Nat.log base d = e
  have hlow : (base : ℚ) ^ (e - 1) ≤ n / d := by
    have hsplit : e - 1 = (Nat.log base n : ℤ) - (Nat.log base d + 1 : ℕ) := by
      push_cast
      omega
    rw [hsplit, zpow_sub₀ hbase'.ne', zpow_natCast, zpow_natCast]
    exact div_le_div₀ hn'.le hnlow hd' hdhigh.le
  have hhigh : (n / d : ℚ) < (base : ℚ) ^ (e + 1) := by
    have hsplit : e + 1 = (Nat.log base n + 1 : ℕ) - (Nat.log base d : ℤ) := by
      push_cast
      omega
    rw [hsplit, zpow_sub₀ hbase'.ne', zpow_natCast, zpow_natCast]
    exact div_lt_div₀ hnhigh hdlow (pow_pos hbase' _).le (pow_pos hbase' _)
  have hreaches : (scaleDown base n d e).2 ≤ (scaleDown base n d e).1 ↔
      (base : ℚ) ^ e ≤ n / d := by
    obtain ⟨hden, hscaled⟩ := scaleDown_eq (by omega : 0 < base) n hd e
    have hden' : (0 : ℚ) < (scaleDown base n d e).2 := by exact_mod_cast hden
    rw [← one_le_div (zpow_pos hbase' e), ← hscaled, one_le_div hden']
    exact_mod_cast Iff.rfl
  rw [Int.zpow_le_iff_le_log hbase hratio] at hlow hreaches
  rw [Int.lt_zpow_iff_log_lt hbase hratio] at hhigh
  dsimp only
  split
  · have := hreaches.mp ‹_›
    omega
  · have := mt hreaches.mpr ‹_›
    omega

/-! ## Significant digits -/

/-- A number rounded to some significant decimal digits, ties to even. -/
def significant (digits : ℕ) (x : ℚ) : ℚ :=
  let unit : ℚ := 10 ^ (Int.log 10 |x| - (digits - 1))
  nearestEven (x / unit) * unit

theorem significant_neg (digits : ℕ) (x : ℚ) : significant digits (-x) = -significant digits x := by
  simp only [significant, abs_neg, neg_div, nearestEven_neg, Int.cast_neg, neg_mul]

/-- Places of digits. -/
theorem ten_pow_mul (k : ℕ) (e : ℤ) : (10 : ℚ) ^ k * 10 ^ (e - k) = 10 ^ e := by
  rw [← zpow_natCast, ← zpow_add₀ (by norm_num), add_sub_cancel]

namespace General

/-- The number was rounded to this, and would also have been if only the place of the last digit had
been given. -/
structure Rounded.Rounds (r : Rounded) (x : ℚ) : Prop where
  least : 10 ^ 5 ≤ r.digits
  below : r.digits < 10 ^ 6
  value : significant precision x = r.digits * 10 ^ (r.exponent - 5)
  nearest : nearestEven (x / 10 ^ (r.exponent - 5)) = r.digits

/-- The exponent of a rounded number is where its first digit stands. -/
theorem Rounded.Rounds.log {r : Rounded} {x : ℚ} (h : r.Rounds x) :
    Int.log 10 |significant precision x| = r.exponent := by
  have hunit : (0 : ℚ) < 10 ^ (r.exponent - 5) := zpow_pos (by norm_num) _
  have hleast : (10 ^ 5 : ℚ) ≤ r.digits := by exact_mod_cast h.least
  have hbelow : (r.digits : ℚ) < 10 ^ 6 := by exact_mod_cast h.below
  have hlow : (10 : ℚ) ^ r.exponent ≤ r.digits * 10 ^ (r.exponent - 5) := by
    rw [← ten_pow_mul 5 r.exponent]
    exact mul_le_mul_of_nonneg_right hleast hunit.le
  have hhigh : r.digits * (10 : ℚ) ^ (r.exponent - 5) < 10 ^ (r.exponent + 1) := by
    rw [← ten_pow_mul 6 (r.exponent + 1), show r.exponent + 1 - (6 : ℕ) = r.exponent - 5 by omega]
    exact mul_lt_mul_of_pos_right hbelow hunit
  have hpos : (0 : ℚ) < r.digits * 10 ^ (r.exponent - 5) := (zpow_pos (by norm_num) _).trans_le hlow
  rw [h.value, abs_of_pos hpos]
  refine le_antisymm (Int.lt_add_one_iff.mp ?_) ?_
  · exact (Int.lt_zpow_iff_log_lt (b := 10) (by decide) hpos).mp hhigh
  · exact (Int.zpow_le_iff_le_log (b := 10) (by decide) hpos).mp hlow

/-- A number of six digits at the place of the first digit; if it came out as the least one of seven
digits, the first digit is at the next place. -/
theorem rounds_carry {x : ℚ} {e : ℤ} {digits : ℕ}
    (hdigits : (digits : ℤ) = nearestEven (x / 10 ^ (e - 5))) (hleast : 10 ^ 5 ≤ digits)
    (hmost : digits ≤ 10 ^ 6) (hvalue : significant precision x = digits * 10 ^ (e - 5)) :
    Rounded.Rounds
      (if digits = Nat.pow 10 precision then ⟨Nat.pow 10 (precision - 1), e + 1⟩ else ⟨digits, e⟩)
      x := by
  split
  · rename_i hcarry
    have hplace : (10 : ℚ) ^ (e + 1 - 5) = 10 ^ (e - 5) * 10 := by
      rw [show e + 1 - 5 = e - 5 + 1 by omega, zpow_add_one₀ (by norm_num)]
    refine ⟨le_rfl, by show 10 ^ 5 < 10 ^ 6; decide, ?_, ?_⟩
    · show significant precision x = (10 ^ 5 : ℕ) * 10 ^ (e + 1 - 5)
      rw [hvalue, hcarry, hplace]
      simp only [precision, Nat.pow_eq]
      push_cast
      ring
    · show nearestEven (x / 10 ^ (e + 1 - 5)) = (10 ^ 5 : ℕ)
      rw [hplace, ← div_div]
      refine nearestEven_div_ten ?_
      rw [← hdigits, hcarry]
      rfl
  · rename_i hfits
    exact ⟨hleast, Nat.lt_of_le_of_ne hmost hfits, hvalue, hdigits.symm⟩

/-- Rounding a ratio. -/
theorem rounds_round {n d : ℕ} (hn : 0 < n) (hd : 0 < d) : (round n d).Rounds (n / d) := by
  have hn' : (0 : ℚ) < n := by exact_mod_cast hn
  have hd' : (0 : ℚ) < d := by exact_mod_cast hd
  have hratio : (0 : ℚ) < n / d := div_pos hn' hd'
  have hlog : floorLog 10 n d = Int.log 10 (n / d : ℚ) := floorLog_eq (by decide) hn hd
  unfold round
  rw [hlog]
  generalize he : Int.log 10 (n / d : ℚ) = e
  have hunit : (0 : ℚ) < 10 ^ (e - 5) := zpow_pos (by norm_num) _
  obtain ⟨hden, hscaled⟩ := scaleDown_eq (by decide : 0 < 10) n hd (e - (precision - 1 : ℕ))
  have hdigits := roundDiv_eq (scaleDown 10 n d (e - (precision - 1 : ℕ))).1 hden
  rw [hscaled] at hdigits
  have hleast : 10 ^ 5 ≤ nearestEven (n / d / 10 ^ (e - 5)) := by
    have hle := Int.zpow_log_le_self (b := 10) (by decide) hratio
    rw [he, Nat.cast_ofNat, ← ten_pow_mul 5] at hle
    exact le_nearestEven (by rw [le_div_iff₀ hunit]; exact_mod_cast hle)
  have hmost : nearestEven (n / d / 10 ^ (e - 5)) ≤ 10 ^ 6 := by
    have hlt := Int.lt_zpow_succ_log_self (b := 10) (by decide) (n / d : ℚ)
    rw [he, Nat.cast_ofNat, ← ten_pow_mul 6, show e + 1 - (6 : ℕ) = e - 5 by omega] at hlt
    exact nearestEven_le (by rw [div_le_iff₀ hunit]; exact_mod_cast hlt.le)
  have hvalue : significant precision (n / d) = nearestEven (n / d / 10 ^ (e - 5)) * 10 ^ (e - 5) := by
    unfold significant
    rw [abs_of_pos hratio, he]
    rfl
  refine rounds_carry hdigits ?_ ?_ ?_
  · exact_mod_cast hdigits ▸ hleast
  · exact_mod_cast hdigits ▸ hmost
  · rw [hvalue, ← Int.cast_natCast]
    exact congrArg (fun k : ℤ => (k : ℚ) * 10 ^ (e - 5)) hdigits.symm

end General

end PeekPoke.Numeral
