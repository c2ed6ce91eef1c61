set_option autoImplicit false

/-!
# Rounding of positive ratios

Exact arithmetic on `n / d` with natural numbers: the nearest natural number, with a tie going to
the even neighbour, and the greatest power of a base that is not above the ratio.  Both the reading
and the printing of floating-point words rest on these two.
-/

namespace PeekPoke.Numeral

/-- The natural number nearest to `n / d`; half-way cases go to the even neighbour. -/
def roundDiv (n d : Nat) : Nat :=
  let q := n / d
  let r := n % d
  if 2 * r < d then q
  else if d < 2 * r then q + 1
  else q + q % 2

/-- `n / d` scaled by `base ^ -e` as a pair of natural numbers. -/
def scaleDown (base n d : Nat) (e : Int) : Nat × Nat :=
  match e with
  | .ofNat k => (n, d * base.pow k)
  | .negSucc k => (n * base.pow (k + 1), d)

/-- The leading digit of `n` in a base, and the number of digits after it.  The digits are split off
in ever larger groups, so this takes few divisions. -/
def leading (base n : Nat) : Nat × Nat :=
  if 2 ≤ base ∧ base ≤ n then
    let (q, e) := leading (base * base) n
    if q < base then (q, 2 * e) else (q / base, 2 * e + 1)
  else (n, 0)
termination_by n + 1 - base
decreasing_by
  rename_i h
  have : base * 2 ≤ base * base := Nat.mul_le_mul_left base h.1
  omega

/-- The number of digits of `n` in a base, without the first one. -/
def digitsAfterFirst (base n : Nat) : Nat := (leading base n).2

/-- The integer `e` with `base ^ e ≤ n / d < base ^ (e + 1)`, for positive `n` and `d` and a base
of at least two: the difference of the digit counts, or one less. -/
def floorLog (base n d : Nat) : Int :=
  let e : Int := digitsAfterFirst base n - digitsAfterFirst base d
  let (num, den) := scaleDown base n d e
  if den ≤ num then e else e - 1

/-- The leading digit is what the power of the base that belongs to it leaves of a number. -/
theorem leading_spec {base n : Nat} (hb : 2 ≤ base) (hn : 0 < n) :
    (leading base n).1 = n / base.pow (leading base n).2 ∧ 0 < (leading base n).1 ∧
      (leading base n).1 < base := by
  rw [Nat.pow_eq]
  fun_induction leading base n with
  | case1 base h q e hqe hlt ih =>
    have hsq : base * 2 ≤ base * base := Nat.mul_le_mul_left base hb
    obtain ⟨hq, hpos, _⟩ := hqe ▸ ih (by omega)
    refine ⟨?_, hpos, hlt⟩
    rw [hq, Nat.pow_mul, Nat.pow_two]
  | case2 base h q e hqe hlt ih =>
    have hsq : base * 2 ≤ base * base := Nat.mul_le_mul_left base hb
    obtain ⟨hq, _, hup⟩ := hqe ▸ ih (by omega)
    refine ⟨?_, Nat.div_pos (Nat.le_of_not_lt hlt) (by omega), Nat.div_lt_of_lt_mul hup⟩
    show q / base = n / base ^ (2 * e + 1)
    rw [Nat.pow_succ, ← Nat.div_div_eq_div_mul, Nat.pow_mul, Nat.pow_two]
    exact congrArg (· / base) hq
  | case3 base h => exact ⟨by simp, hn, by omega⟩

end PeekPoke.Numeral
