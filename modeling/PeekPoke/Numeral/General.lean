import PeekPoke.Numeral.Binary64
import PeekPoke.Text.Digits
set_option autoImplicit false

/-!
# General notation of binary64 numbers

A finite number is rounded to six significant digits, ties to even.  The power of ten of the rounded
number chooses the notation: positional from `10 ^ -4` up to below `10 ^ 6`, otherwise scientific
with a signed exponent of at least two digits.  The scientific notation shows the digits there are;
the positional one rounds the number itself, to as many decimals as six digits leave after the point.
Zeros at the end of the fraction are dropped, and the point with them when nothing is left after it.
-/

namespace PeekPoke.Numeral.General

/-- How many significant digits are kept. -/
def precision : Nat := 6

/-- The smallest power of ten written positionally. -/
def leastPositional : Int := -4

/-- A number rounded to `precision` digits: `digits * 10 ^ (exponent - precision + 1)`, where
`digits` has exactly `precision` digits. -/
structure Rounded where
  digits : Nat
  exponent : Int
  deriving DecidableEq, Repr, Inhabited

/-- Rounds a positive ratio.  Rounding up may carry into one more digit and so move the exponent. -/
def round (n d : Nat) : Rounded :=
  let e := floorLog 10 n d
  let (num, den) := scaleDown 10 n d (e - (precision - 1 : Nat))
  let digits := roundDiv num den
  if digits = Nat.pow 10 precision then ⟨Nat.pow 10 (precision - 1), e + 1⟩ else ⟨digits, e⟩

/-- A fraction without the zeros at its end. -/
def trimZeros (fraction : List Char) : List Char :=
  (fraction.reverse.dropWhile (· == '0')).reverse

/-- Digits before the point, and after it what is left of the fraction. -/
def pointed (whole fraction : List Char) : String :=
  match trimZeros fraction with
  | [] => String.ofList whole
  | rest => String.ofList whole ++ "." ++ String.ofList rest

/-- A signed exponent of at least two digits. -/
def exponentText (e : Int) : String :=
  let digits := Text.decimal e.natAbs
  (if e < 0 then "-" else "+") ++ (if e.natAbs < 10 then "0" ++ digits else digits)

/-- The scientific notation of a rounded number, with one digit before the point. -/
def Rounded.scientific (r : Rounded) : String :=
  let digits := Nat.toDigits 10 r.digits
  pointed (digits.take 1) (digits.drop 1) ++ "e" ++ exponentText r.exponent

/-- The positional notation of a ratio, rounded to a number of decimals. -/
def positional (decimals n d : Nat) : String :=
  let units := roundDiv (n * Nat.pow 10 decimals) d
  let digits := (Nat.toDigits 10 units).leftpad (decimals + 1) '0'
  pointed (digits.take (digits.length - decimals)) (digits.drop (digits.length - decimals))

/-- The text of a positive ratio. -/
def ratioText (n d : Nat) : String :=
  let r := round n d
  if leastPositional ≤ r.exponent ∧ r.exponent < precision then
    positional ((precision - 1 : Nat) - r.exponent).toNat n d
  else r.scientific

/-- The text of a magnitude. -/
def magnitudeText (m : Word) : String :=
  if Binary64.infinity < m then "nan"
  else if m = Binary64.infinity then "inf"
  else if m = 0 then "0"
  else
    let (n, d) := Binary64.ratio m
    ratioText n d

/-- The general notation of a word read as a binary64 number; the sign bit shows as a minus sign,
also on zero and on the words that are not numbers. -/
def text (w : Word) : String :=
  let magnitude := magnitudeText (Binary64.magnitude w)
  if Binary64.isNegative w then "-" ++ magnitude else magnitude

end PeekPoke.Numeral.General
