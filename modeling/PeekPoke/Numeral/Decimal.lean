import PeekPoke.Numeral.Binary64
import PeekPoke.Numeral.Integer
set_option autoImplicit false

/-!
# Float literals

A float literal is a run of digits with an optional point and at least one digit, then optionally an
`e` or `E` and a signed power of ten; or one of the words `inf`, `infinity` and `nan` in any case.
Either may have a sign in front.  Its value is the binary64 number nearest to the decimal, computed
exactly, and the literal stands for that number's bits.
-/

namespace PeekPoke.Numeral

/-- The decimal number `digits * 10 ^ exponent`. -/
structure Decimal where
  digits : Nat
  exponent : Int
  deriving DecidableEq, Repr, Inhabited

namespace Decimal

/-- An optional sign: whether it is a minus, and the characters after it. -/
def splitSign : List Char → Bool × List Char
  | '-' :: rest => (true, rest)
  | '+' :: rest => (false, rest)
  | rest => (false, rest)

/-- The characters after the digits of a decimal: nothing, or a signed power of ten. -/
def power? : List Char → Option Int
  | [] => some 0
  | c :: rest =>
    let (negative, digits) := splitSign rest
    if (c == 'e' || c == 'E') && !digits.isEmpty && digits.all Radix.decimal.isDigit then
      let n : Int := Radix.decimal.value digits
      some (if negative then -n else n)
    else
      none

/-- Reads an unsigned decimal. -/
def read? (text : List Char) : Option Decimal :=
  let isDigit := Radix.decimal.isDigit
  let whole := text.takeWhile isDigit
  let (fraction, rest) :=
    match text.dropWhile isDigit with
    | '.' :: tail => (tail.takeWhile isDigit, tail.dropWhile isDigit)
    | tail => ([], tail)
  if whole.isEmpty && fraction.isEmpty then none
  else
    (power? rest).map fun power =>
      { digits := Radix.decimal.value (whole ++ fraction), exponent := power - fraction.length }

/-- Powers of ten from here on are above every finite binary64 number. -/
def largestPower : Int := 310

/-- Numbers below this power of ten are nearer to zero than to any binary64 number but zero. -/
def smallestPower : Int := -330

/-- The magnitude of the nearest binary64 number.  A decimal far outside the range is settled by its
number of digits, so that no large power is formed. -/
def magnitude (d : Decimal) : Word :=
  let size : Int := digitsAfterFirst 10 d.digits + 1 + d.exponent
  if d.digits = 0 ∨ size < smallestPower then 0
  else if largestPower < size then Binary64.infinity
  else
    let (num, den) := scaleDown 10 d.digits 1 (-d.exponent)
    Binary64.nearest num den

end Decimal

/-- The magnitudes that are written as words. -/
def namedMagnitude? (text : List Char) : Option Word :=
  let word := String.ofList (text.map Char.toLower)
  if word == "nan" then some Binary64.nan
  else if word == "inf" || word == "infinity" then some Binary64.infinity
  else none

/-- Reads a float literal into the bits of a binary64 number. -/
def float (text : String) : Except LiteralError Word :=
  let (negative, rest) := Decimal.splitSign text.toList
  match (Decimal.read? rest).map Decimal.magnitude <|> namedMagnitude? rest with
  | some magnitude => .ok (Binary64.withSign negative magnitude)
  | none => .error (.invalid text)

end PeekPoke.Numeral
