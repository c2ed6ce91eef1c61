import PeekPoke.Word
import PeekPoke.Numeral.Rounding
set_option autoImplicit false

/-!
# Words as binary64 numbers

A word read as a binary64 number is a sign and a magnitude of 63 bits.  A magnitude below
`infinity` stands for `significand * 2 ^ exponent`; `infinity` itself and the not-a-number
magnitudes above it stand for no ratio.  `nearest` goes the other way: the magnitude of the number
closest to a ratio, ties to the even significand, overflow to `infinity`.
-/

namespace PeekPoke.Numeral.Binary64

/-- The bit that carries the sign. -/
def signBit : Word := 0x8000000000000000

/-- The magnitude of infinity; the ones above it are not numbers. -/
def infinity : Word := 0x7ff0000000000000

/-- The magnitude of the not-a-number that the word `nan` denotes. -/
def nan : Word := 0x7ff8000000000000

/-- The word without its sign. -/
def magnitude (w : Word) : Word := w &&& 0x7fffffffffffffff

/-- Whether the sign bit is set. -/
def isNegative (w : Word) : Bool := w &&& signBit != 0

/-- The word with a sign put on a magnitude. -/
def withSign (negative : Bool) (magnitude : Word) : Word :=
  if negative then magnitude ||| signBit else magnitude

/-- The integer that, times `2 ^ exponent`, is the value of a finite magnitude. -/
def significand (m : Word) : Nat :=
  let fraction := m.toNat % (1 <<< 52)
  if m.toNat >>> 52 = 0 then fraction else (1 <<< 52) + fraction

/-- The power of two that goes with `significand`. -/
def exponent (m : Word) : Int := (max (m.toNat >>> 52) 1 : Nat) - 1075

/-- A finite magnitude as a ratio of natural numbers. -/
def ratio (m : Word) : Nat × Nat := scaleDown 2 (significand m) 1 (-exponent m)

/-- The magnitude nearest to `n / d`, for positive `d`. -/
def nearest (n d : Nat) : Word :=
  if n = 0 then 0
  else
    let e := max (floorLog 2 n d - 52) (-1074)
    let (num, den) := scaleDown 2 n d e
    let bits := ((e + 1074).toNat <<< 52) + roundDiv num den
    UInt64.ofNat (min bits infinity.toNat)

end PeekPoke.Numeral.Binary64
