set_option autoImplicit false

/-!
# Digits of natural numbers

The two plain spellings of a natural number that messages, traces and printed words use.  Neither
has leading zeros, and zero itself is one digit.
-/

namespace PeekPoke.Text

/-- Decimal digits. -/
def decimal (n : Nat) : String := String.ofList (Nat.toDigits 10 n)

/-- Lower-case hexadecimal digits after `0x`. -/
def hex (n : Nat) : String := "0x" ++ String.ofList (Nat.toDigits 16 n)

/-- Decimal digits, after a minus sign for a negative number. -/
def signedDecimal : Int → String
  | .ofNat n => decimal n
  | .negSucc n => "-" ++ decimal (n + 1)

end PeekPoke.Text
