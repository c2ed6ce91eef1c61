import PeekPoke.Word
set_option autoImplicit false

/-!
# Integer literals

An integer literal is a nonempty run of decimal digits, or of hexadecimal digits after `0x`, or of
binary digits after `0b`; the letter after the zero may be a capital.  Digits are ASCII, there is no
sign and no separator, and leading zeros are free.  A literal of this form is refused only if its
value needs more than 64 bits.
-/

namespace PeekPoke.Numeral

/-- Why a text is not the literal it should be. -/
inductive LiteralError where
  | invalid (text : String)
  | outOfRange (text : String)
  deriving DecidableEq, Repr, Inhabited

/-- What is said of a refused literal. -/
def LiteralError.message : LiteralError → String
  | invalid text => "invalid numeric literal `" ++ text ++ "`"
  | outOfRange text => "numeric literal `" ++ text ++ "` does not fit into 64 bits"

/-- The notations of integer literals. -/
inductive Radix where
  | binary
  | decimal
  | hexadecimal
  deriving DecidableEq, Repr, Inhabited

namespace Radix

/-- How many digits the notation has. -/
def base : Radix → Nat
  | binary => 2
  | decimal => 10
  | hexadecimal => 16

/-- The value of a digit of the widest notation. -/
def digitValue? (c : Char) : Option Nat :=
  if '0' ≤ c ∧ c ≤ '9' then some (c.toNat - '0'.toNat)
  else if 'a' ≤ c ∧ c ≤ 'f' then some (c.toNat - 'a'.toNat + 10)
  else if 'A' ≤ c ∧ c ≤ 'F' then some (c.toNat - 'A'.toNat + 10)
  else none

/-- Whether `c` is a digit of the notation. -/
def isDigit (r : Radix) (c : Char) : Bool := (digitValue? c).any (· < r.base)

/-- The positional value of a run of digits. -/
def value (r : Radix) (digits : List Char) : Nat :=
  digits.foldl (fun n c => n * r.base + (digitValue? c).getD 0) 0

/-- The notation a literal announces, and the characters that have to be its digits. -/
def split : List Char → Radix × List Char
  | '0' :: 'x' :: digits => (hexadecimal, digits)
  | '0' :: 'X' :: digits => (hexadecimal, digits)
  | '0' :: 'b' :: digits => (binary, digits)
  | '0' :: 'B' :: digits => (binary, digits)
  | digits => (decimal, digits)

end Radix

/-- Reads an integer literal. -/
def integer (text : String) : Except LiteralError Word :=
  let (radix, digits) := Radix.split text.toList
  if digits.isEmpty || !digits.all radix.isDigit then
    .error (.invalid text)
  else if radix.value digits < UInt64.size then
    .ok (UInt64.ofNat (radix.value digits))
  else
    .error (.outOfRange text)

end PeekPoke.Numeral
