import PeekPoke.Numeral.General
set_option autoImplicit false

/-!
# Print formats

How `print` writes a word: a style and, optionally, a width.  A format without a width takes the
default width of the environment when the print statement is built.  The word is cut to the width
first, or sign-extended from it by the signed style; only the float style reads all 64 bits.
-/

namespace PeekPoke

/-- The way a word is written. -/
inductive Style where
  | decimal
  | signed
  | hex
  | binary
  | float
  deriving DecidableEq, Repr, Inhabited

namespace Style

/-- `0x` and exactly two digits for each byte of the width. -/
def hexText (s : Width) (w : Word) : String :=
  "0x" ++ String.ofList ((Nat.toDigits 16 (s.truncate w).toNat).leftpad (2 * s.bytes) '0')

/-- The lowest `n` bits of `w`, most significant first, with a space after each bit whose position
is a positive multiple of four. -/
def bitGroups (w : Word) : Nat → List Char
  | 0 => []
  | i + 1 =>
    let bit := if w.toNat.testBit i then '1' else '0'
    if 0 < i ∧ i % 4 = 0 then bit :: ' ' :: bitGroups w i else bit :: bitGroups w i

/-- The text of a word in a style at a width. -/
def render (style : Style) (s : Width) (w : Word) : String :=
  match style with
  | decimal => Text.decimal (s.truncate w).toNat
  | signed => Text.signedDecimal (s.signExtend w)
  | hex => hexText s w
  | binary => String.ofList (bitGroups w s.bits)
  | float => Numeral.General.text w

end Style

/-- A style and the width it was given, if any. -/
structure PrintFormat where
  style : Style
  width? : Option Width
  deriving DecidableEq, Repr, Inhabited

namespace PrintFormat

/-- The width of the format: its own, or else the default. -/
def width (f : PrintFormat) (default : Width) : Width := f.width?.getD default

/-- Whether the style can be written at the width: floats need all 64 bits. -/
def fits (style : Style) (s : Width) : Bool := style != .float || s == .w64

end PrintFormat

end PeekPoke
