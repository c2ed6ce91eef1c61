import PeekPoke.Text.Printable
set_option autoImplicit false

/-!
# Quoted text

A text between double quotes.  A quote or a backslash inside gets a backslash, tab, line feed,
carriage return and NUL have their letter, and every other hidden character is written as its code
point in braces.
-/

namespace PeekPoke.Text

/-- How one character is written between quotes. -/
def quotedChar (c : Char) : String :=
  if c = '"' then "\\\""
  else if c = '\\' then "\\\\"
  else if c = '\t' then "\\t"
  else if c = '\n' then "\\n"
  else if c = '\r' then "\\r"
  else if c = '\x00' then "\\0"
  else if isHidden c then
    "\\u\x7b" ++ String.ofList (Nat.toDigits 16 c.toNat) ++ "\x7d"
  else c.toString

/-- The text between double quotes. -/
def quoted (text : String) : String :=
  text.foldl (fun t c => t ++ quotedChar c) "\"" ++ "\""

end PeekPoke.Text
