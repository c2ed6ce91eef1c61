import PeekPoke.Text.Digits
set_option autoImplicit false

/-!
# Source locations

Every construct of a script remembers the unit it comes from and its line and column there.
Constructs that come from no file (interactive or generated ones) have an empty file name.
-/

namespace PeekPoke

/-- A position in a unit of a script; lines and columns count from one. -/
structure Location where
  file : String
  line : Nat
  column : Nat
  deriving DecidableEq, Repr, Inhabited

namespace Location

/-- The location of a construct that comes from no file. -/
def unknown : Location := ⟨"", 0, 0⟩

/-- Another position of the same unit. -/
def moveTo (l : Location) (line column : Nat) : Location := { l with line, column }

/-- `file:line:column`, without the first part when the unit has no name. -/
def text (l : Location) : String :=
  let position := Text.decimal l.line ++ ":" ++ Text.decimal l.column
  if l.file.isEmpty then position else l.file ++ ":" ++ position

@[simp] theorem moveTo_file (l : Location) (line column : Nat) :
    (l.moveTo line column).file = l.file := rfl

@[simp] theorem moveTo_moveTo (l : Location) (a b c d : Nat) :
    (l.moveTo a b).moveTo c d = l.moveTo c d := rfl

end Location

end PeekPoke
