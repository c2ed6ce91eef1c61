import PeekPoke.Word
set_option autoImplicit false

/-!
# Operators

The operators of a script, their symbols, and what they compute.  Arithmetic wraps modulo `2 ^ 64`,
a shift by 64 or more moves every bit out, comparisons and logical operators yield `Word.yes` or
`Word.no`.  Division and remainder have no result for a zero divisor, which is the only way
`BinaryOp.value?` can fail (`value?_eq_none_iff`).
-/

namespace PeekPoke

/-- Binary operators.  The `signed` comparisons read both sides as two's complement numbers, all
other operators are unsigned. -/
inductive BinaryOp where
  | add
  | sub
  | mul
  | div
  | mod
  | shl
  | shr
  | lt
  | gt
  | le
  | ge
  | eq
  | ne
  | signedLt
  | signedGt
  | signedLe
  | signedGe
  | bitAnd
  | bitXor
  | bitOr
  | and
  | xor
  | or
  deriving DecidableEq, Repr, Inhabited

namespace BinaryOp

/-- How the operator is written in a script. -/
def symbol : BinaryOp → String
  | add => "+"
  | sub => "-"
  | mul => "*"
  | div => "/"
  | mod => "%"
  | shl => "<<"
  | shr => ">>"
  | lt => "<"
  | gt => ">"
  | le => "<="
  | ge => ">="
  | eq => "=="
  | ne => "!="
  | signedLt => "<+"
  | signedGt => ">+"
  | signedLe => "<=+"
  | signedGe => ">=+"
  | bitAnd => "&"
  | bitXor => "^"
  | bitOr => "|"
  | and => "&&"
  | xor => "^^"
  | or => "||"

/-- The result the left operand alone decides, for the operators that then skip the right one. -/
def decided? : BinaryOp → Word → Option Word
  | and, l => if l = 0 then some Word.no else none
  | or, l => if l = 0 then none else some Word.yes
  | _, _ => none

/-- Whether the right operand is only evaluated when the left one leaves the result open. -/
def isShortCircuit : BinaryOp → Bool
  | and => true
  | or => true
  | _ => false

/-- The operator's value on two words; `none` for a zero divisor. -/
def value? (op : BinaryOp) (l r : Word) : Option Word :=
  match op with
  | add => some (l + r)
  | sub => some (l - r)
  | mul => some (l * r)
  | div => if r = 0 then none else some (l / r)
  | mod => if r = 0 then none else some (l % r)
  | shl => some (if r < 64 then l <<< r else 0)
  | shr => some (if r < 64 then l >>> r else 0)
  | lt => some (Word.ofBool (l < r))
  | gt => some (Word.ofBool (l > r))
  | le => some (Word.ofBool (l ≤ r))
  | ge => some (Word.ofBool (l ≥ r))
  | eq => some (Word.ofBool (l == r))
  | ne => some (Word.ofBool (l != r))
  | signedLt => some (Word.ofBool (l.signed < r.signed))
  | signedGt => some (Word.ofBool (l.signed > r.signed))
  | signedLe => some (Word.ofBool (l.signed ≤ r.signed))
  | signedGe => some (Word.ofBool (l.signed ≥ r.signed))
  | bitAnd => some (l &&& r)
  | bitXor => some (l ^^^ r)
  | bitOr => some (l ||| r)
  | and => some (Word.ofBool (l != 0 && r != 0))
  | xor => some (Word.ofBool ((l != 0) != (r != 0)))
  | or => some (Word.ofBool (l != 0 || r != 0))

/-- An operator has no value exactly when it divides by zero. -/
theorem value?_eq_none_iff (op : BinaryOp) (l r : Word) :
    op.value? l r = none ↔ (op = div ∨ op = mod) ∧ r = 0 := by
  cases op <;> simp [value?]

/-- What the left operand decides is what the operator yields for every right operand. -/
theorem value?_of_decided? {op : BinaryOp} {l v : Word} (h : op.decided? l = some v) (r : Word) :
    op.value? l r = some v := by
  cases op <;> simp [decided?] at h
  · simp [value?, h.1, ← h.2, Word.ofBool]
  · simp [value?, h.1, ← h.2, Word.ofBool]

end BinaryOp

/-- Unary operators. -/
inductive UnaryOp where
  | neg
  | bitNot
  | not
  deriving DecidableEq, Repr, Inhabited

namespace UnaryOp

/-- How the operator is written in a script. -/
def symbol : UnaryOp → String
  | neg => "-"
  | bitNot => "~"
  | not => "!"

/-- Two's complement negation, bitwise complement, or the test for zero. -/
def apply : UnaryOp → Word → Word
  | neg, w => -w
  | bitNot, w => ~~~w
  | not, w => Word.ofBool (w == 0)

end UnaryOp

end PeekPoke
