import Mathlib.Data.Int.ModEq
import PeekPoke.Script.Fuel
set_option autoImplicit false

/-!
# Operators over the integers

What an operator is supposed to yield is said of two numbers below `2 ^ 64`, with the integers'
own arithmetic (`BinaryOp.meaning`); words compute it (`BinaryOp.toNat_value?`), shifts by every
count and signed comparisons included.  A binary node applies its operator to what its operands
evaluate to; one that the left operand decides ends where the left operand left the machine,
whatever the right operand is (`exec_binary_of_decided`).  Main statement: both say the same as the
numbers do (`BinaryOp.computes`).
-/

namespace PeekPoke

/-! ## What operators mean -/

/-- A truth value as a number: all of 64 bits, or none. -/
def truth (p : Prop) [Decidable p] : Nat := if p then 2 ^ 64 - 1 else 0

/-- The number that 64 bits stand for in two's complement. -/
def twosComplement (n : Nat) : Int := if n < 2 ^ 63 then n else n - 2 ^ 64

namespace BinaryOp

/-- What the operator yields for two numbers below `2 ^ 64`; nothing for a zero divisor. -/
def meaning (op : BinaryOp) (l r : Nat) : Option Nat :=
  match op with
  | add => some ((l + r) % 2 ^ 64)
  | sub => some (((l : Int) - r) % 2 ^ 64).toNat
  | mul => some (l * r % 2 ^ 64)
  | div => if r = 0 then none else some (l / r)
  | mod => if r = 0 then none else some (l % r)
  | shl => some (l * 2 ^ r % 2 ^ 64)
  | shr => some (l / 2 ^ r)
  | lt => some (truth (l < r))
  | gt => some (truth (l > r))
  | le => some (truth (l ≤ r))
  | ge => some (truth (l ≥ r))
  | eq => some (truth (l = r))
  | ne => some (truth (l ≠ r))
  | signedLt => some (truth (twosComplement l < twosComplement r))
  | signedGt => some (truth (twosComplement l > twosComplement r))
  | signedLe => some (truth (twosComplement l ≤ twosComplement r))
  | signedGe => some (truth (twosComplement l ≥ twosComplement r))
  | bitAnd => some (l &&& r)
  | bitXor => some (l ^^^ r)
  | bitOr => some (l ||| r)
  | and => some (truth (l ≠ 0 ∧ r ≠ 0))
  | xor => some (truth (¬ (l ≠ 0 ↔ r ≠ 0)))
  | or => some (truth (l ≠ 0 ∨ r ≠ 0))

end BinaryOp

/-! ## What words compute -/

namespace Word

theorem toNat_ofBool {b : Bool} {p : Prop} [Decidable p] (h : b = true ↔ p) :
    (ofBool b).toNat = truth p := by
  by_cases hp : p
  · rw [h.mpr hp, truth, if_pos hp]
    rfl
  · rw [Bool.eq_false_iff.mpr fun hb => hp (h.mp hb), truth, if_neg hp]
    rfl

theorem signed_eq (w : Word) : w.signed = twosComplement w.toNat := by
  have hint : w.signed = w.toBitVec.toInt := rfl
  rw [hint, BitVec.toInt_eq_toNat_cond, UInt64.toNat_toBitVec, twosComplement]
  by_cases h : w.toNat < 2 ^ 63
  · rw [if_pos h, if_pos (by omega)]
  · rw [if_neg h, if_neg (by omega)]
    rfl

/-- A comparison of signed words compares the numbers they stand for. -/
theorem toNat_signed (rel : Int → Int → Prop) [∀ i j, Decidable (rel i j)] (l r : Word) :
    (ofBool (decide (rel l.signed r.signed))).toNat =
      truth (rel (twosComplement l.toNat) (twosComplement r.toNat)) := by
  rw [signed_eq, signed_eq]
  exact toNat_ofBool decide_eq_true_iff

theorem toNat_sub (l r : Word) :
    (l - r).toNat = (((l.toNat : Int) - r.toNat) % 2 ^ 64).toNat := by
  have hl := l.toNat_lt
  have hr := r.toNat_lt
  rw [UInt64.toNat_sub]
  omega

/-- Moving bits up by any count multiplies by a power of two. -/
theorem toNat_shl (l r : Word) :
    (if r < 64 then l <<< r else 0).toNat = l.toNat * 2 ^ r.toNat % 2 ^ 64 := by
  by_cases h : r < 64
  · have hr : r.toNat < 64 := h
    rw [if_pos h, UInt64.toNat_shiftLeft, Nat.mod_eq_of_lt hr, Nat.shiftLeft_eq]
  · have hr : 64 ≤ r.toNat := Nat.le_of_not_lt h
    have hdvd : 2 ^ 64 ∣ l.toNat * 2 ^ r.toNat := Nat.dvd_mul_left_of_dvd (Nat.pow_dvd_pow 2 hr) _
    rw [if_neg h, Nat.mod_eq_zero_of_dvd hdvd]
    rfl

/-- Moving bits down by any count divides by a power of two. -/
theorem toNat_shr (l r : Word) :
    (if r < 64 then l >>> r else 0).toNat = l.toNat / 2 ^ r.toNat := by
  by_cases h : r < 64
  · have hr : r.toNat < 64 := h
    rw [if_pos h, UInt64.toNat_shiftRight, Nat.mod_eq_of_lt hr, Nat.shiftRight_eq_div_pow]
  · have hr : 64 ≤ r.toNat := Nat.le_of_not_lt h
    have hlt : l.toNat < 2 ^ r.toNat :=
      Nat.lt_of_lt_of_le l.toNat_lt (Nat.pow_le_pow_right (by decide) hr)
    rw [if_neg h, Nat.div_eq_of_lt hlt]
    rfl

theorem toNat_eq_zero_iff (w : Word) : w.toNat = 0 ↔ w = 0 := UInt64.toNat_inj (b := 0)

end Word

namespace BinaryOp

/-- Words compute what the operator means. -/
theorem toNat_value? (op : BinaryOp) (l r : Word) :
    (op.value? l r).map UInt64.toNat = op.meaning l.toNat r.toNat := by
  have hl := Word.toNat_eq_zero_iff l
  have hr := Word.toNat_eq_zero_iff r
  cases op with
  | add => exact congrArg some (UInt64.toNat_add l r)
  | sub => exact congrArg some (Word.toNat_sub l r)
  | mul => exact congrArg some (UInt64.toNat_mul l r)
  | div =>
    rw [value?, meaning, apply_ite (Option.map UInt64.toNat)]
    exact if_congr hr.symm rfl (congrArg some (UInt64.toNat_div l r))
  | mod =>
    rw [value?, meaning, apply_ite (Option.map UInt64.toNat)]
    exact if_congr hr.symm rfl (congrArg some (UInt64.toNat_mod l r))
  | shl => exact congrArg some (Word.toNat_shl l r)
  | shr => exact congrArg some (Word.toNat_shr l r)
  | lt | gt =>
    exact congrArg some (Word.toNat_ofBool (decide_eq_true_iff.trans UInt64.lt_iff_toNat_lt))
  | le | ge =>
    exact congrArg some (Word.toNat_ofBool (decide_eq_true_iff.trans UInt64.le_iff_toNat_le))
  | eq => exact congrArg some (Word.toNat_ofBool (beq_iff_eq.trans UInt64.toNat_inj.symm))
  | ne => exact congrArg some (Word.toNat_ofBool (bne_iff_ne.trans UInt64.toNat_inj.not.symm))
  | signedLt => exact congrArg some (Word.toNat_signed (· < ·) l r)
  | signedGt => exact congrArg some (Word.toNat_signed (· > ·) l r)
  | signedLe => exact congrArg some (Word.toNat_signed (· ≤ ·) l r)
  | signedGe => exact congrArg some (Word.toNat_signed (· ≥ ·) l r)
  | bitAnd => exact congrArg some (UInt64.toNat_and l r)
  | bitXor => exact congrArg some (UInt64.toNat_xor l r)
  | bitOr => exact congrArg some (UInt64.toNat_or l r)
  | and => exact congrArg some (Word.toNat_ofBool (by simp [hl, hr]))
  | xor =>
    have hsame : (l != 0) = (r != 0) ↔ (l.toNat ≠ 0 ↔ r.toNat ≠ 0) :=
      Bool.eq_iff_iff.trans (by simp [hl, hr])
    exact congrArg some (Word.toNat_ofBool (bne_iff_ne.trans hsame.not))
  | or => exact congrArg some (Word.toNat_ofBool (by simp [hl, hr]))

/-- An operator fails exactly for a zero divisor, and says where and why. -/
theorem eval_eq_error_iff (op : BinaryOp) (l r : Word) (location : Location) (e : RunError) :
    op.eval l r location = .error e ↔
      r = 0 ∧ (op = div ∧ e = ⟨.divisionByZero, location⟩ ∨
        op = mod ∧ e = ⟨.moduloByZero, location⟩) := by
  have hnone := value?_eq_none_iff op l r
  unfold eval
  cases hvalue : op.value? l r with
  | some w =>
    rw [hvalue] at hnone
    refine iff_of_false (fun h => nomatch h) fun h => ?_
    exact nomatch hnone.mpr ⟨h.2.imp And.left And.left, h.1⟩
  | none =>
    obtain ⟨rfl | rfl, hr⟩ := hnone.mp hvalue
    · simp [hr, zeroDivisor, eq_comm]
    · simp [hr, zeroDivisor, eq_comm]

/-- An operator that does not fail yields the word that it means. -/
theorem eval_eq_ok_iff (op : BinaryOp) (l r w : Word) (location : Location) :
    op.eval l r location = .ok w ↔ op.meaning l.toNat r.toNat = some w.toNat := by
  rw [← toNat_value?]
  unfold eval
  cases op.value? l r with
  | none => simp
  | some w' => simp [UInt64.toNat_inj]

end BinaryOp

/-! ## What nodes do -/

/-- The left operand alone decides the result. -/
def BinaryOp.DecidedBy (op : BinaryOp) (l : Word) : Prop := op = and ∧ l = 0 ∨ op = or ∧ l ≠ 0

theorem BinaryOp.decidedBy_iff {op : BinaryOp} {l : Word} :
    op.DecidedBy l ↔ ∃ w, op.decided? l = some w := by
  cases op <;> simp [DecidedBy, decided?]

/-- A node is reported to the trace before it does anything. -/
theorem exec_apply (env : Environment) (fuel : Nat) (node : Node) (m : Machine) :
    exec env (fuel + 1) node m =
      node.step env fuel (exec env fuel) (m.emit (.execute node.kind node.location)) := rfl

section

variable {env : Environment} {fuel : Nat} {op : BinaryOp} {location : Location} {left right : Node}
  {l r w : Word} {m m₁ m₂ : Machine}

/-- A binary node that its left operand leaves open ends with the result of its operator, where the
right operand left the machine. -/
theorem exec_binary
    (hleft : exec env fuel left (m.emit (.execute "binary" location)) = some (.ok l, m₁))
    (hopen : op.decided? l = none) (hright : exec env fuel right m₁ = some (.ok r, m₂)) :
    exec env (fuel + 1) (.binary location op left right) m =
      some ((op.eval l r location).mapError .failure, m₂) := by
  rw [exec_apply]
  refine (Run.bind_of_ok hleft _).trans ?_
  rw [hopen]
  refine (Run.bind_of_ok hright _).trans ?_
  cases op.eval l r location with
  | ok w => rfl
  | error e => rfl

/-- A binary node that its left operand decides ends where that operand left the machine. -/
theorem exec_binary_of_decided
    (hleft : exec env fuel left (m.emit (.execute "binary" location)) = some (.ok l, m₁))
    (hdecided : op.decided? l = some w) (right : Node) :
    exec env (fuel + 1) (.binary location op left right) m = some (.ok w, m₁) := by
  rw [exec_apply]
  refine (Run.bind_of_ok hleft _).trans ?_
  rw [hdecided]
  rfl

theorem BinaryOp.eval_of_decided? (h : op.decided? l = some w) (r : Word) (location : Location) :
    op.eval l r location = .ok w := by
  rw [eval, value?_of_decided? h]

end

/-- The operator yields what it means, applied to words and executed in a node. -/
structure BinaryOp.Computes (op : BinaryOp) (location : Location) : Prop where
  /-- A result is the word with the value that the numbers give. -/
  value (l r w : Word) :
    op.eval l r location = .ok w ↔ op.meaning l.toNat r.toNat = some w.toNat
  /-- Only divisions by zero fail, at the location of the operator. -/
  failure (l r : Word) (e : RunError) :
    op.eval l r location = .error e ↔
      r = 0 ∧ (op = div ∧ e = ⟨.divisionByZero, location⟩ ∨
        op = mod ∧ e = ⟨.moduloByZero, location⟩)
  /-- A node ends as the operator does on the values of its operands. -/
  executed (env : Environment) (fuel : Nat) (left right : Node) (l r : Word) (m m₁ m₂ : Machine) :
    exec env fuel left (m.emit (.execute "binary" location)) = some (.ok l, m₁) →
      exec env fuel right m₁ = some (.ok r, m₂) →
        ∃ m', exec env (fuel + 1) (.binary location op left right) m =
            some ((op.eval l r location).mapError .failure, m') ∧
          (¬ op.DecidedBy l → m' = m₂)
  /-- A right operand that is not needed, whatever it is, leaves no mark on the machine, and the
  result is the operator's for every value of it. -/
  skipped (env : Environment) (fuel : Nat) (left : Node) (l : Word) (m m₁ : Machine) :
    exec env fuel left (m.emit (.execute "binary" location)) = some (.ok l, m₁) →
      op.DecidedBy l →
        ∃ w, (∀ r, op.eval l r location = .ok w) ∧
          ∀ right, exec env (fuel + 1) (.binary location op left right) m = some (.ok w, m₁)

/-- Operators are what the integers say, on words and in nodes. -/
theorem BinaryOp.computes (op : BinaryOp) (location : Location) : op.Computes location where
  value l r w := op.eval_eq_ok_iff l r w location
  failure l r e := op.eval_eq_error_iff l r location e
  executed env fuel left right l r m m₁ m₂ hleft hright := by
    cases hdecided : op.decided? l with
    | none =>
      exact ⟨m₂, exec_binary hleft hdecided hright, fun _ => rfl⟩
    | some w =>
      refine ⟨m₁, ?_, fun hopen => absurd (decidedBy_iff.mpr ⟨w, hdecided⟩) hopen⟩
      rw [eval_of_decided? hdecided r location]
      exact exec_binary_of_decided hleft hdecided right
  skipped env fuel left l m m₁ hleft hdecided := by
    obtain ⟨w, hw⟩ := decidedBy_iff.mp hdecided
    exact ⟨w, fun r => eval_of_decided? hw r location, exec_binary_of_decided hleft hw⟩

/-- Nothing of the right operand of a conjunction happens if the left one is zero. -/
theorem BinaryOp.conjunction_computes :
    ∃ w, (∀ r, and.eval 0 r .unknown = .ok w) ∧
      ∀ right, exec {} 2 (.binary .unknown and (.literal .unknown 0) right) {} =
        some (.ok w, ({} : Machine).emit (.execute "binary" .unknown)) :=
  (computes and .unknown).skipped {} 1 (.literal .unknown 0) 0 {} _ rfl (Or.inl ⟨rfl, rfl⟩)

end PeekPoke
