import PeekPoke.Script.Fuel
set_option autoImplicit false

/-!
# Constant nodes

A constant node has a value that depends on the values of variables only (`Node.constantValue`).
Executing the node gives that value and touches nothing but the trace, and the node's height is all
the fuel it needs (`exec_of_isConstant`).
-/

namespace PeekPoke

/-- The machine with other events in its trace. -/
def Machine.withTrace (m : Machine) (trace : Trace) : Machine := { m with trace }

/-- What a constant node evaluates to, by the values of the variables. -/
def Node.constantValue (get : Variable → Word) : Node → Except Unwind Word
  | .literal _ w => .ok w
  | .var _ v => .ok (get v)
  | .indexed _ v offset => do
    let offset ← offset.constantValue get
    return get v + offset
  | .unary _ op operand => do
    let w ← operand.constantValue get
    return op.apply w
  | .binary location op left right => do
    let l ← left.constantValue get
    match op.decided? l with
    | some w => return w
    | none =>
      let r ← right.constantValue get
      match op.eval l r location with
      | .ok w => return w
      | .error e => throw (.failure e)
  | .narrow _ width operand => do
    let w ← operand.constantValue get
    return width.truncate w
  | _ => .ok 0

namespace Run

variable {α β : Type}

/-- The computation finishes as the values of the variables say and touches nothing but the
trace. -/
def Yields (x : Run α) (value : Stores → Except Unwind α) : Prop :=
  ∀ m, ∃ trace, x m = some (value m.stores, m.withTrace trace)

namespace Yields

theorem pure (a : α) : Yields (Pure.pure a : Run α) fun _ => .ok a := fun m => ⟨m.trace, rfl⟩

theorem raise (u : Unwind) : Yields (MonadScript.raise u : Run α) fun _ => .error u :=
  fun m => ⟨m.trace, rfl⟩

theorem valueOf (v : Variable) : Yields (MonadScript.valueOf v : Run Word) fun s => .ok (s.get v) :=
  fun m => ⟨m.trace, rfl⟩

theorem bind {x : Run α} {f : α → Run β} {value : Stores → Except Unwind α}
    {next : α → Stores → Except Unwind β} (hx : Yields x value) (hf : ∀ a, Yields (f a) (next a)) :
    Yields (x >>= f) fun s => value s >>= fun a => next a s := by
  intro m
  obtain ⟨trace, h⟩ := hx m
  cases hv : value m.stores with
  | error u =>
    rw [hv] at h
    refine ⟨trace, ?_⟩
    simp only [bind_of_error h f, hv]
    rfl
  | ok a =>
    rw [hv] at h
    obtain ⟨trace', h'⟩ := hf a (m.withTrace trace)
    refine ⟨trace', ?_⟩
    simp only [bind_of_ok h f, h', hv]
    rfl

theorem after_emit {x : Run α} {value : Stores → Except Unwind α} (e : TraceEvent)
    (hx : Yields x value) : Yields (MonadScript.emit e >>= fun _ => x) value := by
  intro m
  obtain ⟨trace, h⟩ := hx (m.emit e)
  exact ⟨trace, h⟩

end Yields

end Run

open Run

/-- Executing a constant node with at least its height as fuel gives its value and touches nothing
but the trace. -/
theorem exec_of_isConstant (env : Environment) (fuel : Nat) {node : Node}
    (hc : node.isConstant = true) (hf : node.height ≤ fuel) :
    Yields (exec env fuel node) fun s => node.constantValue s.get := by
  induction fuel generalizing node with
  | zero => exact absurd (node.height_pos) (by omega)
  | succ fuel ih =>
    rw [exec_succ]
    refine Yields.after_emit _ ?_
    cases node with
    | literal _ w => exact Yields.pure w
    | var _ v => exact Yields.valueOf v
    | indexed _ v offset =>
      simp only [Node.isConstant, Bool.and_eq_true] at hc
      simp only [Node.height] at hf
      exact Yields.bind (ih hc.2 (by omega)) fun w =>
        Yields.bind (Yields.valueOf v) fun _ => Yields.pure _
    | unary _ op operand =>
      simp only [Node.height] at hf
      exact Yields.bind (ih hc (by omega)) fun _ => Yields.pure _
    | narrow _ width operand =>
      simp only [Node.height] at hf
      exact Yields.bind (ih hc (by omega)) fun _ => Yields.pure _
    | binary l op left right =>
      simp only [Node.isConstant, Bool.and_eq_true] at hc
      simp only [Node.height] at hf
      refine Yields.bind (ih hc.1 (by omega)) fun l => ?_
      cases op.decided? l with
      | some w => exact Yields.pure w
      | none =>
        refine Yields.bind (ih hc.2 (by omega)) fun r => ?_
        cases op.eval l r _ with
        | ok w => exact Yields.pure w
        | error e => exact Yields.raise _
    | directive | block | jump | assign | static | cond | whileLoop | forLoop | peek | poke | print
    | sleep | call | imported => simp [Node.isConstant] at hc

end PeekPoke
