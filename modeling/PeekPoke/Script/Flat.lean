import PeekPoke.Script.Simulation
set_option autoImplicit false

/-!
# Flat execution

A script may nest calls as deeply as memory allows.  Here an execution does not wait for its parts:
a computation is told what to do with its value and with an unwinding, and hands back after each
step what is left to do (`Progress`).  So the work that is pending is data, and carrying it out step
by step takes no more stack for a deep script than for a flat one.

Main statement: flat execution ends as execution does (`force_exec`).
-/

namespace PeekPoke

open MonadScript

/-! ## Progress -/

/-- A computation under way: it has come to its end, or there is more to do. -/
inductive Progress (ω : Type) where
  | done (result : ω)
  | later (next : Unit → Progress ω)

namespace Progress

variable {ω : Type}

/-- Goes on until the end. -/
def force : Progress ω → ω
  | done result => result
  | later next => (next ()).force

@[simp] theorem force_done (result : ω) : (done result).force = result := rfl

@[simp] theorem force_later (next : Unit → Progress ω) : (later next).force = (next ()).force := rfl

end Progress

/-! ## Flat computations -/

/-- What is left to do after a part that ends with a value of the type. -/
abbrev Continuation (α : Type) : Type := α → Machine → Progress (Ending Word)

/-- A computation that is told how to go on after its value and after an unwinding. -/
def Flat (α : Type) : Type :=
  Machine → Continuation α → Continuation Unwind → Progress (Ending Word)

namespace Flat

variable {α β : Type}

/-- Goes on after a value or after an unwinding. -/
@[inline] def resume (ok : Continuation α) (error : Continuation Unwind) :
    Except Unwind α × Machine → Progress (Ending Word)
  | (.ok a, m) => ok a m
  | (.error u, m) => error u m

@[always_inline] instance : MonadScript Flat where
  pure a := fun m ok _ => ok a m
  bind x f := fun m ok error => x m (fun a m' => f a m' ok error) error
  unfinished := fun _ _ _ => .done none
  raise u := fun m _ error => error u m
  act f := fun m ok _ =>
    match f m with
    | (a, m') => ok a m'
  ending x settle := fun m ok error =>
    x m (fun a m' => resume ok error (settle (.ok a) m'))
      (fun u m' => .later fun _ => resume ok error (settle (.error u) m'))

/-- Executes a node.  Both what the node does and what comes after it are left for later. -/
def exec (env : Environment) : Nat → Node → Flat Word
  | 0, _ => unfinished
  | fuel + 1, node => fun m ok error =>
    .later fun _ =>
      (do
        emit (.execute node.kind node.location)
        node.step env fuel (exec env fuel) : Flat Word)
        m (fun w m' => .later fun _ => ok w m') error

/-! ## Meaning -/

/-- The flat computation goes on with the value or the unwinding that the other one ends with, on
the machine that one leaves, and does not finish where that one does not. -/
def Follows (y : Flat α) (x : Run α) : Prop :=
  ∀ m ok error, (y m ok error).force =
    match x m with
    | none => none
    | some r => (resume ok error r).force

namespace Follows

theorem pure (a : α) : Follows (Pure.pure a : Flat α) (Pure.pure a) := fun _ _ _ => rfl

theorem unfinished : Follows (MonadScript.unfinished : Flat α) MonadScript.unfinished :=
  fun _ _ _ => rfl

theorem raise (u : Unwind) : Follows (MonadScript.raise u : Flat α) (MonadScript.raise u) :=
  fun _ _ _ => rfl

theorem act (f : Machine → α × Machine) :
    Follows (MonadScript.act f : Flat α) (MonadScript.act f) := fun _ _ _ => rfl

theorem bind {y : Flat α} {x : Run α} {g : α → Flat β} {f : α → Run β} (h : Follows y x)
    (hf : ∀ a, Follows (g a) (f a)) : Follows (y >>= g) (x >>= f) := by
  intro m ok error
  show (y m (fun a m' => g a m' ok error) error).force = _
  rw [h, Run.bind_apply]
  rcases x m with _ | ⟨_ | a, m'⟩
  · rfl
  · rfl
  · exact hf a m' ok error

theorem ending {y : Flat α} {x : Run α} (h : Follows y x)
    (settle : Except Unwind α → Machine → Except Unwind β × Machine) :
    Follows (MonadScript.ending y settle : Flat β) (MonadScript.ending x settle) := by
  intro m ok error
  show (y m (fun a m' => resume ok error (settle (.ok a) m'))
    (fun u m' => .later fun _ => resume ok error (settle (.error u) m'))).force = _
  rw [h, Run.ending_apply]
  rcases x m with _ | ⟨_ | a, m'⟩ <;> rfl

end Follows

/-- Flat computations against their meaning. -/
def faithful : Simulation Flat Run where
  allows _ := True
  rel := Follows
  pure := Follows.pure
  bind := Follows.bind
  unfinished := Follows.unfinished
  raise := Follows.raise
  effect e _ := Follows.act e.apply
  bracket _ h := Follows.bind (Follows.act _) fun _ => h.ending _
  settle _ h := h.ending _

theorem faithful_lax : faithful.Lax := fun _ _ => trivial

theorem exec_follows (env : Environment) (fuel : Nat) (node : Node) :
    Follows (exec env fuel node) (PeekPoke.exec env fuel node) := by
  induction fuel generalizing node with
  | zero => exact Follows.unfinished
  | succ fuel ih =>
    intro m ok error
    have h : Follows
        (do
          emit (.execute node.kind node.location)
          node.step env fuel (exec env fuel))
        (PeekPoke.exec env (fuel + 1) node) :=
      Follows.bind (Follows.act _) fun _ => faithful_lax.step_rel env ih (Or.inl rfl) node
    rw [exec, Progress.force_later, h]
    rcases PeekPoke.exec env (fuel + 1) node m with _ | ⟨_ | _, _⟩ <;> rfl

/-- Flat execution ends as execution does. -/
theorem force_exec (env : Environment) (fuel : Nat) (node : Node) (m : Machine) :
    (exec env fuel node m (fun w m' => .done (some (.ok w, m')))
      (fun u m' => .done (some (.error u, m')))).force = PeekPoke.exec env fuel node m := by
  rw [exec_follows]
  rcases PeekPoke.exec env fuel node m with _ | ⟨_ | _, _⟩ <;> rfl

end Flat

end PeekPoke
