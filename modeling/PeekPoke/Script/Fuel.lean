import PeekPoke.Script.Simulation
set_option autoImplicit false

/-!
# Fuel

`x.Refines y` says that wherever `x` finishes, `y` ends in the same way.  Main statement: with more
fuel an execution that finishes still finishes, with the same result and the same machine
(`exec_of_le`).  So an execution has at most one way to end, whatever fuel it is given.
-/

namespace PeekPoke

/-! ## Refinement of computations -/

/-- Wherever `x` finishes, `y` ends in the same way. -/
def Run.Refines {α : Type} (x y : Run α) : Prop := ∀ m, x m = none ∨ x m = y m

namespace Run.Refines

variable {α β : Type}

theorem refl (x : Run α) : x.Refines x := fun _ => Or.inr rfl

theorem trans {x y z : Run α} (hxy : x.Refines y) (hyz : y.Refines z) : x.Refines z := by
  intro m
  rcases hxy m with h | h
  · exact Or.inl h
  · rw [h]
    exact hyz m

theorem unfinished (y : Run α) : (MonadScript.unfinished : Run α).Refines y := fun _ => Or.inl rfl

/-- A refined computation finishes wherever the other one does. -/
theorem apply {x y : Run α} (h : x.Refines y) {m m' : Machine} {r : Except Unwind α}
    (hx : x m = some (r, m')) : y m = some (r, m') := by
  rcases h m with h | h
  · rw [hx] at h
    cases h
  · rw [← h, hx]

theorem bind {x y : Run α} {f g : α → Run β} (hx : x.Refines y) (hf : ∀ a, (f a).Refines (g a)) :
    (x >>= f).Refines (y >>= g) := by
  intro m
  rw [Run.bind_apply, Run.bind_apply]
  rcases hx m with h | h
  · rw [h]
    exact Or.inl rfl
  · rw [← h]
    rcases x m with _ | ⟨_ | a, m'⟩
    · exact Or.inl rfl
    · exact Or.inr rfl
    · exact hf a m'

theorem ending {x y : Run α} (h : x.Refines y)
    (settle : Except Unwind α → Machine → Except Unwind β × Machine) :
    (MonadScript.ending x settle : Run β).Refines (MonadScript.ending y settle) := by
  intro m
  rw [Run.ending_apply, Run.ending_apply]
  rcases h m with h | h
  · exact Or.inl (by rw [h]; rfl)
  · exact Or.inr (by rw [h])

end Run.Refines

/-- Refinement as a simulation. -/
def Run.refinement : Simulation Run Run where
  allows _ := True
  rel := Run.Refines
  pure _ := Run.Refines.refl _
  bind := Run.Refines.bind
  unfinished := Run.Refines.refl _
  raise _ := Run.Refines.refl _
  effect _ _ := Run.Refines.refl _
  bracket _ h := Run.Refines.bind (Run.Refines.refl _) fun _ => h.ending _
  settle _ h := h.ending _

theorem Run.refinement_lax : Run.refinement.Lax := fun _ _ => trivial

/-! ## Execution -/

/-- One level of execution. -/
theorem exec_succ (env : Environment) (fuel : Nat) (node : Node) :
    exec env (fuel + 1) node =
      (do
        MonadScript.emit (.execute node.kind node.location)
        node.step env fuel (exec env fuel)) := rfl

theorem exec_refines (env : Environment) {fuel fuel' : Nat} (h : fuel ≤ fuel') (node : Node) :
    (exec env fuel node).Refines (exec env fuel' node) := by
  induction fuel generalizing fuel' node with
  | zero => exact Run.Refines.unfinished _
  | succ fuel ih =>
    cases fuel' with
    | zero => exact absurd h (Nat.not_succ_le_zero fuel)
    | succ fuel' =>
      have hle : fuel ≤ fuel' := Nat.le_of_succ_le_succ h
      rw [exec_succ, exec_succ]
      exact Run.Refines.bind (Run.Refines.refl _) fun _ =>
        Run.refinement_lax.step_rel env (fun child => ih hle child)
          (Or.inr ⟨hle, Run.Refines.unfinished⟩) node

/-- An execution that finishes also finishes, in the same way, with more fuel. -/
theorem exec_of_le {env : Environment} {fuel fuel' : Nat} (h : fuel ≤ fuel') {node : Node}
    {m m' : Machine} {r : Except Unwind Word} (hx : exec env fuel node m = some (r, m')) :
    exec env fuel' node m = some (r, m') := (exec_refines env h node).apply hx

end PeekPoke
