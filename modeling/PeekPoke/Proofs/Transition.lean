import PeekPoke.Script.Fuel
set_option autoImplicit false

/-!
# What every execution keeps

A transition is a relation between the machine before a part of an execution and the machine after
it.  If it can be chained, and every single effect and every bracket of the rules respects it, then
it holds between the start and the end of every execution that finishes, whatever the script is and
however the execution ends (`Transition.exec`).
-/

namespace PeekPoke

/-- A relation between machines that the effects of a script respect and that can be chained. -/
structure Transition (T : Machine → Machine → Prop) : Prop where
  refl : ∀ m, T m m
  trans : ∀ {a b c : Machine}, T a b → T b c → T a c
  effect : ∀ {α : Type} (e : Effect α) (m : Machine), T m (e.apply m).2
  /-- What holds inside a bracket holds across it. -/
  bracket : ∀ (b : Bracket) {m m' : Machine}, T (b.enter m) m' → T m (b.leave m')

/-- Wherever the computation finishes, the machines before and after it are related. -/
def Run.Keeps {α : Type} (T : Machine → Machine → Prop) (x : Run α) : Prop :=
  ∀ m r m', x m = some (r, m') → T m m'

namespace Transition

variable {T : Machine → Machine → Prop} {α β : Type}

theorem keeps_bind (h : Transition T) {x : Run α} {f : α → Run β} (hx : x.Keeps T)
    (hf : ∀ a, (f a).Keeps T) : (x >>= f).Keeps T := by
  intro m r m' hb
  rw [Run.bind_apply] at hb
  cases hxm : x m with
  | none =>
    rw [hxm] at hb
    cases hb
  | some ending =>
    obtain ⟨result, middle⟩ := ending
    have hfirst : T m middle := hx m result middle hxm
    rw [hxm] at hb
    cases result with
    | error u =>
      cases hb
      exact hfirst
    | ok a => exact h.trans hfirst (hf a middle r m' hb)

theorem keeps_settle {x : Run α} (hx : x.Keeps T) (g : Except Unwind α → Except Unwind β) :
    (MonadScript.ending x fun r m => (g r, m) : Run β).Keeps T := by
  intro m r m' he
  rw [Run.ending_apply] at he
  obtain ⟨⟨result, _⟩, hxm, hsettle⟩ := Option.map_eq_some_iff.mp he
  cases hsettle
  exact hx m result _ hxm

theorem keeps_bracket (h : Transition T) {x : Run α} (hx : x.Keeps T) (b : Bracket) :
    (MonadScript.bracket b.enter b.leave x : Run α).Keeps T := by
  intro m r m' hb
  rw [Run.bracket_apply] at hb
  obtain ⟨⟨result, middle⟩, hxm, hleave⟩ := Option.map_eq_some_iff.mp hb
  cases hleave
  exact h.bracket b (hx _ _ _ hxm)

/-- Following a transition, as a simulation of a computation by itself. -/
def simulation (h : Transition T) : Simulation Run Run where
  allows _ := True
  rel x _ := x.Keeps T
  pure _ := fun m _ _ hp => by
    cases hp
    exact h.refl m
  bind := h.keeps_bind
  unfinished := fun _ _ _ hu => by cases hu
  raise _ := fun m _ _ hr => by
    cases hr
    exact h.refl m
  effect e _ := fun m _ _ ha => by
    cases ha
    exact h.effect e m
  bracket b hx := h.keeps_bracket hx b
  settle g hx := keeps_settle hx g

theorem simulation_lax (h : Transition T) : h.simulation.Lax := fun _ _ => trivial

/-- The machines before and after an execution that finishes are related. -/
theorem exec (h : Transition T) {env : Environment} {fuel : Nat} {node : Node} {m m' : Machine}
    {r : Except Unwind Word} (hx : exec env fuel node m = some (r, m')) : T m m' := by
  suffices hkeeps : ∀ fuel node, (PeekPoke.exec env fuel node).Keeps T from
    hkeeps fuel node m r m' hx
  intro fuel
  induction fuel with
  | zero => exact fun _ _ _ _ hu => by cases hu
  | succ fuel ih =>
    intro node
    have hemit : Run.Keeps T (MonadScript.emit (.execute node.kind node.location)) :=
      h.simulation.effect (.report (.execute node.kind node.location)) trivial
    have hstep : h.simulation.rel (node.step env fuel (PeekPoke.exec env fuel))
        (node.step env fuel (PeekPoke.exec env fuel)) :=
      h.simulation_lax.step_rel env ih (Or.inl rfl) node
    exact h.keeps_bind hemit fun _ => hstep

/-- The machines before and after an evaluation of expressions that finishes are related. -/
theorem evalAll (h : Transition T) {env : Environment} {fuel : Nat} {exprs : List Node}
    {m m' : Machine} {r : Except Unwind (List Word)}
    (hx : evalAll (PeekPoke.exec env fuel) exprs m = some (r, m')) : T m m' := by
  suffices hkeeps : ∀ exprs, (PeekPoke.evalAll (PeekPoke.exec env fuel) exprs).Keeps T from
    hkeeps exprs m r m' hx
  intro exprs
  induction exprs with
  | nil => exact h.simulation.pure []
  | cons expr rest ih =>
    exact h.keeps_bind (fun _ _ _ hexpr => h.exec hexpr) fun w =>
      h.keeps_bind ih fun ws => h.simulation.pure (w :: ws)

end Transition

end PeekPoke
