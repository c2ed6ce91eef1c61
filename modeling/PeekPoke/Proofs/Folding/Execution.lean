import PeekPoke.Proofs.Folding.Relation
set_option autoImplicit false

/-!
# Executing folded nodes

Executions of a node and of its folded form end in the same way, with the same machine up to the
trace.  The folded form takes no more fuel than the plain one (`Folds.follows_plain`), and the plain
one takes as much more as the highest folded constant needs (`Folds.follows_folded`), so whatever
one of them can end with, the other can (`Folds.ends_iff`).  Both directions are simulations: while
they run, the fixed variables keep their values, because nothing that is written shares a slot with
them.
-/

namespace PeekPoke

open MonadScript

/-! ## Machines up to the trace -/

/-- No effect looks at the trace. -/
theorem Effect.apply_withTrace {α : Type} (e : Effect α) (m : Machine) (trace : Trace) :
    ∃ trace', e.apply (m.withTrace trace) = ((e.apply m).1, (e.apply m).2.withTrace trace') := by
  cases e with
  | report e => exact ⟨trace.add e, rfl⟩
  | _ => exact ⟨trace, rfl⟩

namespace Bracket

theorem enter_withTrace (b : Bracket) (m : Machine) (trace : Trace) :
    ∃ trace', b.enter (m.withTrace trace) = (b.enter m).withTrace trace' := by
  refine ⟨(b.enter (m.withTrace trace)).trace, ?_⟩
  cases b with
  | call name => rfl
  | frame id =>
    simp only [enter, enterFrame, Machine.emitFrom_eq]
    rfl

theorem leave_withTrace (b : Bracket) (m : Machine) (trace : Trace) :
    ∃ trace', b.leave (m.withTrace trace) = (b.leave m).withTrace trace' := by
  refine ⟨(b.leave (m.withTrace trace)).trace, ?_⟩
  cases b with
  | call name => rfl
  | frame id =>
    simp only [leave, leaveFrame, Machine.emitFrom_eq]
    rfl

theorem global_enter (b : Bracket) (m : Machine) :
    (b.enter m).stores.global = m.stores.global := by
  cases b with
  | call name => rfl
  | frame id =>
    simp only [enter, enterFrame, Machine.emitFrom_eq]
    rfl

theorem global_leave (b : Bracket) (m : Machine) :
    (b.leave m).stores.global = m.stores.global := by
  cases b with
  | call name => rfl
  | frame id =>
    simp only [leave, leaveFrame, Machine.emitFrom_eq]
    rfl

end Bracket

/-- An effect that writes only what may be written changes no fixed variable. -/
theorem Effect.holds_apply {α : Type} (e : Effect α) {c : Fixture} {m : Machine}
    (hw : ∀ v, e.target? = some v → c.writable v) (hm : c.Holds m.stores) :
    c.Holds (e.apply m).2.stores := by
  cases e with
  | write v w => exact hm.set (hw v rfl) w
  | _ => exact hm

/-! ## Following a computation -/

/-- Wherever the first computation finishes, from a machine that agrees with the fixture, the second
one ends in the same way up to the trace, and the machine that is left still agrees. -/
def Run.Follows {α : Type} (c : Fixture) (x y : Run α) : Prop :=
  ∀ m trace r m', c.Holds m.stores → x m = some (r, m') →
    c.Holds m'.stores ∧ ∃ trace', y (m.withTrace trace) = some (r, m'.withTrace trace')

namespace Run.Follows

variable {α β : Type} {c : Fixture}

theorem unfinished (y : Run α) : Follows c (MonadScript.unfinished : Run α) y :=
  fun _ _ _ _ _ hx => by cases hx

theorem pure (a : α) : Follows c (Pure.pure a : Run α) (Pure.pure a) := by
  intro m trace r m' hm hx
  cases hx
  exact ⟨hm, trace, rfl⟩

theorem raise (u : Unwind) : Follows c (MonadScript.raise u : Run α) (MonadScript.raise u) := by
  intro m trace r m' hm hx
  cases hx
  exact ⟨hm, trace, rfl⟩

theorem bind {x y : Run α} {f g : α → Run β} (hx : Follows c x y)
    (hf : ∀ a, Follows c (f a) (g a)) : Follows c (x >>= f) (y >>= g) := by
  intro m trace r m' hm hb
  rw [Run.bind_apply] at hb
  cases hxm : x m with
  | none =>
    rw [hxm] at hb
    cases hb
  | some ending =>
    obtain ⟨result, middle⟩ := ending
    obtain ⟨hmiddle, trace', hy⟩ := hx m trace result middle hm hxm
    rw [hxm] at hb
    cases result with
    | error u =>
      cases hb
      exact ⟨hmiddle, trace', bind_of_error hy g⟩
    | ok a =>
      obtain ⟨hend, trace'', hg⟩ := hf a middle trace' r m' hmiddle hb
      exact ⟨hend, trace'', (bind_of_ok hy g).trans hg⟩

theorem effect (e : Effect α) (hw : ∀ v, e.target? = some v → c.writable v) :
    Follows c (act e.apply : Run α) (act e.apply) := by
  intro m trace r m' hm hx
  cases hx
  obtain ⟨trace', he⟩ := e.apply_withTrace m trace
  refine ⟨e.holds_apply hw hm, trace', ?_⟩
  rw [Run.act_apply, he]

theorem emit (e : TraceEvent) : Follows c (MonadScript.emit e : Run Unit) (MonadScript.emit e) :=
  effect (.report e) fun v hv => by cases hv

theorem settle {x y : Run α} (h : Follows c x y) (g : Except Unwind α → Except Unwind β) :
    Follows c (ending x fun r m => (g r, m) : Run β) (ending y fun r m => (g r, m)) := by
  intro m trace r m' hm hx
  obtain ⟨⟨result, _⟩, hxm, hsettle⟩ := Option.map_eq_some_iff.mp hx
  cases hsettle
  obtain ⟨hend, trace', hy⟩ := h m trace result m' hm hxm
  refine ⟨hend, trace', ?_⟩
  rw [Run.ending_apply, hy]
  rfl

theorem bracket {x y : Run α} (h : Follows c x y) (b : Bracket) :
    Follows c (MonadScript.bracket b.enter b.leave x : Run α)
      (MonadScript.bracket b.enter b.leave y) := by
  intro m trace r m' hm hx
  rw [Run.bracket_apply] at hx
  obtain ⟨⟨result, middle⟩, hxm, hleave⟩ := Option.map_eq_some_iff.mp hx
  cases hleave
  obtain ⟨inside, henter⟩ := b.enter_withTrace m trace
  obtain ⟨hmiddle, after, hy⟩ :=
    h (b.enter m) inside _ middle (hm.of_global_eq (b.global_enter m)) hxm
  obtain ⟨last, hlast⟩ := b.leave_withTrace middle after
  refine ⟨hmiddle.of_global_eq (b.global_leave middle), last, ?_⟩
  rw [Run.bracket_apply, henter, hy]
  show some (r, b.leave (middle.withTrace after)) = _
  rw [hlast]

end Run.Follows

/-- Following a computation, as a simulation. -/
def Run.following (c : Fixture) : Simulation Run Run where
  allows e := ∀ v, e.target? = some v → c.writable v
  rel := Run.Follows c
  pure := Run.Follows.pure
  bind := Run.Follows.bind
  unfinished := Run.Follows.unfinished _
  raise := Run.Follows.raise
  effect e hw := Run.Follows.effect e hw
  bracket b h := h.bracket b
  settle g h := h.settle g

/-! ## Executions -/

/-- However much fuel it has, an execution of a constant node that finishes gives its value and
touches nothing but the trace. -/
theorem exec_constant_ends {env : Environment} {fuel : Nat} {node : Node}
    (hc : node.isConstant = true) {m m' : Machine} {r : Except Unwind Word}
    (hx : exec env fuel node m = some (r, m')) :
    r = node.constantValue m.stores.get ∧ ∃ trace, m' = m.withTrace trace := by
  obtain ⟨trace, hvalue⟩ :=
    exec_of_isConstant env (max fuel node.height) hc (Nat.le_max_right _ _) m
  have hmore : exec env (max fuel node.height) node m = some (r, m') :=
    exec_of_le (Nat.le_max_left _ _) hx
  rw [hvalue] at hmore
  cases hmore
  exact ⟨rfl, trace, rfl⟩

/-- The calls of two environments run a body and its folded form. -/
abbrev FoldsCalls (c : Fixture) (env env' : Environment) : Prop :=
  (Run.following c).Setting (Folds c) env env'

theorem FoldsCalls.swap {c : Fixture} {env env' : Environment} (h : FoldsCalls c env env') :
    (Run.following c).Setting (fun f u => Folds c u f) env' env := by
  intro id
  refine (h id).swap.imp fun folded plain hc => ?_
  refine ⟨hc.parameters.symm, hc.result.symm, fun v hv => ?_, fun v hv => ?_, hc.body⟩
  · rw [hc.parameters] at hv
    exact hc.writes v hv
  · rw [hc.result] at hv
    exact hc.reads v hv

namespace Folds

variable {c : Fixture} {env env' : Environment}

/-- The folded form follows the plain one, with the same fuel. -/
theorem follows_plain (hs : FoldsCalls c env env') (fuel : Nat) {u f : Node} (h : Folds c u f) :
    Run.Follows c (exec env fuel u) (exec env' fuel f) := by
  induction fuel generalizing u f with
  | zero => exact Run.Follows.unfinished _
  | succ fuel ih =>
    cases h.step with
    | alike ha ht _ =>
      rw [exec_succ, exec_succ, ha.kind_eq, ha.location_eq]
      exact Run.Follows.bind (Run.Follows.emit _) fun _ =>
        (Run.following c).step_rel hs (fun _ _ => ih) (Or.inl rfl) ha
          fun _ he v hv => ht v (he.target?_eq hv)
    | literal hu _ hvalue =>
      intro m trace r m' hm hx
      obtain ⟨rfl, trace', rfl⟩ := exec_constant_ends hu hx
      rw [hvalue m.stores hm]
      exact ⟨hm, _, rfl⟩

/-- The plain form follows the folded one, with the fuel that the folded constants need. -/
theorem follows_folded (hs : FoldsCalls c env env') (fuel : Nat) {u f : Node} (h : Folds c u f) :
    Run.Follows c (exec env' fuel f) (exec env (fuel + c.bound) u) := by
  induction fuel generalizing u f with
  | zero => exact Run.Follows.unfinished _
  | succ fuel ih =>
    cases h.step with
    | alike ha ht _ =>
      have hfuel : fuel + 1 + c.bound = fuel + c.bound + 1 := by omega
      rw [hfuel, exec_succ, exec_succ, ha.kind_eq, ha.location_eq]
      refine Run.Follows.bind (Run.Follows.emit _) fun _ => ?_
      refine (Run.following c).step_rel hs.swap (fun _ _ => ih)
        (Or.inr ⟨Nat.le_add_right _ _, Run.Follows.unfinished⟩) ha.swap fun _ he v hv => ?_
      have hv' := he.target?_eq hv
      rw [ha.target?_eq] at hv'
      exact ht v hv'
    | literal hu hheight hvalue =>
      intro m trace r m' hm hx
      have hfuel : u.height ≤ fuel + 1 + c.bound := by omega
      obtain ⟨trace', hplain⟩ := exec_of_isConstant env _ hu hfuel (m.withTrace trace)
      cases hx
      refine ⟨hm, trace', ?_⟩
      rw [hplain]
      show some (u.constantValue m.stores.get, _) = _
      rw [hvalue m.stores hm]
      rfl

end Folds

/-- The execution of a node ends with this result and, up to the trace, with this machine. -/
def Ends (env : Environment) (node : Node) (m : Machine) (r : Except Unwind Word) (m' : Machine) :
    Prop :=
  ∃ fuel trace, exec env fuel node m = some (r, m'.withTrace trace)

/-- Where the fixed variables have their values, a node and its folded form end in the same ways. -/
theorem Folds.ends_iff {c : Fixture} {env env' : Environment} (hs : FoldsCalls c env env')
    {u f : Node} (h : Folds c u f) {m : Machine} (hm : c.Holds m.stores) (r : Except Unwind Word)
    (m' : Machine) : Ends env u m r m' ↔ Ends env' f m r m' := by
  constructor
  · rintro ⟨fuel, trace, hx⟩
    obtain ⟨_, trace', hy⟩ := h.follows_plain hs fuel m m.trace r _ hm hx
    exact ⟨fuel, trace', hy⟩
  · rintro ⟨fuel, trace, hx⟩
    obtain ⟨_, trace', hy⟩ := h.follows_folded hs fuel m m.trace r _ hm hx
    exact ⟨fuel + c.bound, trace', hy⟩

/-- The fixed variables still have their values when a folded node has been executed. -/
theorem Folds.holds_of_ends {c : Fixture} {env env' : Environment} (hs : FoldsCalls c env env')
    {u f : Node} (h : Folds c u f) {m m' : Machine} (hm : c.Holds m.stores)
    {r : Except Unwind Word} (hends : Ends env' f m r m') : c.Holds m'.stores := by
  obtain ⟨fuel, trace, hx⟩ := hends
  obtain ⟨hleft, _⟩ := h.follows_folded hs fuel m m.trace r _ hm hx
  exact hleft

end PeekPoke
