import PeekPoke.Proofs.Frames
set_option autoImplicit false

/-!
# Activations do not see their callers

The variables of a subroutine are found in the innermost frame of one stack, which all activations
of the subroutine share.  Main statement: an activation that is started from two machines, which
agree on everything but the frames stacked for the subroutine, ends in both or in neither; it ends
in the same way, has done the same to everything else, and leaves the frames it found as they were
(`activate_independent`).

The two runs are followed side by side.  At every moment both stacks are what was there at the start,
with the same frames on top (`Machine.Stacked`), and as long as the activation lasts there is at
least one such frame, so every variable is found in a frame that both runs share.
-/

namespace PeekPoke

/-! ## Frames on top of others -/

namespace Frames

variable (below : Frames) {own : Frames}

theorem get_append (h : 0 < own.size) (slot : Nat) :
    Frames.get (below ++ own) slot = Frames.get own slot := by
  have hback : own.back? = some (own.back h) := by
    rw [Array.back?_eq_getElem?, Array.getElem?_eq_getElem (by omega)]
    rfl
  simp [Frames.get, Array.back?_append, hback]

theorem set_append (h : 0 < own.size) (slot : Nat) (w : Word) :
    Frames.set (below ++ own) slot w = below ++ Frames.set own slot w := by
  apply Array.ext
  · simp
  · intro i hi hi'
    simp only [Frames.set, Array.getElem_modify, Array.getElem_append, Array.size_append]
    grind

theorem pop_append (h : 0 < own.size) : Array.pop (below ++ own) = below ++ own.pop := by
  have hne : own.isEmpty = false := by simpa [Array.isEmpty] using Nat.ne_of_gt h
  simp [Array.pop_append, hne]

end Frames

/-- A variable is found in the innermost frame of the stack of its scope. -/
theorem Stores.get_eq_stack (s : Stores) (v : Variable) :
    s.get v = Frames.get (s.stack v.scope) v.slot := by
  unfold Stores.get
  cases v.scope with
  | global => simp [Stores.stack, Frames.get]
  | subroutine id => simp [Stores.stack]

/-! ## Machines side by side -/

namespace Machine

/-- The machines agree on everything but the frames of one subroutine and the trace. -/
structure AgreesBeside (id : Nat) (a b : Machine) : Prop where
  bus : b.bus = a.bus
  others : ∀ scope, scope ≠ .subroutine id → b.stores.stack scope = a.stores.stack scope
  initialised : b.initialised = a.initialised
  sink : b.sink = a.sink
  stop : b.stop = a.stop
  traffic : b.traffic = a.traffic

/-- The machines agree beside the frames of the subroutine, and of these the innermost, `height` in
number, are the same: they lie on `below` in one machine and on `below'` in the other. -/
structure Stacked (id : Nat) (below below' : Frames) (height : Nat) (a b : Machine) : Prop
    extends AgreesBeside id a b where
  own : ∃ own : Frames, own.size = height ∧
    a.stores.stack (.subroutine id) = below ++ own ∧
    b.stores.stack (.subroutine id) = below' ++ own

/-- At the start the two machines have no frame in common. -/
theorem AgreesBeside.stacked {id : Nat} {a b : Machine} (h : AgreesBeside id a b) :
    Stacked id (a.stores.frames id) (b.stores.frames id) 0 a b :=
  { h with own := ⟨#[], by simp [Stores.stack]⟩ }

namespace Stacked

variable {id : Nat} {below below' : Frames} {height : Nat} {a b : Machine}

/-- Below the frames that the machines have in common, the stacks are what they were. -/
theorem frames_eq (h : Stacked id below below' 0 a b) :
    a.stores.frames id = below ∧ b.stores.frames id = below' := by
  obtain ⟨own, hsize, ha, hb⟩ := h.own
  obtain rfl : own = #[] := Array.eq_empty_of_size_eq_zero hsize
  simpa [Stores.stack] using And.intro ha hb

/-! ### Effects -/

/-- Variables have the same values. -/
theorem get_eq (h : Stacked id below below' (height + 1) a b) (v : Variable) :
    b.stores.get v = a.stores.get v := by
  rw [Stores.get_eq_stack, Stores.get_eq_stack]
  by_cases hv : v.scope = .subroutine id
  · obtain ⟨own, hsize, ha, hb⟩ := h.own
    have hpos : 0 < own.size := by omega
    rw [hv, ha, hb, Frames.get_append _ hpos, Frames.get_append _ hpos]
  · rw [h.others _ hv]

/-- Giving a variable a value changes the same frame in both machines. -/
theorem assign (h : Stacked id below below' (height + 1) a b) (v : Variable) (w : Word) :
    Stacked id below below' (height + 1) (a.assign v w) (b.assign v w) := by
  refine { h with others := fun scope hne => ?_, own := ?_ }
  · show (b.stores.set v w).stack scope = (a.stores.set v w).stack scope
    by_cases hv : scope = v.scope
    · subst hv
      rw [Stores.stack_set_self, Stores.stack_set_self, h.others _ hne]
    · rw [Stores.stack_set_of_ne _ _ _ hv, Stores.stack_set_of_ne _ _ _ hv, h.others _ hne]
  · obtain ⟨own, hsize, ha, hb⟩ := h.own
    show ∃ own : Frames, own.size = height + 1 ∧
      (a.stores.set v w).stack (.subroutine id) = below ++ own ∧
      (b.stores.set v w).stack (.subroutine id) = below' ++ own
    by_cases hv : .subroutine id = v.scope
    · have hpos : 0 < own.size := by omega
      refine ⟨own.set v.slot w, by simp [hsize], ?_, ?_⟩
      · rw [hv, Stores.stack_set_self, ← hv, ha, Frames.set_append below hpos]
      · rw [hv, Stores.stack_set_self, ← hv, hb, Frames.set_append below' hpos]
    · refine ⟨own, hsize, ?_, ?_⟩
      · rw [Stores.stack_set_of_ne _ _ _ hv, ha]
      · rw [Stores.stack_set_of_ne _ _ _ hv, hb]

/-- Every effect takes the same value from both machines and changes them alike. -/
theorem effect (h : Stacked id below below' (height + 1) a b) {α : Type} (e : Effect α) :
    (e.apply b).1 = (e.apply a).1 ∧
      Stacked id below below' (height + 1) (e.apply a).2 (e.apply b).2 := by
  cases e with
  | read v => exact ⟨h.get_eq v, h⟩
  | write v w => exact ⟨rfl, h.assign v w⟩
  | endStatement =>
    exact ⟨congrArg (fun f => (StopFlag.meet f .statement).requested) h.stop,
      { h with stop := congrArg (StopFlag.meet · .statement) h.stop }⟩
  | isCarriedOut cell => exact ⟨congrArg (Std.TreeSet.contains · cell) h.initialised, h⟩
  | findWindow address width => exact ⟨congrArg (Bus.find? · address width) h.bus, h⟩
  | hasFailed window => exact ⟨congrArg (Bus.failed · window) h.bus, h⟩
  | report e => exact ⟨rfl, { h with }⟩
  | carryOut cell =>
    exact ⟨rfl, { h with initialised := congrArg (Std.TreeSet.insert · cell) h.initialised }⟩
  | print text => exact ⟨rfl, { h with sink := congrArg (Sink.print · text) h.sink }⟩
  | sleep micros =>
    exact ⟨congrArg (fun f => (StopFlag.sleep f micros).1) h.stop,
      { h with stop := congrArg (fun f => (StopFlag.sleep f micros).2) h.stop }⟩
  | access window a =>
    exact ⟨congrArg (fun bus => (Bus.perform bus window a).1) h.bus, { h with
      bus := congrArg (fun bus => (Bus.perform bus window a).2) h.bus
      stop := congrArg (StopFlag.meet · (.access window a)) h.stop
      traffic := congrArg (BusEvent.access window a :: ·) h.traffic }⟩

/-! ### Activations -/

/-- Changing the frames of some subroutine in the same way keeps the agreement beside `id`. -/
theorem agreesBeside_modifyFrames (h : Stacked id below below' height a b) (other : Nat)
    (f : Frames → Frames) (trace trace' : Trace) :
    AgreesBeside id { a with stores := a.stores.modifyFrames other f, trace := trace }
      { b with stores := b.stores.modifyFrames other f, trace := trace' } := by
  refine { h with others := fun scope hne => ?_ }
  show (b.stores.modifyFrames other f).stack scope = (a.stores.modifyFrames other f).stack scope
  by_cases hother : scope = .subroutine other
  · subst hother
    rw [Stores.stack_modifyFrames_self, Stores.stack_modifyFrames_self, h.others _ hne]
  · rw [Stores.stack_modifyFrames_of_ne _ _ hother, Stores.stack_modifyFrames_of_ne _ _ hother,
      h.others _ hne]

/-- Changing the frames of another subroutine keeps the stacks of this one. -/
theorem modifyFrames_of_ne (h : Stacked id below below' height a b) {other : Nat}
    (hne : id ≠ other) (f : Frames → Frames) (trace trace' : Trace) :
    Stacked id below below' height
      { a with stores := a.stores.modifyFrames other f, trace := trace }
      { b with stores := b.stores.modifyFrames other f, trace := trace' } := by
  have hscope : Scope.subroutine id ≠ .subroutine other := fun heq => hne (Scope.subroutine.inj heq)
  obtain ⟨own, hsize, ha, hb⟩ := h.own
  refine { h.agreesBeside_modifyFrames other f trace trace' with own := ⟨own, hsize, ?_, ?_⟩ }
  · exact (Stores.stack_modifyFrames_of_ne _ f hscope).trans ha
  · exact (Stores.stack_modifyFrames_of_ne _ f hscope).trans hb

/-- Starting an activation of the subroutine adds one frame that both machines have. -/
theorem enterFrame_self (h : Stacked id below below' height a b) :
    Stacked id below below' (height + 1) (enterFrame id a) (enterFrame id b) := by
  obtain ⟨own, hsize, ha, hb⟩ := h.own
  obtain ⟨trace, hea⟩ := enterFrame_eq id a
  obtain ⟨trace', heb⟩ := enterFrame_eq id b
  rw [hea, heb]
  refine { h.agreesBeside_modifyFrames id (·.push #[]) trace trace' with
    own := ⟨own.push #[], by simp [hsize], ?_, ?_⟩ }
  · exact (Stores.stack_modifyFrames_self _ _ _).trans (by rw [ha, Array.push_append])
  · exact (Stores.stack_modifyFrames_self _ _ _).trans (by rw [hb, Array.push_append])

/-- Ending an activation of the subroutine takes one of these frames away. -/
theorem leaveFrame_self (h : Stacked id below below' (height + 1) a b) :
    Stacked id below below' height (leaveFrame id a) (leaveFrame id b) := by
  obtain ⟨own, hsize, ha, hb⟩ := h.own
  have hpos : 0 < own.size := by omega
  obtain ⟨trace, hla⟩ := leaveFrame_eq id a
  obtain ⟨trace', hlb⟩ := leaveFrame_eq id b
  rw [hla, hlb]
  refine { h.agreesBeside_modifyFrames id Array.pop trace trace' with
    own := ⟨own.pop, by simp [hsize], ?_, ?_⟩ }
  · exact (Stores.stack_modifyFrames_self _ _ _).trans (by rw [ha, Frames.pop_append below hpos])
  · exact (Stores.stack_modifyFrames_self _ _ _).trans (by rw [hb, Frames.pop_append below' hpos])

/-- An activation of another subroutine changes nothing for this one when it starts. -/
theorem enterFrame_of_ne (h : Stacked id below below' height a b) {other : Nat} (hne : id ≠ other) :
    Stacked id below below' height (enterFrame other a) (enterFrame other b) := by
  obtain ⟨trace, hea⟩ := enterFrame_eq other a
  obtain ⟨trace', heb⟩ := enterFrame_eq other b
  rw [hea, heb]
  exact h.modifyFrames_of_ne hne (·.push #[]) trace trace'

/-- Nor does it when it ends. -/
theorem leaveFrame_of_ne (h : Stacked id below below' height a b) {other : Nat} (hne : id ≠ other) :
    Stacked id below below' height (leaveFrame other a) (leaveFrame other b) := by
  obtain ⟨trace, hla⟩ := leaveFrame_eq other a
  obtain ⟨trace', hlb⟩ := leaveFrame_eq other b
  rw [hla, hlb]
  exact h.modifyFrames_of_ne hne Array.pop trace trace'

end Stacked

end Machine

/-! ## Runs side by side -/

/-- From machines with a frame in common the computations end in the same way or not at all, and the
machines they leave have as many frames in common. -/
def Run.Tandem {α : Type} (id : Nat) (below below' : Frames) (x y : Run α) : Prop :=
  ∀ height a b, Machine.Stacked id below below' (height + 1) a b →
    Option.Rel (fun e e' => e'.1 = e.1 ∧ Machine.Stacked id below below' (height + 1) e.2 e'.2)
      (x a) (y b)

namespace Run.Tandem

variable {id : Nat} {below below' : Frames} {α β : Type}

theorem unfinished : Tandem id below below' (MonadScript.unfinished : Run α) MonadScript.unfinished :=
  fun _ _ _ _ => .none

theorem pure (a : α) : Tandem id below below' (Pure.pure a : Run α) (Pure.pure a) :=
  fun _ _ _ h => .some ⟨rfl, h⟩

theorem raise (u : Unwind) :
    Tandem id below below' (MonadScript.raise u : Run α) (MonadScript.raise u) :=
  fun _ _ _ h => .some ⟨rfl, h⟩

theorem effect (e : Effect α) :
    Tandem id below below' (MonadScript.act e.apply : Run α) (MonadScript.act e.apply) := by
  intro height a b h
  obtain ⟨hvalue, hafter⟩ := h.effect e
  exact .some ⟨congrArg Except.ok hvalue, hafter⟩

theorem emit (e : TraceEvent) :
    Tandem id below below' (MonadScript.emit e : Run Unit) (MonadScript.emit e) :=
  effect (.report e)

theorem bind {x y : Run α} {f g : α → Run β} (hx : Tandem id below below' x y)
    (hf : ∀ a, Tandem id below below' (f a) (g a)) : Tandem id below below' (x >>= f) (y >>= g) := by
  intro height a b h
  rw [Run.bind_apply, Run.bind_apply]
  obtain ⟨hxa, hyb⟩ | ⟨⟨result, a'⟩, ⟨result', b'⟩, hxa, hyb, hresult, hmiddle⟩ :=
    (hx height a b h).inv
  · rw [hxa, hyb]
    exact .none
  · obtain rfl : result' = result := hresult
    rw [hxa, hyb]
    cases result' with
    | error u => exact .some ⟨rfl, hmiddle⟩
    | ok w => exact hf w height a' b' hmiddle

theorem settle {x y : Run α} (h : Tandem id below below' x y)
    (g : Except Unwind α → Except Unwind β) :
    Tandem id below below' (MonadScript.ending x fun r m => (g r, m))
      (MonadScript.ending y fun r m => (g r, m)) := by
  intro height a b hab
  exact (h height a b hab).map fun _ _ hend => ⟨congrArg g hend.1, hend.2⟩

theorem bracket {x y : Run α} (h : Tandem id below below' x y) (br : Bracket) :
    Tandem id below below' (MonadScript.bracket br.enter br.leave x : Run α)
      (MonadScript.bracket br.enter br.leave y) := by
  intro height a b hab
  rw [Run.bracket_apply, Run.bracket_apply]
  cases br with
  | call name =>
    have hcalled := (hab.effect (.report (.callEntered name))).2
    refine (h height _ _ hcalled).map fun e e' hend => ?_
    exact ⟨hend.1, (hend.2.effect (.report (.callLeft name))).2⟩
  | frame other =>
    by_cases hid : id = other
    · subst hid
      exact (h (height + 1) _ _ hab.enterFrame_self).map fun _ _ hend =>
        ⟨hend.1, hend.2.leaveFrame_self⟩
    · exact (h height _ _ (hab.enterFrame_of_ne hid)).map fun _ _ hend =>
        ⟨hend.1, hend.2.leaveFrame_of_ne hid⟩

end Run.Tandem

/-- Runs side by side, as a simulation. -/
def Run.tandem (id : Nat) (below below' : Frames) : Simulation Run Run where
  allows _ := True
  rel := Run.Tandem id below below'
  pure := Run.Tandem.pure
  bind := Run.Tandem.bind
  unfinished := Run.Tandem.unfinished
  raise := Run.Tandem.raise
  effect e _ := Run.Tandem.effect e
  bracket br h := h.bracket br
  settle g h := h.settle g

theorem Run.tandem_lax (id : Nat) (below below' : Frames) : (Run.tandem id below below').Lax :=
  fun _ _ => trivial

theorem exec_tandem (env : Environment) (id : Nat) (below below' : Frames) (fuel : Nat)
    (node : Node) : Run.Tandem id below below' (exec env fuel node) (exec env fuel node) := by
  induction fuel generalizing node with
  | zero => exact Run.Tandem.unfinished
  | succ fuel ih =>
    rw [exec_succ]
    exact Run.Tandem.bind (Run.Tandem.emit _) fun _ =>
      (Run.tandem_lax id below below').step_rel env ih (Or.inl rfl) node

/-! ## Activations -/

/-- **Independence.**  Start an activation of a subroutine, with any body and any arguments, from two
machines that agree on everything but the frames already stacked for it (and the trace, which counts
them).  Then both runs finish or neither does.  If they finish, they end in the same way, the
machines they leave agree on everything else again, and the frames that were there are untouched. -/
theorem activate_independent (env : Environment) (fuel id : Nat) (s : Subroutine) (body : Node)
    (arguments : List Word) {a b : Machine} (h : a.AgreesBeside id b) :
    Option.Rel
      (fun e e' => e'.1 = e.1 ∧ e.2.AgreesBeside id e'.2 ∧
        e.2.stores.frames id = a.stores.frames id ∧ e'.2.stores.frames id = b.stores.frames id)
      (activate id s (exec env fuel body) arguments a)
      (activate id s (exec env fuel body) arguments b) := by
  have hbody := exec_tandem env id (a.stores.frames id) (b.stores.frames id) fuel body
  have hinside := (Run.tandem id _ _).activation_rel (c := s) (fun _ _ _ => trivial)
    (fun _ _ => trivial) hbody arguments
  unfold activate
  rw [Run.bracket_apply, Run.bracket_apply]
  refine (hinside 0 _ _ h.stacked.enterFrame_self).map fun e e' hend => ?_
  have hleft := hend.2.leaveFrame_self
  exact ⟨hend.1, hleft.toAgreesBeside, hleft.frames_eq⟩

/-- One of two subroutines that call each other as often as the argument says.  Each reads its own
argument again after the other one has returned, and combines the two numbers. -/
def ladder (id other : Nat) (op : BinaryOp) : Subroutine :=
  let l := Location.unknown
  let n : Variable := ⟨"n", .parameter, .subroutine id, 0⟩
  let r : Variable := ⟨"r", .result, .subroutine id, 1⟩
  let inner : Node := .call l "" other [.binary l .sub (.var l n) (.literal l 1)]
  { name := ""
    parameters := [n]
    result := some r
    slots := 2
    body := some (.cond l (.var l n) (.assign l r (.binary l op inner (.var l n))) none) }

/-- An environment with the two of them: one adds, the other multiplies. -/
def ladderEnv : Environment where
  subroutines := #[ladder 0 1 .add, ladder 1 0 .mul]
  registered := [("sum", 0), ("product", 1)]

/-- The activation of the first subroutine with an argument. -/
def ladderRun (n : Word) : Run Word :=
  activate 0 (ladder 0 1 .add) (exec ladderEnv 30 (ladder 0 1 .add).body.get!) [n]

/-- Three activations of the first subroutine inside each other, started with no frame in one
machine and on top of two frames in the other: both give `3 * (1 * 0 + 2) + 4`. -/
theorem ladder_independent :
    let deep : Machine := { stores := { locals := #[#[#[9, 9], #[8]]] } }
    ∃ a' b', ladderRun 4 {} = some (.ok 10, a') ∧ ladderRun 4 deep = some (.ok 10, b') ∧
      a'.AgreesBeside 0 b' ∧ a'.stores.frames 0 = #[] ∧ b'.stores.frames 0 = #[#[9, 9], #[8]] := by
  intro deep
  have hstart : Machine.AgreesBeside 0 {} deep := by
    refine ⟨rfl, fun scope hne => ?_, rfl, rfl, rfl, rfl⟩
    cases scope with
    | global => rfl
    | subroutine id =>
      cases id with
      | zero => exact absurd rfl hne
      | succ id => simp [Stores.stack, Stores.frames, deep]
  have hvalue : (ladderRun 4 {}).map (·.1.toOption) = some (some 10) := by decide +kernel
  obtain ⟨⟨u | w, a'⟩, ha, hw⟩ := Option.map_eq_some_iff.mp hvalue
  · cases hw
  cases hw
  have hboth := activate_independent ladderEnv 30 0 (ladder 0 1 .add)
    (ladder 0 1 .add).body.get! [4] hstart
  obtain ⟨hnone, -⟩ | ⟨e, ⟨r, b'⟩, he, hb, hresult, hagrees, hbelow, hbelow'⟩ := hboth.inv
  · cases ha.symm.trans hnone
  · obtain rfl : _ = e := Option.some.inj (ha.symm.trans he)
    obtain rfl : r = .ok 10 := hresult
    exact ⟨a', b', ha, hb, hagrees, hbelow, hbelow'⟩

end PeekPoke
