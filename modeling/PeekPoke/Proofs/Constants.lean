import PeekPoke.Proofs.Histories
import PeekPoke.Proofs.Tidiness
import PeekPoke.Proofs.Transition
import PeekPoke.Script.Execute
set_option autoImplicit false

/-!
# Constant nodes are safe to evaluate

A node that was built and is constant is as flat as a node can be: a literal, a constant, or an
operator over literals (`Node.Flat`).  So its result depends on at most one constant, and all that can
go wrong is a division by zero at the node itself.  Main statement: in every world that can be
reached, the constant children of nodes are literals, executing a constant node has one fixed result
from then on and touches nothing, and no constructor fails because a constant could not be evaluated
(`World.Reached.soundConstants`).
-/

namespace PeekPoke

/-! ## Flat nodes -/

namespace Node

/-- A literal, a constant, or an operator over literals. -/
inductive Flat : Node → Prop where
  | literal (l : Location) (x : Word) : Flat (.literal l x)
  | var (l : Location) {v : Variable} : v.isConstant = true → Flat (.var l v)
  | indexed (l : Location) {v : Variable} (lo : Location) (x : Word) : v.isConstant = true →
      Flat (.indexed l v (.literal lo x))
  | unary (l : Location) (op : UnaryOp) (lo : Location) (x : Word) :
      Flat (.unary l op (.literal lo x))
  | binary (l : Location) (op : BinaryOp) (ll lr : Location) (x y : Word) :
      Flat (.binary l op (.literal ll x) (.literal lr y))
  | narrow (l : Location) (width : Width) (lo : Location) (x : Word) :
      Flat (.narrow l width (.literal lo x))

variable {node : Node} {get get' : Variable → Word}

theorem eq_literal_of_isSome (h : node.literal?.isSome = true) : ∃ l x, node = .literal l x := by
  cases node with
  | literal l x => exact ⟨l, x, rfl⟩
  | _ => simp [literal?] at h

/-- A constant node whose constant children are literals is flat. -/
theorem flat_of_folded (hc : node.isConstant = true)
    (hfolded : ∀ c ∈ node.children, c.isConstant = true → c.literal?.isSome = true) :
    node.Flat := by
  have hliteral : ∀ c ∈ node.children, c.isConstant = true → ∃ l x, c = .literal l x :=
    fun c hmem hconst => eq_literal_of_isSome (hfolded c hmem hconst)
  cases node with
  | literal l x => exact .literal l x
  | var l v => exact .var l hc
  | indexed l v offset =>
    simp only [isConstant, Bool.and_eq_true] at hc
    obtain ⟨lo, x, rfl⟩ := hliteral offset (by simp [children]) hc.2
    exact .indexed l lo x hc.1
  | unary l op operand =>
    obtain ⟨lo, x, rfl⟩ := hliteral operand (by simp [children]) hc
    exact .unary l op lo x
  | binary l op left right =>
    simp only [isConstant, Bool.and_eq_true] at hc
    obtain ⟨ll, x, rfl⟩ := hliteral left (by simp [children]) hc.1
    obtain ⟨lr, y, rfl⟩ := hliteral right (by simp [children]) hc.2
    exact .binary l op ll lr x y
  | narrow l width operand =>
    obtain ⟨lo, x, rfl⟩ := hliteral operand (by simp [children]) hc
    exact .narrow l width lo x
  | _ => simp [isConstant] at hc

theorem Flat.isConstant (h : node.Flat) : node.isConstant = true := by
  cases h <;> simp_all [Node.isConstant]

theorem Flat.height_le (h : node.Flat) : node.height ≤ 2 := by
  cases h <;> simp [height]

/-- The value of a flat node depends on the constant it reads, if it reads one. -/
theorem Flat.constantValue_congr (h : node.Flat)
    (hget : ∀ v, node.source? = some v → v.isConstant = true → get v = get' v) :
    node.constantValue get = node.constantValue get' := by
  cases h with
  | var l hv => simp [constantValue, hget _ rfl hv]
  | indexed l lo x hv => simp [constantValue, hget _ rfl hv]
  | _ => rfl

/-- All that can go wrong in a flat node is a division by zero, at the node itself. -/
theorem Flat.zeroDivision (h : node.Flat) {u : Unwind} (hu : node.constantValue get = .error u) :
    u.IsZeroDivision node.location := by
  cases h with
  | binary l op ll lr x y =>
    simp only [constantValue, bind, Except.bind] at hu
    split at hu
    · cases hu
    · split at hu
      · cases hu
      · cases hu
        exact BinaryOp.eval_eq_error ‹_›
  | _ => cases hu

end Node

/-! ## Traces that are switched off -/

/-- An execution adds nothing to a trace that is switched off. -/
theorem trace_transition :
    Transition fun m m' => m.trace.enabled = false → m'.trace = m.trace where
  refl _ _ := rfl
  trans hab hbc ha := by
    have hb := hab ha
    rw [hbc (by rw [hb, ha]), hb]
  effect e m hm := by
    cases e with
    | report e => simp [Effect.apply, Machine.emit, Trace.add, hm]
    | _ => rfl
  bracket b {m m'} hinside hm := by
    cases b with
    | call name =>
      have hafter := hinside (by simp [Bracket.enter, Machine.emit, Trace.add, hm])
      simp_all [Bracket.enter, Bracket.leave, Machine.emit, Trace.add]
    | frame id =>
      have hafter := hinside
        (by simp [Bracket.enter, enterFrame, Machine.emitFrom, hm])
      simp_all [Bracket.enter, Bracket.leave, enterFrame, leaveFrame, Machine.emitFrom]

/-! ## Worlds -/

namespace World

variable {w w' : World} {node : Node}

/-- From a world on, executing the node has this result in every machine and leaves everything but
the trace as it is, and the trace too if it is switched off. -/
def Fixes (w : World) (node : Node) (r : Except Unwind Word) : Prop :=
  ∀ {w' : World} {m : Machine}, w.Steps w' → w'.Visits m →
    ∃ trace, node.execute w'.env m = some (r, m.withTrace trace) ∧
      (m.trace.enabled = false → trace = m.trace)

theorem Tidy.flat (h : w.Tidy) (hnode : node ∈ w.nodes) (hc : node.isConstant = true) :
    node.Flat := by
  have himport : node.isImport = false := by
    cases node with
    | imported => cases hc
    | _ => rfl
  exact Node.flat_of_folded hc ((h.node node hnode node .self).folded himport)

/-- A flat node is executed without leaving anything behind. -/
theorem execute_of_flat (h : node.Flat) (env : Environment) (m : Machine) :
    ∃ trace, node.execute env m = some (node.constantValue m.stores.get, m.withTrace trace) ∧
      (m.trace.enabled = false → trace = m.trace) := by
  have hfuel : node.height ≤ fuelLimit := Nat.le_trans h.height_le (by decide)
  obtain ⟨trace, hexec⟩ := exec_of_isConstant env fuelLimit h.isConstant hfuel m
  rw [Node.execute_eq]
  exact ⟨trace, hexec, trace_transition.exec hexec⟩

/-- A constant node keeps its value, whatever happens. -/
theorem Tidy.constantValue_eq (h : w.Tidy) (hsteps : w.Steps w') {m : Machine} (hm : w'.Visits m)
    (hnode : node ∈ w.nodes) (hc : node.isConstant = true) :
    node.constantValue m.stores.get = node.constantValue w.machine.stores.get := by
  obtain ⟨h', hgrows⟩ := hsteps.grows h
  refine (h.flat hnode hc).constantValue_congr fun v hv hconst => ?_
  have hbound := (h.node node hnode node .self).source v hv hconst
  have hbound' := hgrows.names.constant hbound hconst
  exact (h'.holds_of_visits hm v _ ⟨hbound', hconst, rfl⟩).trans (hgrows.value hbound hconst)

theorem Tidy.fixes (h : w.Tidy) (hnode : node ∈ w.nodes) (hc : node.isConstant = true) :
    w.Fixes node (node.constantValue w.machine.stores.get) := by
  intro w' m hsteps hm
  obtain ⟨trace, hexec, htrace⟩ := execute_of_flat (h.flat hnode hc) w'.env m
  rw [h.constantValue_eq hsteps hm hnode hc] at hexec
  exact ⟨trace, hexec, htrace⟩

/-- What holds of the constant nodes of a world. -/
structure SoundConstants (w : World) : Prop where
  /-- The constant children of every part of a node are literals, except those of imports. -/
  folded : ∀ {node part c : Node}, node ∈ w.nodes → part.Part node → part.isImport = false →
    c ∈ part.children → c.isConstant = true → ∃ l x, c = .literal l x
  /-- A constant node has one result from now on: a word, or a division by zero at the node. -/
  fixed : ∀ {node : Node}, node ∈ w.nodes → node.isConstant = true → ∃ r,
    (∀ u, r = .error u → u.IsZeroDivision node.location) ∧ w.Fixes node r
  /-- No constructor fails because a constant could not be evaluated. -/
  foreseen : ∀ {x : Build Node} {e : BuildError} {s : System}, Construction w.nodes x →
    x w.system = .error e s → ∀ text, e.cause ≠ .constantEvaluation text

/-- The constant nodes of every world that can be reached are sound. -/
theorem Reached.soundConstants (h : w.Reached) : w.SoundConstants where
  folded hnode hpart himport hmem hc :=
    Node.eq_literal_of_isSome ((h.tidy.node _ hnode _ hpart).folded himport _ hmem hc)
  fixed hnode hc :=
    ⟨_, fun _ hu => (h.tidy.flat hnode hc).zeroDivision hu, h.tidy.fixes hnode hc⟩
  foreseen hx hfails := (hx.gives _).of_error hfails

end World

/-- A constant, and a division of it by zero. -/
def quotientBuilt : List Command :=
  let l := Location.unknown
  [.build "total" (.define l "total" (.literal l 8)),
    .build "quotient" (.binary l .div (.var l "total") (.literal l 0))]

/-- A subroutine that assigns a variable, and a run of it. -/
def quotientLater : List Command :=
  let l := Location.unknown
  [.define ⟨l, "set", [], none⟩ (.assign l "x" (.literal l 1)),
    .build "call" (.call l "set" []), .run "call"]

/-- What is built of the division: the constant is a literal in it. -/
def quotient : Node := .binary .unknown .div (.literal .unknown 8) (.literal .unknown 0)

/-- The division is constant, and fails in the same way whenever it is executed. -/
theorem quotient_soundConstants :
    ∃ w w' : World, w.Reached ∧ w.Steps w' ∧ quotient ∈ w.nodes ∧ quotient.isConstant = true ∧
      ∃ trace, quotient.execute w'.env w'.machine =
        some (.error (.failure ⟨.divisionByZero, .unknown⟩), w'.machine.withTrace trace) := by
  let new := Session.start .native [] (.simulated {}) false false
  have hspares : new.sparesAll quotientBuilt = true := by rfl
  obtain ⟨w, hreached, hmirrors⟩ :=
    Session.steps_reached .native [] (.simulated {}) false false hspares
  obtain ⟨w', hsteps, -⟩ := Session.follows_steps hmirrors
    (show Session.sparesAll _ quotientLater = true by rfl)
  have hnode : quotient ∈ w.nodes := hmirrors.nodes "quotient" quotient (by rfl)
  obtain ⟨r, -, hfixes⟩ := (World.Reached.soundConstants hreached).fixed hnode rfl
  obtain ⟨trace, hnow, -⟩ := hfixes .refl .now
  obtain ⟨trace', hlater, -⟩ := hfixes hsteps .now
  -- The result is the one there is now, which is that of the division.
  obtain ⟨_, hdivision, -⟩ :=
    World.execute_of_flat (.binary .unknown .div .unknown .unknown 8 0) w.env w.machine
  have hr : r = .error (.failure ⟨.divisionByZero, .unknown⟩) :=
    congrArg Prod.fst (Option.some.inj (hnow.symm.trans hdivision))
  exact ⟨w, w', hreached, hsteps, hnode, rfl, trace', hr ▸ hlater⟩

end PeekPoke
