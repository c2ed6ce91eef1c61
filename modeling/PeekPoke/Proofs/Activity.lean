import PeekPoke.Proofs.Journal
set_option autoImplicit false

/-!
# What happens during an execution

An `Activity` is an event that the devices saw, or the execution of a node with all that happened
during it: a tree that records, for every node that was executed, the machine it started in, how it
ended, and in between the executions of its parts and the events it caused itself.  Executing a node
with such a record (`observe`) ends as executing it without (`observe_endsAs`).

A `Contract` is a statement about a part of an execution, by the machine it starts in, its record and
the machine it leaves behind, that can be chained and that the effects of a script respect.  Main
statement: an execution abides by every such contract, if the nodes it reaches have only effects that
the contract allows (`Contract.observe`).
-/

namespace PeekPoke

open MonadScript

/-! ## Records -/

/-- An event that the devices saw, or the execution of a node: the machine it started in, what
happened during it, oldest first, and how it ended. -/
inductive Activity where
  | event (e : BusEvent)
  | execution (node : Node) (start : Machine) (inner : List Activity) (ending : Ending Word)
  deriving Inhabited

namespace Activity

/-- The event, if the activity is one. -/
def event? : Activity → Option BusEvent
  | event e => some e
  | execution .. => none

/-- The node that was executed, if the activity is an execution. -/
def node? : Activity → Option Node
  | event _ => none
  | execution node .. => some node

/-- The value an execution ended with and the machine it left behind. -/
def value? : Activity → Option (Word × Machine)
  | execution _ _ _ (some (.ok w, m)) => some (w, m)
  | _ => none

/-- The events that are not part of an inner execution. -/
def own (log : List Activity) : List BusEvent := log.filterMap event?

/-- The nodes that were executed, apart from inner executions. -/
def parts (log : List Activity) : List Node := log.filterMap node?

/-- The values of the executions that ended with one, apart from inner executions, and the machines
they left behind. -/
def results (log : List Activity) : List (Word × Machine) := log.filterMap value?

mutual

/-- The events during an activity, oldest first. -/
def events : Activity → List BusEvent
  | event e => [e]
  | execution _ _ inner _ => allEvents inner

/-- The events during activities, oldest first. -/
def allEvents : List Activity → List BusEvent
  | [] => []
  | x :: rest => x.events ++ allEvents rest

end

/-- The activity is among others or inside one of them. -/
inductive Occurs (x : Activity) : List Activity → Prop where
  | here {log : List Activity} : x ∈ log → Occurs x log
  | inside {log inner : List Activity} {node : Node} {start : Machine} {ending : Ending Word} :
      execution node start inner ending ∈ log → Occurs x inner → Occurs x log

@[simp] theorem own_nil : own [] = [] := rfl

@[simp] theorem own_append (log log' : List Activity) : own (log ++ log') = own log ++ own log' :=
  List.filterMap_append

@[simp] theorem own_map_event (es : List BusEvent) : own (es.map event) = es := by
  induction es with
  | nil => rfl
  | cons e rest ih => simp_all [own, event?]

@[simp] theorem parts_append (log log' : List Activity) :
    parts (log ++ log') = parts log ++ parts log' := List.filterMap_append

@[simp] theorem parts_map_event (es : List BusEvent) : parts (es.map event) = [] := by
  simp [parts, node?]

@[simp] theorem results_map_event (es : List BusEvent) : results (es.map event) = [] := by
  simp [results, value?]

@[simp] theorem results_append (log log' : List Activity) :
    results (log ++ log') = results log ++ results log' := List.filterMap_append

@[simp] theorem allEvents_nil : allEvents [] = [] := by
  simp [allEvents]

@[simp] theorem allEvents_append (log log' : List Activity) :
    allEvents (log ++ log') = allEvents log ++ allEvents log' := by
  induction log with
  | nil => simp
  | cons x rest ih => simp [allEvents, ih]

@[simp] theorem allEvents_map_event (es : List BusEvent) : allEvents (es.map event) = es := by
  induction es with
  | nil => simp
  | cons e rest ih => simp [allEvents, events, ih]

@[simp] theorem allEvents_event (e : BusEvent) : allEvents [event e] = [e] :=
  allEvents_map_event [e]

@[simp] theorem allEvents_execution (node : Node) (start : Machine) (inner : List Activity)
    (ending : Ending Word) : allEvents [execution node start inner ending] = allEvents inner := by
  simp [allEvents, events]

theorem not_occurs_nil (x : Activity) : ¬ Occurs x [] := by
  intro h
  cases h with
  | here h => simp at h
  | inside h _ => simp at h

theorem occurs_append {x : Activity} {log log' : List Activity} (h : Occurs x (log ++ log')) :
    Occurs x log ∨ Occurs x log' := by
  cases h with
  | here h =>
    rcases List.mem_append.mp h with h | h
    · exact Or.inl (.here h)
    · exact Or.inr (.here h)
  | inside h hx =>
    rcases List.mem_append.mp h with h | h
    · exact Or.inl (.inside h hx)
    · exact Or.inr (.inside h hx)

theorem occurs_map_event {x : Activity} {es : List BusEvent} (h : Occurs x (es.map event)) :
    ∃ e, x = event e := by
  cases h with
  | here h =>
    obtain ⟨e, _, rfl⟩ := List.mem_map.mp h
    exact ⟨e, rfl⟩
  | inside h _ => simp at h

theorem occurs_execution {x : Activity} {node : Node} {start : Machine} {inner : List Activity}
    {ending : Ending Word} (h : Occurs x [execution node start inner ending]) :
    x = execution node start inner ending ∨ Occurs x inner := by
  cases h with
  | here h => exact Or.inl (List.mem_singleton.mp h)
  | inside h hx =>
    obtain ⟨rfl, rfl, rfl, rfl⟩ := execution.inj (List.mem_singleton.mp h)
    exact Or.inr hx

theorem Occurs.mono {x : Activity} {log log' : List Activity} (h : Occurs x log) (hsub : log ⊆ log') :
    Occurs x log' := by
  cases h with
  | here h => exact .here (hsub h)
  | inside h hx => exact .inside (hsub h) hx

/-- The event is one of the activities, or was caused by a node whose execution is among them or
inside one of them. -/
def Caused (e : BusEvent) (log : List Activity) : Prop :=
  e ∈ own log ∨ ∃ node start inner ending,
    Occurs (.execution node start inner ending) log ∧ e ∈ own inner

theorem Caused.mono {e : BusEvent} {log log' : List Activity} (h : Caused e log)
    (hsub : log ⊆ log') : Caused e log' := by
  rcases h with h | ⟨node, start, inner, ending, hoccurs, he⟩
  · obtain ⟨x, hx, hevent⟩ := List.mem_filterMap.mp h
    exact Or.inl (List.mem_filterMap.mpr ⟨x, hsub hx, hevent⟩)
  · exact Or.inr ⟨node, start, inner, ending, hoccurs.mono hsub, he⟩

mutual

theorem caused_of_mem_events {e : BusEvent} : (x : Activity) → e ∈ x.events → Caused e [x]
  | event e', h => by
    simp only [events, List.mem_singleton] at h
    exact Or.inl (by simp [own, event?, h])
  | execution node start inner ending, h => by
    simp only [events] at h
    have hself : execution node start inner ending ∈ [execution node start inner ending] :=
      List.mem_singleton_self _
    rcases caused_of_mem_allEvents inner h with h | ⟨node', start', inner', ending', hoccurs, he⟩
    · exact Or.inr ⟨node, start, inner, ending, .here hself, h⟩
    · exact Or.inr ⟨node', start', inner', ending', .inside hself hoccurs, he⟩

/-- Every event has a node that caused it. -/
theorem caused_of_mem_allEvents {e : BusEvent} :
    (log : List Activity) → e ∈ allEvents log → Caused e log
  | [], h => by simp at h
  | x :: rest, h => by
    simp only [allEvents, List.mem_append] at h
    rcases h with h | h
    · exact (caused_of_mem_events x h).mono (by simp)
    · exact (caused_of_mem_allEvents rest h).mono (List.subset_cons_self x rest)

end

end Activity

/-! ## Executions with a record -/

/-- The events that the devices saw between two machines, oldest first. -/
def Machine.seen (before after : Machine) : List BusEvent :=
  (after.traffic.take (after.traffic.length - before.traffic.length)).reverse

theorem Machine.seen_of_eq {before after : Machine} (h : after.traffic = before.traffic) :
    before.seen after = [] := by
  simp [Machine.seen, h]

@[simp] theorem Bracket.traffic_enter (b : Bracket) (m : Machine) :
    (b.enter m).traffic = m.traffic := by
  obtain ⟨stores, trace, h⟩ := b.enter_eq m
  rw [h]

@[simp] theorem Bracket.traffic_leave (b : Bracket) (m : Machine) :
    (b.leave m).traffic = m.traffic := by
  obtain ⟨stores, trace, h⟩ := b.leave_eq m
  rw [h]

/-- A computation that also records what happens. -/
def Observed (α : Type) : Type := Journal Activity α

namespace Observed

variable {α β : Type}

/-- Computations are carried out as in every journal; what the devices see of a change is
recorded. -/
instance : MonadScript Observed where
  pure := @Pure.pure (Journal Activity) _
  bind := @Bind.bind (Journal Activity) _
  unfinished := @MonadScript.unfinished (Journal Activity) _
  raise := @MonadScript.raise (Journal Activity) _
  act f := fun m => ((m.seen (f m).2).map .event, some (.ok (f m).1, (f m).2))
  ending := @MonadScript.ending (Journal Activity) _

/-- Records a computation as the execution of a node. -/
def enclose (node : Node) (x : Observed Word) : Observed Word :=
  fun m => ([.execution node m (x m).1 (x m).2], (x m).2)

theorem bind_of_none {x : Observed α} {m : Machine} {log : List Activity} (h : x m = (log, none))
    (f : α → Observed β) : (x >>= f) m = (log, none) := Journal.bind_of_none h f

theorem bind_of_ok {x : Observed α} {m m' : Machine} {log : List Activity} {a : α}
    (h : x m = (log, some (.ok a, m'))) (f : α → Observed β) :
    (x >>= f) m = (log ++ (f a m').1, (f a m').2) := Journal.bind_of_ok h f

theorem bind_of_error {x : Observed α} {m m' : Machine} {log : List Activity} {u : Unwind}
    (h : x m = (log, some (.error u, m'))) (f : α → Observed β) :
    (x >>= f) m = (log, some (.error u, m')) := Journal.bind_of_error h f

theorem act_apply (f : Machine → α × Machine) (m : Machine) :
    (act f : Observed α) m = ((m.seen (f m).2).map .event, some (.ok (f m).1, (f m).2)) := rfl

theorem ending_apply (x : Observed α)
    (settle : Except Unwind α → Machine → Except Unwind β × Machine) (m : Machine) :
    (ending x settle : Observed β) m = ((x m).1, (x m).2.map fun (r, m') => settle r m') := rfl

theorem emit_apply (e : TraceEvent) (m : Machine) :
    (emit e : Observed Unit) m = ([], some (.ok (), m.emit e)) := by
  have hquiet : m.seen (m.emit e) = [] := Machine.seen_of_eq rfl
  show (act fun m => ((), m.emit e) : Observed Unit) m = _
  simp [act_apply, hquiet]

theorem look_apply {α : Type} (f : Machine → α) (m : Machine) :
    (look f : Observed α) m = ([], some (.ok (f m), m)) := by
  have hquiet : m.seen m = [] := Machine.seen_of_eq rfl
  show (act fun m => (f m, m) : Observed α) m = _
  simp [act_apply, hquiet]

/-- Giving a variable a value is not seen by the devices. -/
theorem store_apply (v : Variable) (w : Word) (m : Machine) :
    (store v w : Observed Unit) m = ([], some (.ok (), m.assign v w)) := by
  have hquiet : m.seen (m.assign v w) = [] := Machine.seen_of_eq rfl
  show (act fun m => ((), m.assign v w) : Observed Unit) m = _
  simp [act_apply, hquiet]

/-- The end of a statement is not recorded, but the supervisor sees it. -/
theorem endStatement_apply (m : Machine) :
    (act Machine.endStatement : Observed Bool) m =
      ([], some (.ok (m.meet .statement).stop.requested, m.meet .statement)) := by
  have hquiet : m.seen (m.meet .statement) = [] := Machine.seen_of_eq rfl
  rw [act_apply]
  show ((m.seen (m.meet .statement)).map Activity.event, _) = _
  rw [hquiet]
  rfl

/-- What happens inside a bracket is recorded, the bracket is not. -/
theorem bracket_apply (b : Bracket) (x : Observed α) (m : Machine) :
    (bracket b.enter b.leave x : Observed α) m =
      ((x (b.enter m)).1, (x (b.enter m)).2.map fun (r, m') => (r, b.leave m')) := by
  have hquiet : (change b.enter : Observed Unit) m = ([], some (.ok (), b.enter m)) := by
    show (act fun m => ((), b.enter m) : Observed Unit) m = _
    simp [act_apply, Machine.seen_of_eq]
  unfold bracket
  rw [bind_of_ok hquiet, ending_apply]
  rfl

end Observed

/-- Executes a node and records what happens. -/
def observe (env : Environment) : Nat → Node → Observed Word
  | 0, _ => unfinished
  | fuel + 1, node =>
    .enclose node do
      emit (.execute node.kind node.location)
      node.step env fuel (observe env fuel)

/-- What happens in the execution of a node. -/
def inside (env : Environment) (fuel : Nat) (node : Node) : Observed Word := do
  emit (.execute node.kind node.location)
  node.step env fuel (observe env fuel)

theorem observe_succ (env : Environment) (fuel : Nat) (node : Node) :
    observe env (fuel + 1) node = .enclose node (inside env fuel node) := rfl

/-- The recording computation ends as the other one does. -/
def Observed.EndsAs {α : Type} (y : Observed α) (x : Run α) : Prop := Journal.EndsAs y x

/-- Recording computations against the computations they record. -/
def Observed.faithful : Simulation Observed Run where
  allows _ := True
  rel := Observed.EndsAs
  pure _ := fun _ => rfl
  bind := Journal.EndsAs.bind
  unfinished := fun _ => rfl
  raise _ := fun _ => rfl
  effect _ _ := fun _ => rfl
  bracket b h := Journal.EndsAs.bind (fun _ => rfl) fun _ =>
    Journal.EndsAs.ending h fun r m => (r, b.leave m)
  settle g h := Journal.EndsAs.ending h fun r m => (g r, m)

theorem Observed.faithful_lax : Observed.faithful.Lax := fun _ _ => trivial

/-- Recording changes nothing about an execution. -/
theorem observe_endsAs (env : Environment) (fuel : Nat) (node : Node) :
    (observe env fuel node).EndsAs (exec env fuel node) := by
  induction fuel generalizing node with
  | zero => exact fun _ => rfl
  | succ fuel ih =>
    have hstep : Observed.EndsAs (node.step env fuel (observe env fuel))
        (node.step env fuel (exec env fuel)) :=
      Observed.faithful_lax.step_rel env ih (Or.inl rfl) node
    exact Observed.faithful.bind (fun _ => rfl) fun _ => hstep

/-- An execution is recorded with what happened during it and with how it ended. -/
theorem observe_record (env : Environment) (fuel : Nat) (node : Node) (m : Machine) :
    observe env (fuel + 1) node m =
      ([.execution node m (inside env fuel node m).1 (exec env (fuel + 1) node m)],
        exec env (fuel + 1) node m) := by
  rw [← observe_endsAs env (fuel + 1) node m]
  rfl

/-! ## Contracts -/

/-- A statement about a part of an execution, by the machine it starts in, its record and the machine
it leaves behind, if it ends.  It can be chained, and the effects and brackets of a script respect it
as far as the effects are allowed. -/
structure Contract (allows : {α : Type} → Effect α → Prop)
    (C : Machine → List Activity → Option Machine → Prop) : Prop where
  idle : ∀ m, C m [] (some m)
  lost : ∀ m, C m [] none
  chain : ∀ {m m' : Machine} {log log' : List Activity} {left : Option Machine},
    C m log (some m') → C m' log' left → C m (log ++ log') left
  effect : ∀ {α : Type} {e : Effect α}, allows e → ∀ m,
    C m ((m.seen (e.apply m).2).map .event) (some (e.apply m).2)
  bracket : ∀ (b : Bracket) {m : Machine} {log : List Activity} {left : Option Machine},
    C (b.enter m) log left → C m log (left.map b.leave)

/-- From every machine, the record and the machine that is left satisfy the contract. -/
def Observed.Abides {α : Type} (C : Machine → List Activity → Option Machine → Prop)
    (x : Observed α) : Prop := ∀ m, C m (x m).1 ((x m).2.map Prod.snd)

namespace Contract

variable {allows : {α : Type} → Effect α → Prop} {α β : Type}
  {C : Machine → List Activity → Option Machine → Prop}

theorem abides_bind (h : Contract allows C) {x : Observed α} {f : α → Observed β}
    (hx : x.Abides C) (hf : ∀ a, (f a).Abides C) : (x >>= f).Abides C := by
  intro m
  have hfirst := hx m
  rcases hxm : x m with ⟨log, _ | ⟨_ | a, m'⟩⟩
  · rw [hxm] at hfirst
    rw [Observed.bind_of_none hxm]
    exact hfirst
  · rw [hxm] at hfirst
    rw [Observed.bind_of_error hxm]
    exact hfirst
  · rw [hxm] at hfirst
    rw [Observed.bind_of_ok hxm]
    exact h.chain hfirst (hf a m')

theorem abides_settle {x : Observed α} (hx : x.Abides C)
    (g : Except Unwind α → Except Unwind β) :
    Observed.Abides C (ending x fun r m => (g r, m) : Observed β) := by
  intro m
  have hsame : ((x m).2.map fun (r, m') => (g r, m')).map Prod.snd = (x m).2.map Prod.snd := by
    simp [Function.comp_def]
  rw [Observed.ending_apply, hsame]
  exact hx m

theorem abides_bracket (h : Contract allows C) {x : Observed α} (hx : x.Abides C) (b : Bracket) :
    Observed.Abides C (MonadScript.bracket b.enter b.leave x : Observed α) := by
  intro m
  have hleave : ((x (b.enter m)).2.map fun (r, m') => (r, b.leave m')).map Prod.snd =
      ((x (b.enter m)).2.map Prod.snd).map b.leave := by
    simp [Function.comp_def]
  rw [Observed.bracket_apply, hleave]
  exact h.bracket b (hx (b.enter m))

/-- Abiding by a contract, as a simulation: what it is compared with plays no role. -/
def abiding (h : Contract allows C) : Simulation Observed Run where
  allows := allows
  rel x _ := x.Abides C
  pure _ := h.idle
  bind := h.abides_bind
  unfinished := h.lost
  raise _ := h.idle
  effect _ he := h.effect he
  bracket b hx := h.abides_bracket hx b
  settle g hx := abides_settle hx g

end Contract

/-- The nodes of a kind are made of such nodes and have only effects that are allowed, and calls run
such bodies. -/
structure Environment.Confines (env : Environment) (allows : {α : Type} → Effect α → Prop)
    (N : Node → Prop) : Prop where
  child : ∀ {node child : Node}, N node → child ∈ node.children → N child
  causes : ∀ {node : Node} {α : Type} {e : Effect α}, N node → node.Causes e → allows e
  body : ∀ {id : Nat} {s : Subroutine} {body : Node}, env.callable? id = some (s, body) → N body
  parameter : ∀ {id : Nat} {s : Subroutine} {body : Node}, env.callable? id = some (s, body) →
    ∀ v ∈ s.parameters, ∀ w, allows (.write v w)
  result : ∀ {id : Nat} {s : Subroutine} {body : Node}, env.callable? id = some (s, body) →
    ∀ v, s.result = some v → allows (.read v)

/-- Where every effect is allowed, every node may be executed. -/
theorem Environment.confines_all {allows : {α : Type} → Effect α → Prop}
    (h : ∀ {α : Type} (e : Effect α), allows e) (env : Environment) :
    env.Confines allows fun _ => True where
  child _ _ := trivial
  causes {_ _} e _ _ := h e
  body _ := trivial
  parameter _ v _ w := h (.write v w)
  result _ v _ := h (.read v)

namespace Contract

variable {allows : {α : Type} → Effect α → Prop}
  {C : Machine → List Activity → Option Machine → Prop}

/-- One node abides by a contract if its own effects are allowed and the evaluations of its children
and of the bodies it may call abide by it. -/
theorem abides_step (h : Contract allows C) {env : Environment} {eval : Node → Observed Word}
    (hcall : ∀ {id : Nat} {s : Subroutine} {body : Node}, env.callable? id = some (s, body) →
      (eval body).Abides C ∧ (∀ v ∈ s.parameters, ∀ w, allows (.write v w)) ∧
        ∀ v, s.result = some v → allows (.read v))
    (rounds : Nat) {node : Node} (hcauses : ∀ {α : Type} {e : Effect α}, node.Causes e → allows e)
    (hchild : ∀ child ∈ node.children, (eval child).Abides C) :
    (node.step env rounds eval).Abides C := by
  have hsetting : h.abiding.Setting (fun a b => a = b ∧ (eval a).Abides C) env env := by
    intro id
    cases hid : env.callable? id with
    | none => exact .none
    | some callee =>
      obtain ⟨hbody, hparameters, hresult⟩ := hcall hid
      exact .some ⟨rfl, rfl, hparameters, hresult, rfl, hbody⟩
  have heval : ∀ a b, a = b ∧ (eval a).Abides C → h.abiding.rel (eval a) (exec env rounds b) :=
    fun _ _ hab => hab.2
  exact h.abiding.step_rel hsetting heval (Or.inl rfl)
    (.refl_of_children fun child hmem => ⟨rfl, hchild child hmem⟩) fun e he => hcauses he

/-- Every execution abides by a contract that also holds of a node as a whole, once it holds of what
happens in it. -/
theorem observe (h : Contract allows C) {env : Environment} {N : Node → Prop}
    (hconfines : env.Confines allows N) (hreport : ∀ e, allows (.report e))
    (hwhole : ∀ {fuel : Nat} {node : Node} {m : Machine} {inner : List Activity}
      {ending : Ending Word}, N node → inside env fuel node m = (inner, ending) →
      C m inner (ending.map Prod.snd) → C m [.execution node m inner ending] (ending.map Prod.snd))
    (fuel : Nat) {node : Node} (hnode : N node) : (observe env fuel node).Abides C := by
  induction fuel generalizing node with
  | zero => exact h.lost
  | succ fuel ih =>
    have hemit : Observed.Abides C (emit (.execute node.kind node.location)) :=
      h.effect (hreport (.execute node.kind node.location))
    have hstep : (node.step env fuel (PeekPoke.observe env fuel)).Abides C :=
      h.abides_step
        (fun hid => ⟨ih (hconfines.body hid), hconfines.parameter hid, hconfines.result hid⟩) fuel
        (hconfines.causes hnode) fun _ hchild => ih (hconfines.child hnode hchild)
    exact fun m => hwhole hnode rfl (h.abides_bind hemit (fun _ => hstep) m)

end Contract

/-- What holds of the record of an execution as soon as it holds of the records inside it holds of
every record. -/
theorem record_induction (env : Environment)
    {P : Node → Machine → List Activity → Ending Word → Prop}
    (h : ∀ {fuel : Nat} {node : Node} {start : Machine} {inner : List Activity}
      {ending : Ending Word}, inside env fuel node start = (inner, ending) →
      (∀ {part : Node} {start' : Machine} {inner' : List Activity} {ending' : Ending Word},
        Activity.Occurs (.execution part start' inner' ending') inner →
          P part start' inner' ending') →
      P node start inner ending)
    (fuel : Nat) (root : Node) (m : Machine) {node : Node} {start : Machine}
    {inner : List Activity} {ending : Ending Word}
    (hx : Activity.Occurs (.execution node start inner ending) (observe env fuel root m).1) :
    P node start inner ending := by
  let C (_ : Machine) (log : List Activity) (_ : Option Machine) : Prop :=
    ∀ {node : Node} {start : Machine} {inner : List Activity} {ending : Ending Word},
      Activity.Occurs (.execution node start inner ending) log → P node start inner ending
  have hcontract : Contract (fun _ => True) C := by
    refine ⟨?_, ?_, ?_, ?_, ?_⟩
    · exact fun _ _ _ _ _ hx => absurd hx (Activity.not_occurs_nil _)
    · exact fun _ _ _ _ _ hx => absurd hx (Activity.not_occurs_nil _)
    · intro m m' log log' left hfirst hsecond node start inner ending hx
      rcases Activity.occurs_append hx with hx | hx
      · exact hfirst hx
      · exact hsecond hx
    · intro α e _ m node start inner ending hx
      obtain ⟨e, hevent⟩ := Activity.occurs_map_event hx
      cases hevent
    · exact fun _ _ _ _ hinside => hinside
  refine hcontract.observe (env.confines_all fun _ => trivial) (fun _ => trivial) ?_ fuel trivial m
    hx
  intro fuel node m inner ending _ hinside hinner _ _ _ _ hx
  rcases Activity.occurs_execution hx with hx | hx
  · cases hx
    exact h hinside hinner
  · exact hinner hx

/-- Every record of an execution inside another one is what would be recorded of it alone. -/
theorem inside_of_occurs (env : Environment) (fuel : Nat) (root : Node) (m : Machine) {node : Node}
    {start : Machine} {inner : List Activity} {ending : Ending Word}
    (h : Activity.Occurs (.execution node start inner ending) (observe env fuel root m).1) :
    ∃ less, inside env less node start = (inner, ending) :=
  record_induction env
    (P := fun node start inner ending => ∃ less, inside env less node start = (inner, ending))
    (fun hinside _ => ⟨_, hinside⟩) fuel root m h

/-- An execution that ends has a record with this ending. -/
theorem observe_of_exec {env : Environment} {fuel : Nat} {node : Node} {m m' : Machine}
    {r : Except Unwind Word} (h : exec env fuel node m = some (r, m')) :
    ∃ inner, (observe env fuel node m).1 = [.execution node m inner (some (r, m'))] := by
  cases fuel with
  | zero => cases h
  | succ fuel => exact ⟨_, by rw [observe_record, h]⟩

/-! ## Invariants of the machine -/

/-- Where the invariant holds at the start, it holds wherever a node is executed, and at the end. -/
def Throughout (I : Machine → Prop) (m : Machine) (log : List Activity) (left : Option Machine) :
    Prop :=
  I m → (∀ {node : Node} {start : Machine} {inner : List Activity} {ending : Ending Word},
    Activity.Occurs (.execution node start inner ending) log → I start) ∧ ∀ m', left = some m' → I m'

/-- A property of machines that does not look at the trace and that starting or ending an activation
does not change. -/
structure Invariant (I : Machine → Prop) : Prop where
  report : ∀ (e : TraceEvent) {m : Machine}, I m → I (m.emit e)
  enter : ∀ (b : Bracket) {m : Machine}, I m → I (b.enter m)
  leave : ∀ (b : Bracket) {m : Machine}, I m → I (b.leave m)

/-- The effect keeps the property. -/
def Effect.Keeps (I : Machine → Prop) {α : Type} (e : Effect α) : Prop :=
  ∀ m, I m → I (e.apply m).2

theorem Invariant.contract {I : Machine → Prop} (h : Invariant I) :
    Contract (Effect.Keeps I) (Throughout I) where
  idle m hm := by
    refine ⟨fun hx => absurd hx (Activity.not_occurs_nil _), fun m' hm' => ?_⟩
    cases hm'
    exact hm
  lost m _ := by
    refine ⟨fun hx => absurd hx (Activity.not_occurs_nil _), fun m' hm' => ?_⟩
    cases hm'
  chain hfirst hsecond hm := by
    obtain ⟨hseen, hmiddle⟩ := hfirst hm
    obtain ⟨hseen', hend⟩ := hsecond (hmiddle _ rfl)
    refine ⟨fun hx => ?_, hend⟩
    rcases Activity.occurs_append hx with hx | hx
    · exact hseen hx
    · exact hseen' hx
  effect he m hm := by
    refine ⟨fun hx => ?_, fun m' hm' => ?_⟩
    · obtain ⟨e, hevent⟩ := Activity.occurs_map_event hx
      cases hevent
    · cases hm'
      exact he m hm
  bracket b m log left hinside hm := by
    obtain ⟨hseen, hend⟩ := hinside (h.enter b hm)
    refine ⟨hseen, fun m' hm' => ?_⟩
    obtain ⟨middle, hmiddle, rfl⟩ := Option.map_eq_some_iff.mp hm'
    exact h.leave b (hend middle hmiddle)

/-- An invariant that all effects of an execution keep holds wherever a node is executed, and at the
end. -/
theorem Invariant.observe {I : Machine → Prop} (h : Invariant I) {env : Environment}
    {N : Node → Prop} (hconfines : env.Confines (Effect.Keeps I) N) (fuel : Nat) {node : Node}
    (hnode : N node) : (observe env fuel node).Abides (Throughout I) := by
  refine h.contract.observe hconfines (fun e m => h.report e) ?_ fuel hnode
  intro fuel node m inner ending _ _ hinner hm
  obtain ⟨hseen, hend⟩ := hinner hm
  refine ⟨fun hx => ?_, hend⟩
  rcases Activity.occurs_execution hx with hx | hx
  · cases hx
    exact hm
  · exact hseen hx

end PeekPoke
