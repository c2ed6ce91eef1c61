import PeekPoke.Proofs.Activity
import PeekPoke.Proofs.Stopping
set_option autoImplicit false

/-!
# Blocks after a stop request

A block looks at the stop flag after every statement.  The moments of a run are the starts and ends
of all executions in it, in their order, and every one of them knows the flag.  A request can come
between any two of them, as the supervisor of the run likes: on an access, in a sleep or at the end of
a statement, the first time or later.

Main statement: once the flag is requested at some moment of a run it is requested at all later ones,
and none of these is the start of a statement that a block has come to after its first one; every
block with a statement that the request catches ends as its current statement does if that unwinds,
and with `terminate` if it does not (`blocks_stop`).

`BlockRun` says once what the record of a block can be.  That the flag stays requested is a contract
of executions; that a block does not go on is read off the record of the block, which is the same
wherever in the run the block is executed.
-/

namespace PeekPoke

open MonadScript

/-! ## Moments -/

/-- Whether the node is a block. -/
def Node.isBlock : Node → Bool
  | .block .. => true
  | _ => false

/-- A moment of a run at which an execution starts or ends: the machine, and whether a block goes on
here, with a statement other than its first. -/
structure Moment where
  machine : Machine
  goesOn : Bool

/-- A stop is requested at the moment. -/
def Moment.Requested (a : Moment) : Prop := a.machine.stop.requested = true

namespace Activity

mutual

/-- The moments of an activity, of which the first is that of its start. -/
def moments (goesOn : Bool) : Activity → List Moment
  | event _ => []
  | execution node start inner ending =>
    ⟨start, goesOn⟩ :: (allMoments node.isBlock false inner ++
      (ending.map fun (_, m) => ⟨m, false⟩).toList)

/-- The moments of activities, which in a block are the statements one after the other. -/
def allMoments (block goesOn : Bool) : List Activity → List Moment
  | [] => []
  | x :: rest => moments goesOn x ++ allMoments block block rest

end

/-- The machine an execution starts in. -/
def start? : Activity → Option Machine
  | event _ => none
  | execution _ start _ _ => some start

/-- The machines at the moments of activities. -/
def machines (log : List Activity) : List Machine := (allMoments false false log).map (·.machine)

/-- Which of the moments are in a block plays no role for the machines. -/
theorem map_machine_allMoments (block goesOn : Bool) (log : List Activity) :
    (allMoments block goesOn log).map (·.machine) = machines log := by
  have head (goesOn : Bool) (x : Activity) :
      (moments goesOn x).map (·.machine) = (moments false x).map (·.machine) := by
    cases x <;> simp [moments]
  induction log generalizing block goesOn with
  | nil => rfl
  | cons x rest ih =>
    simp only [machines, allMoments, List.map_append, head goesOn x, ih block block]

theorem machines_append (log log' : List Activity) :
    machines (log ++ log') = machines log ++ machines log' := by
  induction log with
  | nil => rfl
  | cons x rest ih =>
    simp only [machines, List.cons_append, allMoments, List.map_append] at ih ⊢
    rw [ih, List.append_assoc]

@[simp] theorem machines_map_event (es : List BusEvent) : machines (es.map event) = [] := by
  induction es with
  | nil => rfl
  | cons e rest ih => simpa [machines, allMoments, moments] using ih

theorem machines_execution (node : Node) (start : Machine) (inner : List Activity)
    (ending : Ending Word) :
    machines [execution node start inner ending] =
      start :: (machines inner ++ (ending.map Prod.snd).toList) := by
  have hinner := map_machine_allMoments node.isBlock false inner
  show ((allMoments false false [execution node start inner ending]).map (·.machine)) = _
  cases ending <;> simp [allMoments, moments, hinner]

/-- A block goes on from one of the executions in the record with a statement that starts in this
machine. -/
def GoesOn (m : Machine) (log : List Activity) : Prop :=
  ∃ node start inner ending, node.isBlock = true ∧ Occurs (.execution node start inner ending) log ∧
    ∃ x ∈ inner.tail, x.start? = some m

theorem GoesOn.mono {m : Machine} {log log' : List Activity} (h : GoesOn m log)
    (hsub : log ⊆ log') : GoesOn m log' := by
  obtain ⟨node, start, inner, ending, hblock, hoccurs, hx⟩ := h
  exact ⟨node, start, inner, ending, hblock, hoccurs.mono hsub, hx⟩

mutual

theorem goesOn_of_mem_moments {a : Moment} (ha : a.goesOn = true) {goesOn : Bool} :
    (x : Activity) → a ∈ moments goesOn x →
      (goesOn = true ∧ x.start? = some a.machine) ∨ GoesOn a.machine [x]
  | event _, h => by simp [moments] at h
  | execution node start inner ending, h => by
    simp only [moments, List.mem_cons, List.mem_append] at h
    rcases h with rfl | h | h
    · exact Or.inl ⟨ha, rfl⟩
    · right
      have hself : execution node start inner ending ∈ [execution node start inner ending] :=
        List.mem_singleton_self _
      rcases goesOn_of_mem_allMoments ha inner h with ⟨hfirst, -⟩ | ⟨hblock, hx⟩ | hinner
      · cases hfirst
      · exact ⟨node, start, inner, ending, hblock, .here hself, hx⟩
      · obtain ⟨node', start', inner', ending', hblock, hoccurs, hx⟩ := hinner
        exact ⟨node', start', inner', ending', hblock, .inside hself hoccurs, hx⟩
    · obtain ⟨m, -, rfl⟩ := Option.map_eq_some_iff.1 (Option.mem_toList.1 h)
      cases ha

/-- Where a block goes on, that is what the record says. -/
theorem goesOn_of_mem_allMoments {a : Moment} (ha : a.goesOn = true) {block goesOn : Bool} :
    (log : List Activity) → a ∈ allMoments block goesOn log →
      (goesOn = true ∧ ∃ x, log.head? = some x ∧ x.start? = some a.machine) ∨
      (block = true ∧ ∃ x ∈ log.tail, x.start? = some a.machine) ∨ GoesOn a.machine log
  | [], h => by simp [allMoments] at h
  | x :: rest, h => by
    simp only [allMoments, List.mem_append] at h
    rcases h with h | h
    · rcases goesOn_of_mem_moments ha x h with ⟨hfirst, hx⟩ | hx
      · exact Or.inl ⟨hfirst, x, rfl, hx⟩
      · exact Or.inr (Or.inr (hx.mono (by simp)))
    · rcases goesOn_of_mem_allMoments ha rest h with ⟨hblock, y, hy, hx⟩ | ⟨hblock, y, hy, hx⟩ | hx
      · exact Or.inr (Or.inl ⟨hblock, y, List.mem_of_mem_head? hy, hx⟩)
      · exact Or.inr (Or.inl ⟨hblock, y, List.mem_of_mem_tail hy, hx⟩)
      · exact Or.inr (Or.inr (hx.mono (List.subset_cons_self x rest)))

end

end Activity

/-! ## The flag along a run -/

/-- The flag at machines. -/
def flags (machines : List Machine) : List Bool := machines.map (·.stop.requested)

/-- At every two moments of a part of a run, its start and its end included, a stop that is requested
at the first is requested at the second. -/
def Lasting (m : Machine) (log : List Activity) (left : Option Machine) : Prop :=
  (flags (m :: (Activity.machines log ++ left.toList))).Pairwise fun a b => a = true → b = true

theorem Bracket.stop_enter (b : Bracket) (m : Machine) : (b.enter m).stop = m.stop := by
  obtain ⟨stores, trace, h⟩ := b.enter_eq m
  rw [h]

theorem Bracket.stop_leave (b : Bracket) (m : Machine) : (b.leave m).stop = m.stop := by
  obtain ⟨stores, trace, h⟩ := b.leave_eq m
  rw [h]

/-- What is in order up to a point and from that point on is in order. -/
theorem pairwise_join (xs ys : List Bool) (c : Bool)
    (h : (xs ++ [c]).Pairwise fun a b => a = true → b = true)
    (h' : (c :: ys).Pairwise fun a b => a = true → b = true) :
    (xs ++ ys).Pairwise fun a b => a = true → b = true := by
  obtain ⟨hxs, -, hc⟩ := List.pairwise_append.1 h
  obtain ⟨hc', hys⟩ := List.pairwise_cons.1 h'
  exact List.pairwise_append.2
    ⟨hxs, hys, fun a ha b hb hrequested => hc' b hb (hc a ha c (List.mem_singleton_self c) hrequested)⟩

theorem pairwise_first_twice {xs : List Bool} {c : Bool}
    (h : (c :: xs).Pairwise fun a b => a = true → b = true) :
    (c :: c :: xs).Pairwise fun a b => a = true → b = true := by
  refine List.pairwise_cons.2 ⟨fun b hb => ?_, h⟩
  rcases List.mem_cons.1 hb with rfl | hb
  · exact id
  · exact (List.pairwise_cons.1 h).1 b hb

theorem pairwise_last_twice (xs : List Bool) (c : Bool)
    (h : (xs ++ [c]).Pairwise fun a b => a = true → b = true) :
    (xs ++ [c] ++ [c]).Pairwise fun a b => a = true → b = true := by
  refine List.pairwise_append.2 ⟨h, List.pairwise_singleton _ _, fun a ha b hb => ?_⟩
  obtain rfl := List.mem_singleton.1 hb
  rcases List.mem_append.1 ha with ha | ha
  · exact (List.pairwise_append.1 h).2.2 a ha b hb
  · obtain rfl := List.mem_singleton.1 ha
    exact id

theorem Lasting.contract : Contract (fun _ => True) Lasting where
  idle m := by simp [Lasting, flags, Activity.machines, Activity.allMoments]
  lost m := by simp [Lasting, flags, Activity.machines, Activity.allMoments]
  chain {m m' log log' left} hfirst hsecond := by
    -- The machine between the parts is the last of the first and the first of the second.
    have joined := pairwise_join (flags (m :: Activity.machines log))
      (flags (Activity.machines log' ++ left.toList)) m'.stop.requested
      (by simpa [Lasting, flags] using hfirst) hsecond
    simpa [Lasting, flags, Activity.machines_append] using joined
  effect {α e} _ m := by
    have hstep := requested_transition.effect e m
    simpa [Lasting, flags] using hstep
  bracket b m log left hinside := by
    have hleave : (left.map b.leave).toList.map (·.stop.requested) =
        left.toList.map (·.stop.requested) := by
      cases left <;> simp [b.stop_leave]
    simp only [Lasting, flags, List.map_cons, List.map_append, hleave, b.stop_enter] at hinside ⊢
    exact hinside

/-- Along an execution a stop that is requested stays requested. -/
theorem observe_lasting (env : Environment) (fuel : Nat) (node : Node) (m : Machine) :
    Lasting m (observe env fuel node m).1 ((observe env fuel node m).2.map Prod.snd) := by
  refine Lasting.contract.observe (env.confines_all fun _ => trivial) (fun _ => trivial) ?_ fuel
    trivial m
  intro fuel node m inner ending _ _ hinside
  have htwice := pairwise_first_twice hinside
  unfold Lasting
  rw [Activity.machines_execution]
  cases ending with
  | none => simpa [flags] using htwice
  | some ending =>
    obtain ⟨r, m'⟩ := ending
    have hends := pairwise_last_twice (flags (m :: m :: Activity.machines inner)) m'.stop.requested
      (by simpa [flags] using htwice)
    simpa [flags] using hends

/-! ## The record of a block -/

/-- How a block ends at a requested stop when its current statement ended like this. -/
def atRequest : Except Unwind Word → Machine → Except Unwind Word × Machine
  | .ok _, m => (.error (.signal .terminate), m.meet .statement)
  | .error u, m => (.error u, m)

/-- How a block ends after the last statement it executed. -/
def afterStatement : Ending Word → Ending Word
  | none => none
  | some (.error u, m) => some (.error u, m)
  | some (.ok w, m) =>
    if (m.meet .statement).stop.requested then some (atRequest (.ok w) m)
    else some (.ok 0, m.meet .statement)

/-- What the record of a block can be: the statements that were executed, of which all but the last
returned without a stop being requested by the end of them. -/
inductive BlockRun : List Node → Machine → List Activity → Ending Word → Prop where
  | done {m : Machine} : BlockRun [] m [] (some (.ok 0, m))
  | lost {statement : Node} {rest : List Node} {m : Machine} {inner : List Activity} :
      BlockRun (statement :: rest) m [.execution statement m inner none] none
  | unwound {statement : Node} {rest : List Node} {m m' : Machine} {inner : List Activity}
      {u : Unwind} :
      BlockRun (statement :: rest) m [.execution statement m inner (some (.error u, m'))]
        (some (.error u, m'))
  | stopped {statement : Node} {rest : List Node} {m m' : Machine} {inner : List Activity}
      {w : Word} : (m'.meet .statement).stop.requested = true →
      BlockRun (statement :: rest) m [.execution statement m inner (some (.ok w, m'))]
        (some (.error (.signal .terminate), m'.meet .statement))
  | next {statement : Node} {rest : List Node} {m m' : Machine} {inner log : List Activity}
      {w : Word} {ending : Ending Word} : (m'.meet .statement).stop.requested = false →
      BlockRun rest (m'.meet .statement) log ending →
      BlockRun (statement :: rest) m (.execution statement m inner (some (.ok w, m')) :: log) ending

/-- The record of a block, if there is fuel to execute statements. -/
theorem execStatements_record (env : Environment) (fuel : Nat) (statements : List Node)
    (m : Machine) :
    BlockRun statements m (execStatements (observe env (fuel + 1)) statements m).1
      (execStatements (observe env (fuel + 1)) statements m).2 := by
  induction statements generalizing m with
  | nil => exact .done
  | cons statement rest ih =>
    unfold execStatements
    have hrecord := observe_record env fuel statement m
    rcases hstatement : exec env (fuel + 1) statement m with _ | ⟨u | w, m'⟩
    · rw [hstatement] at hrecord
      rw [Observed.bind_of_none hrecord]
      exact .lost
    · rw [hstatement] at hrecord
      rw [Observed.bind_of_error hrecord]
      exact .unwound
    · rw [hstatement] at hrecord
      rw [Observed.bind_of_ok hrecord, Observed.bind_of_ok (Observed.endStatement_apply m')]
      cases hstop : (m'.meet .statement).stop.requested with
      | true => exact .stopped hstop
      | false => exact .next hstop (ih (m'.meet .statement))

namespace BlockRun

variable {statements : List Node} {m : Machine} {log : List Activity} {ending : Ending Word}

/-- The statements are executed in their order. -/
theorem nodes_prefix (h : BlockRun statements m log ending) :
    log.map Activity.node? <+: statements.map some := by
  induction h with
  | done => exact List.nil_prefix
  | lost | unwound | stopped => simp [Activity.node?]
  | next _ _ ih => simpa [Activity.node?] using ih

/-- From a machine in which no stop is requested no statement starts with a stop requested. -/
theorem starts_clear (h : BlockRun statements m log ending) (clear : m.stop.requested = false) :
    ∀ x ∈ log, ∀ start, x.start? = some start → start.stop.requested = false := by
  induction h with
  | done => simp
  | lost | unwound | stopped =>
    intro x hx start hstart
    obtain rfl := List.mem_singleton.1 hx
    obtain rfl := Option.some.inj hstart
    exact clear
  | next hclear _ ih =>
    intro x hx start hstart
    rcases List.mem_cons.1 hx with rfl | hx
    · obtain rfl := Option.some.inj hstart
      exact clear
    · exact ih hclear x hx start hstart

/-- A block goes on only while no stop is requested. -/
theorem tail_clear (h : BlockRun statements m log ending) :
    ∀ x ∈ log.tail, ∀ start, x.start? = some start → start.stop.requested = false := by
  cases h with
  | done | lost | unwound | stopped => simp
  | next hclear h => exact h.starts_clear hclear

/-- The last statement that a block executes decides how it ends. -/
theorem last (h : BlockRun statements m log ending) (hstatements : statements ≠ []) :
    ∃ statement start inner current,
      log.getLast? = some (.execution statement start inner current) ∧
        ending = afterStatement current := by
  induction h with
  | done => exact absurd rfl hstatements
  | lost | unwound => exact ⟨_, _, _, _, rfl, rfl⟩
  | stopped hrequested => exact ⟨_, _, _, _, rfl, (if_pos hrequested).symm⟩
  | @next statement rest m m' inner log w ending hclear h ih =>
    cases rest with
    | nil =>
      cases h
      exact ⟨_, _, _, _, rfl, by simp [afterStatement, hclear]⟩
    | cons next rest =>
      obtain ⟨statement', start, inner', current, hlast, hends⟩ := ih (List.cons_ne_nil _ _)
      exact ⟨statement', start, inner', current, by simp [List.getLast?_cons, hlast], hends⟩

end BlockRun

/-- What happens in a block: nothing for want of fuel, or its statements. -/
theorem inside_block {env : Environment} {fuel : Nat} {l : Location} {statements : List Node}
    {m : Machine} {inner : List Activity} {ending : Ending Word}
    (h : inside env fuel (.block l statements) m = (inner, ending)) :
    (inner = [] ∧ ending = none) ∨
      BlockRun statements (m.emit (.execute "block" l)) inner ending := by
  have hblock : inside env fuel (.block l statements) m =
      execStatements (observe env fuel) statements (m.emit (.execute "block" l)) := by
    have hemit := Observed.emit_apply (.execute "block" l) m
    rw [inside]
    exact (Observed.bind_of_ok hemit _).trans (by simp only [List.nil_append]; rfl)
  rw [hblock] at h
  cases fuel with
  | zero =>
    cases statements with
    | nil =>
      cases h
      exact Or.inr .done
    | cons statement rest =>
      cases h
      exact Or.inl ⟨rfl, rfl⟩
  | succ fuel =>
    have hrun := execStatements_record env fuel statements (m.emit (.execute "block" l))
    rw [h] at hrun
    exact Or.inr hrun

/-! ## Blocks in a run -/

open Activity

/-- What a stop request means for the blocks in the record of a run. -/
structure StopsBlocks (log : List Activity) : Prop where
  /-- After a moment with a stop requested there are only such moments, and no block goes on. -/
  lasting : (allMoments false false log).Pairwise fun a b =>
    a.Requested → b.Requested ∧ b.goesOn = false
  /-- What is executed in a block are its statements, from the first on. -/
  statements : ∀ l statements start inner ending,
    Occurs (.execution (.block l statements) start inner ending) log →
      inner.map node? <+: statements.map some
  /-- A block with a statement that has a moment with a stop requested unwinds when its current
  statement ends.  Only for want of fuel it has none. -/
  ends : ∀ l first rest start inner ending,
    Occurs (.execution (.block l (first :: rest)) start inner ending) log →
    (∃ a ∈ moments false (.execution (.block l (first :: rest)) start inner ending), a.Requested) →
      (inner = [] ∧ ending = none) ∨
      ∃ statement start' inner' current,
        inner.getLast? = some (.execution statement start' inner' current) ∧
          ending = current.map fun (r, m') => atRequest r m'

variable {env : Environment} {fuel : Nat} {root : Node} {m : Machine}

/-- The record of a block in a run is that of its statements. -/
theorem block_of_occurs {l : Location} {statements : List Node} {start : Machine}
    {inner : List Activity} {ending : Ending Word}
    (h : Occurs (.execution (.block l statements) start inner ending) (observe env fuel root m).1) :
    (inner = [] ∧ ending = none) ∨
      BlockRun statements (start.emit (.execute "block" l)) inner ending := by
  obtain ⟨less, hinside⟩ := inside_of_occurs env fuel root m h
  exact inside_block hinside

/-- Where a block goes on no stop is requested. -/
theorem clear_of_goesOn {machine : Machine} (h : GoesOn machine (observe env fuel root m).1) :
    machine.stop.requested = false := by
  obtain ⟨node, start, inner, ending, hblock, hoccurs, x, hx, hstart⟩ := h
  obtain ⟨l, statements, rfl⟩ : ∃ l statements, node = .block l statements := by
    cases node <;> simp_all [Node.isBlock]
  rcases block_of_occurs hoccurs with ⟨rfl, -⟩ | hrun
  · cases hx
  · exact hrun.tail_clear x hx machine hstart

theorem goesOn_eq_false {b : Moment} (h : b ∈ allMoments false false (observe env fuel root m).1)
    (hrequested : b.Requested) : b.goesOn = false := by
  cases hgoes : b.goesOn with
  | false => rfl
  | true =>
    rcases goesOn_of_mem_allMoments hgoes _ h with ⟨hfirst, -⟩ | ⟨hblock, -⟩ | hgoesOn
    · cases hfirst
    · cases hblock
    · rw [Moment.Requested, clear_of_goesOn hgoesOn] at hrequested
      cases hrequested

/-- A request at a moment of an execution is there at its end. -/
theorem requested_of_mem_moments {node : Node} {start m' : Machine} {inner : List Activity}
    {r : Except Unwind Word} {a : Moment}
    (h : Occurs (.execution node start inner (some (r, m'))) (observe env fuel root m).1)
    (ha : a ∈ moments false (.execution node start inner (some (r, m')))) (hrequested : a.Requested) :
    m'.stop.requested = true := by
  obtain ⟨less, hinside⟩ := inside_of_occurs env fuel root m h
  have hobserve : observe env (less + 1) node start =
      ([.execution node start inner (some (r, m'))], some (r, m')) := by
    simp [observe_succ, Observed.enclose, hinside]
  have hlasting := observe_lasting env (less + 1) node start
  rw [hobserve] at hlasting
  have hmem : a.machine ∈ machines [.execution node start inner (some (r, m'))] :=
    List.mem_map_of_mem (by simpa [allMoments] using ha)
  have horder := (List.pairwise_cons.1 hlasting).2
  rw [List.map_append] at horder
  exact (List.pairwise_append.1 horder).2.2 _ (List.mem_map_of_mem hmem) _
    (List.mem_singleton_self _) hrequested

/-- **Blocks stop.**  Recording a run changes nothing about it, and in the record no block outlasts a
stop request, on whichever occasion the supervisor of `m` makes it. -/
theorem blocks_stop (env : Environment) (fuel : Nat) (root : Node) (m : Machine) :
    (observe env fuel root m).2 = exec env fuel root m ∧
      StopsBlocks (observe env fuel root m).1 := by
  refine ⟨observe_endsAs env fuel root m, ?_, ?_, ?_⟩
  · have hlasting := (List.pairwise_cons.1 (observe_lasting env fuel root m)).2
    rw [List.map_append] at hlasting
    have hmoments : (allMoments false false (observe env fuel root m).1).Pairwise fun a b =>
        a.Requested → b.Requested :=
      List.pairwise_map.1 (List.pairwise_map.1 (List.pairwise_append.1 hlasting).1)
    exact hmoments.imp_of_mem fun _ hb hab ha => ⟨hab ha, goesOn_eq_false hb (hab ha)⟩
  · intro l statements start inner ending hoccurs
    rcases block_of_occurs hoccurs with ⟨rfl, -⟩ | hrun
    · exact List.nil_prefix
    · exact hrun.nodes_prefix
  · intro l first rest start inner ending hoccurs hrequested
    rcases block_of_occurs hoccurs with hnothing | hrun
    · exact Or.inl hnothing
    · obtain ⟨statement, start', inner', current, hlast, hends⟩ := hrun.last (List.cons_ne_nil _ _)
      refine Or.inr ⟨statement, start', inner', current, hlast, ?_⟩
      obtain ⟨a, ha, hrequested⟩ := hrequested
      rcases current with _ | ⟨u | w, m'⟩
      · exact hends
      · exact hends
      · cases hstop : (m'.meet .statement).stop.requested with
        | true => exact hends.trans (if_pos hstop)
        | false =>
          -- The block would end here, and the request would have lasted until then.
          have hreturned : ending = some (.ok 0, m'.meet .statement) := by
            simp [hends, afterStatement, hstop]
          subst hreturned
          rw [requested_of_mem_moments hoccurs ha hrequested] at hstop
          cases hstop

/-- A loop reads one register and writes another one.  Asked for on the fifth access, which is the
third to the first register, the stop keeps the second statement of that round from starting. -/
example :
    let body : Node := .block .unknown [.peek .unknown (.literal .unknown 0x1000) .w32,
      .poke .unknown (.literal .unknown 0x1004) (.literal .unknown 1) none .w32]
    let loop : Node := .whileLoop .unknown (.literal .unknown 1) body
    let fifth : Supervisor := fun past => (past.filter (· matches .access ..)).length = 5
    let m : Machine :=
      { bus := { windows := [⟨0x1000, 0x10, defaultDevice, false⟩] }, stop.supervisor := fifth }
    (exec {} 10 loop m).map (fun (r, m') => (r, m'.traffic.length)) =
      some (.error (.signal .terminate), 5) := by
  rfl

end PeekPoke
