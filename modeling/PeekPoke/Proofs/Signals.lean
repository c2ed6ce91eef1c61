import PeekPoke.Proofs.Activity
import PeekPoke.Proofs.Construction
import PeekPoke.Script.Execute
set_option autoImplicit false

/-!
# Where signals are caught

A part of a node stands at a `Place`: as the body of a loop, as the body of a call or the root of an
import, or anywhere else.  The first place catches `break`, the second `break` and `exit`, the third
nothing.  What one node does with the unwindings of its parts follows (`Relays`): each of them is
caught at its place or ends the node, with nothing done in between but leaving calls; and a node
that unwinds raised that itself or was ended by a part at a place that does not catch it.

Main statement: an execution that ends with `break` or `exit` is one of a node that contains such a
jump outside every place that catches it, so imports never end so and calls only because of an
argument; it ends with `terminate` only if a stop is requested; and whatever is caught nowhere goes
through all enclosing nodes unchanged and decides how the run ends (`signals_confined`).
-/

namespace PeekPoke

open MonadScript

/-! ## Places -/

/-- Where a part of a node stands. -/
inductive Place where
  /-- The body of a loop, of which each round executes it once. -/
  | round
  /-- The body of a called subroutine, or the root of an imported unit. -/
  | body
  | plain
  deriving DecidableEq, Repr, Inhabited

/-- Whether an unwinding ends at the place. -/
def Place.catches : Place → Unwind → Bool
  | round, .signal .breakLoop => true
  | body, .signal .breakLoop => true
  | body, .signal .exit => true
  | _, _ => false

/-- Whether an unwinding is caught at no place. -/
def Unwind.isPersistent : Unwind → Bool
  | .signal .breakLoop => false
  | .signal .exit => false
  | _ => true

theorem Place.not_catches {u : Unwind} (h : u.isPersistent = true) (place : Place) :
    place.catches u = false := by
  cases u with
  | failure e => cases place <;> rfl
  | signal s => cases s <;> simp_all [Unwind.isPersistent, Place.catches]

/-- The rule turns what the place catches into a value, and passes on all other unwindings. -/
structure Place.Handles {α : Type} (place : Place) (g : Except Unwind Word → Except Unwind α) :
    Prop where
  value : ∀ w, ∃ a, g (.ok w) = .ok a
  caught : ∀ u, place.catches u = true → ∃ a, g (.error u) = .ok a
  passed : ∀ u, place.catches u = false → g (.error u) = .error u

theorem Place.handles_afterRound : Place.round.Handles afterRound where
  value _ := ⟨true, rfl⟩
  caught u h := by
    cases u with
    | failure e => cases h
    | signal s => cases s with
      | breakLoop => exact ⟨false, rfl⟩
      | _ => cases h
  passed u h := by
    cases u with
    | failure e => rfl
    | signal s => cases s with
      | breakLoop => cases h
      | _ => rfl

theorem Place.handles_afterBody : Place.body.Handles afterBody where
  value _ := ⟨(), rfl⟩
  caught u h := by
    cases u with
    | failure e => cases h
    | signal s => cases s with
      | breakLoop | exit => exact ⟨(), rfl⟩
      | _ => cases h
  passed u h := by
    cases u with
    | failure e => rfl
    | signal s => cases s with
      | breakLoop | exit => cases h
      | _ => rfl

namespace Node

/-- The parts of a node that stand at a place. -/
def partsAt : Place → Node → List Node
  | .round, .whileLoop _ _ body => [body]
  | .round, .forLoop _ _ _ _ _ _ body => [body]
  | .round, _ => []
  | .body, .imported _ root => root.toList
  | .body, _ => []
  | .plain, .whileLoop _ condition _ => [condition]
  | .plain, .forLoop _ startLocation counter start target step _ =>
    .assign startLocation counter start :: target :: step.toList
  | .plain, .imported .. => []
  | .plain, node => node.children

/-- The node contains a jump that raises the signal, outside every place that catches it.  The
bodies of the subroutines it calls are not part of it. -/
inductive Exposes (s : Signal) : Node → Prop where
  | jump (l : Location) {j : Jump} : j.signal = s → Exposes s (.jump l j)
  | part {place : Place} {node part : Node} :
      part ∈ node.partsAt place → place.catches (.signal s) = false → Exposes s part →
      Exposes s node

/-- The body of the subroutine a node calls. -/
def callee? (env : Environment) : Node → Option Node
  | .call _ _ id _ => (env.callable? id).map Prod.snd
  | _ => none

/-- The part is executed at the place when the node is: it stands there, or is the body that the
node calls. -/
def Executes (env : Environment) (node : Node) (place : Place) (part : Node) : Prop :=
  part ∈ node.partsAt place ∨ place = .body ∧ node.callee? env = some part

/-- What a node raises itself, and in which machines. -/
inductive Raises : Node → Unwind → Machine → Prop where
  | jump (l : Location) (j : Jump) (m : Machine) : Raises (.jump l j) (.signal j.signal) m
  | stop (l : Location) (statements : List Node) {m : Machine} :
      m.stop.requested = true → Raises (.block l statements) (.signal .terminate) m
  /-- A failure concerns the node that raises it. -/
  | failure (node : Node) (cause : RunCause) (m : Machine) :
      Raises node (.failure ⟨cause, node.location⟩) m

end Node

/-! ## Relaying -/

/-- Leaves calls and activations, the innermost first. -/
def Machine.leaveAll (m : Machine) (calls : List Bracket) : Machine :=
  calls.foldl (fun m b => b.leave m) m

theorem Machine.leaveAll_append (m : Machine) (calls more : List Bracket) :
    m.leaveAll (calls ++ more) = (m.leaveAll calls).leaveAll more := List.foldl_append

theorem Machine.stop_leaveAll (m : Machine) (calls : List Bracket) :
    (m.leaveAll calls).stop = m.stop := by
  induction calls generalizing m with
  | nil => rfl
  | cons b rest ih =>
    obtain ⟨stores, trace, hleave⟩ := b.leave_eq m
    have hfirst : (b.leave m).stop = m.stop := by rw [hleave]
    exact (ih (b.leave m)).trans hfirst

/-- Every unwinding of a part in the record was caught at a place where the part is executed, or it
is how the whole ends; and the whole unwinds only because it raised that itself or because of a part
at a place that does not catch it. -/
structure Relays {α : Type} (executes : Place → Node → Prop) (raises : Unwind → Machine → Prop)
    (log : List Activity) (ending : Ending α) : Prop where
  passes : ∀ {part : Node} {start : Machine} {inner : List Activity} {u : Unwind} {m : Machine},
    .execution part start inner (some (.error u, m)) ∈ log →
      (∃ place, executes place part ∧ place.catches u = true) ∨
      ∃ calls, ending = some (.error u, m.leaveAll calls)
  origin : ∀ {u : Unwind} {m' : Machine}, ending = some (.error u, m') →
    raises u m' ∨ ∃ place part, executes place part ∧ place.catches u = false ∧
      ∃ start inner m calls, .execution part start inner (some (.error u, m)) ∈ log ∧
        m' = m.leaveAll calls

/-- From every machine the computation relays the unwindings of its parts. -/
def Observed.Relays {α : Type} (executes : Place → Node → Prop) (raises : Unwind → Machine → Prop)
    (x : Observed α) : Prop := ∀ m, PeekPoke.Relays executes raises (x m).1 (x m).2

/-- The evaluation of a node is recorded as its execution, if it has any record. -/
def Records (eval : Node → Observed Word) : Prop :=
  ∀ node m, eval node m = ([], none) ∨
    ∃ inner ending, eval node m = ([.execution node m inner ending], ending)

theorem records_observe (env : Environment) (fuel : Nat) : Records (observe env fuel) := by
  intro node m
  cases fuel with
  | zero => exact Or.inl rfl
  | succ fuel => exact Or.inr ⟨_, _, rfl⟩

section

variable {executes : Place → Node → Prop} {raises : Unwind → Machine → Prop} {α β : Type}

/-- A record without executions, and an ending that is no unwinding. -/
theorem Relays.quiet (es : List BusEvent) {ending : Ending α}
    (h : ∀ u m, ending ≠ some (.error u, m)) : Relays executes raises (es.map .event) ending where
  passes hpart := by simp at hpart
  origin hend := absurd hend (h _ _)

theorem Relays.raised {u : Unwind} {m : Machine} (h : raises u m) :
    Relays executes raises [] (some (.error u, m) : Ending α) where
  passes hpart := by cases hpart
  origin hend := by
    cases hend
    exact Or.inl h

/-- A first part that ended with a value caught all unwindings in it. -/
theorem Relays.append {log log' : List Activity} {a : α} {m : Machine} {ending : Ending β}
    (h : Relays executes raises log (some (.ok a, m))) (h' : Relays executes raises log' ending) :
    Relays executes raises (log ++ log') ending where
  passes hpart := by
    rcases List.mem_append.mp hpart with hpart | hpart
    · rcases h.passes hpart with hcaught | ⟨calls, hend⟩
      · exact Or.inl hcaught
      · cases hend
    · exact h'.passes hpart
  origin hend := by
    rcases h'.origin hend with hraised | ⟨place, part, hat, hpass, start, inner, m, calls, hmem, hm⟩
    · exact Or.inl hraised
    · exact Or.inr ⟨place, part, hat, hpass, start, inner, m, calls,
        List.mem_append_right log hmem, hm⟩

namespace Observed

theorem relays_pure (a : α) : (pure a : Observed α).Relays executes raises :=
  fun _ => Relays.quiet [] fun _ _ h => by cases h

theorem relays_unfinished : (unfinished : Observed α).Relays executes raises :=
  fun _ => Relays.quiet [] fun _ _ h => by cases h

theorem relays_act (f : Machine → α × Machine) : (act f : Observed α).Relays executes raises :=
  fun _ => Relays.quiet _ fun _ _ h => by cases h

theorem relays_raise {u : Unwind} (h : ∀ m, raises u m) :
    (raise u : Observed α).Relays executes raises := fun m => Relays.raised (h m)

theorem relays_bind {x : Observed α} {f : α → Observed β} (hx : x.Relays executes raises)
    (hf : ∀ a, (f a).Relays executes raises) : (x >>= f).Relays executes raises := by
  intro m
  have hfirst := hx m
  rcases hxm : x m with ⟨log, _ | ⟨u | a, m'⟩⟩
  · rw [hxm] at hfirst
    rw [bind_of_none hxm]
    exact ⟨fun hpart => by simpa using hfirst.passes hpart, fun hend => by cases hend⟩
  · rw [hxm] at hfirst
    rw [bind_of_error hxm]
    refine ⟨fun hpart => ?_, fun hend => ?_⟩
    · rcases hfirst.passes hpart with hcaught | ⟨calls, hend⟩
      · exact Or.inl hcaught
      · cases hend
        exact Or.inr ⟨calls, rfl⟩
    · cases hend
      exact hfirst.origin rfl
  · rw [hxm] at hfirst
    rw [bind_of_ok hxm]
    exact hfirst.append (hf a m')

/-- What follows the end of a statement may depend on whether a stop is requested by then. -/
theorem relays_endStatement_bind {g : Bool → Observed β}
    (h : ∀ m, PeekPoke.Relays executes raises (g m.stop.requested m).1 (g m.stop.requested m).2) :
    (act Machine.endStatement >>= g).Relays executes raises := by
  intro m
  rw [bind_of_ok (endStatement_apply m)]
  exact h (m.meet .statement)

theorem relays_bracket {x : Observed α} (hx : x.Relays executes raises) (b : Bracket)
    (hraises : ∀ u m, raises u m → raises u (b.leave m)) :
    (bracket b.enter b.leave x : Observed α).Relays executes raises := by
  refine relays_bind (relays_act _) fun _ m => ?_
  have hinside := hx m
  rw [ending_apply]
  refine ⟨fun hpart => ?_, fun hend => ?_⟩
  · rcases hinside.passes hpart with hcaught | ⟨calls, hend⟩
    · exact Or.inl hcaught
    · refine Or.inr ⟨calls ++ [b], ?_⟩
      rw [hend, Machine.leaveAll_append]
      rfl
  · obtain ⟨⟨r, middle⟩, hmiddle, hleave⟩ := Option.map_eq_some_iff.mp hend
    cases hleave
    rcases hinside.origin hmiddle with hraised | ⟨place, part, hat, hpass, start, inner, m₁, calls,
      hmem, rfl⟩
    · exact Or.inl (hraises _ _ hraised)
    · refine Or.inr ⟨place, part, hat, hpass, start, inner, m₁, calls ++ [b], hmem, ?_⟩
      rw [Machine.leaveAll_append]
      rfl

/-! ## Parts of statements -/

variable {eval : Node → Observed Word} {part : Node}

/-- A part that is executed at a place, where its unwindings are handled. -/
theorem relays_settle (heval : Records eval) {place : Place}
    {g : Except Unwind Word → Except Unwind α} (hg : place.Handles g)
    (hpart : executes place part) :
    (ending (eval part) fun r m => (g r, m) : Observed α).Relays executes raises := by
  intro m
  rw [ending_apply]
  rcases heval part m with h | ⟨inner, _ | ⟨u | w, m'⟩, h⟩
  · rw [h]
    exact Relays.quiet [] (by simp)
  · rw [h]
    exact ⟨fun hmem => by simp at hmem, fun hend => by cases hend⟩
  · rw [h]
    cases hcatches : place.catches u with
    | true =>
      obtain ⟨a, ha⟩ := hg.caught u hcatches
      refine ⟨fun hmem => ?_, fun hend => ?_⟩
      · cases List.mem_singleton.mp hmem
        exact Or.inl ⟨place, hpart, hcatches⟩
      · simp [ha] at hend
    | false =>
      have hpassed := hg.passed u hcatches
      refine ⟨fun hmem => ?_, fun hend => ?_⟩
      · cases List.mem_singleton.mp hmem
        exact Or.inr ⟨[], by simp [hpassed, Machine.leaveAll]⟩
      · simp only [Option.map_some, hpassed] at hend
        cases hend
        exact Or.inr ⟨place, part, hpart, hcatches, m, inner, m', [],
          List.mem_singleton_self _, rfl⟩
  · rw [h]
    obtain ⟨a, ha⟩ := hg.value w
    refine ⟨fun hmem => by simp at hmem, fun hend => ?_⟩
    simp [ha] at hend

theorem relays_plain (heval : Records eval) (hpart : executes .plain part) :
    (eval part).Relays executes raises := by
  have hg : Place.plain.Handles fun r => r :=
    ⟨fun w => ⟨w, rfl⟩, fun _ h => (by cases h), fun _ _ => rfl⟩
  have hsame : (ending (eval part) fun r m => (r, m) : Observed Word) = eval part := by
    funext m
    rw [ending_apply]
    simp
  exact hsame ▸ relays_settle heval hg hpart

theorem relays_evalAll (heval : Records eval) {exprs : List Node}
    (h : ∀ expr ∈ exprs, executes .plain expr) : (evalAll eval exprs).Relays executes raises := by
  induction exprs with
  | nil => exact relays_pure []
  | cons expr rest ih =>
    have hrest := ih fun other hother => h other (List.mem_cons_of_mem expr hother)
    exact relays_bind (relays_plain heval (h expr List.mem_cons_self)) fun _ =>
      relays_bind hrest fun _ => relays_pure _

theorem relays_evalParts (heval : Records eval) (sofar : String) {parts : List (PrintPart Node)}
    (h : ∀ expr ∈ parts.filterMap PrintPart.expr?, executes .plain expr) :
    (evalParts eval sofar parts).Relays executes raises := by
  induction parts generalizing sofar with
  | nil => exact relays_pure sofar
  | cons part rest ih =>
    cases part with
    | text text => exact ih (sofar ++ text) h
    | value expr style width =>
      refine relays_bind (relays_plain heval (h expr List.mem_cons_self)) fun w => ?_
      exact ih _ fun other hother => h other (List.mem_cons_of_mem expr hother)

/-- After each statement a block looks at the stop flag, so it raises `terminate` only if a stop is
requested. -/
theorem relays_execStatements (heval : Records eval) {statements : List Node}
    (hstop : ∀ m, m.stop.requested = true → raises (.signal .terminate) m)
    (h : ∀ statement ∈ statements, executes .plain statement) :
    (execStatements eval statements).Relays executes raises := by
  induction statements with
  | nil => exact relays_pure 0
  | cons statement rest ih =>
    have hrest := ih fun other hother => h other (List.mem_cons_of_mem statement hother)
    refine relays_bind (relays_plain heval (h statement List.mem_cons_self)) fun _ =>
      relays_endStatement_bind fun m => ?_
    split
    · rename_i hrequested
      exact Relays.raised (hstop m hrequested)
    · exact hrest m

theorem relays_repeatWhile {condition body : Observed Word}
    (hcondition : condition.Relays executes raises)
    (hbody : (untilBreak body : Observed Bool).Relays executes raises) (rounds : Nat) :
    (repeatWhile condition body rounds).Relays executes raises := by
  induction rounds with
  | zero => exact relays_unfinished
  | succ rounds ih =>
    refine relays_bind hcondition fun w => ?_
    split
    · exact relays_pure ()
    · refine relays_bind hbody fun goesOn => ?_
      split
      · exact ih
      · exact relays_pure ()

theorem relays_repeatFor (counter : Variable) (target step : Int) {body : Observed Word}
    (hbody : (untilBreak body : Observed Bool).Relays executes raises) (rounds : Nat) (i : Int) :
    (repeatFor counter target step body rounds i).Relays executes raises := by
  induction rounds generalizing i with
  | zero => exact relays_unfinished
  | succ rounds ih =>
    unfold repeatFor
    split
    · refine relays_bind hbody fun goesOn => ?_
      split
      · dsimp only
        split
        · exact relays_bind (relays_act _) fun _ => ih (i + step)
        · exact relays_pure ()
      · exact relays_pure ()
    · exact relays_pure ()

/-! ## Register accesses and calls -/

theorem relays_access {l : Location} (window : Nat) (a : Access)
    (hfail : ∀ cause m, raises (.failure ⟨cause, l⟩) m) :
    (access l window a : Observed Word).Relays executes raises := by
  refine relays_bind (relays_act _) fun w => relays_bind (relays_act _) fun failed => ?_
  split
  · exact relays_raise (hfail _)
  · exact relays_pure w

theorem relays_findWindow {l : Location} (address : Word) (width : Width)
    (hfail : ∀ cause m, raises (.failure ⟨cause, l⟩) m) :
    (findWindow l address width : Observed Nat).Relays executes raises := by
  refine relays_bind (relays_act _) fun found => ?_
  cases found with
  | none => exact relays_raise (hfail _)
  | some window => exact relays_pure window

theorem relays_bindParameters (parameters : List Variable) (values : List Word) :
    (bindParameters parameters values : Observed Unit).Relays executes raises := by
  induction parameters generalizing values with
  | nil => exact relays_pure ()
  | cons v vs ih =>
    cases values with
    | nil => exact relays_pure ()
    | cons w ws => exact relays_bind (relays_act _) fun _ => ih ws

theorem relays_activate (id : Nat) (s : Subroutine) {body : Observed Word} (values : List Word)
    (hbody : (untilExit body : Observed Unit).Relays executes raises)
    (hraises : ∀ u m, raises u m → raises u ((Bracket.frame id).leave m)) :
    (activate id s body values).Relays executes raises := by
  refine relays_bracket ?_ (.frame id) hraises
  refine relays_bind (relays_bindParameters s.parameters values) fun _ =>
    relays_bind hbody fun _ => ?_
  cases s.result with
  | none => exact relays_pure 0
  | some v => exact relays_act _

end Observed

end

open Observed in
/-- A call catches what its subroutine lets out, and nothing of its arguments. -/
theorem relays_execCall (env : Environment) {eval : Node → Observed Word} (heval : Records eval)
    (l : Location) (name : String) (id : Nat) (arguments : List Node) :
    (execCall env eval l name id arguments).Relays
      ((Node.call l name id arguments).Executes env) (Node.call l name id arguments).Raises := by
  have hleave : ∀ (b : Bracket) u m, (Node.call l name id arguments).Raises u m →
      (Node.call l name id arguments).Raises u (b.leave m) := by
    intro b u m h
    cases h with
    | failure _ cause => exact .failure _ cause _
  refine relays_bracket ?_ (.call name) (hleave (.call name))
  cases hcallable : env.callable? id with
  | none => exact relays_raise fun m => .failure (.call l name id arguments) _ m
  | some callee =>
    obtain ⟨s, body⟩ := callee
    have hbody : (Node.call l name id arguments).Executes env .body body :=
      Or.inr ⟨rfl, by simp [Node.callee?, hcallable]⟩
    refine relays_bind (relays_evalAll heval fun _ hargument => Or.inl hargument) fun values => ?_
    exact relays_activate id s values (relays_settle heval Place.handles_afterBody hbody)
      (hleave (.frame id))

open Observed in
/-- One node relays the unwindings of its parts. -/
theorem Node.relays_step (env : Environment) (rounds : Nat) {eval : Node → Observed Word}
    (heval : Records eval) (node : Node) :
    (node.step env rounds eval).Relays (node.Executes env) node.Raises := by
  have hplain : ∀ part ∈ node.partsAt .plain, (eval part).Relays (node.Executes env) node.Raises :=
    fun part hpart => relays_plain heval (Or.inl hpart)
  have hround : ∀ part ∈ node.partsAt .round,
      (untilBreak (eval part) : Observed Bool).Relays (node.Executes env) node.Raises :=
    fun part hpart => relays_settle heval Place.handles_afterRound (Or.inl hpart)
  have hfail : ∀ cause m, node.Raises (.failure ⟨cause, node.location⟩) m := .failure node
  cases node with
  | literal l w => exact relays_pure w
  | directive l => exact relays_pure 0
  | block l statements =>
    exact relays_execStatements heval (fun m => .stop l statements) fun _ hpart => Or.inl hpart
  | jump l j => exact relays_raise fun m => .jump l j m
  | assign l target value =>
    exact relays_bind (hplain value (by simp [partsAt, children])) fun _ =>
      relays_bind (relays_act _) fun _ => relays_pure 0
  | static l cell target value =>
    refine relays_bind (relays_act _) fun done => ?_
    split
    · exact relays_pure 0
    · exact relays_bind (hplain value (by simp [partsAt, children])) fun _ =>
        relays_bind (relays_act _) fun _ => relays_bind (relays_act _) fun _ => relays_pure 0
  | var l v => exact relays_act _
  | indexed l v offset =>
    exact relays_bind (hplain offset (by simp [partsAt, children])) fun _ =>
      relays_bind (relays_act _) fun _ => relays_pure _
  | unary l op operand =>
    exact relays_bind (hplain operand (by simp [partsAt, children])) fun _ => relays_pure _
  | binary l op left right =>
    refine relays_bind (hplain left (by simp [partsAt, children])) fun a => ?_
    split
    · exact relays_pure _
    refine relays_bind (hplain right (by simp [partsAt, children])) fun b => ?_
    split
    · exact relays_pure _
    · rename_i e heval
      refine relays_raise fun m => ?_
      rcases BinaryOp.eval_eq_error heval with h | h
      · rw [h]
        exact hfail .divisionByZero m
      · rw [h]
        exact hfail .moduloByZero m
  | narrow l width operand =>
    exact relays_bind (hplain operand (by simp [partsAt, children])) fun _ => relays_pure _
  | cond l condition thenBranch elseBranch =>
    refine relays_bind (hplain condition (by simp [partsAt, children])) fun w => ?_
    split
    · cases elseBranch with
      | none => exact relays_pure 0
      | some branch =>
        exact relays_bind (hplain branch (by simp [partsAt, children])) fun _ => relays_pure 0
    · exact relays_bind (hplain thenBranch (by simp [partsAt, children])) fun _ => relays_pure 0
  | whileLoop l condition body =>
    exact relays_bind (relays_repeatWhile (hplain condition (by simp [partsAt]))
      (hround body (by simp [partsAt])) rounds) fun _ => relays_pure 0
  | forLoop l startLocation counter start target step body =>
    refine relays_bind (hplain (.assign startLocation counter start) (by simp [partsAt]))
      fun _ => relays_bind (hplain target (by simp [partsAt])) fun last => ?_
    have hbody := hround body (by simp [partsAt])
    cases step with
    | none =>
      exact relays_bind (relays_pure 1) fun _ => relays_bind (relays_act _) fun _ =>
        relays_bind (relays_repeatFor counter _ _ hbody rounds _) fun _ => relays_pure 0
    | some step =>
      exact relays_bind (hplain step (by simp [partsAt])) fun _ =>
        relays_bind (relays_act _) fun _ =>
          relays_bind (relays_repeatFor counter _ _ hbody rounds _) fun _ => relays_pure 0
  | peek l address width =>
    exact relays_bind (hplain address (by simp [partsAt, children])) fun a =>
      relays_bind (relays_findWindow a width hfail) fun k =>
        relays_bind (relays_access k _ hfail) fun _ => relays_pure _
  | poke l address value mask width =>
    refine relays_bind (hplain address (by simp [partsAt, children])) fun a =>
      relays_bind (hplain value (by simp [partsAt, children])) fun w =>
        relays_bind (relays_findWindow a width hfail) fun k => ?_
    cases mask with
    | none => exact relays_bind (relays_access k _ hfail) fun _ => relays_pure 0
    | some mask =>
      exact relays_bind (hplain mask (by simp [partsAt, children])) fun _ =>
        relays_bind (relays_access k _ hfail) fun _ =>
          relays_bind (relays_access k _ hfail) fun _ => relays_pure 0
  | print l parts trailing =>
    exact relays_bind (relays_evalParts heval "" fun _ hpart => Or.inl hpart) fun _ =>
      relays_bind (relays_act _) fun _ => relays_pure 0
  | sleep l micros =>
    refine relays_bind (hplain micros (by simp [partsAt, children])) fun _ =>
      relays_bind (relays_act _) fun undisturbed => ?_
    split
    · exact relays_pure 0
    · exact relays_bind (relays_act _) fun _ => relays_pure 0
  | call l name id arguments => exact relays_execCall env heval l name id arguments
  | imported l root =>
    cases root with
    | none => exact relays_pure 0
    | some root =>
      exact relays_bind (relays_settle heval Place.handles_afterBody
        (Or.inl (by simp [partsAt]))) fun _ => relays_pure 0

/-! ## Executions -/

/-- So does what happens in an execution. -/
theorem relays_inside (env : Environment) (fuel : Nat) (node : Node) :
    (inside env fuel node).Relays (node.Executes env) node.Raises :=
  Observed.relays_bind (Observed.relays_act _) fun _ =>
    node.relays_step env fuel (records_observe env fuel)

/-- Nothing but an unwinding that is caught nowhere leaves the body of a call or the root of an
import. -/
theorem Place.catches_body (u : Unwind) : Place.body.catches u = !u.isPersistent := by
  cases u with
  | failure e => rfl
  | signal s => cases s <;> rfl

section

variable {env : Environment} {fuel : Nat} {root : Node} {m : Machine}

/-- A node whose execution ends with a signal that can be caught contains a jump that raises it
outside every place that catches it. -/
theorem exposes_of_exec {s : Signal} (hs : (Unwind.signal s).isPersistent = false) {m' : Machine}
    (h : exec env fuel root m = some (.error (.signal s), m')) : root.Exposes s := by
  obtain ⟨inner, hrecord⟩ := observe_of_exec h
  refine record_induction env (P := fun node _ _ ending =>
    ∀ m', ending = some (.error (.signal s), m') → node.Exposes s) ?_ fuel root m
    (.here (hrecord ▸ List.mem_singleton_self _)) m' rfl
  intro fuel node start inner ending hinside hparts m' hend
  have hrelays := relays_inside env fuel node start
  rw [hinside] at hrelays
  rcases hrelays.origin hend with hraised | ⟨place, part, hpart, hpass, _, _, m₁, _, hmem, _⟩
  · -- Of what a node raises itself only the signals of jumps are caught anywhere.
    generalize hu : Unwind.signal s = u at hraised hs
    cases hraised with
    | jump l j => exact .jump l (Unwind.signal.inj hu).symm
    | stop => cases hs
    | failure => cases hs
  · rcases hpart with hat | ⟨rfl, _⟩
    · exact .part hat hpass (hparts (.here hmem) m₁ rfl)
    · rw [Place.catches_body, hs] at hpass
      cases hpass

/-- An execution ends with `terminate` only if a stop is requested. -/
theorem requested_of_exec {m' : Machine}
    (h : exec env fuel root m = some (.error (.signal .terminate), m')) :
    m'.stop.requested = true := by
  obtain ⟨inner, hrecord⟩ := observe_of_exec h
  refine record_induction env (P := fun _ _ _ ending =>
    ∀ m', ending = some (.error (.signal .terminate), m') → m'.stop.requested = true) ?_ fuel root m
    (.here (hrecord ▸ List.mem_singleton_self _)) m' rfl
  intro fuel node start inner ending hinside hparts m' hend
  have hrelays := relays_inside env fuel node start
  rw [hinside] at hrelays
  rcases hrelays.origin hend with hraised | ⟨_, _, _, _, _, _, m₁, calls, hmem, rfl⟩
  · generalize hu : Unwind.signal .terminate = u at hraised
    cases hraised with
    | jump l j => cases j <;> cases hu
    | stop l statements hrequested => exact hrequested
    | failure => cases hu
  · rw [Machine.stop_leaveAll]
    exact hparts (.here hmem) m₁ rfl

/-- What is caught nowhere is how every node ends in whose execution it occurs, with nothing done
after it but leaving calls. -/
theorem relayed_of_occurs {node outer : Node} {start start' m₁ : Machine}
    {inner inner' : List Activity} {ending : Ending Word} {u : Unwind}
    (hu : u.isPersistent = true)
    (houter : Activity.Occurs (.execution outer start' inner' ending) (observe env fuel root m).1)
    (hnode : Activity.Occurs (.execution node start inner (some (.error u, m₁))) inner') :
    ∃ calls, ending = some (.error u, m₁.leaveAll calls) := by
  refine record_induction env (P := fun _ _ inner' ending =>
    Activity.Occurs (.execution node start inner (some (.error u, m₁))) inner' →
      ∃ calls, ending = some (.error u, m₁.leaveAll calls)) ?_ fuel root m houter hnode
  intro fuel outer start' inner' ending hinside hparts hnode
  have hrelays := relays_inside env fuel outer start'
  rw [hinside] at hrelays
  have hpasses : ∀ {part : Node} {start : Machine} {inner : List Activity} {m : Machine},
      .execution part start inner (some (.error u, m)) ∈ inner' →
        ∃ calls, ending = some (.error u, m.leaveAll calls) := by
    intro part start inner m hmem
    rcases hrelays.passes hmem with ⟨place, _, hcaught⟩ | hend
    · rw [place.not_catches hu] at hcaught
      cases hcaught
    · exact hend
  cases hnode with
  | here hmem => exact hpasses hmem
  | inside hmem hdeeper =>
    obtain ⟨calls, rfl⟩ := hparts (.here hmem) hdeeper
    obtain ⟨more, hend⟩ := hpasses hmem
    exact ⟨calls ++ more, by rw [Machine.leaveAll_append, hend]⟩

/-- So it is how the whole execution ends. -/
theorem surfaced_of_occurs {node : Node} {start m₁ : Machine} {inner : List Activity} {u : Unwind}
    (hu : u.isPersistent = true)
    (h : Activity.Occurs (.execution node start inner (some (.error u, m₁)))
      (observe env fuel root m).1) :
    ∃ calls, exec env fuel root m = some (.error u, m₁.leaveAll calls) := by
  cases fuel with
  | zero => exact absurd h (Activity.not_occurs_nil _)
  | succ fuel =>
    have hends := observe_endsAs env (fuel + 1) root m
    rcases hinside : inside env fuel root m with ⟨inner', ending⟩
    have hrecord : observe env (fuel + 1) root m = ([.execution root m inner' ending], ending) := by
      simp [observe_succ, Observed.enclose, hinside]
    have hroot : Activity.Occurs (.execution root m inner' ending)
        (observe env (fuel + 1) root m).1 := by
      rw [hrecord]
      exact .here (List.mem_singleton_self _)
    rw [hrecord] at h hends
    rcases Activity.occurs_execution h with hself | hinner
    · cases hself
      exact ⟨[], hends.symm⟩
    · obtain ⟨calls, hend⟩ := relayed_of_occurs hu hroot hinner
      exact ⟨calls, hends.symm.trans hend⟩

/-! ## Calls and imports -/

theorem Node.not_exposes_imported {l : Location} {unit : Option Node} {s : Signal}
    (hs : (Unwind.signal s).isPersistent = false) : ¬ (Node.imported l unit).Exposes s := by
  intro h
  cases h with
  | @part place _ part hpart hpass _ =>
    cases place with
    | body =>
      rw [Place.catches_body, hs] at hpass
      cases hpass
    | round | plain => cases hpart

/-- Giving parameters their values always succeeds. -/
theorem bindParameters_ends (parameters : List Variable) (values : List Word) (m : Machine) :
    ∃ m', (bindParameters parameters values : Run Unit) m = some (.ok (), m') := by
  induction parameters generalizing values m with
  | nil => exact ⟨m, rfl⟩
  | cons v vs ih =>
    cases values with
    | nil => exact ⟨m, rfl⟩
    | cons w ws => exact ih ws (m.assign v w)

/-- The body of a call or the root of an import lets nothing out that can be caught. -/
theorem isPersistent_of_afterBody {r : Except Unwind Word} {u : Unwind}
    (h : afterBody r = .error u) : u.isPersistent = true := by
  cases r with
  | ok w => cases h
  | error v =>
    cases hv : v.isPersistent with
    | true =>
      have hcatches : Place.body.catches v = false := by rw [Place.catches_body, hv, Bool.not_true]
      rw [Place.handles_afterBody.passed v hcatches] at h
      exact Except.error.inj h ▸ hv
    | false =>
      have hcatches : Place.body.catches v = true := by rw [Place.catches_body, hv, Bool.not_false]
      obtain ⟨a, ha⟩ := Place.handles_afterBody.caught v hcatches
      rw [ha] at h
      cases h

theorem isPersistent_of_activate {id : Nat} {s : Subroutine} {body : Run Word} {values : List Word}
    {u : Unwind} {m' : Machine} (h : activate id s body values m = some (.error u, m')) :
    u.isPersistent = true := by
  unfold activate at h
  rw [Run.bracket_apply] at h
  obtain ⟨⟨r, middle⟩, hmiddle, hleave⟩ := Option.map_eq_some_iff.mp h
  cases hleave
  obtain ⟨bound, hbound⟩ := bindParameters_ends s.parameters values (enterFrame id m)
  rw [Run.bind_of_ok hbound] at hmiddle
  rcases hbody : (untilExit body : Run Unit) bound with _ | ⟨v | a, after⟩
  · rw [Run.bind_apply, hbody] at hmiddle
    cases hmiddle
  · rw [Run.bind_of_error hbody] at hmiddle
    cases hmiddle
    obtain ⟨⟨r, _⟩, _, hafter⟩ := Option.map_eq_some_iff.mp hbody
    exact isPersistent_of_afterBody (congrArg Prod.fst hafter)
  · rw [Run.bind_of_ok hbody] at hmiddle
    cases hresult : s.result <;> rw [hresult] at hmiddle <;> cases hmiddle

/-- A call ends with a signal that can be caught only if the evaluation of its arguments does. -/
theorem evalAll_of_exec_call {l : Location} {name : String} {id : Nat} {arguments : List Node}
    {u : Unwind} {m' : Machine} (hu : u.isPersistent = false)
    (h : exec env (fuel + 1) (.call l name id arguments) m = some (.error u, m')) :
    ∃ m₁, evalAll (exec env fuel) arguments
      ((m.emit (.execute "call" l)).emit (.callEntered name)) = some (.error u, m₁) := by
  have hcall : execCall env (exec env fuel) l name id arguments (m.emit (.execute "call" l)) =
      some (.error u, m') := h
  unfold execCall at hcall
  rw [Run.bracket_apply] at hcall
  obtain ⟨⟨r, middle⟩, hmiddle, hleave⟩ := Option.map_eq_some_iff.mp hcall
  cases hleave
  cases hcallable : env.callable? id with
  | none =>
    rw [hcallable] at hmiddle
    cases hmiddle
    cases hu
  | some callee =>
    rw [hcallable] at hmiddle
    simp only at hmiddle
    rcases harguments : evalAll (exec env fuel) arguments
      ((m.emit (.execute "call" l)).emit (.callEntered name)) with _ | ⟨v | values, after⟩
    · rw [Run.bind_apply, harguments] at hmiddle
      cases hmiddle
    · rw [Run.bind_of_error harguments] at hmiddle
      cases hmiddle
      exact ⟨_, rfl⟩
    · rw [Run.bind_of_ok harguments] at hmiddle
      rw [isPersistent_of_activate hmiddle] at hu
      cases hu

end

/-! ## Runs -/

section

variable (env : Environment) (root : Node) (m : Machine)

/-- A run of the root ends with the outcome. -/
def Node.RunEnds (outcome : Except RunError RunOutcome) : Prop :=
  ∃ m', root.run env m = some (outcome, m')

/-- In a run of the root its execution ends with the value or the unwinding. -/
def Node.RootEnds (r : Except Unwind Word) : Prop :=
  ∃ m', exec env fuelLimit root (m.emit (.runEntered root.location)) = some (r, m')

variable {env root m}

theorem Node.runEnds_iff (outcome : Except RunError RunOutcome) :
    root.RunEnds env m outcome ↔
      ∃ r, root.RootEnds env m r ∧ RunOutcome.ofResult r = outcome := by
  unfold Node.RunEnds Node.RootEnds Node.run
  rw [Node.execute_eq]
  rcases exec env fuelLimit root (m.emit (.runEntered root.location)) with _ | ⟨r, m'⟩
  · simp
  · constructor
    · rintro ⟨m'', h⟩
      exact ⟨r, ⟨m', rfl⟩, (Prod.mk.inj (Option.some.inj h)).1⟩
    · rintro ⟨r', ⟨m'', h⟩, rfl⟩
      cases h
      exact ⟨_, rfl⟩

theorem RunOutcome.eq_of_ofResult_completed {r : Except Unwind Word}
    (h : ofResult r = .ok .completed) :
    (∃ w, r = .ok w) ∨ r = .error (.signal .exit) ∨ r = .error (.signal .breakLoop) := by
  rcases r with ⟨s | e⟩ | w
  · cases s <;> simp_all [ofResult]
  · cases h
  · exact Or.inl ⟨w, rfl⟩

/-- The outcome of a run tells everything apart that is caught nowhere. -/
theorem RunOutcome.eq_of_ofResult {u : Unwind} (hu : u.isPersistent = true)
    {r : Except Unwind Word} (h : ofResult r = ofResult (.error u)) : r = .error u := by
  rcases u with s | e
  · rcases r with ⟨s' | e'⟩ | w
    · cases s <;> cases s' <;> simp_all [ofResult, Unwind.isPersistent]
    · cases s <;> cases h
    · cases s <;> simp_all [ofResult, Unwind.isPersistent]
  · rcases r with ⟨s' | e'⟩ | w
    · cases s' <;> cases h
    · exact congrArg _ (congrArg _ (Except.error.inj h))
    · cases h

theorem Node.runEnds_iff_rootEnds {u : Unwind} (hu : u.isPersistent = true) :
    root.RunEnds env m (RunOutcome.ofResult (.error u)) ↔ root.RootEnds env m (.error u) := by
  rw [Node.runEnds_iff]
  constructor
  · rintro ⟨r, hends, hr⟩
    exact RunOutcome.eq_of_ofResult hu hr ▸ hends
  · intro hends
    exact ⟨_, hends, rfl⟩

end

/-! ## Signals and failures of executions and runs -/

/-- What becomes of the signals and failures of an execution and of a run. -/
structure SignalsConfined (env : Environment) (fuel : Nat) (root : Node) (m : Machine) : Prop where
  /-- An execution that ends with `break` is one of a node that contains a `break` inside no body of
  a loop and no root of an import. -/
  broke : ∀ {m' : Machine}, exec env fuel root m = some (.error (.signal .breakLoop), m') →
    root.Exposes .breakLoop
  /-- One that ends with `exit` is one of a node that contains an `exit` inside no root of an
  import. -/
  exited : ∀ {m' : Machine}, exec env fuel root m = some (.error (.signal .exit), m') →
    root.Exposes .exit
  /-- Imports end with neither. -/
  imported : ∀ {l : Location} {unit : Option Node}, root = .imported l unit → ∀ m',
    exec env fuel root m ≠ some (.error (.signal .breakLoop), m') ∧
      exec env fuel root m ≠ some (.error (.signal .exit), m')
  /-- A call does so only if the evaluation of its arguments does. -/
  called : ∀ {l : Location} {name : String} {id : Nat} {arguments : List Node} {s : Signal}
    {m' : Machine}, root = .call l name id arguments → s = .breakLoop ∨ s = .exit →
    exec env fuel root m = some (.error (.signal s), m') →
    ∃ less m₁, fuel = less + 1 ∧ evalAll (exec env less) arguments
      ((m.emit (.execute "call" l)).emit (.callEntered name)) = some (.error (.signal s), m₁)
  /-- An execution ends with `terminate` only if a stop is requested. -/
  stopped : ∀ {m' : Machine}, exec env fuel root m = some (.error (.signal .terminate), m') →
    m'.stop.requested = true
  /-- All nodes in whose executions something that is caught nowhere is raised end with just that,
  and nothing is done after it but leaving calls. -/
  relayed : ∀ {outer node : Node} {start start' m₁ : Machine} {inner inner' : List Activity}
    {ending : Ending Word} {u : Unwind}, u.isPersistent = true →
    Activity.Occurs (.execution outer start' inner' ending) (observe env fuel root m).1 →
    Activity.Occurs (.execution node start inner (some (.error u, m₁))) inner' →
    ∃ calls, ending = some (.error u, m₁.leaveAll calls)
  /-- So does the execution as a whole. -/
  surfaced : ∀ {node : Node} {start m₁ : Machine} {inner : List Activity} {u : Unwind},
    u.isPersistent = true →
    Activity.Occurs (.execution node start inner (some (.error u, m₁)))
      (observe env fuel root m).1 →
    ∃ calls, exec env fuel root m = some (.error u, m₁.leaveAll calls)
  /-- A run is completed if its root ends with a value, with `exit` or with `break`. -/
  completed : root.RunEnds env m (.ok .completed) ↔ (∃ w, root.RootEnds env m (.ok w)) ∨
    root.RootEnds env m (.error (.signal .exit)) ∨ root.RootEnds env m (.error (.signal .breakLoop))
  quit : root.RunEnds env m (.ok .quit) ↔ root.RootEnds env m (.error (.signal .quit))
  terminated : root.RunEnds env m (.ok .terminated) ↔
    root.RootEnds env m (.error (.signal .terminate))
  failed : ∀ e, root.RunEnds env m (.error e) ↔ root.RootEnds env m (.error (.failure e))
  /-- What is raised in a run and caught nowhere decides how the run ends. -/
  decided : ∀ {node : Node} {start m₁ : Machine} {inner : List Activity} {u : Unwind},
    u.isPersistent = true →
    Activity.Occurs (.execution node start inner (some (.error u, m₁)))
      (observe env fuelLimit root (m.emit (.runEntered root.location))).1 →
    root.RunEnds env m (RunOutcome.ofResult (.error u))

/-- **Signals.**  Signals are caught exactly where they belong, in every execution of every node. -/
theorem signals_confined (env : Environment) (fuel : Nat) (root : Node) (m : Machine) :
    SignalsConfined env fuel root m where
  broke h := exposes_of_exec rfl h
  exited h := exposes_of_exec rfl h
  imported hroot m' := by
    subst hroot
    exact ⟨fun h => Node.not_exposes_imported rfl (exposes_of_exec rfl h),
      fun h => Node.not_exposes_imported rfl (exposes_of_exec rfl h)⟩
  called hroot hs h := by
    subst hroot
    cases fuel with
    | zero => cases h
    | succ less =>
      obtain ⟨m₁, hm₁⟩ := evalAll_of_exec_call (by rcases hs with rfl | rfl <;> rfl) h
      exact ⟨less, m₁, rfl, hm₁⟩
  stopped h := requested_of_exec h
  relayed hu houter hnode := relayed_of_occurs hu houter hnode
  surfaced hu h := surfaced_of_occurs hu h
  completed := by
    rw [Node.runEnds_iff]
    constructor
    · rintro ⟨r, hends, hr⟩
      rcases RunOutcome.eq_of_ofResult_completed hr with ⟨w, rfl⟩ | rfl | rfl
      · exact Or.inl ⟨w, hends⟩
      · exact Or.inr (Or.inl hends)
      · exact Or.inr (Or.inr hends)
    · rintro (⟨w, h⟩ | h | h)
      · exact ⟨_, h, rfl⟩
      · exact ⟨_, h, rfl⟩
      · exact ⟨_, h, rfl⟩
  quit := Node.runEnds_iff_rootEnds (u := .signal .quit) rfl
  terminated := Node.runEnds_iff_rootEnds (u := .signal .terminate) rfl
  failed e := Node.runEnds_iff_rootEnds (u := .failure e) rfl
  decided hu h := by
    obtain ⟨calls, hends⟩ := surfaced_of_occurs hu h
    exact (Node.runEnds_iff_rootEnds hu).mpr ⟨_, hends⟩

end PeekPoke
