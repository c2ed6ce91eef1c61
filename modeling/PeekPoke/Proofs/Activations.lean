import PeekPoke.Proofs.Activity
import PeekPoke.Proofs.Frames
set_option autoImplicit false

/-!
# Activations

A call of a subroutine that can be called evaluates its arguments.  If all of them have values it
starts an activation: in a new frame the parameters get these values (`Subroutine.opened`), the body
is executed, and the value of the return variable is the value of the call (`Subroutine.settle`).
Every other call fails.

Main statement: the record of a call is that of its arguments, followed by the execution of the body
if all of them have values (`callRecord_of_callable`), and a call of a subroutine that cannot be
called has no record (`inside_call_of_not_callable`).
-/

namespace PeekPoke

open MonadScript

/-! ## Parameters -/

/-- The values of variables after parameters were given theirs. -/
def Stores.bind (s : Stores) : List Variable → List Word → Stores
  | v :: vs, w :: ws => (s.set v w).bind vs ws
  | _, _ => s

/-- Parameters are given their values, whatever these are. -/
theorem Observed.bindParameters_apply (vs : List Variable) (ws : List Word) (m : Machine) :
    (bindParameters vs ws : Observed Unit) m =
      ([], some (.ok (), { m with stores := m.stores.bind vs ws })) := by
  induction vs generalizing m ws with
  | nil => rfl
  | cons v vs ih =>
    cases ws with
    | nil => rfl
    | cons w ws =>
      rw [bindParameters, Observed.bind_of_ok (Observed.store_apply v w m), ih]
      rfl

/-! ## Bodies -/

namespace Subroutine

/-- The value of the subroutine once its body has ended: that of its return variable, and zero if it
has none. -/
def returned (s : Subroutine) (m : Machine) : Word := s.result.elim 0 m.stores.get

/-- How an activation ends after its body. -/
def settle (s : Subroutine) (r : Except Unwind Word) (m : Machine) : Except Unwind Word :=
  (afterBody r).map fun _ => s.returned m

/-- The machine in which the body starts. -/
def opened (s : Subroutine) (id : Nat) (values : List Word) (ready : Machine) : Machine :=
  { enterFrame id ready with stores := (ready.stores.push id).bind s.parameters values }

end Subroutine

/-- Reading the return variable is not recorded. -/
theorem Observed.returned_apply (s : Subroutine) (m : Machine) :
    (match s.result with | some v => valueOf v | none => pure 0 : Observed Word) m =
      ([], some (.ok (s.returned m), m)) := by
  unfold Subroutine.returned
  cases s.result with
  | none => rfl
  | some v => exact Observed.look_apply (·.stores.get v) m

/-- What is done inside an activation, after the frame was made and before it is taken away. -/
theorem Observed.activation_apply (env : Environment) (fuel id : Nat) (s : Subroutine) (body : Node)
    (values : List Word) (ready : Machine) :
    ∃ inner, (do
      bindParameters s.parameters values
      untilExit (observe env (fuel + 1) body)
      match s.result with
      | some v => valueOf v
      | none => pure 0 : Observed Word) (enterFrame id ready) =
        ([.execution body (s.opened id values ready) inner
            (exec env (fuel + 1) body (s.opened id values ready))],
          (exec env (fuel + 1) body (s.opened id values ready)).map fun ended =>
            (s.settle ended.1 ended.2, ended.2)) := by
  let start := s.opened id values ready
  have hbind : (bindParameters s.parameters values : Observed Unit) (enterFrame id ready) =
      ([], some (.ok (), start)) := by
    rw [Observed.bindParameters_apply, stores_enterFrame]
    rfl
  have huntil : (untilExit (observe env (fuel + 1) body) : Observed Unit) start =
      ([.execution body start (inside env fuel body start).1 (exec env (fuel + 1) body start)],
        (exec env (fuel + 1) body start).map fun ended => (afterBody ended.1, ended.2)) := by
    rw [untilExit, Observed.ending_apply, observe_record]
  refine ⟨(inside env fuel body start).1, ?_⟩
  rw [Observed.bind_of_ok hbind]
  show ([] ++ _, _) = _
  unfold Subroutine.settle
  rcases hended : exec env (fuel + 1) body start with _ | ⟨r, m⟩
  · rw [hended, Option.map_none] at huntil
    rw [Observed.bind_of_none huntil]
    rfl
  · rw [hended, Option.map_some] at huntil
    rw [Option.map_some]
    dsimp only at huntil ⊢
    cases hafter : afterBody r with
    | error u =>
      rw [hafter] at huntil
      rw [Observed.bind_of_error huntil]
      rfl
    | ok =>
      rw [hafter] at huntil
      rw [Observed.bind_of_ok huntil, Observed.returned_apply]
      rfl

/-- The record of an activation is the execution of its body, if there is fuel for it. -/
theorem activate_record (env : Environment) (fuel id : Nat) (s : Subroutine) (body : Node)
    (values : List Word) (ready : Machine) :
    ∃ inner, activate id s (observe env (fuel + 1) body) values ready =
      ([.execution body (s.opened id values ready) inner
          (exec env (fuel + 1) body (s.opened id values ready))],
        (exec env (fuel + 1) body (s.opened id values ready)).map fun ended =>
          (s.settle ended.1 ended.2, leaveFrame id ended.2)) := by
  obtain ⟨inner, hinside⟩ := Observed.activation_apply env fuel id s body values ready
  have hactivate := Observed.bracket_apply (.frame id) (do
      bindParameters s.parameters values
      untilExit (observe env (fuel + 1) body)
      match s.result with
      | some v => valueOf v
      | none => pure 0) ready
  refine ⟨inner, hactivate.trans ?_⟩
  simp only [Bracket.enter, Bracket.leave]
  rw [hinside]
  cases exec env (fuel + 1) body (s.opened id values ready) <;> rfl

/-! ## Calls -/

/-- A call of a subroutine that can be called evaluates the arguments and then runs the body. -/
theorem exec_call_of_callable {env : Environment} {id : Nat} {s : Subroutine} {body : Node}
    (h : env.callable? id = some (s, body)) (fuel : Nat) (l : Location) (name : String)
    (arguments : List Node) :
    exec env (fuel + 1) (.call l name id arguments) = (do
      emit (.execute "call" l)
      bracket (·.emit (.callEntered name)) (·.emit (.callLeft name)) do
        let values ← evalAll (exec env fuel) arguments
        activate id s (exec env fuel body) values) := by
  show (do emit (.execute "call" l); execCall env (exec env fuel) l name id arguments) = _
  unfold execCall
  rw [h]

/-- A call whose subroutine can be called evaluates its arguments and then starts an activation. -/
theorem inside_call_of_callable {env : Environment} {id : Nat} {s : Subroutine} {body : Node}
    (h : env.callable? id = some (s, body)) (fuel : Nat) (l : Location) (name : String)
    (arguments : List Node) (m : Machine) :
    inside env fuel (.call l name id arguments) m =
      let inner := (do
        let values ← evalAll (observe env fuel) arguments
        activate id s (observe env fuel body) values : Observed Word)
          ((m.emit (.execute "call" l)).emit (.callEntered name))
      (inner.1, inner.2.map fun ended => (ended.1, ended.2.emit (.callLeft name))) := by
  rw [inside, Observed.bind_of_ok (Observed.emit_apply _ m), Node.step, execCall, h]
  exact Observed.bracket_apply (.call name) _ _

/-- What the record of a call can be, from the machine in which its arguments are evaluated. -/
inductive CallRecord (env : Environment) (fuel id : Nat) (s : Subroutine) (body : Node)
    (arguments : List Node) (caller : Machine) : List Activity → Prop where
  /-- All arguments have values, and after them the body is executed. -/
  | entered {log inner : List Activity} {values : List Word} {ready : Machine} :
      evalAll (observe env fuel) arguments caller = (log, some (.ok values, ready)) →
      CallRecord env fuel id s body arguments caller
        (log ++ [.execution body (s.opened id values ready) inner
          (exec env fuel body (s.opened id values ready))])
  /-- One of them has none, and only arguments are executed. -/
  | notEntered {log : List Activity} {evaluated : Ending (List Word)} :
      evalAll (observe env fuel) arguments caller = (log, evaluated) →
      (∀ values ready, evaluated ≠ some (.ok values, ready)) →
      CallRecord env fuel id s body arguments caller log

/-- The record of a call of a subroutine that can be called, if there is fuel to execute its body. -/
theorem callRecord_of_callable {env : Environment} {id : Nat} {s : Subroutine} {body : Node}
    (h : env.callable? id = some (s, body)) (fuel : Nat) (l : Location) (name : String)
    (arguments : List Node) (m : Machine) :
    CallRecord env (fuel + 1) id s body arguments
      ((m.emit (.execute "call" l)).emit (.callEntered name))
      (inside env (fuel + 1) (.call l name id arguments) m).1 := by
  rw [inside_call_of_callable h]
  generalize (m.emit (.execute "call" l)).emit (.callEntered name) = caller
  dsimp only
  rcases hevaluated : evalAll (observe env (fuel + 1)) arguments caller with
    ⟨log, _ | ⟨u | values, ready⟩⟩
  · rw [Observed.bind_of_none hevaluated]
    exact .notEntered hevaluated nofun
  · rw [Observed.bind_of_error hevaluated]
    exact .notEntered hevaluated nofun
  · obtain ⟨inner, hactivate⟩ := activate_record env fuel id s body values ready
    rw [Observed.bind_of_ok hevaluated, hactivate]
    exact .entered hevaluated

/-- A call of any other subroutine fails, and neither executes anything nor changes anything but the
trace. -/
theorem inside_call_of_not_callable {env : Environment} {id : Nat} (h : env.callable? id = none)
    (fuel : Nat) (l : Location) (name : String) (arguments : List Node) (m : Machine) :
    inside env fuel (.call l name id arguments) m =
      ([], some (.error (.failure ⟨.subroutineUnavailable name, l⟩),
        ((m.emit (.execute "call" l)).emit (.callEntered name)).emit (.callLeft name))) := by
  show (do emit (.execute "call" l); execCall env (observe env fuel) l name id arguments) m = _
  have hentered : (change (·.emit (.callEntered name)) : Observed Unit)
      (m.emit (.execute "call" l)) =
        ([], some (.ok (), (m.emit (.execute "call" l)).emit (.callEntered name))) :=
    Observed.emit_apply _ _
  rw [Observed.bind_of_ok (Observed.emit_apply _ m)]
  unfold execCall bracket
  rw [h, Observed.bind_of_ok hentered, Observed.ending_apply]
  rfl

end PeekPoke
