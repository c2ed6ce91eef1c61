import PeekPoke.Script.Flat
set_option autoImplicit false

/-!
# Executions and runs

Executing a node gives its value; a run executes the root of a script and reports how that ended.
Both take all the steps they need: the bound is beyond what any script can take in practice.  An
execution is carried out flat and means what `exec` says (`execute_eq`).
-/

namespace PeekPoke

/-! ## Executions -/

/-- More steps than any script can take in practice. -/
def fuelLimit : Nat := (1 <<< 62) - 1

/-- Executes a node. -/
def Node.execute (env : Environment) (node : Node) (m : Machine) : Ending Word :=
  (Flat.exec env fuelLimit node m (fun w m' => .done (some (.ok w, m')))
    (fun u m' => .done (some (.error u, m')))).force

theorem Node.execute_eq (env : Environment) (node : Node) :
    node.execute env = exec env fuelLimit node := by
  funext m
  exact Flat.force_exec env fuelLimit node m

/-! ## Runs -/

/-- How a run ends, by how the execution of its root ended. -/
def RunOutcome.ofResult : Except Unwind Word → Except RunError RunOutcome
  | .ok _ => .ok .completed
  | .error (.signal .breakLoop) => .ok .completed
  | .error (.signal .exit) => .ok .completed
  | .error (.signal .quit) => .ok .quit
  | .error (.signal .terminate) => .ok .terminated
  | .error (.failure e) => .error e

/-- The event that reports the end of a run. -/
def RunOutcome.event : Except RunError RunOutcome → TraceEvent
  | .ok outcome => .runFinished outcome
  | .error e => .runFailed e.message

/-- Runs a script.  The value of its root is discarded. -/
def Node.run (env : Environment) (root : Node) (m : Machine) :
    Option (Except RunError RunOutcome × Machine) :=
  match root.execute env (m.emit (.runEntered root.location)) with
  | none => none
  | some (result, m') =>
    let outcome := RunOutcome.ofResult result
    some (outcome, (m'.emit (RunOutcome.event outcome)).emit (.runLeft root.location))

end PeekPoke
