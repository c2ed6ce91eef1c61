import PeekPoke.Session
set_option autoImplicit false

/-!
# Rigs

A rig gives commands to a session and remembers what an embedder has to remember: the token for the
definition it opened, and when to ask a running script to stop, which is on every access to some
addresses and when an alarm goes off.  A rig does nothing to a session but give it commands
(`Rig.commanded_steps`), so that what holds of every history of a session holds of it.
-/

namespace PeekPoke

/-- A session, with what its embedder remembers. -/
structure Rig where
  session : Session := {}
  /-- The name of the definition that was opened and is neither closed nor given up. -/
  opened : Option String := none
  /-- The addresses on whose access a stop is asked for. -/
  watched : List Word := []
  deriving Inhabited

namespace Rig

/-- What a rig can be asked for. -/
inductive Command where
  /-- What is simply passed on. -/
  | plain (c : PeekPoke.Command)
  /-- Run a script; with an alarm, ask for a stop after that many milliseconds. -/
  | run (key : String) (alarm : Option Nat)
  | beginDefinition (header : Header)
  /-- Close the open definition with a stored script, by the token for it or by one for a definition
  of that name in another system. -/
  | endDefinition (key : String) (foreign : Option String)
  | abortDefinition
  deriving Inhabited

/-! ## Supervisors -/

/-- Asks for a stop on an access to one of some addresses. -/
def watch (watched : List Word) : Supervisor
  | .access _ a :: _ => watched.contains a.address
  | _ => false

/-- How many microseconds were slept on some occasions. -/
def slept : List Occasion → Nat
  | [] => 0
  | .sleep micros :: past => micros + slept past
  | _ :: past => slept past

/-- Asks for a stop in the sleep during which an alarm goes off, which was set to microseconds. -/
def alarm (due : Nat) : Supervisor
  | .sleep micros :: past => due ≤ micros + slept past
  | _ => false

/-! ## Reports -/

/-- Passes a command on. -/
def pass (r : Rig) (c : PeekPoke.Command) : Session.Report × Rig :=
  let (report, session) := r.session.report c
  (report, { r with session })

/-- Runs a script; with an alarm, a stop is asked for when that goes off, be it after the run. -/
def run (r : Rig) (key : String) (millis : Option Nat) : Session.Report × Rig :=
  match millis, r.session.workshop.node? key with
  | some millis, some _ =>
    let watching := watch r.watched
    let (_, r) := r.pass (.supervise fun past => watching past || alarm (1000 * millis) past)
    let (report, r) := r.pass (.run key)
    let (_, r) := r.pass (.supervise watching)
    (report, (r.pass .requestStop).2)
  | _, _ => r.pass (.run key)

/-- Opens a definition and keeps the token for it. -/
def beginDefinition (r : Rig) (header : Header) : Session.Report × Rig :=
  let (report, next) := r.pass (.beginDefinition header)
  match report.answer with
  | .began name => (report, { next with opened := some name })
  | _ => (report, next)

/-- The report with an event of another system, which went before. -/
def after (e : TraceEvent) (report : Session.Report) : Session.Report :=
  { report with trace := report.trace.map (e.line :: ·) }

/-- Closes the open definition.  The token is used up; one of another system is got by opening a
definition there, which the trace shows. -/
def endDefinition (r : Rig) (key : String) (foreign : Option String) : Session.Report × Rig :=
  match foreign, r.opened with
  | some name, _ =>
    let (report, next) := r.pass (.endDefinition key name)
    (after (.definitionStarted name 0) report, next)
  | none, none => (r.session.reportOn .absent, r)
  | none, some name => { r with opened := none }.pass (.endDefinition key name)

/-- Gives up the open definition, if there is a token for it. -/
def abortDefinition (r : Rig) : Session.Report × Rig :=
  match r.opened with
  | none => (r.session.reportOn (.aborted false), r)
  | some name => { r with opened := none }.pass (.abortDefinition name)

/-- Carries out a command and reports on it. -/
def report (r : Rig) : Command → Session.Report × Rig
  | .plain c => r.pass c
  | .run key alarm => r.run key alarm
  | .beginDefinition header => r.beginDefinition header
  | .endDefinition key foreign => r.endDefinition key foreign
  | .abortDefinition => r.abortDefinition

/-- Carries out commands one after the other. -/
def steps (r : Rig) : List Command → List Session.Report × Rig
  | [] => ([], r)
  | c :: rest =>
    let (first, r) := r.report c
    let (others, r) := r.steps rest
    (first :: others, r)

/-- A rig with a session that has just been opened on a simulated memory. -/
def start (defaultWidth : Width) (denied : List String) (watched : List Word)
    (silent trace : Bool) : Rig :=
  let session := Session.start defaultWidth denied (.simulated {}) silent trace
  { session := (session.report (.supervise (watch watched))).2, watched }

/-! ## A rig only gives commands -/

variable (r : Rig)

/-- The session has a history of commands between the two rigs. -/
def Commanded (r next : Rig) : Prop :=
  ∃ commands, next.session = (r.session.steps commands).2

theorem commanded_pass (c : PeekPoke.Command) : r.Commanded (r.pass c).2 := ⟨[c], rfl⟩

theorem commanded_run (key : String) (alarm : Option Nat) : r.Commanded (r.run key alarm).2 := by
  unfold run
  split
  · exact ⟨[.supervise _, .run key, .supervise _, .requestStop], rfl⟩
  · exact r.commanded_pass (.run key)

theorem commanded_beginDefinition (header : Header) :
    r.Commanded (r.beginDefinition header).2 := by
  have hpass := r.commanded_pass (.beginDefinition header)
  unfold beginDefinition
  dsimp only
  split
  · exact hpass
  · exact hpass

theorem commanded_endDefinition (key : String) (foreign : Option String) :
    r.Commanded (r.endDefinition key foreign).2 := by
  cases foreign with
  | some name => exact r.commanded_pass (.endDefinition key name)
  | none =>
    cases hopened : r.opened with
    | none =>
      simp only [endDefinition, hopened]
      exact ⟨[], rfl⟩
    | some name =>
      simp only [endDefinition, hopened]
      exact commanded_pass { r with opened := none } _

theorem commanded_abortDefinition : r.Commanded r.abortDefinition.2 := by
  unfold abortDefinition
  split
  · exact ⟨[], rfl⟩
  · exact commanded_pass { r with opened := none } _

/-- Whatever a rig is asked for, it only gives commands to its session. -/
theorem commanded_report (c : Command) : r.Commanded (r.report c).2 := by
  cases c with
  | plain c => exact r.commanded_pass c
  | run key alarm => exact r.commanded_run key alarm
  | beginDefinition header => exact r.commanded_beginDefinition header
  | endDefinition key foreign => exact r.commanded_endDefinition key foreign
  | abortDefinition => exact r.commanded_abortDefinition

/-- So its session has a history of commands. -/
theorem commanded_steps (cs : List Command) : r.Commanded (r.steps cs).2 := by
  induction cs generalizing r with
  | nil => exact ⟨[], rfl⟩
  | cons c rest ih =>
    obtain ⟨first, hfirst⟩ := r.commanded_report c
    obtain ⟨others, hothers⟩ := ih (r.report c).2
    refine ⟨first ++ others, ?_⟩
    rw [Session.steps_append, ← hfirst]
    exact hothers

end Rig

end PeekPoke
