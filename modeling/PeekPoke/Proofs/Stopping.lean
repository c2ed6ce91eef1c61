import PeekPoke.Proofs.Journal
import PeekPoke.Proofs.Transition
set_option autoImplicit false

/-!
# Stopping loops

A loop does not look at the stop flag itself: it relies on the block that is its body, which ends
with `terminate` after a statement if a stop was requested.  `Node.bodyEntries` counts how often an
execution of a loop enters its body.

Main statement: once a stop is requested, every loop around a block enters its body at most once,
exactly if that block has a statement (`bodyEntries_le_one_iff`).  A block without statements never
looks at the flag, so a loop around it goes on as if no stop had been requested.
-/

namespace PeekPoke

open MonadScript

/-! ## A requested stop stays requested -/

/-- No execution withdraws a request to stop. -/
theorem requested_transition :
    Transition fun m m' => m.stop.requested = true → m'.stop.requested = true where
  refl _ h := h
  trans hab hbc h := hbc (hab h)
  effect e m h := by
    cases e with
    | endStatement | access | sleep => exact StopFlag.requested_meet h _
    | _ => exact h
  bracket b m m' hT h := by
    obtain ⟨stores, trace, henter⟩ := b.enter_eq m
    obtain ⟨stores', trace', hleave⟩ := b.leave_eq m'
    rw [hleave]
    exact hT (henter ▸ h)

/-- After a request to stop, a block with a statement does not end with a value: its first statement
unwinds, or the block does after it. -/
theorem exec_block_ne_ok {env : Environment} {fuel : Nat} {l : Location} {statement : Node}
    {rest : List Node} {m : Machine} (hm : m.stop.requested = true) (w : Word) (m' : Machine) :
    exec env fuel (.block l (statement :: rest)) m ≠ some (.ok w, m') := by
  intro h
  cases fuel with
  | zero => cases h
  | succ fuel =>
    have hblock : execStatements (exec env fuel) (statement :: rest)
        (m.emit (.execute "block" l)) = some (.ok w, m') := h
    unfold execStatements at hblock
    rw [Run.bind_apply] at hblock
    cases hs : exec env fuel statement (m.emit (.execute "block" l)) with
    | none =>
      rw [hs] at hblock
      cases hblock
    | some ending =>
      obtain ⟨result, after⟩ := ending
      have hafter : after.stop.requested = true := requested_transition.exec hs hm
      rw [hs] at hblock
      cases result with
      | error u => cases hblock
      | ok first =>
        have hend : (act Machine.endStatement : Run Bool) after =
            some (.ok true, after.meet .statement) := by
          rw [Run.act_apply, ← StopFlag.requested_meet hafter .statement]
          rfl
        dsimp only at hblock
        rw [Run.bind_of_ok hend] at hblock
        cases hblock

/-! ## Counting the entries -/

/-- The body of a loop. -/
def Node.loopBody? : Node → Option Node
  | .whileLoop _ _ body => some body
  | .forLoop _ _ _ _ _ _ body => some body
  | _ => none

/-- What one node does, with a note each time a loop enters its body. -/
def Node.stepNoting (env : Environment) (rounds : Nat) (eval : Node → Journal Unit Word) :
    Node → Journal Unit Word
  | .whileLoop _ condition body => do
    repeatWhile (eval condition) (do Journal.note (); eval body) rounds
    return 0
  | .forLoop _ startLocation counter start target step body => do
    let _ ← eval (.assign startLocation counter start)
    let target ← eval target
    let step ←
      match step with
      | some step => eval step
      | none => pure 1
    let first ← valueOf counter
    repeatFor counter target.signed step.signed (do Journal.note (); eval body) rounds first.signed
    return 0
  | node => node.step env rounds eval

/-- Executes a node and writes down each time it enters its body as a loop. -/
def Node.entries (env : Environment) : Nat → Node → Journal Unit Word
  | 0, _ => unfinished
  | fuel + 1, node => do
    emit (.execute node.kind node.location)
    node.stepNoting env fuel fun child => Journal.silently (exec env fuel child)

/-- How often an execution of a loop enters the body of the loop. -/
def Node.bodyEntries (env : Environment) (fuel : Nat) (node : Node) (m : Machine) : Nat :=
  (node.entries env fuel m).1.length

open Journal in
/-- Counting the entries changes nothing about an execution. -/
theorem Node.entries_endsAs (env : Environment) (fuel : Nat) (node : Node) :
    EndsAs (node.entries env fuel) (exec env fuel node) := by
  cases fuel with
  | zero => exact fun _ => rfl
  | succ fuel =>
    have hchild : ∀ child,
        EndsAs (silently (ε := Unit) (exec env fuel child)) (exec env fuel child) :=
      fun _ _ => rfl
    have hbody : ∀ body, EndsAs (do note (); silently (exec env fuel body)) (exec env fuel body) :=
      fun _ _ => rfl
    refine EndsAs.bind (fun _ => rfl) fun _ => ?_
    cases node with
    | whileLoop l condition body =>
      exact EndsAs.bind (faithful.repeatWhile_rel (hchild condition) (hbody body) (Or.inl rfl))
        fun _ _ => rfl
    | forLoop l startLocation counter start target step body =>
      refine EndsAs.bind (hchild _) fun _ => EndsAs.bind (hchild target) fun _ => ?_
      cases step with
      | none =>
        exact EndsAs.bind (fun _ => rfl) fun _ => EndsAs.bind (fun _ => rfl) fun _ =>
          EndsAs.bind (faithful.repeatFor_rel (fun _ => trivial) _ _ (hbody body) (Or.inl rfl) _)
            fun _ _ => rfl
      | some step =>
        exact EndsAs.bind (hchild step) fun _ => EndsAs.bind (fun _ => rfl) fun _ =>
          EndsAs.bind (faithful.repeatFor_rel (fun _ => trivial) _ _ (hbody body) (Or.inl rfl) _)
            fun _ _ => rfl
    | _ => exact faithful_lax.step_rel env hchild (Or.inl rfl) _

/-! ## At most one entry -/

section

open Journal

/-- A silent first part writes nothing down, so the length of the journal is that of the rest. -/
theorem length_silently_bind_le {α β : Type} {x : Run α} {f : α → Journal Unit β} {m : Machine}
    {n : Nat} (h : ∀ a m', x m = some (.ok a, m') → (f a m').1.length ≤ n) :
    ((silently x >>= f) m).1.length ≤ n := by
  cases hx : x m with
  | none =>
    have hs : (silently x : Journal Unit α) m = ([], none) := by rw [silently, hx]
    rw [bind_of_none hs]
    exact Nat.zero_le n
  | some ending =>
    obtain ⟨r, m'⟩ := ending
    have hs : (silently x : Journal Unit α) m = ([], some (r, m')) := by rw [silently, hx]
    cases r with
    | error u =>
      rw [bind_of_error hs]
      exact Nat.zero_le n
    | ok a =>
      rw [bind_of_ok hs]
      exact h a m' hx

/-- A round that cannot end with a value is the last one of its loop. -/
theorem length_round_le {body : Run Word} {m : Machine} (h : ∀ w m', body m ≠ some (.ok w, m'))
    (next : Journal Unit Unit) :
    ((do
      if ← untilBreak (do note (); silently body) then next else pure () : Journal Unit Unit)
        m).1.length ≤ 1 := by
  have hround : (untilBreak (do note (); silently body) : Journal Unit Bool) m =
      ([()], (body m).map fun (r, m') => (afterRound r, m')) := rfl
  cases hb : body m with
  | none =>
    rw [hb] at hround
    rw [bind_of_none hround]
    exact Nat.le_refl 1
  | some ending =>
    obtain ⟨r, m'⟩ := ending
    rw [hb] at hround
    cases r with
    | ok w => exact absurd hb (h w m')
    | error u =>
      cases u with
      | failure e =>
        rw [bind_of_error hround]
        exact Nat.le_refl 1
      | signal s =>
        cases s with
        | breakLoop =>
          rw [bind_of_ok hround]
          exact Nat.le_refl 1
        | exit | quit | terminate =>
          rw [bind_of_error hround]
          exact Nat.le_refl 1

theorem length_repeatWhile_le {condition body : Run Word} {m : Machine} (rounds : Nat)
    (h : ∀ w m', condition m = some (.ok w, m') → ∀ v m'', body m' ≠ some (.ok v, m'')) :
    ((repeatWhile (silently condition) (do note (); silently body) rounds : Journal Unit Unit)
      m).1.length ≤ 1 := by
  cases rounds with
  | zero => exact Nat.zero_le 1
  | succ rounds =>
    unfold repeatWhile
    refine length_silently_bind_le fun w m' hc => ?_
    split
    · exact Nat.zero_le 1
    · exact length_round_le (h w m' hc) _

theorem length_repeatFor_le {counter : Variable} {target step : Int} {body : Run Word} {m : Machine}
    (rounds : Nat) (i : Int) (h : ∀ w m', body m ≠ some (.ok w, m')) :
    ((repeatFor counter target step (do note (); silently body) rounds i : Journal Unit Unit)
      m).1.length ≤ 1 := by
  cases rounds with
  | zero => exact Nat.zero_le 1
  | succ rounds =>
    unfold repeatFor
    split
    · exact length_round_le h _
    · exact Nat.zero_le 1

/-- The value of a loop is of no interest for what it writes down. -/
theorem length_bind_pure {x : Journal Unit Unit} {m : Machine} :
    ((x >>= fun _ => (pure 0 : Journal Unit Word)) m).1.length = (x m).1.length := by
  rcases hx : x m with ⟨log, _ | ⟨_ | a, m'⟩⟩
  · rw [bind_of_none hx]
  · rw [bind_of_error hx]
  · rw [bind_of_ok hx]
    exact congrArg List.length (List.append_nil log)

/-- The rounds of a counting loop from the value its counter has at the start. -/
theorem length_countFrom_le {counter : Variable} {target step : Int} {body : Run Word} {m : Machine}
    (rounds : Nat) (h : ∀ w m', body m ≠ some (.ok w, m')) :
    ((do
      let first ← valueOf counter
      repeatFor counter target step (do note (); silently body) rounds first.signed
      return 0 : Journal Unit Word) m).1.length ≤ 1 := by
  refine length_silently_bind_le (x := valueOf counter) fun first m' hv => ?_
  rw [length_bind_pure]
  cases hv
  exact length_repeatFor_le rounds _ h

/-- After a request to stop, a loop around a block with a statement enters its body at most once. -/
theorem bodyEntries_le_one {env : Environment} {fuel : Nat} {node : Node} {l : Location}
    {statement : Node} {rest : List Node} {m : Machine}
    (hbody : node.loopBody? = some (.block l (statement :: rest)))
    (hm : m.stop.requested = true) : node.bodyEntries env fuel m ≤ 1 := by
  unfold Node.bodyEntries
  cases fuel with
  | zero => exact Nat.zero_le 1
  | succ fuel =>
    -- Every part that ends with a value leaves the request in place, and the body ends with none.
    have hkeeps : ∀ {child : Node} {w : Word} {a b : Machine}, a.stop.requested = true →
        exec env fuel child a = some (.ok w, b) → b.stop.requested = true :=
      fun ha hx => requested_transition.exec hx ha
    have hstuck : ∀ {a : Machine}, a.stop.requested = true → ∀ w b,
        exec env fuel (.block l (statement :: rest)) a ≠ some (.ok w, b) :=
      fun ha => exec_block_ne_ok ha
    refine length_silently_bind_le (x := emit (.execute node.kind node.location)) fun _ m₀ h₀ => ?_
    have hm₀ : m₀.stop.requested = true := by
      cases h₀
      exact hm
    cases node with
    | whileLoop lw condition body =>
      cases hbody
      unfold Node.stepNoting
      rw [length_bind_pure]
      exact length_repeatWhile_le fuel fun w m' hc => hstuck (hkeeps hm₀ hc)
    | forLoop lf startLocation counter start target step body =>
      cases hbody
      unfold Node.stepNoting
      refine length_silently_bind_le fun _ m₁ h₁ => ?_
      refine length_silently_bind_le fun target m₂ h₂ => ?_
      have hm₂ : m₂.stop.requested = true := hkeeps (hkeeps hm₀ h₁) h₂
      cases step with
      | none => exact length_countFrom_le fuel (hstuck hm₂)
      | some step =>
        refine length_silently_bind_le fun k m₃ h₃ => ?_
        exact length_countFrom_le fuel (hstuck (hkeeps hm₂ h₃))
    | _ => cases hbody

/-- Rounds in which the condition holds and the body ends with a value are made as long as there are
rounds left. -/
theorem length_repeatWhile_of_ok {condition body : Run Word} {w v : Word} (hw : w ≠ 0)
    (hc : ∀ m, ∃ m', condition m = some (.ok w, m')) (hb : ∀ m, ∃ m', body m = some (.ok v, m'))
    (rounds : Nat) (m : Machine) :
    ((repeatWhile (silently condition) (do note (); silently body) rounds : Journal Unit Unit)
      m).1.length = rounds := by
  induction rounds generalizing m with
  | zero => rfl
  | succ rounds ih =>
    obtain ⟨m₁, h₁⟩ := hc m
    obtain ⟨m₂, h₂⟩ := hb m₁
    have hcondition : (silently condition : Journal Unit Word) m = ([], some (.ok w, m₁)) := by
      rw [silently, h₁]
    have hround : (untilBreak (do note (); silently body) : Journal Unit Bool) m₁ =
        ([()], some (.ok true, m₂)) := by
      show ([()], (body m₁).map fun (r, m') => (afterRound r, m')) = _
      rw [h₂]
      rfl
    unfold repeatWhile
    rw [bind_of_ok hcondition, if_neg hw, bind_of_ok hround, if_pos rfl]
    simp [ih m₂]

end

/-- An endless loop around a block without statements enters its body again and again, whether a
stop is requested or not. -/
theorem bodyEntries_endless (env : Environment) (l : Location) (fuel : Nat) (m : Machine) :
    (Node.whileLoop l (.literal l 1) (.block l [])).bodyEntries env (fuel + 2) m = fuel + 1 := by
  unfold Node.bodyEntries
  show ((Node.stepNoting env (fuel + 1) _ _ : Journal Unit Word) _).1.length = fuel + 1
  unfold Node.stepNoting
  rw [length_bind_pure]
  exact length_repeatWhile_of_ok (w := 1) (v := 0) (by decide) (fun m => ⟨_, rfl⟩)
    (fun m => ⟨_, rfl⟩) (fuel + 1) _

/-- **Stopping.**  After a request to stop, all loops around a block enter their body at most once,
whatever their condition, bounds and step are and whatever the statements do, exactly if the block
has a statement. -/
theorem bodyEntries_le_one_iff (l : Location) (statements : List Node) :
    (∀ (env : Environment) (fuel : Nat) (node : Node) (m : Machine),
      node.loopBody? = some (.block l statements) → m.stop.requested = true →
        node.bodyEntries env fuel m ≤ 1) ↔ statements ≠ [] := by
  constructor
  · rintro h rfl
    have hle := h {} 3 (.whileLoop l (.literal l 1) (.block l []))
      { stop := { requested := true } } rfl rfl
    rw [bodyEntries_endless] at hle
    omega
  · intro hne env fuel node m hbody hm
    obtain ⟨statement, rest, rfl⟩ := List.exists_cons_of_ne_nil hne
    exact bodyEntries_le_one hbody hm

/-- A loop that counts to three around a block without statements enters its body three times,
although a stop was requested before it started. -/
theorem counting_ignores_stop :
    let i : Variable := ⟨"i", .plain, .global, 0⟩
    let l := Location.unknown
    let loop : Node := .forLoop l l i (.literal l 1) (.literal l 3) none (.block l [])
    let m : Machine := { stop := { requested := true } }
    loop.loopBody? = some (.block l []) ∧ m.stop.requested = true ∧
      loop.bodyEntries {} 9 m = 3 := by
  exact ⟨rfl, rfl, rfl⟩

end PeekPoke
