import PeekPoke.Proofs.Activity
import PeekPoke.Proofs.Frames
set_option autoImplicit false

/-!
# Counting loops

A counting loop evaluates its operands, reads its variable once and then makes its rounds.  The
count is its own: it is put into the variable before every round but the first, and nothing a body
does to the variable changes it.

Main statement: when every round returns, a loop makes `roundCount` rounds and ends with a value,
each round starts with the count in the variable and the count after the last round is left there if
it is a signed number; a round that breaks out is the last one, and the loop ends with a value
(`CountingLoop.counts`).

`Iteration` says once what the rounds of a loop can be; everything else about them is shown by
induction on it.
-/

namespace PeekPoke

open MonadScript

/-! ## Active variables -/

theorem Frames.get_set_self {frames : Frames} (h : 0 < frames.size) (slot : Nat) (w : Word) :
    Frames.get (Frames.set frames slot w) slot = w := by
  have top : frames.size - 1 < frames.size := by omega
  unfold Frames.get Frames.set
  simp only [Array.back?_eq_getElem?, Array.size_modify, Array.getElem?_modify, if_true,
    Array.getElem?_eq_getElem top, Option.map_some]
  exact Row.getD_modify_self 0 _ slot _

namespace Stores

/-- There is a frame for the variable: the global one, or that of an activation in progress. -/
def Active (s : Stores) (v : Variable) : Prop := 0 < (s.stack v.scope).size

instance (s : Stores) (v : Variable) : Decidable (s.Active v) :=
  inferInstanceAs (Decidable (_ < _))

/-- The value of a variable is that of its slot in the innermost frame of its scope. -/
theorem get_eq (s : Stores) (v : Variable) : s.get v = Frames.get (s.stack v.scope) v.slot := by
  unfold get stack
  cases v.scope <;> rfl

theorem get_set_of_active {s : Stores} {v : Variable} (h : s.Active v) (w : Word) :
    (s.set v w).get v = w := by
  rw [get_eq, stack_set_self, Frames.get_set_self h]

theorem Active.of_balanced {s s' : Stores} {v : Variable} (h : s.Active v) (hs : s.Balanced s') :
    s'.Active v := by
  unfold Active
  rw [hs.size]
  exact h

theorem Active.set {s : Stores} {v : Variable} (h : s.Active v) (w : Word) :
    (s.set v w).Active v := h.of_balanced (.set s v w)

end Stores

/-! ## The number of rounds -/

/-- The number is a signed number of 64 bits. -/
def Word.IsSigned (i : Int) : Prop := -0x8000000000000000 ≤ i ∧ i < 0x8000000000000000

instance (i : Int) : Decidable (Word.IsSigned i) := inferInstanceAs (Decidable (_ ∧ _))

theorem Word.isSigned_signed (w : Word) : Word.IsSigned w.signed :=
  ⟨Int64.le_toInt _, Int64.toInt_lt _⟩

/-- How many steps from `first` on do not pass the target, the one of no length included. -/
def roundCount (first target step : Int) : Nat :=
  if step = 0 then 0 else ((target - first).fdiv step + 1).toNat

theorem inBounds_iff (target step i : Int) :
    inBounds target step i = true ↔ (0 < step ∧ i ≤ target) ∨ (step < 0 ∧ target ≤ i) := by
  simp [inBounds]

/-- No round is made from a count that has passed the target. -/
theorem roundCount_of_passed {target step i : Int} (h : inBounds target step i = false) :
    roundCount i target step = 0 := by
  have passed : ¬ ((0 < step ∧ i ≤ target) ∨ (step < 0 ∧ target ≤ i)) := by
    rw [← inBounds_iff, h]
    exact Bool.false_ne_true
  unfold roundCount
  rcases Int.lt_trichotomy step 0 with down | none | up
  · have short : (target - i).fdiv step < 0 := by
      rw [← Int.neg_fdiv_neg]
      exact Int.fdiv_neg_of_neg_of_pos (by omega) (by omega)
    rw [if_neg (by omega)]
    omega
  · rw [if_pos none]
  · have short : (target - i).fdiv step < 0 := Int.fdiv_neg_of_neg_of_pos (by omega) up
    rw [if_neg (by omega)]
    omega

/-- From a count within bounds one more round is made than from the next count. -/
theorem roundCount_of_inBounds {target step i : Int} (h : inBounds target step i = true) :
    roundCount i target step = roundCount (i + step) target step + 1 := by
  have within := (inBounds_iff target step i).1 h
  have moves : step ≠ 0 := by omega
  have next : (target - i).fdiv step = (target - (i + step)).fdiv step + 1 := by
    rw [← Int.add_mul_fdiv_right _ _ moves]
    congr 1
    omega
  have far : 0 ≤ (target - i).fdiv step := by
    rcases within with ⟨up, le⟩ | ⟨down, le⟩
    · exact Int.fdiv_nonneg (by omega) (by omega)
    · exact Int.fdiv_nonneg_of_nonpos_of_nonpos (by omega) (by omega)
  unfold roundCount
  rw [if_neg moves, if_neg moves]
  omega

/-- A step that leaves the signed numbers passes every target. -/
theorem roundCount_of_not_isSigned {target step i : Int} (h : inBounds target step i = true)
    (ht : Word.IsSigned target) (hi : Word.IsSigned i) (hnext : ¬ Word.IsSigned (i + step)) :
    roundCount i target step = 1 := by
  rw [roundCount_of_inBounds h, roundCount_of_passed]
  rw [Bool.eq_false_iff, ne_eq, inBounds_iff]
  have within := (inBounds_iff target step i).1 h
  unfold Word.IsSigned at ht hi hnext
  omega

/-! ## Rounds -/

/-- One execution of the body of a loop: the machine it started in, what happened, and how it
ended. -/
structure Round where
  start : Machine
  inner : List Activity
  ending : Ending Word

namespace Round

/-- The record of the round. -/
def activity (body : Node) (r : Round) : Activity := .execution body r.start r.inner r.ending

/-- The body returned. -/
def Returned (r : Round) : Prop := ∃ w m, r.ending = some (.ok w, m)

theorem eq_of_getElem?_singleton {r r' : Round} {j : Nat} (h : [r][j]? = some r') :
    j = 0 ∧ r = r' := by
  simpa only [List.getElem?_singleton, Option.ite_none_right_eq_some, Option.some_inj] using h

/-- The body broke out of the loop. -/
def BrokeOut (r : Round) (m : Machine) : Prop := r.ending = some (.error (.signal .breakLoop), m)

end Round

/-- What the rounds of a counting loop can be from the count `i` on, when at most so many checks of
the count are made. -/
inductive Iteration (body : Run Word) (counter : Variable) (target step : Int) :
    Nat → Int → Machine → List Round → Ending Unit → Prop where
  /-- The loop is cut off before it checks the count. -/
  | cut {i : Int} {m : Machine} : Iteration body counter target step 0 i m [] none
  | passed {n : Nat} {i : Int} {m : Machine} :
      inBounds target step i = false →
      Iteration body counter target step (n + 1) i m [] (some (.ok (), m))
  /-- The body does not end. -/
  | lost {n : Nat} {i : Int} {m : Machine} {inner : List Activity} :
      inBounds target step i = true → body m = none →
      Iteration body counter target step (n + 1) i m [⟨m, inner, none⟩] none
  | brokeOut {n : Nat} {i : Int} {m m' : Machine} {inner : List Activity} :
      inBounds target step i = true → body m = some (.error (.signal .breakLoop), m') →
      Iteration body counter target step (n + 1) i m
        [⟨m, inner, some (.error (.signal .breakLoop), m')⟩] (some (.ok (), m'))
  | unwound {n : Nat} {i : Int} {m m' : Machine} {inner : List Activity} {u : Unwind} :
      inBounds target step i = true → body m = some (.error u, m') → u ≠ .signal .breakLoop →
      Iteration body counter target step (n + 1) i m [⟨m, inner, some (.error u, m')⟩]
        (some (.error u, m'))
  /-- The next count would not be a signed number. -/
  | last {n : Nat} {i : Int} {m m' : Machine} {inner : List Activity} {w : Word} :
      inBounds target step i = true → body m = some (.ok w, m') → ¬ Word.IsSigned (i + step) →
      Iteration body counter target step (n + 1) i m [⟨m, inner, some (.ok w, m')⟩]
        (some (.ok (), m'))
  | next {n : Nat} {i : Int} {m m' : Machine} {inner : List Activity} {w : Word}
      {rest : List Round} {ending : Ending Unit} :
      inBounds target step i = true → body m = some (.ok w, m') → Word.IsSigned (i + step) →
      Iteration body counter target step n (i + step)
        (m'.assign counter (Word.ofSigned (i + step))) rest ending →
      Iteration body counter target step (n + 1) i m (⟨m, inner, some (.ok w, m')⟩ :: rest) ending

/-- A round of a loop is recorded as the execution of the body. -/
theorem untilBreak_apply (env : Environment) (fuel : Nat) (body : Node) (m : Machine) :
    ∃ inner, (untilBreak (observe env (fuel + 1) body) : Observed Bool) m =
      ([.execution body m inner (exec env (fuel + 1) body m)],
        (exec env (fuel + 1) body m).map fun ending => (afterRound ending.1, ending.2)) := by
  refine ⟨(inside env fuel body m).1, ?_⟩
  rw [untilBreak, Observed.ending_apply, observe_record]

theorem afterRound_of_ne {u : Unwind} (h : u ≠ .signal .breakLoop) :
    afterRound (.error u) = .error u := by
  unfold afterRound
  split <;> simp_all

/-- The rounds that are recorded of a counting loop. -/
theorem repeatFor_iterates (env : Environment) (fuel : Nat) (body : Node) (counter : Variable)
    (target step : Int) (n : Nat) (i : Int) (m : Machine) :
    ∃ rounds ending,
      repeatFor counter target step (observe env (fuel + 1) body) n i m =
        (rounds.map (·.activity body), ending) ∧
      Iteration (exec env (fuel + 1) body) counter target step n i m rounds ending := by
  induction n generalizing i m with
  | zero => exact ⟨[], none, rfl, .cut⟩
  | succ n ih =>
    unfold repeatFor
    cases within : inBounds target step i with
    | false => exact ⟨[], _, rfl, .passed within⟩
    | true =>
      obtain ⟨inner, hround⟩ := untilBreak_apply env fuel body m
      simp only [if_true]
      cases hbody : exec env (fuel + 1) body m with
      | none =>
        rw [hbody] at hround
        rw [Observed.bind_of_none hround]
        exact ⟨[⟨m, inner, none⟩], none, rfl, .lost within hbody⟩
      | some ending =>
        obtain ⟨u | w, m'⟩ := ending
        · by_cases breaks : u = .signal .breakLoop
          · subst breaks
            rw [hbody] at hround
            rw [Observed.bind_of_ok hround]
            exact ⟨[⟨m, inner, _⟩], _, rfl, .brokeOut within hbody⟩
          · have herror : (untilBreak (observe env (fuel + 1) body) : Observed Bool) m =
                ([.execution body m inner (some (.error u, m'))], some (.error u, m')) := by
              simp [hround, hbody, afterRound_of_ne breaks]
            rw [Observed.bind_of_error herror]
            exact ⟨[⟨m, inner, _⟩], _, rfl, .unwound within hbody breaks⟩
        · rw [hbody] at hround
          rw [Observed.bind_of_ok hround]
          by_cases signed : Word.IsSigned (i + step)
          · obtain ⟨rest, ending, hrest, iteration⟩ :=
              ih (i + step) (m'.assign counter (Word.ofSigned (i + step)))
            refine ⟨⟨m, inner, _⟩ :: rest, ending, ?_, .next within hbody signed iteration⟩
            have bounds : -0x8000000000000000 ≤ i + step ∧ i + step < 0x8000000000000000 := signed
            rw [if_pos rfl, if_pos bounds, Observed.bind_of_ok (Observed.store_apply _ _ _), hrest]
            rfl
          · refine ⟨[⟨m, inner, _⟩], _, ?_, .last within hbody signed⟩
            have bounds : ¬ (-0x8000000000000000 ≤ i + step ∧ i + step < 0x8000000000000000) :=
              signed
            rw [if_pos rfl, if_neg bounds]
            rfl

/-! ## What the rounds have in common -/

namespace Iteration

variable {body : Run Word} {counter : Variable} {target step i : Int} {n : Nat} {m : Machine}
  {rounds : List Round} {ending : Ending Unit}

/-- After a body that returned, the next count can be read from an active variable. -/
theorem next_count (kept : body.Keeps fun m m' => m.stores.Balanced m'.stores)
    (active : m.stores.Active counter) {m' : Machine} {w : Word} (hbody : body m = some (.ok w, m'))
    (signed : Word.IsSigned i) :
    (m'.assign counter (Word.ofSigned i)).stores.Active counter ∧
      ((m'.assign counter (Word.ofSigned i)).stores.get counter).signed = i := by
  have active' : m'.stores.Active counter := active.of_balanced (kept _ _ _ hbody)
  refine ⟨active'.set _, ?_⟩
  rw [Machine.assign, Stores.get_set_of_active active', Word.signed_ofSigned signed.1 signed.2]

/-- Every round starts with its count in the variable, if the variable is active. -/
theorem starts (h : Iteration body counter target step n i m rounds ending)
    (kept : body.Keeps fun m m' => m.stores.Balanced m'.stores) (active : m.stores.Active counter)
    (value : (m.stores.get counter).signed = i) {j : Nat} {r : Round} (hr : rounds[j]? = some r) :
    (r.start.stores.get counter).signed = i + j * step := by
  induction h generalizing j with
  | cut | passed _ => simp at hr
  | lost _ _ | brokeOut _ _ | unwound _ _ _ | last _ _ _ =>
    obtain ⟨rfl, rfl⟩ := Round.eq_of_getElem?_singleton hr
    simpa using value
  | @next n i m m' inner w rest ending _ hbody signed _ ih =>
    cases j with
    | zero =>
      obtain rfl : _ = r := Option.some.inj hr
      simpa using value
    | succ j =>
      obtain ⟨active', value'⟩ := next_count kept active hbody signed
      rw [ih active' value' hr, Int.natCast_add, Int.add_mul]
      omega

/-- A round that breaks out is the last one. -/
theorem length_of_brokeOut (h : Iteration body counter target step n i m rounds ending) {j : Nat}
    {r : Round} {m' : Machine} (hr : rounds[j]? = some r) (breaks : r.BrokeOut m') :
    rounds.length = j + 1 ∧ ending = some (.ok (), m') := by
  induction h generalizing j with
  | cut | passed _ => simp at hr
  | lost _ _ | unwound _ _ _ | last _ _ _ =>
    obtain ⟨rfl, rfl⟩ := Round.eq_of_getElem?_singleton hr
    simp_all [Round.BrokeOut]
  | brokeOut _ _ =>
    obtain ⟨rfl, rfl⟩ := Round.eq_of_getElem?_singleton hr
    simp_all [Round.BrokeOut]
  | next _ _ _ _ ih =>
    cases j with
    | zero =>
      obtain rfl : _ = r := Option.some.inj hr
      simp [Round.BrokeOut] at breaks
    | succ j =>
      obtain ⟨length, ends⟩ := ih hr
      exact ⟨by rw [List.length_cons, length], ends⟩

/-- When all rounds return, as many are made as there are counts within bounds, and the count after
the last of them is left in the variable. -/
theorem length_of_returned (h : Iteration body counter target step n i m rounds ending)
    (kept : body.Keeps fun m m' => m.stores.Balanced m'.stores)
    (returned : ∀ r ∈ rounds, r.Returned) (ht : Word.IsSigned target) (hi : Word.IsSigned i)
    (enough : roundCount i target step < n) :
    rounds.length = roundCount i target step ∧
      ∃ m', ending = some (.ok (), m') ∧
        (m.stores.Active counter → (m.stores.get counter).signed = i →
          Word.IsSigned (i + roundCount i target step * step) →
          (m'.stores.get counter).signed = i + roundCount i target step * step) := by
  induction h with
  | cut => simp at enough
  | @passed n i m passed =>
    rw [roundCount_of_passed passed]
    exact ⟨rfl, m, rfl, fun _ value _ => by simpa using value⟩
  | lost _ _ | brokeOut _ _ | unwound _ _ _ => simp [Round.Returned] at returned
  | @last n i m m' inner w within _ unsigned =>
    rw [roundCount_of_not_isSigned within ht hi unsigned]
    -- The count after the only round is not a signed number, so nothing is said about the variable.
    refine ⟨rfl, m', rfl, fun _ _ signed => absurd ?_ unsigned⟩
    simpa using signed
  | @next n i m m' inner w rest ending within hbody signed _ ih =>
    have count := roundCount_of_inBounds within
    obtain ⟨length, left, ends, value⟩ := ih (fun r hr => returned r (List.mem_cons_of_mem _ hr))
      signed (by omega)
    have total : i + roundCount i target step * step =
        i + step + roundCount (i + step) target step * step := by
      rw [count, Int.natCast_add, Int.add_mul]
      omega
    refine ⟨by rw [List.length_cons, length, count], left, ends, fun active _ last => ?_⟩
    obtain ⟨active', value'⟩ := next_count kept active hbody signed
    rw [total] at last ⊢
    exact value active' value' last

/-- From a count that has passed the target there are no rounds. -/
theorem eq_nil (h : Iteration body counter target step n i m rounds ending)
    (passed : inBounds target step i = false) : rounds = [] := by
  cases h with
  | cut | passed => rfl
  | lost within | brokeOut within | unwound within | last within | next within =>
    simp [passed] at within

/-- From a count within bounds the first round starts at once. -/
theorem head_start (h : Iteration body counter target step (n + 1) i m rounds ending)
    (within : inBounds target step i = true) : ∃ r ∈ rounds, r.start = m := by
  cases h with
  | passed passed => simp [passed] at within
  | lost | brokeOut | unwound | last | next => exact ⟨_, List.mem_cons_self, rfl⟩

/-- If the body returns, the next count decides whether there are more rounds. -/
theorem tail (h : Iteration body counter target step (n + 1) i m rounds ending)
    (within : inBounds target step i = true) {w : Word} {m' : Machine}
    (hbody : body m = some (.ok w, m')) :
    ∃ r rest, rounds = r :: rest ∧ r.Returned ∧
      ((¬ Word.IsSigned (i + step) ∧ rest = []) ∨
        Word.IsSigned (i + step) ∧ Iteration body counter target step n (i + step)
          (m'.assign counter (Word.ofSigned (i + step))) rest ending) := by
  cases h with
  | passed passed => simp [passed] at within
  | lost _ hbody' => simp [hbody] at hbody'
  | brokeOut _ hbody' => simp [hbody] at hbody'
  | unwound _ hbody' _ => simp [hbody] at hbody'
  | last _ hbody' unsigned =>
    exact ⟨_, [], rfl, ⟨_, _, rfl⟩, Or.inl ⟨unsigned, rfl⟩⟩
  | next _ hbody' signed rest =>
    cases hbody.symm.trans hbody'
    exact ⟨_, _, rfl, ⟨_, _, rfl⟩, Or.inr ⟨signed, rest⟩⟩

end Iteration

/-! ## Enough fuel -/

/-- The node returns when it is executed from this machine, given enough fuel. -/
def Node.Returns (env : Environment) (node : Node) (m : Machine) : Prop :=
  ∃ fuel w m', exec env fuel node m = some (.ok w, m')

/-- If every body that a loop starts returns, given enough fuel, then there is fuel with which all of
them return.  The induction is on the number of rounds to come; `done` is the number of those made
before, each of which took one check of the count. -/
theorem Iteration.returned_of_returns {env : Environment} {body : Node} {counter : Variable}
    {target step : Int} {i : Int} {m : Machine} {done least : Nat}
    (h : ∀ fuel ≥ least, ∃ rounds ending,
      Iteration (exec env fuel body) counter target step (fuel - done) i m rounds ending ∧
        ∀ r ∈ rounds, body.Returns env r.start) :
    ∃ enough, ∀ fuel ≥ enough, ∀ rounds ending,
      Iteration (exec env fuel body) counter target step (fuel - done) i m rounds ending →
        ∀ r ∈ rounds, r.Returned := by
  induction remaining : roundCount i target step generalizing i m done least with
  | zero =>
    have passed : inBounds target step i = false := by
      rw [Bool.eq_false_iff]
      intro within
      have := roundCount_of_inBounds within
      omega
    refine ⟨0, fun fuel _ rounds ending iteration r hr => ?_⟩
    rw [iteration.eq_nil passed] at hr
    cases hr
  | succ count ih =>
    have within : inBounds target step i = true := by
      rw [← Bool.not_eq_false]
      intro passed
      have := roundCount_of_passed passed
      omega
    have later : roundCount (i + step) target step = count := by
      have := roundCount_of_inBounds within
      omega
    have budget {fuel : Nat} (hfuel : done + 1 ≤ fuel) :
        fuel - done = fuel - (done + 1) + 1 := by omega
    -- The first round is there whatever the fuel, so its body returns with all fuel that is enough.
    obtain ⟨least', w, m', hbody⟩ : body.Returns env m := by
      obtain ⟨rounds, ending, iteration, returns⟩ := h (max least (done + 1)) (by omega)
      rw [budget (by omega)] at iteration
      obtain ⟨r, hr, rfl⟩ := iteration.head_start within
      exact returns r hr
    have hbody' {fuel : Nat} (hfuel : least' ≤ fuel) : exec env fuel body m = some (.ok w, m') :=
      exec_of_le hfuel hbody
    by_cases signed : Word.IsSigned (i + step)
    · have hrest : ∀ fuel ≥ max least (max least' (done + 1)), ∃ rounds ending,
          Iteration (exec env fuel body) counter target step (fuel - (done + 1)) (i + step)
            (m'.assign counter (Word.ofSigned (i + step))) rounds ending ∧
          ∀ r ∈ rounds, body.Returns env r.start := by
        intro fuel hfuel
        obtain ⟨rounds, ending, iteration, returns⟩ := h fuel (by omega)
        rw [budget (by omega)] at iteration
        obtain ⟨r, rest, rfl, -, ⟨unsigned, -⟩ | ⟨-, iteration'⟩⟩ :=
          iteration.tail within (hbody' (by omega))
        · exact absurd signed unsigned
        · exact ⟨rest, ending, iteration', fun r hr => returns r (List.mem_cons_of_mem _ hr)⟩
      obtain ⟨enough, returned⟩ := ih hrest later
      refine ⟨max enough (max least' (done + 1)), fun fuel hfuel rounds ending iteration => ?_⟩
      rw [budget (by omega)] at iteration
      obtain ⟨r, rest, rfl, first, ⟨unsigned, -⟩ | ⟨-, iteration'⟩⟩ :=
        iteration.tail within (hbody' (by omega))
      · exact absurd signed unsigned
      · exact List.forall_mem_cons.2 ⟨first, returned fuel (by omega) rest ending iteration'⟩
    · refine ⟨max least' (done + 1), fun fuel hfuel rounds ending iteration => ?_⟩
      rw [budget (by omega)] at iteration
      obtain ⟨r, rest, rfl, first, ⟨-, rfl⟩ | ⟨signed', -⟩⟩ :=
        iteration.tail within (hbody' (by omega))
      · exact List.forall_mem_singleton.2 first
      · exact absurd signed' signed

/-! ## Counting loops -/

/-- The parts of a counting loop. -/
structure CountingLoop where
  location : Location
  startLocation : Location
  counter : Variable
  start : Node
  target : Node
  step : Option Node
  body : Node

namespace CountingLoop

/-- The loop as a node. -/
def node (l : CountingLoop) : Node :=
  .forLoop l.location l.startLocation l.counter l.start l.target l.step l.body

/-- What a loop does before its first round: it finds the numbers it counts from, to and by. -/
def operands {M : Type → Type} [MonadScript M] (l : CountingLoop) (eval : Node → M Word) :
    M (Int × Int × Int) := do
  emit (.execute l.node.kind l.node.location)
  let _ ← eval (.assign l.startLocation l.counter l.start)
  let target ← eval l.target
  let step ← (match l.step with
    | some step => eval step
    | none => pure 1)
  let first ← valueOf l.counter
  return (first.signed, target.signed, step.signed)

/-- The nodes that are executed before the first round. -/
def operandNodes (l : CountingLoop) : List Node :=
  .assign l.startLocation l.counter l.start :: l.target :: l.step.toList

/-- The rounds that are recorded of the loop: all that was executed after its operands. -/
def rounds (l : CountingLoop) (env : Environment) (fuel : Nat) (m : Machine) : List Round :=
  ((inside env fuel l.node m).1.drop l.operandNodes.length).filterMap fun
    | .execution _ start inner ending => some ⟨start, inner, ending⟩
    | .event _ => none

/-- What the executions of a loop with some fuel have to do with the numbers it counts from, to and
by. -/
structure Counts (l : CountingLoop) (env : Environment) (fuel : Nat) (m : Machine)
    (first target step : Int) : Prop where
  /-- After the operands only the body is executed. -/
  record : ∃ before,
    (inside env fuel l.node m).1 = before ++ (l.rounds env fuel m).map (·.activity l.body) ∧
      Activity.parts before = l.operandNodes
  /-- Every round starts with its count in the variable, whatever earlier rounds did to it. -/
  starts : m.stores.Active l.counter → ∀ (j : Nat) r, (l.rounds env fuel m)[j]? = some r →
    (r.start.stores.get l.counter).signed = first + j * step
  /-- When all rounds return, there are as many as counts within bounds, and the loop returns. -/
  returned : (∀ r ∈ l.rounds env fuel m, r.Returned) → roundCount first target step < fuel →
    (l.rounds env fuel m).length = roundCount first target step ∧
      ∃ m', exec env (fuel + 1) l.node m = some (.ok 0, m') ∧
        (m.stores.Active l.counter → Word.IsSigned (first + roundCount first target step * step) →
          (m'.stores.get l.counter).signed = first + roundCount first target step * step)
  /-- A round that breaks out is the last one, and the loop returns. -/
  brokeOut : ∀ (j : Nat) r m', (l.rounds env fuel m)[j]? = some r → r.BrokeOut m' →
    (l.rounds env fuel m).length = j + 1 ∧ exec env (fuel + 1) l.node m = some (.ok 0, m')

theorem operands_refines (l : CountingLoop) (env : Environment) {fuel more : Nat}
    (h : fuel ≤ more) :
    Run.Refines (l.operands (exec env fuel)) (l.operands (exec env more)) := by
  have step : Run.Refines
      (match l.step with
      | some step => exec env fuel step
      | none => pure 1)
      (match l.step with
      | some step => exec env more step
      | none => pure 1) := by
    cases l.step with
    | none => exact .refl _
    | some step => exact exec_refines env h step
  exact .bind (.refl _) fun _ => .bind (exec_refines env h _) fun _ =>
    .bind (exec_refines env h _) fun _ => .bind step fun _ => .refl _

end CountingLoop

/-- What ends with a value had a first computation that did, and what followed ended with it. -/
theorem Run.bind_eq_ok {α β : Type} {x : Run α} {f : α → Run β} {m m' : Machine} {b : β}
    (h : (x >>= f) m = some (.ok b, m')) :
    ∃ a middle, x m = some (.ok a, middle) ∧ f a middle = some (.ok b, m') := by
  rw [Run.bind_apply] at h
  rcases hx : x m with _ | ⟨_ | a, middle⟩
  · simp [hx] at h
  · simp [hx] at h
  · rw [hx] at h
    exact ⟨a, middle, rfl, h⟩

/-- An execution that ends is recorded as such. -/
theorem observe_eq_of_exec {env : Environment} {fuel : Nat} {node : Node} {m m' : Machine}
    {r : Except Unwind Word} (h : exec env fuel node m = some (r, m')) :
    ∃ inner, observe env fuel node m =
      ([.execution node m inner (some (r, m'))], some (r, m')) := by
  obtain ⟨inner, record⟩ := observe_of_exec h
  refine ⟨inner, Prod.ext record ?_⟩
  rw [observe_endsAs env fuel node m, h]

namespace CountingLoop

variable {l : CountingLoop} {env : Environment} {fuel : Nat} {m opened : Machine}
  {first target step : Int}

/-- Operands that are known were evaluated one after the other, and the variable was read last. -/
theorem operands_eq_ok
    (h : l.operands (exec env fuel) m = some (.ok (first, target, step), opened)) :
    ∃ w m₁ t m₂ k,
      exec env fuel (.assign l.startLocation l.counter l.start)
        (m.emit (.execute l.node.kind l.node.location)) = some (.ok w, m₁) ∧
      exec env fuel l.target m₁ = some (.ok t, m₂) ∧
      (match l.step with
        | some node => exec env fuel node m₂ = some (.ok k, opened)
        | none => k = 1 ∧ m₂ = opened) ∧
      first = (opened.stores.get l.counter).signed ∧ target = t.signed ∧ step = k.signed := by
  have hemit : (emit (.execute l.node.kind l.node.location) : Run Unit) m =
      some (.ok (), m.emit (.execute l.node.kind l.node.location)) := rfl
  rw [operands, Run.bind_of_ok hemit] at h
  obtain ⟨w, m₁, hassign, h⟩ := Run.bind_eq_ok h
  obtain ⟨t, m₂, htarget, h⟩ := Run.bind_eq_ok h
  obtain ⟨k, m₃, hstep, h⟩ := Run.bind_eq_ok h
  have hvalue : (valueOf l.counter : Run Word) m₃ = some (.ok (m₃.stores.get l.counter), m₃) := rfl
  rw [Run.bind_of_ok hvalue] at h
  cases h
  refine ⟨w, m₁, t, m₂, k, hassign, htarget, ?_, rfl, rfl, rfl⟩
  cases hl : l.step with
  | some node =>
    rw [hl] at hstep
    exact hstep
  | none =>
    rw [hl] at hstep
    cases hstep
    exact ⟨rfl, rfl⟩

/-- Evaluating the operands is balanced, and the loop counts to a signed number. -/
theorem balanced_operands
    (h : l.operands (exec env fuel) m = some (.ok (first, target, step), opened)) :
    m.stores.Balanced opened.stores := by
  obtain ⟨w, m₁, t, m₂, k, hassign, htarget, hstep, -⟩ := operands_eq_ok h
  have hfirst : (m.emit (.execute l.node.kind l.node.location)).stores.Balanced m₁.stores :=
    Stores.balanced_transition.exec hassign
  have hbefore : m.stores.Balanced m₂.stores :=
    .trans hfirst (Stores.balanced_transition.exec htarget)
  cases hl : l.step with
  | some node =>
    rw [hl] at hstep
    exact hbefore.trans (Stores.balanced_transition.exec hstep)
  | none =>
    rw [hl] at hstep
    exact hstep.2 ▸ hbefore

/-- What is recorded of a computation that ends with a value and of what follows. -/
theorem bind_record {α β : Type} {x : Observed α} {f : α → Observed β} {m m' : Machine}
    {log log' : List Activity} {a : α} {ending : Ending β} (h : x m = (log, some (.ok a, m')))
    (hf : f a m' = (log', ending)) : (x >>= f) m = (log ++ log', ending) := by
  rw [Observed.bind_of_ok h, hf]

/-- Ending with zero after a computation records nothing more. -/
theorem return_zero_apply {x : Observed Unit} {m : Machine} {log : List Activity}
    {ending : Ending Unit} (h : x m = (log, ending)) :
    (x >>= fun _ => pure 0 : Observed Word) m =
      (log, ending.map fun (r, m') => (r.map fun _ => 0, m')) := by
  rcases ending with _ | ⟨u | _, m'⟩
  · exact Observed.bind_of_none h _
  · exact Observed.bind_of_error h _
  · rw [Observed.bind_of_ok h]
    exact Prod.ext (List.append_nil _) rfl

/-- Once the operands are known, what is left of the loop is its rounds. -/
theorem inside_of_operands
    (h : l.operands (exec env fuel) m = some (.ok (first, target, step), opened)) :
    ∃ before rounds ending,
      inside env fuel l.node m =
        (before ++ rounds.map (·.activity l.body),
          ending.map fun (r, m') => (r.map fun _ => 0, m')) ∧
      Activity.parts before = l.operandNodes ∧
      before.length = l.operandNodes.length ∧
      Iteration (exec env fuel l.body) l.counter target step fuel first opened rounds ending := by
  obtain ⟨w, m₁, t, m₂, k, hassign, htarget, hstep, rfl, rfl, rfl⟩ := operands_eq_ok h
  obtain ⟨inner₁, hassign'⟩ := observe_eq_of_exec hassign
  obtain ⟨inner₂, htarget'⟩ := observe_eq_of_exec htarget
  cases fuel with
  | zero => cases hassign
  | succ fuel =>
    obtain ⟨rounds, ending, hrounds, iteration⟩ := repeatFor_iterates env fuel l.body l.counter
      t.signed k.signed (fuel + 1) (opened.stores.get l.counter).signed opened
    have hemit := Observed.emit_apply (.execute l.node.kind l.node.location) m
    have hvalue := Observed.look_apply (·.stores.get l.counter) opened
    have hloop := return_zero_apply hrounds
    obtain ⟨location, startLocation, counter, start, goal, step, body⟩ := l
    cases step with
    | some stepNode =>
      obtain ⟨inner₃, hstep'⟩ := observe_eq_of_exec hstep
      have hinside : inside env (fuel + 1) (node ⟨_, _, _, _, _, some stepNode, _⟩) m =
          ([] ++ ([_] ++ ([_] ++ ([_] ++ ([] ++ rounds.map (·.activity body))))), _) :=
        bind_record hemit (bind_record hassign' (bind_record htarget' (bind_record hstep'
          (bind_record hvalue hloop))))
      exact ⟨_ :: _ :: [_], rounds, ending, hinside, rfl, rfl, iteration⟩
    | none =>
      obtain ⟨rfl, rfl⟩ := hstep
      have hinside : inside env (fuel + 1) (node ⟨_, _, _, _, _, none, _⟩) m =
          ([] ++ ([_] ++ ([_] ++ ([] ++ ([] ++ rounds.map (·.activity body))))), _) :=
        bind_record hemit (bind_record hassign' (bind_record htarget' (bind_record
          (x := pure 1) rfl (bind_record hvalue hloop))))
      exact ⟨_ :: [_], rounds, ending, hinside, rfl, rfl, iteration⟩

theorem rounds_eq {before : List Activity} {rounds : List Round}
    (h : (inside env fuel l.node m).1 = before ++ rounds.map (·.activity l.body))
    (hlength : before.length = l.operandNodes.length) : l.rounds env fuel m = rounds := by
  rw [CountingLoop.rounds, h, ← hlength, List.drop_left, List.filterMap_map]
  exact List.filterMap_some

/-- The executions of a loop that has found its operands. -/
theorem counts_of_operands
    (h : l.operands (exec env fuel) m = some (.ok (first, target, step), opened)) :
    l.Counts env fuel m first target step := by
  obtain ⟨_, _, t, _, _, -, -, -, hfirst, htarget, -⟩ := operands_eq_ok h
  obtain ⟨before, rounds, ending, hinside, hparts, hlength, iteration⟩ := inside_of_operands h
  have hrounds : l.rounds env fuel m = rounds := rounds_eq (by rw [hinside]) hlength
  have hexec : exec env (fuel + 1) l.node m = ending.map fun (r, m') => (r.map fun _ => 0, m') := by
    rw [← observe_endsAs, observe_succ, Observed.enclose, hinside]
  have kept : (exec env fuel l.body).Keeps fun m m' => m.stores.Balanced m'.stores :=
    fun _ _ _ => Stores.balanced_transition.exec
  have active' (active : m.stores.Active l.counter) : opened.stores.Active l.counter :=
    active.of_balanced (balanced_operands h)
  refine ⟨⟨before, ?_, hparts⟩, ?_, ?_, ?_⟩
  · rw [hrounds, hinside]
  · intro active j r hr
    rw [hrounds] at hr
    exact iteration.starts kept (active' active) hfirst.symm hr
  · intro returned enough
    rw [hrounds] at returned ⊢
    obtain ⟨length, m', ends, value⟩ := iteration.length_of_returned kept returned
      (htarget ▸ t.isSigned_signed) (hfirst ▸ Word.isSigned_signed _) enough
    rw [ends] at hexec
    exact ⟨length, m', hexec, fun active => value (active' active) hfirst.symm⟩
  · intro j r m' hr breaks
    rw [hrounds] at hr ⊢
    obtain ⟨length, ends⟩ := iteration.length_of_brokeOut hr breaks
    rw [ends] at hexec
    exact ⟨length, hexec⟩

/-- **Counting.**  From a machine in which the operands of a loop can be evaluated, its executions
count exactly, with as much fuel or more; and if every body that is started returns, the loop
returns. -/
theorem counts (l : CountingLoop) {env : Environment} {fuel : Nat} {m opened : Machine}
    {first target step : Int}
    (h : l.operands (exec env fuel) m = some (.ok (first, target, step), opened)) :
    (∀ more ≥ fuel, l.Counts env more m first target step) ∧
      ((∀ more ≥ fuel, ∀ r ∈ l.rounds env more m, l.body.Returns env r.start) →
        ∃ more ≥ fuel, ∃ m', exec env (more + 1) l.node m = some (.ok 0, m') ∧
          (l.rounds env more m).length = roundCount first target step) := by
  have hmore {more : Nat} (hle : more ≥ fuel) :
      l.operands (exec env more) m = some (.ok (first, target, step), opened) :=
    (l.operands_refines env hle).apply h
  refine ⟨fun more hle => counts_of_operands (hmore hle), fun returns => ?_⟩
  have hiteration : ∀ more ≥ fuel, ∃ ending, Iteration (exec env more l.body) l.counter target step
      (more - 0) first opened (l.rounds env more m) ending := by
    intro more hle
    obtain ⟨before, rounds, ending, hinside, -, hlength, iteration⟩ := inside_of_operands (hmore hle)
    have hrounds : l.rounds env more m = rounds := rounds_eq (by rw [hinside]) hlength
    exact ⟨ending, hrounds ▸ iteration⟩
  obtain ⟨enough, returned⟩ := Iteration.returned_of_returns fun more hle =>
    let ⟨ending, iteration⟩ := hiteration more hle
    ⟨_, ending, iteration, returns more hle⟩
  let more := max fuel (max enough (roundCount first target step + 1))
  have hle : more ≥ fuel := by omega
  obtain ⟨ending, iteration⟩ := hiteration more hle
  obtain ⟨length, m', ends, -⟩ := (counts_of_operands (hmore hle)).returned
    (returned more (by omega) _ _ iteration) (by omega)
  exact ⟨more, hle, m', ends, length⟩

/-- A loop that counts by threes to the greatest signed number, while its body sets the variable to
zero. -/
def towardsLimit : CountingLoop where
  location := .unknown
  startLocation := .unknown
  counter := ⟨"i", .plain, .global, 0⟩
  start := .literal .unknown 0x7ffffffffffffffb
  target := .literal .unknown 0x7fffffffffffffff
  step := some (.literal .unknown 3)
  body := .block .unknown [.assign .unknown ⟨"i", .plain, .global, 0⟩ (.literal .unknown 0)]

/-- The loop makes two rounds, although the body hides the count and the count after them is not a
signed number. -/
theorem towardsLimit_counts :
    ∃ opened, towardsLimit.operands (exec {} 9) {} =
        some (.ok (0x7ffffffffffffffb, 0x7fffffffffffffff, 3), opened) ∧
      (towardsLimit.rounds {} 9 {}).length = 2 ∧
      ∃ r, (towardsLimit.rounds {} 9 {})[1]? = some r ∧
        (r.start.stores.get towardsLimit.counter).signed = 0x7ffffffffffffffe := by
  obtain ⟨opened, h⟩ : ∃ opened, towardsLimit.operands (exec {} 9) {} =
      some (.ok (0x7ffffffffffffffb, 0x7fffffffffffffff, 3), opened) := ⟨_, rfl⟩
  have hcounts := (towardsLimit.counts h).1 9 (Nat.le_refl 9)
  have hrounds : ∃ r₁ r₂ w₁ w₂ m₁ m₂, towardsLimit.rounds {} 9 {} = [r₁, r₂] ∧
      r₁.ending = some (.ok w₁, m₁) ∧ r₂.ending = some (.ok w₂, m₂) :=
    ⟨_, _, _, _, _, _, rfl, rfl, rfl⟩
  obtain ⟨r₁, r₂, w₁, w₂, m₁, m₂, hrounds, h₁, h₂⟩ := hrounds
  have hreturned : ∀ r ∈ towardsLimit.rounds {} 9 {}, r.Returned := by
    rw [hrounds]
    exact List.forall_mem_cons.2 ⟨⟨w₁, m₁, h₁⟩, List.forall_mem_singleton.2 ⟨w₂, m₂, h₂⟩⟩
  obtain ⟨length, -⟩ := hcounts.returned hreturned (by decide)
  refine ⟨opened, h, length, r₂, by rw [hrounds]; rfl, ?_⟩
  exact hcounts.starts (by decide) 1 r₂ (by rw [hrounds]; rfl)

end CountingLoop

end PeekPoke
