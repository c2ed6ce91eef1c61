import PeekPoke.Proofs.Journal
import PeekPoke.Proofs.Moves
import PeekPoke.Session
set_option autoImplicit false

/-!
# Static declarations

A static declaration evaluates its initial value, gives it to its variable and is then marked as
carried out; from then on it does nothing.  The mark is set after the evaluation, and the evaluation
can run any code, a call that leads back to the declaration included.  An `Evaluation` records one
evaluation of an initial value together with all that happened during it, and a history of a session
records all evaluations of all runs (`Session.evaluations`).

Main statement: over every history, the initial value of a declaration is evaluated to a value at
most once exactly if no evaluation of it that ends with a value encloses another one
(`completions_le_one_iff`).  Loops, repeated runs and repeated calls never evaluate it again; only a
recursion through the initial value itself does, and it really does (`completions_recursive`).
-/

namespace PeekPoke

open MonadScript

/-! ## Records of evaluations -/

/-- One evaluation of the initial value of a declaration: which declaration it is, the evaluations
that happened during it, and whether it ended with a value. -/
inductive Evaluation where
  | mk (cell : Nat) (inner : List Evaluation) (completed : Bool)
  deriving Repr, Inhabited

namespace Evaluation

/-- The declaration whose initial value is evaluated. -/
def cell : Evaluation → Nat
  | mk cell _ _ => cell

/-- The evaluations that happened during this one. -/
def inner : Evaluation → List Evaluation
  | mk _ inner _ => inner

/-- Whether the evaluation ended with a value. -/
def completed : Evaluation → Bool
  | mk _ _ completed => completed

mutual

/-- The evaluation, followed by all those inside it. -/
def withInner : Evaluation → List Evaluation
  | mk cell inner completed => mk cell inner completed :: all inner

/-- All evaluations of a list, each followed by those inside it. -/
def all : List Evaluation → List Evaluation
  | [] => []
  | e :: rest => e.withInner ++ all rest

end

/-- Whether the evaluation is one of this declaration and ended with a value. -/
def completes (cell : Nat) (e : Evaluation) : Bool := e.cell == cell && e.completed

/-- How often the initial value of a declaration was evaluated to a value. -/
def completions (cell : Nat) (log : List Evaluation) : Nat := (all log).countP (completes cell)

/-- No evaluation of the declaration that ended with a value encloses another one. -/
def Alone (cell : Nat) (log : List Evaluation) : Prop :=
  ∀ e ∈ all log, e.completes cell = true → completions cell e.inner = 0

@[simp] theorem all_nil : all [] = [] := rfl

theorem withInner_eq (e : Evaluation) : e.withInner = e :: all e.inner := by
  cases e with
  | mk cell inner completed => rw [withInner]; rfl

theorem all_cons (e : Evaluation) (rest : List Evaluation) :
    all (e :: rest) = e :: (all e.inner ++ all rest) := by
  rw [all, withInner_eq, List.cons_append]

theorem all_append (log log' : List Evaluation) : all (log ++ log') = all log ++ all log' := by
  induction log with
  | nil => rfl
  | cons e rest ih =>
    rw [List.cons_append, all_cons, all_cons, ih, List.cons_append, List.append_assoc]

theorem completions_append (cell : Nat) (log log' : List Evaluation) :
    completions cell (log ++ log') = completions cell log + completions cell log' := by
  unfold completions
  rw [all_append, List.countP_append]

theorem completions_single (cell : Nat) (e : Evaluation) :
    completions cell [e] = completions cell e.inner + if e.completes cell then 1 else 0 := by
  unfold completions
  rw [all_cons, all_nil, List.append_nil, List.countP_cons]

theorem Alone.append_left {cell : Nat} {log log' : List Evaluation}
    (h : Alone cell (log ++ log')) : Alone cell log :=
  fun e he => h e (by rw [all_append]; exact List.mem_append_left _ he)

theorem Alone.append_right {cell : Nat} {log log' : List Evaluation}
    (h : Alone cell (log ++ log')) : Alone cell log' :=
  fun e he => h e (by rw [all_append]; exact List.mem_append_right _ he)

theorem Alone.inner {cell : Nat} {e : Evaluation} (h : Alone cell [e]) : Alone cell e.inner := by
  intro e' he'
  refine h e' ?_
  rw [all_cons, all_nil, List.append_nil]
  exact List.mem_cons_of_mem e he'

mutual

/-- What is inside an evaluation comes right after it, in order. -/
theorem sublist_withInner : (outer : Evaluation) → ∀ e ∈ outer.withInner,
    (e :: all e.inner).Sublist outer.withInner
  | mk cell inner completed, e, he => by
    rw [withInner] at he ⊢
    rcases List.mem_cons.mp he with rfl | he
    · exact List.Sublist.refl _
    · exact (sublist_all inner e he).cons _

theorem sublist_all : (log : List Evaluation) → ∀ e ∈ all log, (e :: all e.inner).Sublist (all log)
  | [], e, he => by cases he
  | first :: rest, e, he => by
    rw [all] at he ⊢
    rcases List.mem_append.mp he with he | he
    · exact (sublist_withInner first e he).trans (List.sublist_append_left _ _)
    · exact (sublist_all rest e he).trans (List.sublist_append_right _ _)

end

/-- Where the initial value is evaluated to a value at most once, no evaluation of it encloses
another one. -/
theorem alone_of_completions_le_one {cell : Nat} {log : List Evaluation}
    (h : completions cell log ≤ 1) : Alone cell log := by
  intro e he hcompletes
  have hcount : (e :: all e.inner).countP (completes cell) ≤ completions cell log :=
    (sublist_all log e he).countP_le
  rw [List.countP_cons_of_pos hcompletes] at hcount
  have hinner : (all e.inner).countP (completes cell) = 0 := by omega
  exact hinner

/-! ## What a declaration allows -/

/-- What a part of an execution may write down about a declaration, by the machine it starts in:
nothing if the declaration is marked, and at most one evaluation to a value outside recursion. -/
structure Once (cell : Nat) (m : Machine) (log : List Evaluation) : Prop where
  none_of_marked : m.initialised.contains cell = true → completions cell log = 0
  le_one_of_alone : Alone cell log → completions cell log ≤ 1

/-- The declaration keeps its mark, and it is marked if its initial value was evaluated to a
value. -/
structure Marks (cell : Nat) (m : Machine) (log : List Evaluation) (m' : Machine) : Prop where
  kept : m.initialised.contains cell = true → m'.initialised.contains cell = true
  marked : 0 < completions cell log → m'.initialised.contains cell = true

theorem Once.nil (cell : Nat) (m : Machine) : Once cell m [] where
  none_of_marked _ := rfl
  le_one_of_alone _ := Nat.zero_le 1

theorem Marks.nil {cell : Nat} {m m' : Machine}
    (h : m.initialised.contains cell = true → m'.initialised.contains cell = true) :
    Marks cell m [] m' where
  kept := h
  marked hpos := absurd hpos (Nat.lt_irrefl 0)

theorem Marks.of_eq {cell : Nat} {m m' : Machine} (h : m'.initialised = m.initialised) :
    Marks cell m [] m' := .nil fun hm => by rw [h]; exact hm

theorem Once.append {cell : Nat} {m m' : Machine} {log log' : List Evaluation}
    (h : Once cell m log) (hmarks : Marks cell m log m') (h' : Once cell m' log') :
    Once cell m (log ++ log') where
  none_of_marked hm := by
    rw [completions_append, h.none_of_marked hm, h'.none_of_marked (hmarks.kept hm)]
  le_one_of_alone halone := by
    rw [completions_append]
    have hfirst : completions cell log ≤ 1 := h.le_one_of_alone halone.append_left
    -- Once the first part has evaluated it, the mark keeps the second from doing so.
    by_cases hpos : 0 < completions cell log
    · have hrest : completions cell log' = 0 := h'.none_of_marked (hmarks.marked hpos)
      omega
    · have hrest : completions cell log' ≤ 1 := h'.le_one_of_alone halone.append_right
      omega

theorem Marks.append {cell : Nat} {m m' m'' : Machine} {log log' : List Evaluation}
    (h : Marks cell m log m') (h' : Marks cell m' log' m'') : Marks cell m (log ++ log') m'' where
  kept hm := h'.kept (h.kept hm)
  marked hpos := by
    rw [completions_append] at hpos
    by_cases hfirst : 0 < completions cell log
    · exact h'.kept (h.marked hfirst)
    · exact h'.marked (by omega)

/-! ### One evaluation -/

section

variable {cell declared : Nat} {m m' : Machine} {inner : List Evaluation}

theorem completions_other (h : declared ≠ cell) (completed : Bool) :
    completions cell [mk declared inner completed] = completions cell inner := by
  have hne : (mk declared inner completed).completes cell = false := by
    unfold completes
    rw [Bool.and_eq_false_iff]
    exact Or.inl (beq_false_of_ne h)
  rw [completions_single, hne]
  rfl

theorem completions_interrupted :
    completions cell [mk declared inner false] = completions cell inner := by
  have hne : (mk declared inner false).completes cell = false := Bool.and_false _
  rw [completions_single, hne]
  rfl

theorem completes_self : (mk cell inner true).completes cell = true := by
  unfold completes
  rw [Bool.and_eq_true]
  exact ⟨beq_self_eq_true cell, rfl⟩

theorem completions_completed :
    completions cell [mk cell inner true] = completions cell inner + 1 := by
  rw [completions_single, completes_self]
  rfl

/-- A record that counts no more than what is inside it. -/
theorem Once.enclosed {e : Evaluation} (h : Once cell m e.inner)
    (heq : completions cell [e] = completions cell e.inner) : Once cell m [e] where
  none_of_marked hm := by rw [heq, h.none_of_marked hm]
  le_one_of_alone halone := by
    rw [heq]
    exact h.le_one_of_alone halone.inner

theorem Marks.enclosed {e : Evaluation} (h : Marks cell m e.inner m')
    (heq : completions cell [e] = completions cell e.inner) : Marks cell m [e] m' where
  kept := h.kept
  marked hpos := h.marked (by rwa [heq] at hpos)

/-- An evaluation that ends with a value, of a declaration that was not marked when it began. -/
theorem Once.completed (h : Once cell m inner) (hfresh : m.initialised.contains declared = false) :
    Once cell m [.mk declared inner true] := by
  by_cases hcell : declared = cell
  · subst hcell
    refine ⟨fun hm => ?_, fun halone => ?_⟩
    · rw [hfresh] at hm
      cases hm
    · have hinner : completions declared inner = 0 := by
        refine halone (.mk declared inner true) ?_ completes_self
        rw [all_cons]
        exact List.mem_cons_self
      have hone : completions declared [.mk declared inner true] = 1 := by
        rw [completions_completed, hinner]
      exact Nat.le_of_eq hone
  · exact h.enclosed (completions_other hcell true)

/-- Marking the declaration after its evaluation. -/
theorem Marks.completed (h : Marks cell m inner m') {m'' : Machine}
    (hmark : m''.initialised = m'.initialised.insert declared) :
    Marks cell m [.mk declared inner true] m'' := by
  have hkept : m'.initialised.contains cell = true → m''.initialised.contains cell = true := by
    intro hm
    rw [hmark, Std.TreeSet.contains_insert, hm, Bool.or_true]
  refine ⟨fun hm => hkept (h.kept hm), fun hpos => ?_⟩
  by_cases hcell : declared = cell
  · subst hcell
    rw [hmark]
    exact Std.TreeSet.contains_insert_self
  · rw [completions_other hcell] at hpos
    exact hkept (h.marked hpos)

end

end Evaluation

/-! ## Executions that write down their evaluations -/

/-- Whether a computation ended with a value. -/
def endsWithValue {α : Type} : Ending α → Bool
  | some (.ok _, _) => true
  | _ => false

/-- The evaluation of a child of a node.  The only child of a declaration is its initial value, and
the evaluation of that is written down. -/
def Node.recorded : Node → Journal Evaluation Word → Journal Evaluation Word
  | .static _ cell _ _, x => x.gather fun inner ending => .mk cell inner (endsWithValue ending)
  | _, x => x

/-- Executes a node and writes down every evaluation of an initial value. -/
def Node.initialisations (env : Environment) : Nat → Node → Journal Evaluation Word
  | 0, _ => unfinished
  | fuel + 1, node => do
    emit (.execute node.kind node.location)
    node.step env fuel fun child => node.recorded (initialisations env fuel child)

theorem Node.recorded_endsAs (node : Node) {x : Journal Evaluation Word} {y : Run Word}
    (h : x.EndsAs y) : (node.recorded x).EndsAs y := by
  cases node with
  | static l cell v value => exact h.gather _
  | _ => exact h

/-- Writing down the evaluations changes nothing about an execution. -/
theorem Node.initialisations_endsAs (env : Environment) (fuel : Nat) (node : Node) :
    (node.initialisations env fuel).EndsAs (exec env fuel node) := by
  induction fuel generalizing node with
  | zero => exact fun _ => rfl
  | succ fuel ih =>
    refine Journal.EndsAs.bind (fun _ => rfl) fun _ => ?_
    exact Journal.faithful_lax.step_rel env (fun child => node.recorded_endsAs (ih child))
      (Or.inl rfl) node

/-! ## Constant nodes write down nothing -/

/-- The computation writes down nothing. -/
def Journal.Silent {α : Type} (x : Journal Evaluation α) : Prop := ∀ m, (x m).1 = []

theorem Journal.Silent.bind {α β : Type} {x : Journal Evaluation α} {f : α → Journal Evaluation β}
    (hx : x.Silent) (hf : ∀ a, (f a).Silent) : (x >>= f).Silent := by
  intro m
  have hlog := hx m
  rcases h : x m with ⟨log, _ | ⟨_ | a, m'⟩⟩
  · rw [h] at hlog
    rw [bind_of_none h]
    exact hlog
  · rw [h] at hlog
    rw [bind_of_error h]
    exact hlog
  · rw [h] at hlog
    rw [bind_of_ok h, hf a m', List.append_nil]
    exact hlog

open Journal in
/-- Only constant nodes are executed while a script is built, so building evaluates no initial
value. -/
theorem Node.initialisations_of_isConstant (env : Environment) (fuel : Nat) {node : Node}
    (hc : node.isConstant = true) : (node.initialisations env fuel).Silent := by
  induction fuel generalizing node with
  | zero => exact fun _ => rfl
  | succ fuel ih =>
    refine Silent.bind (fun _ => rfl) fun _ => ?_
    cases node with
    | literal | var => exact fun _ => rfl
    | indexed l v offset =>
      simp only [isConstant, Bool.and_eq_true] at hc
      exact Silent.bind (ih hc.2) fun _ _ => rfl
    | unary l op operand => exact Silent.bind (ih hc) fun _ _ => rfl
    | narrow l width operand => exact Silent.bind (ih hc) fun _ _ => rfl
    | binary l op left right =>
      simp only [isConstant, Bool.and_eq_true] at hc
      refine Silent.bind (ih hc.1) fun a => ?_
      cases op.decided? a with
      | some w => exact fun _ => rfl
      | none =>
        refine Silent.bind (ih hc.2) fun b => ?_
        cases op.eval a b l with
        | ok w => exact fun _ => rfl
        | error e => exact fun _ => rfl
    | directive | block | jump | assign | static | cond | whileLoop | forLoop | peek | poke | print
    | sleep | call | imported => simp [isConstant] at hc

/-! ## Every execution respects the marks -/

namespace Bracket

@[simp] theorem initialised_enter (b : Bracket) (m : Machine) :
    (b.enter m).initialised = m.initialised := by
  obtain ⟨stores, trace, h⟩ := b.enter_eq m
  rw [h]

@[simp] theorem initialised_leave (b : Bracket) (m : Machine) :
    (b.leave m).initialised = m.initialised := by
  obtain ⟨stores, trace, h⟩ := b.leave_eq m
  rw [h]

end Bracket

/-- No effect removes a mark. -/
theorem Effect.initialised_apply {α : Type} (e : Effect α) {m : Machine} {cell : Nat}
    (h : m.initialised.contains cell = true) : (e.apply m).2.initialised.contains cell = true := by
  cases e with
  | carryOut declared =>
    show (m.initialised.insert declared).contains cell = true
    rw [Std.TreeSet.contains_insert, h, Bool.or_true]
  | _ => exact h

namespace Journal

open Evaluation

variable {α β : Type} {cell : Nat}

/-- From every machine, what the computation writes down and the machine it leaves behind respect
the mark of a declaration. -/
def Respects (cell : Nat) (x : Journal Evaluation α) : Prop :=
  ∀ m, Once cell m (x m).1 ∧ ∀ r m', (x m).2 = some (r, m') → Marks cell m (x m).1 m'

namespace Respects

theorem pure (a : α) : Respects cell (Pure.pure a : Journal Evaluation α) := by
  refine fun m => ⟨Once.nil cell m, fun r m' h => ?_⟩
  cases h
  exact Marks.of_eq rfl

theorem bind {x : Journal Evaluation α} {f : α → Journal Evaluation β} (hx : Respects cell x)
    (hf : ∀ a, Respects cell (f a)) : Respects cell (x >>= f) := by
  intro m
  obtain ⟨honce, hmarks⟩ := hx m
  rcases h : x m with ⟨log, _ | ⟨_ | a, m'⟩⟩
  · rw [bind_of_none h]
    rw [h] at honce
    exact ⟨honce, fun r m' hn => by cases hn⟩
  · rw [bind_of_error h]
    rw [h] at honce hmarks
    refine ⟨honce, fun r m'' he => ?_⟩
    cases he
    exact hmarks _ _ rfl
  · rw [bind_of_ok h]
    rw [h] at honce hmarks
    have hfirst : Marks cell m log m' := hmarks _ _ rfl
    obtain ⟨honce', hmarks'⟩ := hf a m'
    exact ⟨honce.append hfirst honce', fun r m'' he => hfirst.append (hmarks' r m'' he)⟩

theorem effect (e : Effect α) : Respects cell (act e.apply : Journal Evaluation α) := by
  refine fun m => ⟨Once.nil cell m, fun r m' h => ?_⟩
  cases h
  exact Marks.nil e.initialised_apply

theorem settle {x : Journal Evaluation α} (hx : Respects cell x)
    (g : Except Unwind α → Except Unwind β) :
    Respects cell (ending x fun r m => (g r, m) : Journal Evaluation β) := by
  refine fun m => ⟨(hx m).1, fun r m' h => ?_⟩
  obtain ⟨⟨result, _⟩, hxm, hsettle⟩ := Option.map_eq_some_iff.mp h
  cases hsettle
  exact (hx m).2 result m' hxm

theorem bracket {x : Journal Evaluation α} (hx : Respects cell x) (b : Bracket) :
    Respects cell (MonadScript.bracket b.enter b.leave x : Journal Evaluation α) := by
  intro m
  obtain ⟨honce, hmarks⟩ := hx (b.enter m)
  have henter : Marks cell m [] (b.enter m) := Marks.of_eq (b.initialised_enter m)
  refine ⟨(Once.nil cell m).append henter honce, fun r m' h => ?_⟩
  obtain ⟨⟨result, middle⟩, hxm, hleave⟩ := Option.map_eq_some_iff.mp h
  cases hleave
  have hinside : Marks cell m ([] ++ (x (b.enter m)).1) middle :=
    henter.append (hmarks _ middle hxm)
  have hout := hinside.append (Marks.of_eq (b.initialised_leave middle))
  rw [List.append_nil] at hout
  exact hout

end Respects

/-- Following the mark of a declaration, as a simulation. -/
def respecting (cell : Nat) : Simulation (Journal Evaluation) Run where
  allows _ := True
  rel x _ := Respects cell x
  pure := Respects.pure
  bind := Respects.bind
  unfinished := fun m => ⟨Once.nil cell m, fun _ _ h => by cases h⟩
  raise _ := fun m => ⟨Once.nil cell m, fun _ _ h => by cases h; exact Marks.of_eq rfl⟩
  effect e _ := Respects.effect e
  bracket b hx := hx.bracket b
  settle g hx := hx.settle g

theorem respecting_lax : (respecting cell).Lax := fun _ _ => trivial

/-- A declaration evaluates its initial value only while it is not marked, and is marked right after
an evaluation that ends with a value. -/
theorem respects_static (env : Environment) (rounds : Nat) (l : Location) (declared : Nat)
    (v : Variable) (value : Node) {eval : Node → Journal Evaluation Word}
    (h : Respects cell (eval value)) :
    Respects cell ((Node.static l declared v value).step env rounds fun child =>
      (Node.static l declared v value).recorded (eval child)) := by
  intro m
  obtain ⟨honce, hmarks⟩ := h m
  have hlook : (look (·.initialised.contains declared) : Journal Evaluation Bool) m =
      ([], some (.ok (m.initialised.contains declared), m)) := rfl
  have hstep : (Node.static l declared v value).step env rounds (fun child =>
      (Node.static l declared v value).recorded (eval child)) =
      (do
        if ← look (·.initialised.contains declared) then return 0
        else
          let w ← (Node.static l declared v value).recorded (eval value)
          store v w
          change (·.initialise declared)
          return 0) := rfl
  rw [hstep, bind_of_ok hlook]
  cases hdone : m.initialised.contains declared with
  | true =>
    refine ⟨Once.nil cell m, fun r m' he => ?_⟩
    cases he
    exact Marks.of_eq rfl
  | false =>
    have hgather : (Node.static l declared v value).recorded (eval value) m =
        ([.mk declared (eval value m).1 (endsWithValue (eval value m).2)], (eval value m).2) := rfl
    rcases hx : eval value m with ⟨inner, _ | ⟨_ | w, m'⟩⟩
    · rw [hx] at hgather honce
      rw [if_neg Bool.false_ne_true, bind_of_none hgather]
      exact ⟨honce.enclosed completions_interrupted, fun _ _ he => by cases he⟩
    · rw [hx] at hgather honce hmarks
      rw [if_neg Bool.false_ne_true, bind_of_error hgather]
      refine ⟨honce.enclosed completions_interrupted, fun r m'' he => ?_⟩
      cases he
      exact (hmarks _ _ rfl).enclosed (e := .mk declared inner false) completions_interrupted
    · rw [hx] at hgather honce hmarks
      rw [if_neg Bool.false_ne_true, bind_of_ok hgather]
      refine ⟨honce.completed hdone, fun r m'' he => ?_⟩
      cases he
      exact (hmarks _ _ rfl).completed rfl

/-- Every execution respects the mark of every declaration. -/
theorem respects_initialisations (cell : Nat) (env : Environment) (fuel : Nat) (node : Node) :
    Respects cell (node.initialisations env fuel) := by
  induction fuel generalizing node with
  | zero => exact (respecting cell).unfinished
  | succ fuel ih =>
    have hemit :
        Respects cell (emit (.execute node.kind node.location) : Journal Evaluation Unit) :=
      Respects.effect (.report (.execute node.kind node.location))
    have hother : ∀ node : Node,
        Respects cell (node.step env fuel (Node.initialisations env fuel)) := by
      intro node
      have hrel : (respecting cell).rel (node.step env fuel (Node.initialisations env fuel))
          (node.step env fuel (exec env fuel)) := respecting_lax.step_rel env ih (Or.inl rfl) node
      exact hrel
    refine Respects.bind hemit fun _ => ?_
    cases node with
    | static l declared v value => exact respects_static env fuel l declared v value (ih value)
    | _ => exact hother _

/-- An execution that ends leaves the marks its evaluations call for. -/
theorem marks_of_exec {env : Environment} {fuel : Nat} {node : Node} {m m' : Machine}
    {r : Except Unwind Word} (h : exec env fuel node m = some (r, m')) :
    Marks cell m (node.initialisations env fuel m).1 m' := by
  rw [← node.initialisations_endsAs env fuel m] at h
  exact (respects_initialisations cell env fuel node m).2 r m' h

end Journal

/-! ## Building marks nothing -/

namespace System

/-- A change of the trace marks nothing. -/
theorem initialised_of_trace {s s' : System}
    (h : ∃ trace, s'.machine = s.machine.withTrace trace) :
    s'.machine.initialised = s.machine.initialised := by
  obtain ⟨trace, hmachine⟩ := h
  rw [hmachine]
  rfl

theorem initialised_assignable? {s s' : System} {name : String} {v : Variable}
    (h : s.assignable? name = some (v, s')) : s'.machine.initialised = s.machine.initialised :=
  initialised_of_trace (assignable?_eq_some h).2

theorem initialised_newStatic? {s s' : System} {name : String} {v : Variable}
    (h : s.newStatic? name = some (v, s')) : s'.machine.initialised = s.machine.initialised :=
  initialised_of_trace (newStatic?_eq_some h).2

theorem initialised_newConstant? {s s' : System} {name : String} {v : Variable}
    (h : s.newConstant? name = some (v, s')) : s'.machine.initialised = s.machine.initialised :=
  initialised_of_trace (newConstant?_eq_some h).2

theorem initialised_noteRequest (s : System) (start length : Word) (device : String) :
    (s.noteRequest start length device).machine.initialised = s.machine.initialised := by
  unfold noteRequest
  split
  · rfl
  · rfl

theorem initialised_map {s s' : System} {start length : Word} {device : String}
    (h : s.map start length device = .ok s') : s'.machine.initialised = s.machine.initialised := by
  unfold map at h
  dsimp only at h
  split at h
  · cases h
  · cases h
  · cases h
    rfl
  · cases h
    rfl

theorem Move.initialised {s s' : System} (h : Move s s') :
    s'.machine.initialised = s.machine.initialised := by
  cases h with
  | trace => rfl
  | plain h => exact initialised_assignable? h
  | static h => exact initialised_newStatic? h
  | cell => rfl
  | constant w h =>
    have hmade := initialised_newConstant? h
    exact hmade
  | request => exact initialised_noteRequest s _ _ _
  | map h => exact initialised_map h
  | begin => rfl

theorem Moves.initialised {s s' : System} (h : Moves s s') :
    s'.machine.initialised = s.machine.initialised := by
  induction h with
  | refl => rfl
  | tail _ hmove ih => exact hmove.initialised.trans ih

end System

/-! ## Histories of a session -/

namespace Session

open Evaluation

/-- The evaluations of initial values while a command is carried out: those of the script that is
run or executed, if one is. -/
def evaluations (s : Session) : Command → List Evaluation
  | .run key =>
    match s.workshop.node? key with
    | none => []
    | some root =>
      (root.initialisations s.env fuelLimit (s.machine.emit (.runEntered root.location))).1
  | .execute key =>
    match s.workshop.node? key with
    | none => []
    | some root => (root.initialisations s.env fuelLimit s.machine).1
  | _ => []

/-- The evaluations of initial values during a whole history of commands.  An execution that does
not finish is the last thing that happens. -/
def history (s : Session) : List Command → List Evaluation
  | [] => []
  | c :: rest =>
    s.evaluations c ++
      match (s.report c).1.answer with
      | .unfinished => []
      | _ => (s.report c).2.history rest

/-! ### Commands that run nothing -/

theorem initialised_build (s : Session) (key : String) (source : Source) :
    (s.build key source).2.machine.initialised = s.machine.initialised := by
  have hmoves := (source.build_leads s.workshop).initialised
  unfold build
  cases h : source.build s.workshop with
  | ok node w =>
    rw [h] at hmoves
    exact hmoves
  | error e w =>
    rw [h] at hmoves
    exact hmoves

theorem initialised_answerBinding (s : Session) {made : Option (Variable × System)}
    (h : ∀ v system, made = some (v, system) → system.machine.initialised = s.machine.initialised) :
    (s.answerBinding made).2.machine.initialised = s.machine.initialised := by
  cases made with
  | none => rfl
  | some made => exact h made.1 made.2 rfl

theorem initialised_openDefinition (s : Session) (header : Header) :
    (s.openDefinition header).2.machine.initialised = s.machine.initialised := by
  have hmoves := (Build.made_beginSubroutine header.location header.name header.parameters
    header.result s.workshop.system).initialised
  unfold openDefinition
  cases h : Build.beginSubroutine header.location header.name header.parameters header.result
      s.workshop.system with
  | ok _ system =>
    rw [h] at hmoves
    exact hmoves
  | error e system =>
    rw [h] at hmoves
    exact hmoves

theorem initialised_closeDefinition (s : Session) (name : String) (body : Node) :
    (s.closeDefinition name body).2.machine.initialised = s.machine.initialised := by
  unfold closeDefinition
  cases h : s.workshop.system.finish? name body with
  | none => rfl
  | some finished =>
    obtain ⟨-, -, _, hfinished⟩ := System.finish?_eq_some h
    exact congrArg (·.machine.initialised) hfinished

theorem initialised_define (s : Session) (header : Header) (body : Source) :
    (s.define header body).2.machine.initialised = s.machine.initialised := by
  have hopen := s.initialised_openDefinition header
  unfold define
  rcases h : s.openDefinition header with ⟨_ | _, opened⟩
  · rw [h] at hopen
    exact hopen
  · rw [h] at hopen
    have hmoves := (body.build_leads opened.workshop).initialised
    dsimp only
    cases hb : body.build opened.workshop with
    | ok node w =>
      rw [hb] at hmoves
      exact (initialised_closeDefinition _ _ _).trans (hmoves.trans hopen)
    | error e w =>
      rw [hb] at hmoves
      exact hmoves.trans hopen

theorem initialised_beginDefinition (s : Session) (header : Header) :
    (s.beginDefinition header).2.machine.initialised = s.machine.initialised := by
  have hopen := s.initialised_openDefinition header
  unfold beginDefinition
  rcases h : s.openDefinition header with ⟨_ | _, opened⟩
  · rw [h] at hopen
    exact hopen
  · rw [h] at hopen
    exact hopen

theorem initialised_endDefinition (s : Session) (key name : String) :
    (s.endDefinition key name).2.machine.initialised = s.machine.initialised := by
  unfold endDefinition
  cases s.workshop.node? key with
  | none => rfl
  | some body => exact initialised_closeDefinition _ name body

theorem initialised_map (s : Session) (start length : Word) (device : String) :
    (s.step (.map start length device)).2.machine.initialised = s.machine.initialised := by
  have hnote := s.workshop.system.initialised_noteRequest start length device
  unfold step
  dsimp only
  split
  · rename_i h
    exact (System.initialised_map h).trans hnote
  · exact hnote

/-- Only scripts that are run or executed mark declarations. -/
theorem initialised_step (s : Session) {c : Command} (hrun : ∀ key, c ≠ .run key)
    (hexecute : ∀ key, c ≠ .execute key) :
    (s.step c).2.machine.initialised = s.machine.initialised := by
  cases c with
  | run key => exact absurd rfl (hrun key)
  | execute key => exact absurd rfl (hexecute key)
  | build key source => exact s.initialised_build key source
  | bind binding name =>
    cases binding with
    | plain => exact s.initialised_answerBinding fun _ _ => System.initialised_assignable?
    | static => exact s.initialised_answerBinding fun _ _ => System.initialised_newStatic?
    | constant => exact s.initialised_answerBinding fun _ _ => System.initialised_newConstant?
  | define header body => exact s.initialised_define header body
  | beginDefinition header => exact s.initialised_beginDefinition header
  | endDefinition key name => exact s.initialised_endDefinition key name
  | map start length device => exact s.initialised_map start length device
  | drop name =>
    unfold step
    dsimp only
    split
    · rfl
    · rename_i h
      exact congrArg (·.machine.initialised) (System.drop?_eq_some h)
  | lookup name | assign name w | subroutine name | hold name key | find address width =>
    unfold step
    dsimp only
    split
    · rfl
    · rfl
  | abortDefinition | values | members | release | readMemory | writeMemory | injectFault
  | clearFaults | supervise | requestStop | resetStop | stopState | nap | defaultWidth => rfl

/-! ### All commands -/

theorem once_evaluations (cell : Nat) (s : Session) (c : Command) :
    Once cell s.machine (s.evaluations c) := by
  cases c with
  | run key =>
    unfold evaluations
    dsimp only
    split
    · exact Once.nil cell s.machine
    · obtain ⟨honce, _⟩ := Journal.respects_initialisations cell _ fuelLimit _ _
      exact ⟨honce.none_of_marked, honce.le_one_of_alone⟩
  | execute key =>
    unfold evaluations
    dsimp only
    split
    · exact Once.nil cell s.machine
    · exact (Journal.respects_initialisations cell _ fuelLimit _ _).1
  | _ => exact Once.nil cell s.machine

/-- A run that finishes leaves the marks its evaluations call for. -/
theorem marks_run {cell : Nat} (s : Session) (key : String) (h : (s.run key).1 ≠ .unfinished) :
    Marks cell s.machine (s.evaluations (.run key)) (s.run key).2.machine := by
  unfold run at h ⊢
  unfold evaluations
  dsimp only at h ⊢
  cases hroot : s.workshop.node? key with
  | none => exact Marks.of_eq rfl
  | some root =>
    rw [hroot] at h
    dsimp only at h ⊢
    unfold Node.run at h ⊢
    rw [Node.execute_eq] at h ⊢
    cases hx : exec s.env fuelLimit root (s.machine.emit (.runEntered root.location)) with
    | none =>
      rw [hx] at h
      exact absurd rfl h
    | some ending =>
      have hmark : Marks cell _ _ ending.2 := Journal.marks_of_exec hx
      exact ⟨hmark.kept, hmark.marked⟩

theorem marks_execute {cell : Nat} (s : Session) (key : String)
    (h : (s.execute key).1 ≠ .unfinished) :
    Marks cell s.machine (s.evaluations (.execute key)) (s.execute key).2.machine := by
  unfold execute at h ⊢
  unfold evaluations
  dsimp only at h ⊢
  cases hroot : s.workshop.node? key with
  | none => exact Marks.of_eq rfl
  | some root =>
    rw [hroot] at h
    dsimp only at h ⊢
    rw [Node.execute_eq] at h ⊢
    cases hx : exec s.env fuelLimit root s.machine with
    | none =>
      rw [hx] at h
      exact absurd rfl h
    | some ending => exact Journal.marks_of_exec hx

theorem marks_step {cell : Nat} (s : Session) (c : Command) (h : (s.step c).1 ≠ .unfinished) :
    Marks cell s.machine (s.evaluations c) (s.step c).2.machine := by
  cases c with
  | run key => exact s.marks_run key h
  | execute key => exact s.marks_execute key h
  | _ => exact Marks.of_eq (s.initialised_step (fun _ hc => by cases hc) fun _ hc => by cases hc)

/-- Over a whole history a declaration is evaluated to a value at most once outside recursion, and
not at all if it is marked at the start. -/
theorem once_history (cell : Nat) (s : Session) (commands : List Command) :
    Once cell s.machine (s.history commands) := by
  induction commands generalizing s with
  | nil => exact Once.nil cell s.machine
  | cons c rest ih =>
    have hfirst : Once cell s.machine (s.evaluations c) := once_evaluations cell s c
    by_cases hfinished : (s.step c).1 = .unfinished
    · have hnil : s.history (c :: rest) = s.evaluations c ++ [] := by
        rw [history, show (s.report c).1.answer = .unfinished from hfinished]
      rw [hnil, List.append_nil]
      exact hfirst
    · have hcons : s.history (c :: rest) = s.evaluations c ++ (s.report c).2.history rest := by
        rw [history]
        split
        · exact absurd ‹_› hfinished
        · rfl
      rw [hcons]
      exact hfirst.append (s.marks_step c hfinished)
        ⟨(ih (s.report c).2).none_of_marked, (ih (s.report c).2).le_one_of_alone⟩

/-- **Static declarations.**  Over every history of a session, in loops, in repeated runs and in
repeated calls, the initial value of a declaration is evaluated to a value at most once, exactly if
no evaluation of it that ends with a value encloses another one. -/
theorem completions_le_one_iff (s : Session) (commands : List Command) (cell : Nat) :
    completions cell (s.history commands) ≤ 1 ↔
      ∀ e ∈ all (s.history commands), e.completes cell = true → completions cell e.inner = 0 :=
  ⟨alone_of_completions_le_one, (once_history cell s commands).le_one_of_alone⟩

/-- A script in which a subroutine counts down through the initial value of its own declaration. -/
def descent : List Command :=
  let l := Location.unknown
  [.define ⟨l, "f", ["n"], none⟩
    (.cond l (.var l "n")
      (.static l "s" (.call l "f" [.binary l .sub (.var l "n") (.literal l 1)])) none),
    .build "main" (.call l "f" [.literal l 2]),
    .run "main"]

/-- In one run of it the initial value is evaluated to a value twice, the first time inside the
second. -/
theorem completions_recursive :
    completions 0 ((start .native [] (.simulated {}) false false).history descent) = 2 := by
  decide +kernel

end Session

end PeekPoke
