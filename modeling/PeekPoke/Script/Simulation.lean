import PeekPoke.Script.Exec
import PeekPoke.Script.Shape
set_option autoImplicit false

/-!
# Simulations

What the rules of execution do to a machine is listed once: the single effects (`Effect`), which
construct has which of them (`Node.Causes`), and the changes that are made before a part and undone
after it (`Bracket`).  A simulation relates the computations of two ways to carry out a script, and
respects sequencing, the brackets and those effects that it allows.  Main statement: if two nodes
have one shape, their own effects are allowed and the evaluations of their children are related, so
are the executions of the nodes (`step_rel`).  Whoever wants to compare two executions, or to follow
one of them, only has to say how single effects are compared.
-/

namespace PeekPoke

open MonadScript

/-! ## What the rules do to the machine -/

/-- One thing the rules of execution do to the machine, with the value they take from it. -/
inductive Effect : Type → Type where
  | endStatement : Effect Bool
  | isCarriedOut (cell : Nat) : Effect Bool
  | carryOut (cell : Nat) : Effect Unit
  | read (v : Variable) : Effect Word
  | write (v : Variable) (w : Word) : Effect Unit
  | findWindow (address : Word) (width : Width) : Effect (Option Nat)
  | access (window : Nat) (a : Access) : Effect Word
  | hasFailed (window : Nat) : Effect Bool
  | print (text : String) : Effect Unit
  | sleep (micros : Nat) : Effect Bool
  | report (e : TraceEvent) : Effect Unit

namespace Effect

/-- The value that is taken from the machine, and the machine that is left. -/
def apply {α : Type} : Effect α → Machine → α × Machine
  | endStatement, m => m.endStatement
  | isCarriedOut cell, m => (m.initialised.contains cell, m)
  | carryOut cell, m => ((), m.initialise cell)
  | read v, m => (m.stores.get v, m)
  | write v w, m => ((), m.assign v w)
  | findWindow address width, m => (m.bus.find? address width, m)
  | access window a, m => m.access window a
  | hasFailed window, m => (m.bus.failed window, m)
  | print text, m => ((), m.print text)
  | sleep micros, m => ((m.stop.sleep micros).1, { m with stop := (m.stop.sleep micros).2 })
  | report e, m => ((), m.emit e)

/-- The variable that is given a value. -/
def target? {α : Type} : Effect α → Option Variable
  | write v _ => some v
  | _ => none

end Effect

/-- The effects of a construct itself, apart from those of its parts and of what it calls. -/
inductive Node.Causes : Node → {α : Type} → Effect α → Prop where
  | block {l : Location} {statements : List Node} : Causes (.block l statements) .endStatement
  | assign {l : Location} {v : Variable} {value : Node} (w : Word) :
      Causes (.assign l v value) (.write v w)
  | staticTest {l : Location} {cell : Nat} {v : Variable} {value : Node} :
      Causes (.static l cell v value) (.isCarriedOut cell)
  | staticWrite {l : Location} {cell : Nat} {v : Variable} {value : Node} (w : Word) :
      Causes (.static l cell v value) (.write v w)
  | staticMark {l : Location} {cell : Nat} {v : Variable} {value : Node} :
      Causes (.static l cell v value) (.carryOut cell)
  | var {l : Location} {v : Variable} : Causes (.var l v) (.read v)
  | indexed {l : Location} {v : Variable} {offset : Node} : Causes (.indexed l v offset) (.read v)
  | forStart {l sl : Location} {v : Variable} {start target body : Node} {step : Option Node} :
      Causes (.forLoop l sl v start target step body) (.read v)
  | forNext {l sl : Location} {v : Variable} {start target body : Node} {step : Option Node}
      (w : Word) : Causes (.forLoop l sl v start target step body) (.write v w)
  | peekFind {l : Location} {address : Node} {width : Width} (a : Word) :
      Causes (.peek l address width) (.findWindow a width)
  | peekAccess {l : Location} {address : Node} {width : Width} (window : Nat) (a : Access) :
      Causes (.peek l address width) (.access window a)
  | peekCheck {l : Location} {address : Node} {width : Width} (window : Nat) :
      Causes (.peek l address width) (.hasFailed window)
  | pokeFind {l : Location} {address value : Node} {mask : Option Node} {width : Width} (a : Word) :
      Causes (.poke l address value mask width) (.findWindow a width)
  | pokeAccess {l : Location} {address value : Node} {mask : Option Node} {width : Width}
      (window : Nat) (a : Access) : Causes (.poke l address value mask width) (.access window a)
  | pokeCheck {l : Location} {address value : Node} {mask : Option Node} {width : Width}
      (window : Nat) : Causes (.poke l address value mask width) (.hasFailed window)
  | print {l : Location} {parts : List (PrintPart Node)} {trailing : String} (text : String) :
      Causes (.print l parts trailing) (.print text)
  | sleep {l : Location} {micros : Node} (n : Nat) : Causes (.sleep l micros) (.sleep n)
  | wake {l : Location} {micros : Node} : Causes (.sleep l micros) (.report .sleepInterrupted)

/-- A construct itself gives a value only to its own variable. -/
theorem Node.Causes.target?_eq {node : Node} {α : Type} {e : Effect α} (h : node.Causes e)
    {v : Variable} (hv : e.target? = some v) : node.target? = some v := by
  cases h with
  | assign | staticWrite | forNext => exact hv
  | _ => cases hv

/-- Starting an activation changes the frames of its subroutine, and the trace. -/
theorem enterFrame_eq (id : Nat) (m : Machine) :
    ∃ trace, enterFrame id m = { m with stores := m.stores.push id, trace } := by
  refine ⟨(enterFrame id m).trace, ?_⟩
  simp [enterFrame, Machine.emitFrom_eq, Machine.emit]

/-- Ending an activation changes the frames of its subroutine, and the trace. -/
theorem leaveFrame_eq (id : Nat) (m : Machine) :
    ∃ trace, leaveFrame id m = { m with stores := m.stores.pop id, trace } := by
  refine ⟨(leaveFrame id m).trace, ?_⟩
  simp [leaveFrame, Machine.emitFrom_eq, Machine.emit]

/-- A change that is made before a part of an execution and undone after it, however the part
ends. -/
inductive Bracket where
  | call (name : String)
  | frame (subroutine : Nat)
  deriving DecidableEq, Repr, Inhabited

namespace Bracket

/-- The change before the part. -/
def enter : Bracket → Machine → Machine
  | call name => (·.emit (.callEntered name))
  | frame id => enterFrame id

/-- The change after the part. -/
def leave : Bracket → Machine → Machine
  | call name => (·.emit (.callLeft name))
  | frame id => leaveFrame id

/-- The change before the part is one of the frames and of the trace. -/
theorem enter_eq (b : Bracket) (m : Machine) :
    ∃ stores trace, b.enter m = { m with stores, trace } := by
  cases b with
  | call name => exact ⟨m.stores, m.trace.add (.callEntered name), rfl⟩
  | frame id => exact ⟨m.stores.push id, enterFrame_eq id m⟩

/-- So is the change after it. -/
theorem leave_eq (b : Bracket) (m : Machine) :
    ∃ stores trace, b.leave m = { m with stores, trace } := by
  cases b with
  | call name => exact ⟨m.stores, m.trace.add (.callLeft name), rfl⟩
  | frame id => exact ⟨m.stores.pop id, leaveFrame_eq id m⟩

end Bracket

/-! ## Simulations -/

/-- A relation between computations that sequencing and the effects of a script respect, as far as
the effects are allowed. -/
structure Simulation (M N : Type → Type) [MonadScript M] [MonadScript N] where
  allows : {α : Type} → Effect α → Prop
  rel : {α : Type} → M α → N α → Prop
  pure : ∀ {α : Type} (a : α), rel (Pure.pure a) (Pure.pure a)
  bind : ∀ {α β : Type} {x : M α} {y : N α} {f : α → M β} {g : α → N β},
    rel x y → (∀ a, rel (f a) (g a)) → rel (x >>= f) (y >>= g)
  unfinished : ∀ {α : Type}, rel (MonadScript.unfinished : M α) MonadScript.unfinished
  raise : ∀ {α : Type} (u : Unwind), rel (MonadScript.raise u : M α) (MonadScript.raise u)
  effect : ∀ {α : Type} (e : Effect α), allows e →
    rel (MonadScript.act e.apply) (MonadScript.act e.apply)
  bracket : ∀ {α : Type} {x : M α} {y : N α} (b : Bracket), rel x y →
    rel (MonadScript.bracket b.enter b.leave x) (MonadScript.bracket b.enter b.leave y)
  settle : ∀ {α β : Type} {x : M α} {y : N α} (g : Except Unwind α → Except Unwind β), rel x y →
    rel (MonadScript.ending x fun r m => (g r, m)) (MonadScript.ending y fun r m => (g r, m))

namespace Simulation

variable {M N : Type → Type} [MonadScript M] [MonadScript N] (S : Simulation M N)

/-- The bounds on the rounds of a loop fit together: they are equal, or the first is smaller and a
computation that does not finish is related to every other. -/
def Bounds (rounds rounds' : Nat) : Prop :=
  rounds = rounds' ∨
    rounds ≤ rounds' ∧ ∀ {α : Type} (y : N α), S.rel (MonadScript.unfinished : M α) y

variable {S}

theorem Bounds.of_succ {rounds rounds' : Nat} (h : S.Bounds (rounds + 1) rounds') :
    ∃ less, rounds' = less + 1 ∧ S.Bounds rounds less := by
  rcases h with h | ⟨h, hu⟩
  · exact ⟨rounds, h.symm, Or.inl rfl⟩
  · obtain ⟨less, rfl⟩ : ∃ less, rounds' = less + 1 := ⟨rounds' - 1, by omega⟩
    exact ⟨less, rfl, Or.inr ⟨by omega, hu⟩⟩

variable (S)

/-! ## Parts of statements -/

section

variable {R : Node → Node → Prop} {eval : Node → M Word} {eval' : Node → N Word}

theorem execStatements_rel (hstop : S.allows .endStatement)
    (h : ∀ a b, R a b → S.rel (eval a) (eval' b)) {statements statements' : List Node}
    (hs : Matching R statements statements') :
    S.rel (execStatements eval statements) (execStatements eval' statements') := by
  induction hs with
  | nil => exact S.pure 0
  | cons hab _ ih =>
    refine S.bind (h _ _ hab) fun _ => S.bind (S.effect .endStatement hstop) fun stopped => ?_
    split
    · exact S.raise _
    · exact ih

theorem evalAll_rel (h : ∀ a b, R a b → S.rel (eval a) (eval' b)) {exprs exprs' : List Node}
    (hs : Matching R exprs exprs') : S.rel (evalAll eval exprs) (evalAll eval' exprs') := by
  induction hs with
  | nil => exact S.pure []
  | cons hab _ ih => exact S.bind (h _ _ hab) fun _ => S.bind ih fun _ => S.pure _

theorem evalParts_rel (h : ∀ a b, R a b → S.rel (eval a) (eval' b)) (sofar : String)
    {parts parts' : List (PrintPart Node)} (hs : Matching (PrintPart.Alike R) parts parts') :
    S.rel (evalParts eval sofar parts) (evalParts eval' sofar parts') := by
  induction hs generalizing sofar with
  | nil => exact S.pure sofar
  | cons hab _ ih =>
    cases hab with
    | text text => exact ih (sofar ++ text)
    | value style width hab =>
      exact S.bind (h _ _ hab) fun w => ih (sofar ++ style.render width w)

theorem repeatWhile_rel {condition body : M Word} {condition' body' : N Word}
    (hc : S.rel condition condition') (hb : S.rel body body') {rounds rounds' : Nat}
    (hr : S.Bounds rounds rounds') :
    S.rel (repeatWhile condition body rounds) (repeatWhile condition' body' rounds') := by
  induction rounds generalizing rounds' with
  | zero =>
    rcases hr with rfl | ⟨_, hu⟩
    · exact S.unfinished
    · exact hu _
  | succ rounds ih =>
    obtain ⟨less, rfl, hless⟩ := hr.of_succ
    refine S.bind hc fun w => ?_
    split
    · exact S.pure ()
    · refine S.bind (S.settle _ hb) fun goesOn => ?_
      split
      · exact ih hless
      · exact S.pure ()

theorem repeatFor_rel {counter : Variable} (hw : ∀ w, S.allows (.write counter w))
    (target step : Int) {body : M Word} {body' : N Word} (hb : S.rel body body') {rounds rounds' : Nat}
    (hr : S.Bounds rounds rounds') (i : Int) :
    S.rel (repeatFor counter target step body rounds i)
      (repeatFor counter target step body' rounds' i) := by
  induction rounds generalizing rounds' i with
  | zero =>
    rcases hr with rfl | ⟨_, hu⟩
    · exact S.unfinished
    · exact hu _
  | succ rounds ih =>
    obtain ⟨less, rfl, hless⟩ := hr.of_succ
    unfold repeatFor
    split
    · refine S.bind (S.settle _ hb) fun goesOn => ?_
      split
      · dsimp only
        split
        · exact S.bind (S.effect (.write counter (Word.ofSigned (i + step))) (hw _)) fun _ =>
            ih hless (i + step)
        · exact S.pure ()
      · exact S.pure ()
    · exact S.pure ()

/-! ## Register accesses -/

theorem access_rel (location : Location) {window : Nat} {a : Access}
    (ha : S.allows (.access window a)) (hf : S.allows (.hasFailed window)) :
    S.rel (access location window a : M Word) (access location window a) := by
  refine S.bind (S.effect (.access window a) ha) fun w =>
    S.bind (S.effect (.hasFailed window) hf) fun failed => ?_
  split
  · exact S.raise _
  · exact S.pure w

theorem findWindow_rel (location : Location) {address : Word} {width : Width}
    (h : S.allows (.findWindow address width)) :
    S.rel (findWindow location address width : M Nat) (findWindow location address width) := by
  refine S.bind (S.effect (.findWindow address width) h) fun found => ?_
  cases found with
  | none => exact S.raise _
  | some window => exact S.pure window

/-! ## Calls -/

/-- Subroutines with the same variables and related bodies, whose parameters may be written and
whose result may be read. -/
structure Callee (R : Node → Node → Prop) (c c' : Subroutine × Node) : Prop where
  parameters : c'.1.parameters = c.1.parameters
  result : c'.1.result = c.1.result
  writes : ∀ v ∈ c.1.parameters, ∀ w, S.allows (.write v w)
  reads : ∀ v, c.1.result = some v → S.allows (.read v)
  body : R c.2 c'.2

/-- Environments in which calls run related bodies. -/
def Setting (R : Node → Node → Prop) (env env' : Environment) : Prop :=
  ∀ id, Option.Rel (S.Callee R) (env.callable? id) (env'.callable? id)

theorem bindParameters_rel {vars : List Variable} (hw : ∀ v ∈ vars, ∀ w, S.allows (.write v w))
    (values : List Word) :
    S.rel (bindParameters vars values : M Unit) (bindParameters vars values) := by
  induction vars generalizing values with
  | nil => exact S.pure ()
  | cons v vs ih =>
    cases values with
    | nil => exact S.pure ()
    | cons w ws =>
      refine S.bind (S.effect (.write v w) (hw v List.mem_cons_self w)) fun _ => ?_
      exact ih (fun v' hv => hw v' (List.mem_cons_of_mem v hv)) ws

/-- What happens inside the frame of an activation. -/
theorem activation_rel {c : Subroutine} (hw : ∀ v ∈ c.parameters, ∀ w, S.allows (.write v w))
    (hr : ∀ v, c.result = some v → S.allows (.read v)) {body : M Word} {body' : N Word}
    (h : S.rel body body') (arguments : List Word) :
    S.rel
      (do
        bindParameters c.parameters arguments
        untilExit body
        match c.result with
        | some v => valueOf v
        | none => Pure.pure 0)
      (do
        bindParameters c.parameters arguments
        untilExit body'
        match c.result with
        | some v => valueOf v
        | none => Pure.pure 0) := by
  refine S.bind (S.bindParameters_rel hw _) fun _ => S.bind (S.settle _ h) fun _ => ?_
  cases hresult : c.result with
  | none => exact S.pure 0
  | some v => exact S.effect (.read v) (hr v hresult)

theorem activate_rel (id : Nat) {c c' : Subroutine × Node} (hc : S.Callee R c c')
    {body : M Word} {body' : N Word} (h : S.rel body body') (arguments : List Word) :
    S.rel (activate id c.1 body arguments) (activate id c'.1 body' arguments) := by
  unfold activate
  rw [hc.parameters, hc.result]
  exact S.bracket (.frame id) (S.activation_rel hc.writes hc.reads h arguments)

theorem execCall_rel {env env' : Environment} (hs : S.Setting R env env')
    (h : ∀ a b, R a b → S.rel (eval a) (eval' b)) (location : Location) (name : String) (id : Nat)
    {arguments arguments' : List Node} (ha : Matching R arguments arguments') :
    S.rel (execCall env eval location name id arguments)
      (execCall env' eval' location name id arguments') := by
  refine S.bracket (.call name) ?_
  have hcallable := hs id
  revert hcallable
  generalize env.callable? id = c
  generalize env'.callable? id = c'
  intro hcallable
  cases hcallable with
  | none => exact S.raise _
  | some hc => exact S.bind (S.evalAll_rel h ha) fun _ => S.activate_rel id hc (h _ _ hc.body) _

/-! ## Nodes -/

/-- Executions of nodes of one shape are related if the evaluations of their children are and the
effects of the nodes themselves are allowed. -/
theorem step_rel {env env' : Environment} (hs : S.Setting R env env')
    (h : ∀ a b, R a b → S.rel (eval a) (eval' b)) {rounds rounds' : Nat}
    (hr : S.Bounds rounds rounds') {node node' : Node} (hn : Node.Alike R node node')
    (hown : ∀ {α : Type} (e : Effect α), node.Causes e → S.allows e) :
    S.rel (node.step env rounds eval) (node'.step env' rounds' eval') := by
  cases hn with
  | literal _ w => exact S.pure w
  | directive => exact S.pure 0
  | jump => exact S.raise _
  | var _ v => exact S.effect (.read v) (hown _ .var)
  | block _ hss => exact S.execStatements_rel (hown _ .block) h hss
  | assign _ v hv =>
    exact S.bind (h _ _ hv) fun w =>
      S.bind (S.effect (.write v w) (hown _ (.assign w))) fun _ => S.pure 0
  | indexed _ v ho =>
    exact S.bind (h _ _ ho) fun _ =>
      S.bind (S.effect (.read v) (hown _ .indexed)) fun _ => S.pure _
  | unary _ _ ho => exact S.bind (h _ _ ho) fun _ => S.pure _
  | narrow _ _ ho => exact S.bind (h _ _ ho) fun _ => S.pure _
  | static _ cell v hv =>
    refine S.bind (S.effect (.isCarriedOut cell) (hown _ .staticTest)) fun done => ?_
    split
    · exact S.pure 0
    · exact S.bind (h _ _ hv) fun w =>
        S.bind (S.effect (.write v w) (hown _ (.staticWrite w))) fun _ =>
          S.bind (S.effect (.carryOut cell) (hown _ .staticMark)) fun _ => S.pure 0
  | binary _ _ hl hr =>
    refine S.bind (h _ _ hl) fun l => ?_
    split
    · exact S.pure _
    · refine S.bind (h _ _ hr) fun r => ?_
      split
      · exact S.pure _
      · exact S.raise _
  | cond _ hc ht he =>
    refine S.bind (h _ _ hc) fun w => ?_
    split
    · cases he with
      | none => exact S.pure 0
      | some he => exact S.bind (h _ _ he) fun _ => S.pure 0
    · exact S.bind (h _ _ ht) fun _ => S.pure 0
  | whileLoop _ hc hb => exact S.bind (S.repeatWhile_rel (h _ _ hc) (h _ _ hb) hr) fun _ => S.pure 0
  | forLoop _ _ v hi ht hst hb =>
    have hread := S.effect (.read v) (hown _ .forStart)
    have hwrite : ∀ w, S.allows (.write v w) := fun w => hown _ (.forNext w)
    refine S.bind (h _ _ hi) fun _ => S.bind (h _ _ ht) fun target => ?_
    cases hst with
    | none =>
      exact S.bind (S.pure 1) fun _ => S.bind hread fun _ =>
        S.bind (S.repeatFor_rel hwrite _ _ (h _ _ hb) hr _) fun _ => S.pure 0
    | some hst =>
      exact S.bind (h _ _ hst) fun _ => S.bind hread fun _ =>
        S.bind (S.repeatFor_rel hwrite _ _ (h _ _ hb) hr _) fun _ => S.pure 0
  | peek _ _ ha =>
    exact S.bind (h _ _ ha) fun a => S.bind (S.findWindow_rel _ (hown _ (.peekFind a))) fun k =>
      S.bind (S.access_rel _ (hown _ (.peekAccess k _)) (hown _ (.peekCheck k)))
        fun _ => S.pure _
  | poke _ _ ha hv hm =>
    have haccess : ∀ l k a, S.rel (access l k a : M Word) (access l k a) := fun l k a =>
      S.access_rel l (hown _ (.pokeAccess k a)) (hown _ (.pokeCheck k))
    refine S.bind (h _ _ ha) fun a => S.bind (h _ _ hv) fun _ =>
      S.bind (S.findWindow_rel _ (hown _ (.pokeFind a))) fun k => ?_
    cases hm with
    | none => exact S.bind (haccess _ k _) fun _ => S.pure 0
    | some hm =>
      exact S.bind (h _ _ hm) fun _ => S.bind (haccess _ k _) fun _ =>
        S.bind (haccess _ k _) fun _ => S.pure 0
  | print _ trailing hp =>
    exact S.bind (S.evalParts_rel h _ hp) fun text =>
      S.bind (S.effect (.print (text ++ trailing)) (hown _ (.print _))) fun _ => S.pure 0
  | sleep _ hm =>
    refine S.bind (h _ _ hm) fun micros =>
      S.bind (S.effect (.sleep micros.toNat) (hown _ (.sleep _))) fun undisturbed => ?_
    split
    · exact S.pure 0
    · exact S.bind (S.effect (.report .sleepInterrupted) (hown _ .wake)) fun _ => S.pure 0
  | call l name id ha => exact S.execCall_rel hs h l name id ha
  | imported _ hroot =>
    cases hroot with
    | none => exact S.pure 0
    | some hroot => exact S.bind (S.settle _ (h _ _ hroot)) fun _ => S.pure 0

end

/-! ## One script, carried out in two ways -/

/-- Every effect is allowed. -/
def Lax : Prop := ∀ (α : Type) (e : Effect α), S.allows e

variable {S}

theorem Lax.setting (h : S.Lax) (env : Environment) : S.Setting Eq env env := fun id =>
  .of_refl (fun _ => ⟨rfl, rfl, fun _ _ _ => h _ _, fun _ _ => h _ _, rfl⟩) (env.callable? id)

/-- Executions of one node are related if the evaluations of its children are. -/
theorem Lax.step_rel (hlax : S.Lax) (env : Environment) {eval : Node → M Word}
    {eval' : Node → N Word} (h : ∀ node, S.rel (eval node) (eval' node)) {rounds rounds' : Nat}
    (hr : S.Bounds rounds rounds') (node : Node) :
    S.rel (node.step env rounds eval) (node.step env rounds' eval') :=
  S.step_rel (hlax.setting env) (fun _ _ hab => hab ▸ h _) hr (.refl (fun _ => rfl) node)
    fun e _ => hlax _ e

end Simulation

end PeekPoke
