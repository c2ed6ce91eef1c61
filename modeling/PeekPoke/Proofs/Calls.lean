import PeekPoke.Proofs.Bindings
import PeekPoke.Proofs.Counting
import PeekPoke.Proofs.Independence
import PeekPoke.Proofs.Subroutines
set_option autoImplicit false

/-!
# Calls

What a call does, from its arguments to its value.  Main statement: in every world that can be
reached, every call that was built has as many arguments as its subroutine has parameters, and every
execution of it, from whatever machine, evaluates the arguments from left to right among the frames
of the caller, and then, if all of them have values, executes the body in a new frame in which the
parameters have these values and every other variable of the subroutine is zero
(`World.Reached.callProtocol`).

`ArgumentRun` and `CallRun` say once what the record of a call can be.  That the numbers agree is an
invariant of worlds: only one constructor makes calls, it compares the numbers, and a subroutine
keeps its parameters.
-/

namespace PeekPoke

open MonadScript

/-! ## Arguments -/

/-- What the record of the evaluation of arguments can be, from the frames of the caller: the
executions of the arguments one after the other, up to the first that has no value.  Every one of
them finds each stack of frames as high as it was, and below the top as it was. -/
inductive ArgumentRun (eval : Node → Run Word) (caller : Stores) :
    List Node → Machine → List Activity → Ending (List Word) → Prop where
  | done {m : Machine} : caller.Balanced m.stores →
      ArgumentRun eval caller [] m [] (some (.ok [], m))
  | lost {argument : Node} {rest : List Node} {m : Machine} {inner : List Activity} :
      caller.Balanced m.stores → eval argument m = none →
      ArgumentRun eval caller (argument :: rest) m [.execution argument m inner none] none
  | unwound {argument : Node} {rest : List Node} {m m' : Machine} {inner : List Activity}
      {u : Unwind} : caller.Balanced m.stores → eval argument m = some (.error u, m') →
      ArgumentRun eval caller (argument :: rest) m
        [.execution argument m inner (some (.error u, m'))] (some (.error u, m'))
  | next {argument : Node} {rest : List Node} {m m' : Machine} {inner log : List Activity} {w : Word}
      {evaluated : Ending (List Word)} :
      caller.Balanced m.stores → eval argument m = some (.ok w, m') →
      ArgumentRun eval caller rest m' log evaluated →
      ArgumentRun eval caller (argument :: rest) m
        (.execution argument m inner (some (.ok w, m')) :: log)
        (evaluated.map fun (r, last) => (r.map (w :: ·), last))

/-- The record of arguments, if there is fuel to execute them. -/
theorem evalAll_record (env : Environment) (fuel : Nat) {caller : Stores} (arguments : List Node)
    {m : Machine} (h : caller.Balanced m.stores) :
    ArgumentRun (exec env (fuel + 1)) caller arguments m
      (evalAll (observe env (fuel + 1)) arguments m).1
      (evalAll (observe env (fuel + 1)) arguments m).2 := by
  induction arguments generalizing m with
  | nil => exact .done h
  | cons argument rest ih =>
    unfold evalAll
    have hrecord := observe_record env fuel argument m
    rcases hargument : exec env (fuel + 1) argument m with _ | ⟨u | w, m'⟩
    · rw [hargument] at hrecord
      rw [Observed.bind_of_none hrecord]
      exact .lost h hargument
    · rw [hargument] at hrecord
      rw [Observed.bind_of_error hrecord]
      exact .unwound h hargument
    · rw [hargument] at hrecord
      have hrest := ih (h.trans (Stores.balanced_transition.exec hargument))
      rw [Observed.bind_of_ok hrecord]
      rcases hothers : evalAll (observe env (fuel + 1)) rest m' with ⟨log, _ | ⟨u | ws, last⟩⟩
      · rw [Observed.bind_of_none hothers]
        rw [hothers] at hrest
        exact .next h hargument hrest
      · rw [Observed.bind_of_error hothers]
        rw [hothers] at hrest
        exact .next h hargument hrest
      · rw [Observed.bind_of_ok hothers]
        rw [hothers] at hrest
        show ArgumentRun _ caller _ m (_ :: (log ++ [])) (some (.ok (w :: ws), last))
        rw [List.append_nil]
        exact .next h hargument hrest

/-! ## Parameters -/

namespace Stores

variable {s : Stores} {id : Nat} {vs : List Variable} {ws : List Word}

theorem balanced_bind (s : Stores) (vs : List Variable) (ws : List Word) :
    s.Balanced (s.bind vs ws) := by
  fun_induction bind s vs ws with
  | case1 s v vs w ws ih => exact (Balanced.set s v w).trans ih
  | case2 => exact .refl _

/-- Only frames of the scope of the parameters are touched. -/
theorem stack_bind_of_ne (h : ∀ v ∈ vs, v.scope = .subroutine id) {scope : Scope}
    (hne : scope ≠ .subroutine id) : (s.bind vs ws).stack scope = s.stack scope := by
  fun_induction bind s vs ws with
  | case1 s v vs w ws ih =>
    have hv : scope ≠ v.scope := h v List.mem_cons_self ▸ hne
    rw [ih fun u hu => h u (List.mem_cons_of_mem v hu), stack_set_of_ne s v w hv]
  | case2 => rfl

/-- A variable in none of the slots of the parameters keeps its value. -/
theorem get_bind_of_apart {u : Variable} (h : ∀ v ∈ vs, u.scope = v.scope → u.slot ≠ v.slot) :
    (s.bind vs ws).get u = s.get u := by
  fun_induction bind s vs ws with
  | case1 s v vs w ws ih =>
    rw [ih fun v' hv' => h v' (List.mem_cons_of_mem v hv'),
      s.get_set_of_apart (h v List.mem_cons_self)]
  | case2 => rfl

/-- Each parameter has its value, if no two share a slot and there is a frame for them. -/
theorem map_get_bind (hactive : ∀ v ∈ vs, s.Active v)
    (hapart : vs.Pairwise fun u v => u.slot ≠ v.slot) (hlength : vs.length = ws.length) :
    vs.map (s.bind vs ws).get = ws := by
  induction vs generalizing s ws with
  | nil => exact (List.length_eq_zero_iff.mp hlength.symm).symm
  | cons v vs ih =>
    obtain ⟨w, ws, rfl⟩ := List.exists_cons_of_length_eq_add_one hlength.symm
    obtain ⟨hfirst, hapart⟩ := List.pairwise_cons.mp hapart
    have hrest : vs.map ((s.set v w).bind vs ws).get = ws :=
      ih (fun u hu => (hactive u (List.mem_cons_of_mem v hu)).of_balanced (.set s v w)) hapart
        (Nat.succ.inj hlength)
    have hv : ((s.set v w).bind vs ws).get v = w := by
      rw [get_bind_of_apart fun u hu _ => hfirst u hu,
        get_set_of_active (hactive v List.mem_cons_self)]
    rw [List.map_cons, bind, hv, hrest]

end Stores

/-! ## Activations -/

namespace Stores

variable {s : Stores} {id : Nat} {v : Variable}

theorem active_push (s : Stores) (hv : v.scope = .subroutine id) : (s.push id).Active v := by
  unfold Active
  rw [hv, push, stack_modifyFrames_self, Array.size_push]
  omega

/-- Every variable of a new frame is zero. -/
theorem get_push (s : Stores) (hv : v.scope = .subroutine id) : (s.push id).get v = 0 := by
  rw [get_eq_stack, hv, push, stack_modifyFrames_self]
  simp [Frames.get]

/-- What is balanced inside an activation has one frame more than there was before it. -/
theorem Balanced.frames_eq_push {s' : Stores} (h : Balanced (s.push id) s') :
    ∃ frame, s'.frames id = (s.frames id).push frame := by
  have hsize := h.size (.subroutine id)
  have hpop := h.pop (.subroutine id)
  rw [push, stack_modifyFrames_self] at hsize hpop
  rw [Array.size_push] at hsize
  have hne : (s'.stack (.subroutine id)).size ≠ 0 := by omega
  obtain ⟨below, frame, htop⟩ := Array.eq_push_of_size_ne_zero hne
  rw [htop, Array.pop_push, Array.pop_push] at hpop
  exact ⟨frame, htop.trans (congrArg (Array.push · frame) hpop)⟩

end Stores

namespace Subroutine

/-- How the body finds the machine, when the arguments had these values and left `ready` behind. -/
structure Entered (known : Variable → Prop) (id : Nat) (s : Subroutine) (values : List Word)
    (ready start : Machine) : Prop where
  /-- There is one frame more for the subroutine, and everything else is as it was. -/
  agrees : ready.AgreesBeside id start
  frame : ∃ frame, start.stores.frames id = (ready.stores.frames id).push frame
  /-- Each parameter has the value of its argument. -/
  parameters : s.parameters.map start.stores.get = values
  /-- The return variable is zero, and so is every other variable of the subroutine. -/
  result : ∀ v, s.result = some v → start.stores.get v = 0
  fresh : ∀ v, known v → v.scope = .subroutine id → v ∉ s.parameters → start.stores.get v = 0

/-- How a call ends whose body ended like this. -/
structure Left (id : Nat) (s : Subroutine) (ready : Machine) (ended ending : Ending Word) : Prop where
  lost : ended = none → ending = none
  /-- If the body ends with a value, or leaves with `exit` or a stray `break`, the call has the value
  of the return variable at that moment. -/
  returns : ∀ r m, ended = some (r, m) →
    (∃ w, r = .ok w) ∨ r = .error (.signal .exit) ∨ r = .error (.signal .breakLoop) →
    ∃ last, ending = some (.ok (s.result.elim 0 m.stores.get), last) ∧ m.AgreesBeside id last ∧
      last.stores.frames id = ready.stores.frames id
  /-- Everything else is passed on. -/
  unwinds : ∀ u m, ended = some (.error u, m) → u ≠ .signal .exit → u ≠ .signal .breakLoop →
    ∃ last, ending = some (.error u, last) ∧ m.AgreesBeside id last ∧
      last.stores.frames id = ready.stores.frames id

variable {s : Subroutine} {id : Nat} {values : List Word} {ready : Machine}

theorem Proper.entered (h : s.Proper id) (hlength : s.parameters.length = values.length)
    {known : Variable → Prop} (hknown : ∀ u v, known u → v ∈ s.parameters → u.scope = v.scope →
      u.slot = v.slot → u = v) : s.Entered known id values ready (s.opened id values ready) := by
  have hown : ∀ v ∈ s.parameters, v.scope = .subroutine id :=
    fun v hv => (h.own v (List.mem_append_left _ hv)).1
  obtain ⟨hapart, -, hresult⟩ := List.pairwise_append.mp h.apart
  have hzero : ∀ u : Variable, u.scope = .subroutine id →
      (∀ v ∈ s.parameters, u.slot ≠ v.slot) → (s.opened id values ready).stores.get u = 0 := by
    intro u hu hne
    exact (Stores.get_bind_of_apart fun v hv _ => hne v hv).trans (Stores.get_push _ hu)
  obtain ⟨trace, henter⟩ := enterFrame_eq id ready
  refine ⟨?_, ?_, ?_, fun v hv => ?_, fun u hu hscope hne => ?_⟩
  · unfold opened
    rw [henter]
    exact ⟨rfl, fun scope hne => (Stores.stack_bind_of_ne hown hne).trans
      (Stores.stack_modifyFrames_of_ne _ _ hne), rfl, rfl, rfl, rfl⟩
  · exact (Stores.balanced_bind _ _ _).frames_eq_push
  · exact Stores.map_get_bind (fun v hv => Stores.active_push _ (hown v hv)) hapart hlength
  · have hmem : v ∈ s.result.toList := Option.mem_toList.mpr hv
    exact hzero v (h.own v (List.mem_append_right _ hmem)).1
      fun u hu => (hresult u hu v hmem).symm
  · refine hzero u hscope fun v hv hslot => hne ?_
    rwa [hknown u v hu hv (hscope.trans (hown v hv).symm) hslot]

end Subroutine

/-! ## The record of a call -/

/-- After an activation the frames are those there were before it. -/
theorem Subroutine.left (s : Subroutine) (id : Nat) (name : String) (env : Environment) (fuel : Nat)
    (body : Node) (values : List Word) (ready : Machine) :
    s.Left id ready (exec env fuel body (s.opened id values ready))
      ((exec env fuel body (s.opened id values ready)).map fun ended =>
        (s.settle ended.1 ended.2, (leaveFrame id ended.2).emit (.callLeft name))) := by
  have hleft : ∀ {r m}, exec env fuel body (s.opened id values ready) = some (r, m) →
      m.AgreesBeside id ((leaveFrame id m).emit (.callLeft name)) ∧
        ((leaveFrame id m).emit (.callLeft name)).stores.frames id = ready.stores.frames id := by
    intro r m hbody
    have hbalanced := (Stores.balanced_bind (ready.stores.push id) s.parameters values).trans
      (Stores.balanced_transition.exec hbody)
    obtain ⟨trace, hleave⟩ := leaveFrame_eq id m
    rw [hleave]
    exact ⟨⟨rfl, fun scope hne => Stores.stack_modifyFrames_of_ne _ _ hne, rfl, rfl, rfl, rfl⟩,
      hbalanced.stack_pop_of_push⟩
  refine ⟨fun hnone => by rw [hnone]; rfl, fun r m hbody hr => ?_, fun u m hbody hexit hbreak => ?_⟩
  · have hsettle : s.settle r m = .ok (s.returned m) := by
      rcases hr with ⟨w, rfl⟩ | rfl | rfl <;> rfl
    refine ⟨_, ?_, hleft hbody⟩
    rw [hbody, Option.map_some, hsettle]
    rfl
  · have hafter : afterBody (.error u) = .error u := by
      cases u with
      | failure e => rfl
      | signal signal =>
        cases signal with
        | breakLoop => exact absurd rfl hbreak
        | exit => exact absurd rfl hexit
        | quit | terminate => rfl
    refine ⟨_, ?_, hleft hbody⟩
    rw [hbody, Option.map_some, settle, hafter]
    rfl

/-- What the record of a call can be, from the machine in which its arguments are evaluated. -/
inductive CallRun (w : World) (fuel : Nat) (name : String) (id : Nat) (s : Subroutine) (body : Node)
    (arguments : List Node) (m : Machine) : List Activity → Ending Word → Prop where
  /-- An argument does not end, and nothing else happens. -/
  | lost {log : List Activity} :
      ArgumentRun (exec w.env fuel) m.stores arguments m log none →
      CallRun w fuel name id s body arguments m log none
  /-- An argument unwinds, and the subroutine is not entered. -/
  | unwound {log : List Activity} {u : Unwind} {last : Machine} :
      ArgumentRun (exec w.env fuel) m.stores arguments m log (some (.error u, last)) →
      CallRun w fuel name id s body arguments m log (some (.error u, last.emit (.callLeft name)))
  /-- All arguments have values, and the body is executed. -/
  | entered {log inner : List Activity} {values : List Word} {ready start : Machine}
      {ended ending : Ending Word} :
      ArgumentRun (exec w.env fuel) m.stores arguments m log (some (.ok values, ready)) →
      s.Entered w.Has id values ready start → exec w.env fuel body start = ended →
      s.Left id ready ended ending →
      CallRun w fuel name id s body arguments m (log ++ [.execution body start inner ended]) ending

/-- Arguments that all have values have as many. -/
theorem ArgumentRun.length_eq {eval : Node → Run Word} {caller : Stores} {arguments : List Node}
    {m ready : Machine} {log : List Activity} {values : List Word}
    (h : ArgumentRun eval caller arguments m log (some (.ok values, ready))) :
    values.length = arguments.length := by
  generalize hevaluated : (some (.ok values, ready) : Ending (List Word)) = evaluated at h
  induction h generalizing values ready with
  | done =>
    cases hevaluated
    rfl
  | lost | unwound => cases hevaluated
  | @next _ _ _ _ _ _ w evaluated _ _ _ ih =>
    rcases evaluated with _ | ⟨u | ws, last⟩
    · cases hevaluated
    · cases hevaluated
    · cases hevaluated
      rw [List.length_cons, List.length_cons, ih rfl]

/-- The record of a call whose subroutine can be called, if there is fuel to execute its parts. -/
theorem inside_call {w : World} {id : Nat} {s : Subroutine} {body : Node}
    (hcallable : w.env.callable? id = some (s, body)) {arguments : List Node}
    (hentered : ∀ values ready, values.length = arguments.length →
      s.Entered w.Has id values ready (s.opened id values ready))
    (fuel : Nat) (l : Location) (name : String) (m : Machine) :
    CallRun w (fuel + 1) name id s body arguments
      ((m.emit (.execute "call" l)).emit (.callEntered name))
      (inside w.env (fuel + 1) (.call l name id arguments) m).1
      (inside w.env (fuel + 1) (.call l name id arguments) m).2 := by
  rw [inside_call_of_callable hcallable]
  generalize (m.emit (.execute "call" l)).emit (.callEntered name) = caller
  have hrecord := evalAll_record w.env fuel arguments (.refl caller.stores)
  dsimp only
  rcases hevaluated : evalAll (observe w.env (fuel + 1)) arguments caller with
    ⟨log, _ | ⟨u | values, ready⟩⟩
  · rw [hevaluated] at hrecord
    rw [Observed.bind_of_none hevaluated]
    exact .lost hrecord
  · rw [hevaluated] at hrecord
    rw [Observed.bind_of_error hevaluated]
    exact .unwound hrecord
  · rw [hevaluated] at hrecord
    obtain ⟨inner, hactivate⟩ := activate_record w.env fuel id s body values ready
    rw [Observed.bind_of_ok hevaluated, hactivate, Option.map_map]
    exact .entered hrecord (hentered values ready hrecord.length_eq) rfl
      (s.left id name w.env (fuel + 1) body values ready)

/-! ## Numbers of arguments -/

/-- The subroutine that a call is bound to, and how many arguments the call has. -/
def Node.bound? : Node → Option (Nat × Nat)
  | .call _ _ id arguments => some (id, arguments.length)
  | _ => none

namespace Build

theorem makes_literalOf (l : Location) (r : Except Numeral.LiteralError Word) :
    Makes (fun node => node.bound? = none) (literalOf l r) := by
  cases r with
  | ok w => exact makes_create rfl
  | error e => exact makes_fail _ _

/-- A call is made only for a subroutine that the name refers to, and with as many arguments as that
has parameters. -/
theorem bound?_call {l : Location} {name : String} {arguments : List Node} {s s' : System}
    {node : Node} (h : call l name arguments s = .ok node s') :
    ∃ id, s.env.subroutineId? name = some id ∧
      node.bound? = some (id, (s.env.subroutines[id]?).elim 0 Subroutine.arity) := by
  obtain ⟨id, attached, hid, rfl, harity⟩ := call_eq_ok h
  exact ⟨id, hid, by rw [Node.bound?, harity]⟩

end Build

section

open Build

/-- Only one constructor makes calls. -/
theorem Construction.bound? {given : List Node} {x : Build Node} (h : Construction given x)
    {s s' : System} {node : Node} (hx : x s = .ok node s') :
    node.bound? = none ∨ ∃ name id, s.env.subroutineId? name = some id ∧
      node.bound? = some (id, (s.env.subroutines[id]?).elim 0 Subroutine.arity) := by
  suffices hother : (∃ l name arguments, x = Build.call l name arguments) ∨
      Build.Makes (fun node => node.bound? = none) x by
    rcases hother with ⟨l, name, arguments, rfl⟩ | hother
    · obtain ⟨id, hid, hbound⟩ := Build.bound?_call hx
      exact Or.inr ⟨name, id, hid, hbound⟩
    · exact Or.inl (hother s node s' hx)
  cases h with
  | call l name => exact Or.inl ⟨l, name, _, rfl⟩
  | literal | jump | imported => exact Or.inr (makes_create rfl)
  | integer | float => exact Or.inr (makes_literalOf _ _)
  | block | print | sleep | var | unary | narrow | peek =>
    exact Or.inr (makes_bind fun _ => makes_create rfl)
  | assign | whileLoop | indexed | binary =>
    exact Or.inr (makes_bind fun _ => makes_bind fun _ => makes_create rfl)
  | static | define | cond | poke =>
    exact Or.inr (makes_bind fun _ => makes_bind fun _ => makes_bind fun _ => makes_create rfl)
  | defineFrom =>
    refine Or.inr (makes_bind fun _ => makes_bind fun _ => makes_bind fun _ => ?_)
    split
    · exact makes_fail _ _
    · split
      · exact makes_bind fun _ => makes_bind fun _ => makes_create rfl
      · exact makes_fail _ _
  | map =>
    refine Or.inr (makes_bind fun _ => makes_bind fun _ => makes_bind fun _ => makes_bind fun _ => ?_)
    split
    · exact makes_bind fun _ => makes_create rfl
    · exact makes_fail _ _
  | forLoop =>
    refine Or.inr ?_
    unfold Build.forLoop
    split
    · exact makes_bind fun _ => makes_bind fun _ => makes_bind fun _ => makes_create rfl
    · exact makes_fail _ _

end

namespace Environment

variable {bodies : Node → Prop} {env env' : Environment} {id n : Nat}

/-- There is such a subroutine, and it has so many parameters. -/
def HasArity (env : Environment) (id n : Nat) : Prop :=
  ∃ s, env.subroutines[id]? = some s ∧ s.parameters.length = n

theorem HasArity.of_modify {f : Subroutine → Subroutine} {j : Nat} (h : env.HasArity id n)
    (hsubs : env'.subroutines = env.subroutines.modify j f)
    (hparameters : ∀ s, (f s).parameters = s.parameters) : env'.HasArity id n := by
  obtain ⟨s, hs, rfl⟩ := h
  by_cases hj : j = id
  · exact ⟨f s, by simp [hsubs, Array.getElem?_modify, hj, hs], by rw [hparameters]⟩
  · exact ⟨s, by simp [hsubs, Array.getElem?_modify, hj, hs], rfl⟩

/-- A subroutine keeps its parameters. -/
theorem Change.hasArity (h : env.Change bodies env') (harity : env.HasArity id n) :
    env'.HasArity id n := by
  obtain ⟨s, hs, hn⟩ := harity
  cases h with
  | same _ _ hsubs | globalSlot _ _ _ _ hsubs => exact ⟨s, hsubs ▸ hs, hn⟩
  | localSlot _ _ _ _ _ _ hsubs =>
    exact HasArity.of_modify ⟨s, hs, hn⟩ hsubs fun _ => rfl
  | begin name parameters result =>
    obtain ⟨new, hsubs, -⟩ := env.subroutines_begin name parameters result
    have hlt : id < env.subroutines.size := (Array.getElem?_eq_some_iff.mp hs).1
    exact ⟨s, by rw [hsubs, Array.getElem?_push, if_neg (Nat.ne_of_lt hlt), hs], hn⟩
  | finish _ hfinish =>
    obtain ⟨-, -, rfl⟩ := finish?_eq_some hfinish
    exact HasArity.of_modify (f := fun s => { s with body := some _ }) ⟨s, hs, hn⟩ rfl fun _ => rfl
  | abandon => exact ⟨s, hs, hn⟩

theorem Changes.hasArity (h : Changes bodies env env') (harity : env.HasArity id n) :
    env'.HasArity id n := by
  induction h with
  | refl => exact harity
  | tail _ hchange ih => exact hchange.hasArity ih

end Environment

namespace System

variable {s s' : System}

/-- Nothing that is done while a script is built registers a subroutine. -/
theorem Move.registered (h : Move s s') : s'.env.registered = s.env.registered := by
  cases h with
  | trace | cell => rfl
  | plain h => exact (Environment.sameRegistry_assignable? (assignable?_eq_some h).1).registered
  | static h => exact (Environment.sameRegistry_newStatic? (newStatic?_eq_some h).1).registered
  | constant w h =>
    exact (Environment.sameRegistry_newConstant? (newConstant?_eq_some h).1).registered
  | request => rw [env_noteRequest]
  | map h => rw [env_map h]
  | begin => rfl

theorem Moves.registered (h : Moves s s') : s'.env.registered = s.env.registered := by
  induction h with
  | refl => rfl
  | tail _ hmove ih => rw [hmove.registered, ih]

end System

namespace World

variable {w w' : World}

/-- A subroutine that is registered was registered before or has just been defined. -/
theorem Step.registered (h : w.Step w') {name : String} {id : Nat}
    (hmem : (name, id) ∈ w'.env.registered) :
    (∃ name, (name, id) ∈ w.env.registered) ∨ w.env.pendingId? = some id := by
  cases h with
  | construct hx =>
    unfold World.env at hmem
    rw [after_system, System.Moves.registered (hx.leads w.system)] at hmem
    exact Or.inl ⟨name, hmem⟩
  | move hmove => exact Or.inl ⟨name, hmove.registered ▸ hmem⟩
  | newConstant hmade =>
    have hsame := Environment.sameRegistry_newConstant? (System.newConstant?_eq_some hmade).1
    exact Or.inl ⟨name, hsame.registered ▸ hmem⟩
  | finish _ hfinish =>
    obtain ⟨hpending, -, _, rfl⟩ := System.finish?_eq_some hfinish
    rcases List.mem_cons.mp hmem with heq | hmem
    · cases heq
      exact Or.inr hpending
    · exact Or.inl ⟨name, (List.mem_filter.mp hmem).1⟩
  | drop hdrop =>
    obtain rfl := System.drop?_eq_some hdrop
    exact Or.inl ⟨name, (List.mem_filter.mp hmem).1⟩
  | obtain | assign | finishFails | abandon | hold | release | execute | outside =>
    exact Or.inl ⟨name, hmem⟩

/-- Every subroutine that is registered exists, and every call is bound to one with as many parameters
as the call has arguments. -/
structure Counted (w : World) : Prop where
  registered : ∀ {name : String} {id : Nat}, (name, id) ∈ w.env.registered →
    ∃ n, w.env.HasArity id n
  calls : ∀ {node part : Node} {id n : Nat}, node ∈ w.nodes → part.Part node →
    part.bound? = some (id, n) → w.env.HasArity id n

/-- The subroutine that is being defined exists. -/
theorem Reached.hasArity_of_pending (h : w.Reached) {id : Nat} (hid : w.env.pendingId? = some id) :
    ∃ n, w.env.HasArity id n := by
  obtain ⟨known, hroster⟩ := h.roster
  exact ⟨_, _, Array.getElem?_eq_getElem (hroster.env.pending hid), rfl⟩

/-- So does the subroutine that a name refers to. -/
theorem Counted.hasArity (h : w.Counted) (hw : w.Reached) {name : String} {id : Nat}
    (hid : w.env.subroutineId? name = some id) :
    w.env.HasArity id ((w.env.subroutines[id]?).elim 0 Subroutine.arity) := by
  obtain ⟨n, s, hs, -⟩ : ∃ n, w.env.HasArity id n := by
    rcases Option.or_eq_some_iff.mp hid with hpending | ⟨-, hregistered⟩
    · exact hw.hasArity_of_pending (Option.filter_eq_some_iff.mp hpending).1
    · obtain ⟨before, after, hsplit, -⟩ := List.lookup_eq_some_iff.mp hregistered
      exact h.registered (hsplit ▸ List.mem_append_right _ List.mem_cons_self)
  exact ⟨s, hs, by rw [hs]; rfl⟩

/-- A call that has just been built has as many arguments as its subroutine has parameters. -/
theorem Counted.construct (h : w.Counted) (hw : w.Reached) {x : Build Node}
    (hx : Construction w.nodes x) {s : System} {made part : Node} (hmade : x w.system = .ok made s)
    (hpart : part.Part made) {id n : Nat} (hbound : part.bound? = some (id, n)) :
    w.env.HasArity id n := by
  have hparts := (hx.gives w.system).of_ok hmade
  rcases hparts.cases_part hpart with rfl | ⟨g, hg, hpart⟩ | ⟨l, value, rfl⟩
  · rcases hx.bound? hmade with hnone | ⟨name, id', hid, hsome⟩
    · cases hnone.symm.trans hbound
    · cases hsome.symm.trans hbound
      exact h.hasArity hw hid
  · exact h.calls hg hpart hbound
  · cases hbound

theorem Step.counted (h : w.Step w') (hw : w.Reached) (hc : w.Counted) : w'.Counted := by
  have hkeeps : ∀ {id n : Nat}, w.env.HasArity id n → w'.env.HasArity id n :=
    fun harity => h.changes.hasArity harity
  refine ⟨fun hmem => ?_, fun {node part id n} hnode hpart hbound => hkeeps ?_⟩
  · obtain ⟨n, harity⟩ : ∃ n, w.env.HasArity _ n := by
      rcases h.registered hmem with ⟨name, hmem⟩ | hpending
      · exact hc.registered hmem
      · exact hw.hasArity_of_pending hpending
    exact ⟨n, hkeeps harity⟩
  · cases h with
    | @construct x hx =>
      cases hmade : x w.system with
      | error e s =>
        rw [hmade] at hnode
        exact hc.calls hnode hpart hbound
      | ok made s =>
        rw [hmade] at hnode
        rcases List.mem_cons.mp hnode with rfl | hnode
        · exact hc.construct hw hx hmade hpart hbound
        · exact hc.calls hnode hpart hbound
    | _ => exact hc.calls hnode hpart hbound

/-- In every world that can be reached the numbers agree. -/
theorem Reached.counted (h : w.Reached) : w.Counted := by
  suffices hboth : w.Reached ∧ w.Counted from hboth.2
  refine h.induction (P := fun w => w.Reached ∧ w.Counted) (fun width denied port silent trace => ?_)
    fun hw hstep => ⟨hw.1.steps (.single hstep), hstep.counted hw.1 hw.2⟩
  exact ⟨⟨width, denied, port, silent, trace, .refl⟩,
    fun hmem => absurd hmem List.not_mem_nil, fun hnode => absurd hnode List.not_mem_nil⟩

/-! ## The protocol of calls -/

/-- How a call is executed whose subroutine can be called, from whatever machine. -/
structure CallProtocol (w : World) (l : Location) (name : String) (id : Nat) (arguments : List Node)
    (s : Subroutine) (body : Node) : Prop where
  /-- It has as many arguments as the subroutine has parameters. -/
  arity : arguments.length = s.parameters.length
  /-- Its record is that of arguments and, if all of them have values, of the body. -/
  run : ∀ (fuel : Nat) (m : Machine), CallRun w (fuel + 1) name id s body arguments
    ((m.emit (.execute "call" l)).emit (.callEntered name))
    (inside w.env (fuel + 1) (.call l name id arguments) m).1
    (inside w.env (fuel + 1) (.call l name id arguments) m).2
  /-- The record is one of the execution. -/
  faithful : ∀ (fuel : Nat) (m : Machine), exec w.env (fuel + 2) (.call l name id arguments) m =
    (inside w.env (fuel + 1) (.call l name id arguments) m).2

/-- Every call that is part of a node that was built keeps to the protocol. -/
theorem Reached.callProtocol (h : w.Reached) {node : Node} (hnode : node ∈ w.nodes) {l : Location}
    {name : String} {id : Nat} {arguments : List Node}
    (hpart : (Node.call l name id arguments).Part node) {s : Subroutine} {body : Node}
    (hcallable : w.env.callable? id = some (s, body)) :
    w.CallProtocol l name id arguments s body := by
  obtain ⟨hs, -⟩ := Environment.callable?_eq_some hcallable
  have harity : arguments.length = s.parameters.length := by
    obtain ⟨s', hs', hn⟩ := h.counted.calls hnode hpart rfl
    cases hs.symm.trans hs'
    exact hn.symm
  obtain ⟨known, hroster⟩ := h.roster
  have hknown : ∀ u v, w.Has u → v ∈ s.parameters → u.scope = v.scope → u.slot = v.slot → u = v :=
    fun u v hu hv => hroster.env.apart (hroster.has hu) (hroster.has (.env (.parameter hs hv)))
  have hproper : s.Proper id := h.tidy.proper.subroutine hs
  have hentered : ∀ values ready, values.length = arguments.length →
      s.Entered w.Has id values ready (s.opened id values ready) :=
    fun values ready hlength => hproper.entered (harity.symm.trans hlength.symm) hknown
  exact ⟨harity, fun fuel m => inside_call hcallable hentered fuel l name m,
    fun fuel m => (observe_endsAs w.env (fuel + 2) _ m).symm⟩

end World

/-- A subroutine that adds its argument twice to a variable of its own, which it changes after that,
and a call of it whose argument is another call of it. -/
def callsNested : List Command :=
  let l := Location.unknown
  let keep : Source := .cond l (.literal l 0) (.assign l "kept" (.literal l 1)) none
  let sum : Source := .binary l .add (.var l "kept") (.binary l .add (.var l "n") (.var l "n"))
  [.define ⟨l, "twice", ["n"], some "r"⟩
      (.block l [keep, .assign l "r" sum, .assign l "kept" (.literal l 7), .jump l .exit]),
    .build "call" (.call l "twice" [.call l "twice" [.literal l 3]])]

/-- The call that is built. -/
def nestedCall : Node :=
  let l := Location.unknown
  .call l "twice" 0 [.call l "twice" 0 [.literal l 3]]

/-- A new session in which the call was built. -/
def calling : Session :=
  ((Session.start .native [] (.simulated {}) false false).steps callsNested).2

/-- The head of a call that has one argument, and that argument. -/
def Node.unaryCall? : Node → Option ((Location × String × Nat) × Node)
  | .call l name id [argument] => some ((l, name, id), argument)
  | _ => none

theorem Node.eq_of_unaryCall? {node argument : Node} {head : Location × String × Nat}
    (h : node.unaryCall? = some (head, argument)) :
    node = .call head.1 head.2.1 head.2.2 [argument] := by
  unfold unaryCall? at h
  split at h
  · cases h
    rfl
  · cases h

theorem node?_calling : calling.workshop.node? "call" = some nestedCall := by
  let head : Location × String × Nat := (.unknown, "twice", 0)
  have hparts : ((calling.workshop.node? "call").bind Node.unaryCall?).bind (fun outer =>
      outer.2.unaryCall?.map fun inner =>
        (outer.1, inner.1, inner.2.location, inner.2.literal?)) =
          some (head, head, .unknown, some 3) := by
    decide +kernel
  obtain ⟨⟨first, call⟩, houter, hinner⟩ := Option.bind_eq_some_iff.mp hparts
  obtain ⟨node, hnode, houter⟩ := Option.bind_eq_some_iff.mp houter
  obtain ⟨⟨second, argument⟩, hinner, hheads⟩ := Option.map_eq_some_iff.mp hinner
  obtain ⟨hfirst, hsecond, hlocation, hliteral⟩ : first = head ∧ second = head ∧
      argument.location = .unknown ∧ argument.literal? = some 3 := by simpa using hheads
  have hargument : argument = .literal .unknown 3 := by
    cases argument with
    | literal =>
      cases hlocation
      cases hliteral
      rfl
    | _ => cases hliteral
  have hcall : call = .call second.1 second.2.1 second.2.2 [argument] := Node.eq_of_unaryCall? hinner
  rw [hnode, Node.eq_of_unaryCall? houter, hcall, hfirst, hsecond, hargument]
  rfl

/-- The outer call finds none of the values of the inner one. -/
theorem nested_callProtocol :
    ∃ (w : World) (s : Subroutine) (body : Node), w.Reached ∧ nestedCall ∈ w.nodes ∧
      w.env.callable? 0 = some (s, body) ∧
      w.CallProtocol .unknown "twice" 0 [.call .unknown "twice" 0 [.literal .unknown 3]] s body ∧
      (exec w.env 20 nestedCall w.machine).map Prod.fst = some (.ok 12) := by
  let new := Session.start .native [] (.simulated {}) false false
  have hspares : new.sparesAll callsNested = true := by decide +kernel
  obtain ⟨w, hreached, hmirrors⟩ :=
    Session.steps_reached .native [] (.simulated {}) false false hspares
  have hsystem : w.system = calling.workshop.system := by
    rw [calling, hmirrors.system]
  have hnode : nestedCall ∈ w.nodes := by
    refine hmirrors.nodes "call" nestedCall ?_
    rw [← node?_calling, calling]
  obtain ⟨⟨s, body⟩, hcallable⟩ : ∃ found, w.env.callable? 0 = some found := by
    rw [World.env, hsystem]
    exact Option.isSome_iff_exists.mp (by decide +kernel)
  have hvalue : (exec w.env 20 nestedCall w.machine).map (·.1.toOption) = some (some 12) := by
    rw [World.env, World.machine, hsystem]
    decide +kernel
  have hprotocol := hreached.callProtocol hnode .self hcallable
  refine ⟨w, s, body, hreached, hnode, hcallable, hprotocol, ?_⟩
  obtain ⟨⟨_ | _, m⟩, hends, hok⟩ := Option.map_eq_some_iff.mp hvalue
  · cases hok
  · cases hok
    rw [hends]
    rfl

end PeekPoke
