import PeekPoke.Proofs.Bindings
set_option autoImplicit false

/-!
# What a definition leaves behind

While a definition is open, names are bound inside it, and only constants join the global names
(`Environment.Widens`).  Main statement: whatever constructors are called between the opening of a
definition and its end, whether it is closed or given up, afterwards every name is bound as it was
before, up to the constants that were defined in between; and inside the definition an assignment to
a global variable that the definition does not hide is an assignment to that variable
(`World.Reached.definitionContained`).
-/

namespace PeekPoke

/-! ## Names while a definition is open -/

namespace Environment

/-- What becomes of an environment while a definition is open.  Global names stay bound as they are,
and only constants of certain names join them.  What becomes visible inside the definition is no
constant, has a new slot if it is in a global one, and is plain only under a name that no global
variable has. -/
structure Widens (defines : String → Prop) (env env' : Environment) : Prop where
  pending : env'.pending.isSome = true
  slots : env.globalSlots ≤ env'.globalSlots
  kept : ∀ {name : String} {v : Variable}, env.globals[name]? = some v →
    env'.globals[name]? = some v
  new : ∀ {name : String} {v : Variable}, env.globals[name]? = none →
    env'.globals[name]? = some v → v.kind = .constant ∧ v.scope = .global ∧ defines name
  inner : ∀ {name : String} {v : Variable}, env'.locals[name]? = some v →
    env.locals[name]? = some v ∨ v.isConstant = false ∧
      (v.scope = .global → env.globalSlots ≤ v.slot) ∧
        (v.kind = .plain → env.globals[name]? = none)

variable {defines defines' : String → Prop} {env env' : Environment} {name : String} {v : Variable}

/-- Names stay as they are. -/
theorem Widens.of_eq (hp : env.pending.isSome = true) (hglobals : env'.globals = env.globals)
    (hslots : env'.globalSlots = env.globalSlots) (hpending : env'.pending = env.pending) :
    env.Widens defines env' where
  pending := hpending ▸ hp
  slots := Nat.le_of_eq hslots.symm
  kept hv := hglobals ▸ hv
  new hfree hv := by
    rw [hglobals, hfree] at hv
    cases hv
  inner hv := by
    unfold locals at hv ⊢
    rw [hpending] at hv
    exact Or.inl hv

theorem Widens.trans {env'' : Environment} (h : env.Widens defines env')
    (h' : env'.Widens defines env'') : env.Widens defines env'' where
  pending := h'.pending
  slots := Nat.le_trans h.slots h'.slots
  kept hv := h'.kept (h.kept hv)
  new {name v} hfree hv := by
    cases hmiddle : env'.globals[name]? with
    | none => exact h'.new hmiddle hv
    | some u =>
      cases (h'.kept hmiddle).symm.trans hv
      exact h.new hfree hmiddle
  inner {name v} hv := by
    rcases h'.inner hv with hv | ⟨hconst, hslot, hplain⟩
    · exact h.inner hv
    · refine Or.inr ⟨hconst, fun hscope => Nat.le_trans h.slots (hslot hscope), fun hkind => ?_⟩
      refine Option.eq_none_iff_forall_ne_some.mpr fun g hg => ?_
      rw [h.kept hg] at hplain
      cases hplain hkind

theorem Widens.mono (h : env.Widens defines env') (hsub : ∀ name, defines name → defines' name) :
    env.Widens defines' env' where
  pending := h.pending
  slots := h.slots
  kept := h.kept
  new hfree hv := by
    obtain ⟨hkind, hscope, hname⟩ := h.new hfree hv
    exact ⟨hkind, hscope, hsub _ hname⟩
  inner := h.inner

/-- A new name is visible inside the definition. -/
theorem Widens.of_bind {definition : OpenDefinition} (hp : env.pending = some definition)
    (hglobals : env'.globals = env.globals) (hslots : env.globalSlots ≤ env'.globalSlots)
    (hpending : env'.pending =
      some { definition with locals := definition.locals.bind v })
    (hconst : v.isConstant = false) (hslot : v.scope = .global → env.globalSlots ≤ v.slot)
    (hplain : v.kind = .plain → env.globals[v.name]? = none) : env.Widens defines env' where
  pending := by
    rw [hpending]
    rfl
  slots := hslots
  kept hv := hglobals ▸ hv
  new hfree hv := by
    rw [hglobals, hfree] at hv
    cases hv
  inner hu := by
    rw [locals_of_some hpending, Names.getElem?_bind] at hu
    split at hu
    · rename_i hname
      cases hu
      exact Or.inr ⟨hconst, hslot, hname ▸ hplain⟩
    · rw [locals_of_some hp]
      exact Or.inl hu

/-- A name that is assigned is what it was, or a local of the definition if it was free. -/
theorem widens_assignable? (hp : env.pending.isSome = true)
    (h : env.assignable? name = some (v, env')) : env.Widens defines env' := by
  unfold assignable? at h
  split at h
  · split at h
    · cases h
    · cases h
      exact .of_eq hp rfl rfl rfl
  · rename_i hfree
    obtain ⟨definition, hdefinition⟩ := Option.isSome_iff_exists.mp hp
    rw [newPlain_of_some hdefinition] at h
    cases h
    exact .of_bind hdefinition rfl (Nat.le_refl _) rfl rfl nofun fun _ =>
      global_eq_none_of_lookup hfree

/-- A static variable is visible only inside the definition, but it has a global slot. -/
theorem widens_newStatic? (hp : env.pending.isSome = true)
    (h : env.newStatic? name = some (v, env')) : env.Widens defines env' := by
  obtain ⟨-, rfl, rfl⟩ := newStatic?_eq_some h
  obtain ⟨definition, hdefinition⟩ := Option.isSome_iff_exists.mp hp
  rw [@bind_of_some (env.newGlobal .static name).2 definition hdefinition]
  exact .of_bind hdefinition rfl (Nat.le_succ _) rfl rfl (fun _ => Nat.le_refl _) nofun

/-- A constant is a global one. -/
theorem widens_newConstant? (hp : env.pending.isSome = true) (hname : defines name)
    (h : env.newConstant? name = some (v, env')) : env.Widens defines env' := by
  obtain ⟨hfree, rfl, family, rfl⟩ := newConstant?_eq_some h
  have hglobals : ∀ other : String, (env.globals.bind (env.newGlobal .constant name).1)[other]? =
      if name = other then some (env.newGlobal .constant name).1 else env.globals[other]? :=
    Names.getElem?_bind _ _
  refine ⟨hp, Nat.le_succ _, fun {other u} hu => ?_, fun {other u} hnone hu => ?_, Or.inl⟩
  · refine (hglobals other).trans ((if_neg ?_).trans hu)
    rintro rfl
    rw [global_eq_none_of_lookup hfree] at hu
    cases hu
  · rcases ite_eq_iff.mp ((hglobals other).symm.trans hu) with ⟨rfl, hnew⟩ | ⟨-, hold⟩
    · cases hnew
      exact ⟨rfl, rfl, hname⟩
    · rw [hnone] at hold
      cases hold

/-- Opening a definition makes its own variables visible. -/
theorem widens_begin (env : Environment) (name : String) (parameters : List String)
    (result : Option String) : env.Widens defines (env.begin name parameters result) := by
  refine ⟨rfl, Nat.le_refl _, fun hv => hv, fun hnone hv => ?_, fun {_ v} hv => Or.inr ?_⟩
  · cases hnone.symm.trans hv
  · obtain ⟨hkind, hscope⟩ := locals_begin hv
    refine ⟨?_, fun hglobal => ?_, fun hplain => ?_⟩
    · rcases hkind with hkind | hkind
      · simp [Variable.isConstant, hkind]
      · simp [Variable.isConstant, hkind]
    · rw [hscope] at hglobal
      cases hglobal
    · rw [hplain] at hkind
      simp at hkind

/-- Outside every definition names are global. -/
theorem lookup_of_none (hp : env.pending = none) (name : String) :
    env.lookup name = env.globals[name]? := by
  simp [lookup, locals, hp]

/-- All global names refer to global slots. -/
theorem Widens.scope_eq (h : env.Widens defines env') (htidy : env.Tidy)
    (hv : env'.globals[name]? = some v) : v.scope = .global := by
  cases hbefore : env.globals[name]? with
  | none => exact (h.new hbefore hv).2.1
  | some u =>
    cases (h.kept hbefore).symm.trans hv
    exact (htidy.global hbefore).1

/-- What is visible only inside a definition never becomes global. -/
theorem Widens.ne_of_inner {env'' : Environment} {inner : String} (hp : env.pending = none)
    (htidy : env.Tidy) (h : env.Widens defines env') (h' : env.Widens defines' env'')
    (hinner : env'.locals[inner]? = some v) : env''.globals[name]? ≠ some v := by
  intro hv
  rcases h.inner hinner with hbefore | ⟨hconst, hslot, -⟩
  · simp [locals, hp] at hbefore
  · cases hbefore : env.globals[name]? with
    | none => simp [Variable.isConstant, (h'.new hbefore hv).1] at hconst
    | some u =>
      -- The variable was there before, so its slot is older than those of the definition.
      cases (h'.kept hbefore).symm.trans hv
      obtain ⟨hscope, hused⟩ := htidy.global hbefore
      exact absurd hused (Nat.not_lt_of_le (hslot hscope))

/-- A name that is global, and not the one of a variable of the subroutine or of a static variable
in it, is not hidden inside the definition. -/
theorem Widens.lookup_of_shown (hp : env.pending = none) (h : env.Widens defines env')
    (hv : env.globals[name]? = some v)
    (hshown : ∀ u, env'.locals[name]? = some u →
      u.kind ≠ .parameter ∧ u.kind ≠ .result ∧ u.kind ≠ .static) :
    env'.lookup name = some v := by
  have hnone : env'.locals[name]? = none := by
    refine Option.eq_none_iff_forall_ne_some.mpr fun u hu => ?_
    obtain ⟨hparameter, hresult, hstatic⟩ := hshown u hu
    rcases h.inner hu with hbefore | ⟨hconst, -, hplain⟩
    · simp [locals, hp] at hbefore
    · rw [hv] at hplain
      cases hkind : u.kind with
      | plain => cases hplain hkind
      | constant => simp [Variable.isConstant, hkind] at hconst
      | parameter => exact hparameter hkind
      | result => exact hresult hkind
      | static => exact hstatic hkind
  rw [lookup, hnone]
  exact h.kept hv

end Environment

/-- Whatever constructors do, they widen an environment in which a definition is open. -/
theorem System.widens_respected (defines : String → Prop) :
    System.Respected defines fun s s' : System =>
      s.env.pending.isSome = true → s.env.Widens defines s'.env where
  refl _ hp := .of_eq hp rfl rfl rfl
  trans h h' hp := (h hp).trans (h' (h hp).pending)
  onTrace _ _ hp := .of_eq hp rfl rfl rfl
  onPlain h hp := Environment.widens_assignable? hp (assignable?_eq_some h).1
  onStatic h hp := Environment.widens_newStatic? hp (newStatic?_eq_some h).1
  onCell _ hp := .of_eq hp rfl rfl rfl
  onConstant _ hname h hp := Environment.widens_newConstant? hp hname (newConstant?_eq_some h).1
  onRequest s start length device hp := by
    rw [env_noteRequest]
    exact .of_eq hp rfl rfl rfl
  onMap h hp := by
    rw [env_map h]
    exact .of_eq hp rfl rfl rfl

/-- A constant that has a name and a value is a global one. -/
theorem System.Holds.exists_global {s : System} {name : String} {x : Word} (h : s.Holds name x)
    (htidy : s.env.Tidy) :
    ∃ v, v.kind = .constant ∧ v.scope = .global ∧ s.env.globals[name]? = some v := by
  obtain ⟨v, hlookup, hconst, -⟩ := h
  rcases Option.or_eq_some_iff.mp hlookup with hlocal | ⟨-, hglobal⟩
  · rw [(htidy.locals hlocal).1] at hconst
    cases hconst
  · exact ⟨v, by simpa [Variable.isConstant] using hconst, (htidy.global hglobal).1, hglobal⟩

/-- An assignment to the name of a variable that is no constant is one to that variable: it can only
fail for the sake of its value. -/
theorem Build.assign_of_lookup {s : System} {name : String} {v : Variable}
    (hlookup : s.env.lookup name = some v) (hconst : v.isConstant = false) (l : Location)
    (value : Node) :
    Build.assign l name value s =
      (do let value ← Build.attach value; Build.create (.assign l v value)) s := by
  unfold Build.assign
  cases hattach : Build.attach value s with
  | error e s' => rw [EStateM.bind_of_error hattach, EStateM.bind_of_error hattach]
  | ok child s' =>
    have henv : s'.env = s.env :=
      ((Build.gives_attach rfl (List.mem_singleton_self value)).of_ok hattach).1
    have hassignable : s'.assignable? name = some (v, s') := by
      rw [← henv] at hlookup
      simp [System.assignable?, Environment.assignable?, hlookup, hconst]
    rw [EStateM.bind_of_ok hattach, EStateM.bind_of_ok hattach,
      EStateM.bind_of_ok (Build.orFail_of_some hassignable _ _)]

/-! ## The worlds of a definition -/

namespace World

/-- The world after a call of a constructor. -/
def call (w : World) (x : Build Node) : World := w.after (x w.system)

/-- Any number of calls of constructors. -/
def Builds : World → World → Prop :=
  Relation.ReflTransGen fun w w' => ∃ x, Construction w.nodes x ∧ w' = w.call x

/-- The open definition is closed with a body or given up. -/
inductive Closes (w : World) : World → Prop where
  | finish {name : String} {body : Node} {id : Nat} {system : System} :
      w.system.finish? name body = some (id, system) → Closes w (w.withSystem system)
  | abandon (name : String) : Closes w (w.withSystem (w.system.abandon name))

variable {w w' : World} {name : String} {v : Variable}

theorem Builds.call {u : World} {x : Build Node} (h : w.Builds u) (hx : Construction u.nodes x) :
    w.Builds (u.call x) := h.tail ⟨x, hx, rfl⟩

theorem Builds.steps (h : w.Builds w') : w.Steps w' := by
  induction h with
  | refl => exact .refl
  | tail _ hcall ih =>
    obtain ⟨x, hx, rfl⟩ := hcall
    exact ih.tail (.construct hx)

/-- One call binds only the constants it defines. -/
theorem widens_call {x : Build Node} (hx : Construction w.nodes x)
    (hp : w.env.pending.isSome = true) :
    w.env.Widens x.Binds (w.call x).env := by
  have hleads := hx.respects (System.widens_respected x.Binds) (fun hbinds => hbinds) w.system hp
  rwa [← after_system w] at hleads

theorem Builds.widens (h : w.Builds w') (hp : w.env.pending.isSome = true) :
    w.env.Widens (fun _ => True) w'.env := by
  induction h with
  | refl => exact .of_eq hp rfl rfl rfl
  | tail _ hcall ih =>
    obtain ⟨x, hx, rfl⟩ := hcall
    exact ih.trans ((widens_call hx ih.pending).mono fun _ _ => trivial)

/-- The call that binds a name among the globals. -/
structure Binding (w w' : World) (name : String) (v : Variable) (u : World) (x : Build Node) :
    Prop where
  earlier : w.Builds u
  call : Construction u.nodes x
  later : (u.call x).Builds w'
  binds : x.Binds name
  free : u.env.globals[name]? = none
  bound : (u.call x).env.globals[name]? = some v

/-- A name that is bound among the globals was bound by one of the calls. -/
theorem Builds.exists_binding (h : w.Builds w') (hp : w.env.pending.isSome = true)
    (hfree : w.env.globals[name]? = none) (hv : w'.env.globals[name]? = some v) :
    ∃ u x, Binding w w' name v u x := by
  induction h with
  | refl =>
    rw [hfree] at hv
    cases hv
  | @tail middle _ hearlier hcall ih =>
    obtain ⟨x, hx, rfl⟩ := hcall
    have hopen := (Builds.widens hearlier hp).pending
    have hwidens := widens_call hx hopen
    cases hmiddle : middle.env.globals[name]? with
    | none =>
      exact ⟨middle, x, hearlier, hx, .refl, (hwidens.new hmiddle hv).2.2, hmiddle, hv⟩
    | some v' =>
      cases (hwidens.kept hmiddle).symm.trans hv
      obtain ⟨u, y, hbinding⟩ := ih hmiddle
      exact ⟨u, y, { hbinding with later := Builds.call hbinding.later hx }⟩

/-- After the end of a definition names are global, and the same ones as before it. -/
theorem Closes.lookup (h : w.Closes w') (name : String) :
    w'.env.lookup name = w.env.globals[name]? := by
  cases h with
  | finish hfinish =>
    obtain ⟨-, -, _, rfl⟩ := System.finish?_eq_some hfinish
    exact Environment.lookup_of_none rfl name
  | abandon => exact Environment.lookup_of_none rfl name

/-! ## Definitions -/

/-- What is left of a definition, from the world before it was opened to the worlds before and after
its end. -/
structure DefinitionContained (before opened last after : World) : Prop where
  /-- Every name that was bound is bound as it was. -/
  kept : ∀ {name : String} {v : Variable}, before.env.lookup name = some v →
    after.env.lookup name = some v
  /-- Every other name that is bound now refers to a global constant, and was bound by a call that
  defines a constant of that name. -/
  new : ∀ {name : String} {v : Variable}, before.env.lookup name = none →
    after.env.lookup name = some v →
    v.kind = .constant ∧ v.scope = .global ∧ ∃ u x, Binding opened last name v u x
  /-- What was bound among the globals at some time is bound as it was then. -/
  stays : ∀ {u : World} {name : String} {v : Variable}, opened.Builds u → u.Builds last →
    u.env.globals[name]? = some v → after.env.lookup name = some v
  /-- A constant that was defined is what its name refers to. -/
  defined : ∀ {l : Location} {name : String} {value node : Node} {u : World} {system : System},
    opened.Builds u → value ∈ u.nodes →
    Build.define l name value u.system = .ok node system →
    (u.call (Build.define l name value)).Builds last →
    ∃ v, v.kind = .constant ∧ v.scope = .global ∧ after.env.lookup name = some v
  /-- So are the members of a constant that was defined from another one. -/
  definedFrom : ∀ {l : Location} {name base : String} {value node : Node} {u : World}
    {system : System}, opened.Builds u → value ∈ u.nodes →
    Build.defineFrom l name value base u.system = .ok node system →
    (u.call (Build.defineFrom l name value base)).Builds last →
    ∀ other, other = name ∨ (∃ member ∈ u.env.members base, other = Build.memberName name member) →
      ∃ v, v.kind = .constant ∧ v.scope = .global ∧ after.env.lookup other = some v
  /-- No parameter and no return variable of a subroutine, that one or another, is what a name refers
  to. -/
  own : ∀ {id : Nat} {s : Subroutine}, opened.env.subroutines[id]? = some s →
    ∀ v ∈ s.parameters ++ s.result.toList, ∀ name, after.env.lookup name ≠ some v
  /-- Nor is anything else that was visible only inside the definition at some time. -/
  hidden : ∀ {u : World} {inner : String} {v : Variable}, opened.Builds u → u.Builds last →
    u.env.locals[inner]? = some v → ∀ name, after.env.lookup name ≠ some v
  /-- Inside the definition an assignment to a global variable writes that variable, unless its name
  is the one of a parameter, the return variable or a static variable of the subroutine. -/
  assigns : ∀ {u : World} {name : String} {g : Variable}, opened.Builds u →
    before.env.lookup name = some g → g.isConstant = false →
    (∀ v, u.env.locals[name]? = some v →
      v.kind ≠ .parameter ∧ v.kind ≠ .result ∧ v.kind ≠ .static) →
    ∀ (l : Location) (value : Node), Build.assign l name value u.system =
      (do let value ← Build.attach value; Build.create (.assign l g value)) u.system

section

variable {before last after : World} {l : Location} {parameters : List String}
  {result : Option String} {system : System}

/-- A constant that a call leaves behind keeps its name until the definition is closed. -/
theorem exists_constant {u : World} {x : Build Node} {node : Node} {value : Word}
    (hu : u.Reached) (hx : Construction u.nodes x) (hp : u.env.pending.isSome = true)
    (hok : x u.system = .ok node system) (hlater : (u.call x).Builds last)
    (hcloses : last.Closes after) (hholds : system.Holds name value) :
    ∃ v, v.kind = .constant ∧ v.scope = .global ∧ after.env.lookup name = some v := by
  have htidy : (u.call x).env.Tidy := (hu.steps (.single (.construct hx))).tidy.names
  have hopen := (widens_call hx hp).pending
  have henv : (u.call x).env = system.env := by
    rw [call, hok]
    rfl
  obtain ⟨v, hkind, hscope, hv⟩ := hholds.exists_global (henv ▸ htidy)
  refine ⟨v, hkind, hscope, ?_⟩
  rw [hcloses.lookup]
  exact (hlater.widens hopen).kept (henv ▸ hv)

/-- **Definitions.**  Whatever constructors are called while a definition is open, it leaves behind
nothing but constants. -/
theorem Reached.definitionContained (h : before.Reached)
    (hbegin : Build.beginSubroutine l name parameters result before.system = .ok () system)
    (hbuilds : (before.withSystem system).Builds last) (hcloses : last.Closes after) :
    DefinitionContained before (before.withSystem system) last after := by
  obtain ⟨hnone, henv⟩ := Build.beginSubroutine_eq_ok hbegin
  have htidy : before.env.Tidy := h.tidy.names
  have hglobal : ∀ name : String, before.env.lookup name = before.env.globals[name]? :=
    Environment.lookup_of_none hnone
  have hopened : before.env.Widens (fun _ => True) (before.withSystem system).env := by
    show before.env.Widens _ system.env
    rw [henv]
    exact before.env.widens_begin _ parameters result
  have hreached : (before.withSystem system).Reached := by
    have hmoves := Build.made_beginSubroutine l name parameters result before.system
    rw [hbegin] at hmoves
    exact h.steps (steps_of_moves hmoves)
  have hwithin : ∀ {u : World}, (before.withSystem system).Builds u →
      before.env.Widens (fun _ => True) u.env :=
    fun hu => hopened.trans (hu.widens hopened.pending)
  constructor
  case kept =>
    intro name v hv
    rw [hglobal] at hv
    rw [hcloses.lookup]
    exact (hwithin hbuilds).kept hv
  case new =>
    intro name v hfree hv
    rw [hglobal] at hfree
    rw [hcloses.lookup] at hv
    obtain ⟨hkind, hscope, -⟩ := (hwithin hbuilds).new hfree hv
    refine ⟨hkind, hscope, hbuilds.exists_binding hopened.pending ?_ hv⟩
    -- Opening the definition binds no global name.
    show system.env.globals[name]? = none
    rw [henv]
    exact hfree
  case stays =>
    intro u name v hu hlater hv
    rw [hcloses.lookup]
    exact (hlater.widens (hwithin hu).pending).kept hv
  case defined =>
    intro l name value node u made hu hvalue hok hlater
    have hreachedu := hreached.steps hu.steps
    obtain ⟨x, -, hholds⟩ := Build.holds_define hreachedu.tidy.names hok
    exact exists_constant hreachedu (.define l name hvalue) (hwithin hu).pending hok hlater hcloses
      hholds
  case definedFrom =>
    intro l name base value node u made hu hvalue hok hlater other hother
    have hreachedu := hreached.steps hu.steps
    obtain ⟨x, b, -, hname, -, hmembers⟩ := Build.holds_defineFrom hreachedu.tidy.names hok
    obtain ⟨y, hholds⟩ : ∃ y, made.Holds other y := by
      rcases hother with rfl | ⟨member, hmember, rfl⟩
      · exact ⟨x, hname⟩
      · obtain ⟨source, -, hdifference⟩ := hmembers member hmember
        exact ⟨_, hdifference⟩
    exact exists_constant hreachedu (.defineFrom l name base hvalue) (hwithin hu).pending hok hlater
      hcloses hholds
  case own =>
    intro id s hs v hv name hlookup
    rw [hcloses.lookup] at hlookup
    have hscope := (hwithin hbuilds).scope_eq htidy hlookup
    rw [((hreached.tidy.proper.subroutine hs).own v hv).1] at hscope
    cases hscope
  case hidden =>
    intro u inner v hu _ hinner name
    rw [hcloses.lookup]
    exact (hwithin hu).ne_of_inner hnone htidy (hwithin hbuilds) hinner
  case assigns =>
    intro u name g hu hg hconst hshown l value
    rw [hglobal] at hg
    exact Build.assign_of_lookup ((hwithin hu).lookup_of_shown hnone hg hshown) hconst l value

end

/-- A literal. -/
def five : Node := .literal .unknown 5

/-- A world with a global variable. -/
def assigned : World :=
  ((opened .native [] (.simulated {}) false false).call (Build.literal .unknown 5)).call
    (Build.assign .unknown "g" five)

/-- The definition of a subroutine with a parameter and a return variable is opened. -/
def begun : World :=
  assigned.withSystem
    (stateAfter (Build.beginSubroutine .unknown "f" ["n"] (some "r") assigned.system))

/-- A static variable is declared in it. -/
def declared : World := begun.call (Build.static .unknown "calls" five)

/-- A constant is defined. -/
def limited : World := declared.call (Build.define .unknown "limit" five)

/-- The global variable and a new one are assigned. -/
def filled : World :=
  (limited.call (Build.assign .unknown "g" five)).call (Build.assign .unknown "tmp" five)

/-- The definition is given up. -/
def givenUp : World := filled.withSystem (filled.system.abandon "f")

/-- The global variable is what it was, and the constant is left. -/
theorem filled_definitionContained :
    assigned.Reached ∧ begun.Builds filled ∧ filled.Closes givenUp ∧
      DefinitionContained assigned begun filled givenUp ∧
      givenUp.env.lookup "g" = some ⟨"g", .plain, .global, 0⟩ ∧
      ∃ v, v.kind = .constant ∧ v.scope = .global ∧ givenUp.env.lookup "limit" = some v := by
  have hassigned : (opened .native [] (.simulated {}) false false).Builds assigned :=
    Builds.call (.call .refl (.literal .unknown 5)) (.assign .unknown "g" List.mem_cons_self)
  have hreached : assigned.Reached := ⟨.native, [], .simulated {}, false, false, hassigned.steps⟩
  have hbegin : Build.beginSubroutine .unknown "f" ["n"] (some "r") assigned.system =
      .ok () begun.system := rfl
  have hgiven : five ∈ begun.nodes := List.mem_cons_of_mem _ List.mem_cons_self
  have hdeclared : begun.Builds declared := Builds.call .refl (.static .unknown "calls" hgiven)
  have hdefine : Construction declared.nodes (Build.define .unknown "limit" five) :=
    .define .unknown "limit" (hdeclared.steps.nodes hgiven)
  have hlimited : five ∈ limited.nodes := (hdeclared.call hdefine).steps.nodes hgiven
  have hassign := Builds.call .refl (.assign .unknown "g" hlimited)
  have hlater : limited.Builds filled :=
    hassign.call (.assign .unknown "tmp" (hassign.steps.nodes hlimited))
  have hfilled : begun.Builds filled := (hdeclared.call hdefine).trans hlater
  have hcloses : filled.Closes givenUp := .abandon "f"
  have hcontained : DefinitionContained assigned begun filled givenUp :=
    Reached.definitionContained hreached hbegin hfilled hcloses
  have hbound : assigned.env.lookup "g" = some ⟨"g", .plain, .global, 0⟩ := by rfl
  exact ⟨hreached, hfilled, hcloses, hcontained, hcontained.kept hbound,
    hcontained.defined hdeclared (hdeclared.steps.nodes hgiven) rfl hlater⟩

end World

end PeekPoke
