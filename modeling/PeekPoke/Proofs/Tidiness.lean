import PeekPoke.Proofs.Activity
import PeekPoke.Proofs.Folding.Twin
import PeekPoke.Proofs.Worlds
set_option autoImplicit false

/-!
# Tidy worlds

Whatever an embedder does, its world stays tidy (`World.Tidy`): names are bound to slots in use, what
nodes and calls write is no constant, the constants that nodes read are the ones their names are bound
to, every constant part of a node that could be folded is a literal, and every body of a subroutine is
a node that was built.  Main statements: every step keeps a world tidy and its constants fixed
(`World.Step.grows`), and so does every machine in between (`World.Tidy.holds_of_visits`).
-/

namespace PeekPoke

/-! ## What can happen to an environment -/

theorem Names.of_bind {names : Names} {v u : Variable} {name : String}
    (h : (names.bind v)[name]? = some u) : u = v ∨ names[name]? = some u := by
  rw [Names.getElem?_bind] at h
  split at h
  · exact Or.inl (Option.some.inj h).symm
  · exact Or.inr h

namespace Environment

/-- How many slots of a scope are in use. -/
def slots (env : Environment) : Scope → Nat
  | .global => env.globalSlots
  | .subroutine id => (env.subroutines[id]?).elim 0 (·.slots)

/-- One change of an environment: new variables in new slots, or other definitions.  A definition is
closed only with certain bodies. -/
inductive Change (bodies : Node → Prop) (env : Environment) : Environment → Prop where
  /-- Names, slots and subroutines stay as they are. -/
  | same {env' : Environment} : env'.globals = env.globals → env'.globalSlots = env.globalSlots →
      env'.subroutines = env.subroutines → env'.pending = env.pending →
      env'.foldConstants = env.foldConstants → Change bodies env env'
  /-- A variable in a new global slot, whose name is bound globally or in the open definition. -/
  | globalSlot {env' : Environment} (v : Variable) : v.scope = .global →
      v.slot = env.globalSlots → env'.globalSlots = env.globalSlots + 1 →
      env'.subroutines = env.subroutines → env'.pendingId? = env.pendingId? →
      env'.foldConstants = env.foldConstants →
      (∀ {name : String} {u : Variable}, env'.globals[name]? = some u →
        u = v ∨ env.globals[name]? = some u) →
      (∀ {name : String} {u : Variable}, env'.locals[name]? = some u →
        u = v ∨ env.locals[name]? = some u) → Change bodies env env'
  /-- A variable in a new slot of the subroutine that is being defined. -/
  | localSlot {env' : Environment} {id : Nat} (v : Variable) : env.pendingId? = some id →
      v.scope = .subroutine id → v.slot = env.slots (.subroutine id) →
      env'.globals = env.globals → env'.globalSlots = env.globalSlots →
      env'.subroutines = env.subroutines.modify id (fun s => { s with slots := s.slots + 1 }) →
      env'.pendingId? = env.pendingId? → env'.foldConstants = env.foldConstants →
      (∀ {name : String} {u : Variable}, env'.locals[name]? = some u →
        u = v ∨ env.locals[name]? = some u) → Change bodies env env'
  | begin (name : String) (parameters : List String) (result : Option String) :
      Change bodies env (env.begin name parameters result)
  | finish {name : String} {body : Node} {id : Nat} {env' : Environment} : bodies body →
      env.finish? name body = some (id, env') → Change bodies env env'
  | abandon : Change bodies env env.abandon

/-- Any number of changes. -/
def Changes (bodies : Node → Prop) : Environment → Environment → Prop :=
  Relation.ReflTransGen (Change bodies)

variable {bodies : Node → Prop} {env env' : Environment} {name : String} {v : Variable}

theorem pendingId?_bind (env : Environment) (v : Variable) :
    (env.bind v).pendingId? = env.pendingId? := by
  unfold bind pendingId?
  split
  · rfl
  · rename_i hp
    rw [hp]
    rfl

theorem locals_of_some {definition : OpenDefinition} (hp : env.pending = some definition) :
    env.locals = definition.locals := by
  unfold locals
  rw [hp]

theorem globals_of_bind {u : Variable} (h : (env.bind v).globals[name]? = some u) :
    u = v ∨ env.globals[name]? = some u := by
  cases hp : env.pending with
  | none =>
    rw [bind_of_none hp] at h
    exact Names.of_bind h
  | some definition =>
    rw [bind_of_some hp] at h
    exact Or.inr h

theorem locals_of_bind {u : Variable} (h : (env.bind v).locals[name]? = some u) :
    u = v ∨ env.locals[name]? = some u := by
  cases hp : env.pending with
  | none =>
    rw [bind_of_none hp] at h
    exact Or.inr h
  | some definition =>
    rw [bind_of_some hp] at h
    rw [locals_of_some hp]
    exact Names.of_bind h

theorem change_bind (kind : VariableKind) (name : String) :
    env.Change bodies ((env.newGlobal kind name).2.bind (env.newGlobal kind name).1) :=
  .globalSlot (env.newGlobal kind name).1 rfl rfl
    (by unfold bind; split <;> rfl) (subroutines_bind _ _) (pendingId?_bind _ _)
    (foldConstants_bind _ _) globals_of_bind locals_of_bind

theorem change_assignable? (h : env.assignable? name = some (v, env')) : env.Change bodies env' := by
  unfold assignable? at h
  split at h
  · split at h
    · cases h
    · cases h
      exact .same rfl rfl rfl rfl rfl
  · cases hp : env.pending with
    | none =>
      have hnew : env.newPlain name = (v, env') := Option.some.inj h
      unfold newPlain at hnew
      rw [hp] at hnew
      cases hnew
      exact change_bind .plain name
    | some definition =>
      rw [newPlain_of_some hp] at h
      cases h
      have hid : env.pendingId? = some definition.subroutine := by
        unfold pendingId?
        rw [hp]
        rfl
      refine .localSlot ⟨name, .plain, .subroutine definition.subroutine, _⟩ hid rfl rfl rfl rfl rfl
        ?_ rfl fun hu => ?_
      · rw [hid]
        rfl
      · rw [locals_of_some hp]
        exact Names.of_bind hu

theorem change_newStatic? (h : env.newStatic? name = some (v, env')) : env.Change bodies env' := by
  obtain ⟨_, rfl, rfl⟩ := newStatic?_eq_some h
  exact change_bind .static name

theorem change_newConstant? (h : env.newConstant? name = some (v, env')) :
    env.Change bodies env' := by
  obtain ⟨-, rfl, _, rfl⟩ := newConstant?_eq_some h
  exact .globalSlot _ rfl rfl rfl rfl rfl rfl Names.of_bind Or.inr

end Environment

namespace System

variable {bodies : Node → Prop} {s s' : System}

theorem env_noteRequest (s : System) (start length : Word) (device : String) :
    (s.noteRequest start length device).env = s.env := by
  unfold noteRequest
  split
  · rfl
  · rfl

theorem env_map {start length : Word} {device : String}
    (h : s.map start length device = .ok s') : s'.env = s.env := by
  unfold map at h
  dsimp only at h
  split at h
  · cases h
  · cases h
  · cases h
    rfl
  · cases h
    rfl

theorem Move.change (h : Move s s') : s.env.Change bodies s'.env := by
  cases h with
  | trace => exact .same rfl rfl rfl rfl rfl
  | plain h => exact Environment.change_assignable? (assignable?_eq_some h).1
  | static h => exact Environment.change_newStatic? (newStatic?_eq_some h).1
  | cell => exact .same rfl rfl rfl rfl rfl
  | constant w h => exact Environment.change_newConstant? (newConstant?_eq_some h).1
  | request start length device =>
    rw [env_noteRequest]
    exact .same rfl rfl rfl rfl rfl
  | map h =>
    rw [env_map h]
    exact .same rfl rfl rfl rfl rfl
  | begin name _ _ => exact .begin name _ _

theorem Moves.changes (h : Moves s s') : Environment.Changes bodies s.env s'.env := by
  induction h with
  | refl => exact .refl
  | tail _ hmove ih => exact ih.tail hmove.change

end System

/-! ## Subroutines -/

/-- The variables of a subroutine are its own and no constants, and each has a slot of its own. -/
structure Subroutine.Proper (id : Nat) (s : Subroutine) : Prop where
  own : ∀ v ∈ s.parameters ++ s.result.toList, v.scope = .subroutine id ∧ v.isConstant = false
  apart : (s.parameters ++ s.result.toList).Pairwise fun u v => u.slot ≠ v.slot

namespace Environment

/-- Constants are folded, every subroutine has its own variables, and every body is one of certain
nodes. -/
structure Proper (bodies : Node → Prop) (env : Environment) : Prop where
  folds : env.foldConstants = true
  subroutine : ∀ {id : Nat} {s : Subroutine}, env.subroutines[id]? = some s → s.Proper id
  body : ∀ {id : Nat} {s : Subroutine} {body : Node}, env.subroutines[id]? = some s →
    s.body = some body → bodies body

variable {bodies bodies' : Node → Prop} {env env' : Environment}

theorem Proper.mono (h : env.Proper bodies) (hsub : ∀ body, bodies body → bodies' body) :
    env.Proper bodies' := ⟨h.folds, h.subroutine, fun hs hb => hsub _ (h.body hs hb)⟩

theorem Proper.of_eq (h : env.Proper bodies) (hfolds : env'.foldConstants = env.foldConstants)
    (hsubs : env'.subroutines = env.subroutines) : env'.Proper bodies where
  folds := hfolds.trans h.folds
  subroutine hs := h.subroutine (hsubs ▸ hs)
  body hs := h.body (hsubs ▸ hs)

/-- One subroutine is changed, but not in its variables. -/
theorem Proper.modify (h : env.Proper bodies) (hfolds : env'.foldConstants = env.foldConstants)
    {id : Nat} {f : Subroutine → Subroutine} (hsubs : env'.subroutines = env.subroutines.modify id f)
    (hparameters : ∀ s, (f s).parameters = s.parameters) (hresult : ∀ s, (f s).result = s.result)
    (hbody : ∀ {s : Subroutine} {body : Node}, (f s).body = some body →
      s.body = some body ∨ bodies body) : env'.Proper bodies := by
  have hinv : ∀ {j : Nat} {s' : Subroutine}, env'.subroutines[j]? = some s' →
      ∃ s, env.subroutines[j]? = some s ∧ (s' = s ∨ s' = f s) := by
    intro j s' hs'
    rw [hsubs, Array.getElem?_modify] at hs'
    split at hs'
    · obtain ⟨s, hs, rfl⟩ := Option.map_eq_some_iff.mp hs'
      exact ⟨s, hs, Or.inr rfl⟩
    · exact ⟨s', hs', Or.inl rfl⟩
  refine ⟨hfolds.trans h.folds, fun hs' => ?_, fun hs' hb => ?_⟩
  · obtain ⟨s, hs, rfl | rfl⟩ := hinv hs'
    · exact h.subroutine hs
    · obtain ⟨hown, hapart⟩ := h.subroutine hs
      rw [← hparameters, ← hresult] at hown hapart
      exact ⟨hown, hapart⟩
  · obtain ⟨s, hs, rfl | rfl⟩ := hinv hs'
    · exact h.body hs hb
    · rcases hbody hb with hb | hb
      · exact h.body hs hb
      · exact hb

theorem callable?_eq_some {id : Nat} {s : Subroutine} {body : Node}
    (h : env.callable? id = some (s, body)) :
    env.subroutines[id]? = some s ∧ s.body = some body := by
  unfold callable? at h
  split at h
  · obtain ⟨s', hs, h⟩ := Option.bind_eq_some_iff.mp h
    obtain ⟨body', hbody, h⟩ := Option.bind_eq_some_iff.mp h
    cases h
    exact ⟨hs, hbody⟩
  · cases h

/-- The subroutine that is opened last. -/
theorem subroutines_begin (env : Environment) (name : String) (parameters : List String)
    (result : Option String) :
    ∃ s : Subroutine, (env.begin name parameters result).subroutines = env.subroutines.push s ∧
      s.Proper env.subroutines.size ∧ s.body = none ∧
      (∀ v ∈ s.parameters ++ s.result.toList, v.slot < s.slots) ∧
      (env.begin name parameters result).pending =
        some ⟨env.subroutines.size, Names.ofList (s.parameters ++ s.result.toList)⟩ := by
  let first := parameters.mapIdx fun slot name =>
    (⟨name, .parameter, .subroutine env.subroutines.size, slot⟩ : Variable)
  let last := result.map fun name =>
    (⟨name, .result, .subroutine env.subroutines.size, parameters.length⟩ : Variable)
  have hfirst : ∀ v ∈ first, v.scope = .subroutine env.subroutines.size ∧ v.isConstant = false ∧
      v.slot < parameters.length := by
    intro v hv
    obtain ⟨slot, hslot, rfl⟩ := List.mem_mapIdx.mp hv
    exact ⟨rfl, rfl, hslot⟩
  have hlast : ∀ v ∈ last.toList, v.scope = .subroutine env.subroutines.size ∧
      v.isConstant = false ∧ v.slot = parameters.length := by
    intro v hv
    obtain ⟨_, _, rfl⟩ := Option.map_eq_some_iff.mp (Option.mem_toList.mp hv)
    exact ⟨rfl, rfl, rfl⟩
  refine ⟨_, rfl, ⟨fun v hv => ?_, ?_⟩, rfl, fun v hv => ?_, rfl⟩
  · rcases List.mem_append.mp hv with hv | hv
    · exact ⟨(hfirst v hv).1, (hfirst v hv).2.1⟩
    · exact ⟨(hlast v hv).1, (hlast v hv).2.1⟩
  · refine List.pairwise_append.mpr ⟨?_, ?_, fun u hu v hv => ?_⟩
    · refine List.pairwise_iff_getElem.mpr fun i j hi hj hij => ?_
      simpa using Nat.ne_of_lt hij
    · cases result <;> simp
    · rw [(hlast v hv).2.2]
      exact Nat.ne_of_lt (hfirst u hu).2.2
  · have hlength : first.length = parameters.length := List.length_mapIdx
    show v.slot < (first ++ last.toList).length
    rw [List.length_append, hlength]
    rcases List.mem_append.mp hv with hv | hv
    · exact Nat.lt_add_right _ (hfirst v hv).2.2
    · rw [(hlast v hv).2.2]
      exact Nat.lt_add_of_pos_right (List.length_pos_of_mem hv)

theorem Change.proper (h : env.Change bodies env') (hp : env.Proper bodies) : env'.Proper bodies := by
  cases h with
  | same _ _ hsubs _ hfolds => exact hp.of_eq hfolds hsubs
  | globalSlot _ _ _ _ hsubs _ hfolds => exact hp.of_eq hfolds hsubs
  | localSlot _ _ _ _ _ _ hsubs _ hfolds =>
    exact hp.modify hfolds hsubs (fun _ => rfl) (fun _ => rfl) Or.inl
  | begin name parameters result =>
    obtain ⟨s, hsubs, hs, hbody, -⟩ := env.subroutines_begin name parameters result
    refine ⟨hp.folds, fun {id s'} hs' => ?_, fun {id s' body} hs' hb => ?_⟩
    · rw [hsubs, Array.getElem?_push] at hs'
      split at hs'
      · cases hs'
        subst id
        exact hs
      · exact hp.subroutine hs'
    · rw [hsubs, Array.getElem?_push] at hs'
      split at hs'
      · cases hs'
        rw [hbody] at hb
        cases hb
      · exact hp.body hs' hb
  | @finish _ body _ _ hbody hfinish =>
    obtain ⟨-, -, rfl⟩ := Environment.finish?_eq_some hfinish
    refine hp.modify (f := fun s => { s with body := some body }) rfl rfl (fun _ => rfl)
      (fun _ => rfl) fun hb => ?_
    cases hb
    exact Or.inr hbody
  | abandon => exact hp.of_eq rfl rfl

theorem Changes.proper (h : Changes bodies env env') (hp : env.Proper bodies) :
    env'.Proper bodies := by
  induction h with
  | refl => exact hp
  | tail _ hchange ih => exact hchange.proper ih

end Environment

/-! ## Nodes -/

namespace Node

/-- What the node writes may be written, the constants it reads are bound, and its constant children
are literals unless it is an import. -/
structure Settled (env : Environment) (node : Node) : Prop where
  target : ∀ v, node.target? = some v → env.Writable v
  source : ∀ v, node.source? = some v → v.isConstant = true → env.globals[v.name]? = some v
  folded : node.isImport = false → ∀ c ∈ node.children, c.isConstant = true →
    c.literal?.isSome = true

/-- Every part of the node is settled. -/
def Tidy (env : Environment) (node : Node) : Prop :=
  ∀ part : Node, part.Part node → part.Settled env

variable {env env' : Environment} {given : List Node} {node part : Node}

theorem Part.cases (h : part.Part node) : part = node ∨ ∃ c ∈ node.children, part.Part c := by
  cases h with
  | self => exact Or.inl rfl
  | child hc hpart => exact Or.inr ⟨_, hc, hpart⟩

/-- A literal has no part but itself. -/
theorem Part.eq_literal {l : Location} {w : Word} (h : part.Part (.literal l w)) :
    part = .literal l w := by
  rcases h.cases with h | ⟨c, hc, _⟩
  · exact h
  · cases hc

theorem Tidy.mono (h : node.Tidy env) (hgrows : env.Grows env') : node.Tidy env' := by
  intro part hpart
  obtain ⟨htarget, hsource, hfolded⟩ := h part hpart
  exact ⟨fun v hv => hgrows.writable (htarget v hv),
    fun v hv hc => hgrows.constant (hsource v hv hc) hc, hfolded⟩

/-- Where the parts of a node come from that is made of given ones. -/
theorem MadeOf.cases_part (h : node.MadeOf env given) (hpart : part.Part node) :
    part = node ∨ (∃ g ∈ given, part.Part g) ∨ ∃ l w, part = .literal l w := by
  rcases hpart.cases with rfl | ⟨c, hc, hpart⟩
  · exact Or.inl rfl
  · rcases h.child c hc with hgiven | ⟨l, w, rfl⟩
    · exact Or.inr (Or.inl ⟨c, hgiven, hpart⟩)
    · exact Or.inr (Or.inr ⟨l, w, hpart.eq_literal⟩)

theorem settled_literal (env : Environment) (l : Location) (w : Word) :
    (Node.literal l w).Settled env := by
  refine ⟨fun v hv => ?_, fun v hv => ?_, fun _ c hc => ?_⟩
  · cases hv
  · cases hv
  · cases hc

/-- A node that is made of tidy ones is tidy. -/
theorem MadeOf.tidy (h : node.MadeOf env given) (hnames : env.Tidy)
    (hfolds : env.foldConstants = true) (hgiven : ∀ g ∈ given, g.Tidy env) : node.Tidy env := by
  intro part hpart
  rcases h.cases_part hpart with rfl | ⟨g, hg, hpart⟩ | ⟨l, w, rfl⟩
  · refine ⟨fun v hv => ?_, fun v hv hc => ?_, h.folded hfolds⟩
    · rcases h.target v hv with ⟨hc, name, hlookup⟩ | ⟨g, hg, hv⟩
      · exact hnames.writable_of_lookup hlookup hc
      · exact (hgiven g hg g .self).target v hv
    · obtain ⟨name, hlookup⟩ := h.source v hv
      exact hnames.global_of_lookup hlookup hc
  · exact hgiven g hg part hpart
  · exact settled_literal env l w

end Node

/-! ## Worlds -/

namespace World

/-- Names, subroutines, nodes and the variables the embedder has got hold of are in order. -/
structure Tidy (w : World) : Prop where
  names : w.env.Tidy
  proper : w.env.Proper (· ∈ w.nodes)
  obtained : ∀ v ∈ w.obtained, v.isConstant = false → w.env.Writable v
  node : ∀ node ∈ w.nodes, node.Tidy w.env

variable {w w' : World}

/-- Every variable of the environment may be written unless it is a constant. -/
theorem Tidy.writable_of_has (h : w.Tidy) {v : Variable} (hv : w.env.Has v)
    (hc : v.isConstant = false) : w.env.Writable v := by
  cases hv with
  | global hv => exact h.names.writable hv hc
  | inner hv => exact h.names.locals hv
  | parameter hs hv =>
    have hown := (h.proper.subroutine hs).own v (List.mem_append_left _ hv)
    exact Environment.writable_of_subroutine hc hown.1
  | result hs hv =>
    have hown := (h.proper.subroutine hs).own v (by simp [hv])
    exact Environment.writable_of_subroutine hc hown.1

/-- The constants of the world with their values, and what may be written. -/
def Tidy.fixture (h : w.Tidy) : Fixture := w.system.fixture h.names 0

/-- What tidy nodes do changes no constant. -/
theorem Tidy.confines (h : w.Tidy) :
    w.env.Confines (Effect.Keeps fun m => h.fixture.Holds m.stores) fun node => node.Tidy w.env := by
  have hkeeps : ∀ {α : Type} {e : Effect α}, (∀ v, e.target? = some v → w.env.Writable v) →
      e.Keeps fun m => h.fixture.Holds m.stores :=
    fun he m hm => Effect.holds_apply _ he hm
  refine ⟨fun hnode hchild part hpart => hnode part (.child hchild hpart), ?_, ?_, ?_, ?_⟩
  · intro node α e hnode he
    exact hkeeps fun v hv => (hnode node .self).target v (he.target?_eq hv)
  · intro id s body hid
    obtain ⟨hs, hbody⟩ := Environment.callable?_eq_some hid
    exact h.node body (h.proper.body hs hbody)
  · intro id s body hid v hv x
    obtain ⟨hs, -⟩ := Environment.callable?_eq_some hid
    obtain ⟨hscope, hc⟩ := (h.proper.subroutine hs).own v (List.mem_append_left _ hv)
    refine hkeeps fun v' hv' => ?_
    cases hv'
    exact Environment.writable_of_subroutine hc hscope
  · intro id s body hid v hv
    exact hkeeps fun v' hv' => by cases hv'

theorem Tidy.holds_throughout (h : w.Tidy) (fuel : Nat) {root : Node} (hroot : root ∈ w.nodes) :
    (observe w.env fuel root).Abides (Throughout fun m => h.fixture.Holds m.stores) := by
  have hinvariant : Invariant fun m => h.fixture.Holds m.stores :=
    ⟨fun _ _ hm => hm, fun b m hm => hm.of_global_eq (b.global_enter m),
      fun b m hm => hm.of_global_eq (b.global_leave m)⟩
  exact hinvariant.observe h.confines fuel (h.node root hroot)

/-- The machines of a world: its own, and those in which a node is executed while a node that was
built is executed. -/
inductive Visits (w : World) : Machine → Prop where
  | now : Visits w w.machine
  | during {root node : Node} {fuel : Nat} {m : Machine} {inner : List Activity}
      {ending : Ending Word} : root ∈ w.nodes →
      Activity.Occurs (.execution node m inner ending) (observe w.env fuel root w.machine).1 →
      Visits w m

/-- All of them have the constants. -/
theorem Tidy.holds_of_visits (h : w.Tidy) {m : Machine} (hm : w.Visits m) :
    h.fixture.Holds m.stores := by
  have hnow : h.fixture.Holds w.machine.stores := System.holds_fixture h.names 0
  cases hm with
  | now => exact hnow
  | @during root node fuel _ _ _ hroot hoccurs =>
    exact (h.holds_throughout fuel hroot w.machine hnow).1 hoccurs

/-! ## Steps -/

theorem Step.changes (h : w.Step w') : Environment.Changes (· ∈ w.nodes) w.env w'.env := by
  cases h with
  | construct hx =>
    unfold World.env
    rw [after_system]
    exact System.Moves.changes (hx.leads w.system)
  | move hmove => exact .single hmove.change
  | newConstant hmade =>
    exact .single (Environment.change_newConstant? (System.newConstant?_eq_some hmade).1)
  | finish hbody hfinish =>
    exact .single (.finish hbody (System.env_finish? hfinish))
  | finishFails | abandon => exact .single .abandon
  | drop hdrop =>
    obtain rfl := System.drop?_eq_some hdrop
    exact .single (.same rfl rfl rfl rfl rfl)
  | hold | release => exact .single (.same rfl rfl rfl rfl rfl)
  | obtain | assign | execute | outside => exact .refl

/-- Every step keeps the names tidy and the constants fixed. -/
theorem Step.grows (h : w.Step w') (hw : w.Tidy) : w.system.Grows w'.system := by
  have hsame : w.env.Grows w.env := .refl hw.names
  cases h with
  | construct hx =>
    rw [after_system]
    exact System.Moves.grows (hx.leads w.system) hw.names
  | move hmove => exact hmove.grows hw.names
  | newConstant hmade =>
    obtain ⟨henv, trace, hmachine⟩ := System.newConstant?_eq_some hmade
    exact .of_stores (hw.names.grows_newConstant? henv).1 (by rw [withSystem, hmachine]; rfl)
  | obtain => exact .of_stores hsame rfl
  | @assign v value hv hc =>
    have hwritable := hw.obtained v hv hc
    refine ⟨hsame, fun hbound hconst => ?_⟩
    exact Stores.get_set_of_ne _ (hw.names.global hbound).1
      (fun hscope => (hwritable.2 hscope).2 _ _ hbound hconst) value
  | finish _ hfinish =>
    obtain ⟨-, -, _, rfl⟩ := System.finish?_eq_some hfinish
    exact .of_stores (hw.names.grows_close rfl rfl rfl) rfl
  | finishFails | abandon => exact .of_stores (hw.names.grows_close rfl rfl rfl) rfl
  | drop hdrop =>
    obtain rfl := System.drop?_eq_some hdrop
    exact .of_stores (hw.names.grows_of_names rfl rfl rfl) rfl
  | hold | release => exact .of_stores (hw.names.grows_of_names rfl rfl rfl) rfl
  | @execute node fuel r m hnode hexec =>
    have hend := hw.holds_throughout fuel hnode w.machine (System.holds_fixture hw.names 0)
    rw [observe_endsAs, hexec] at hend
    exact ⟨hsame, fun {name c} hbound hconst => hend.2 m rfl c _
      ⟨hw.names.named hbound ▸ hbound, hconst, rfl⟩⟩
  | outside hstores => exact .of_stores hsame hstores

/-- What the embedder has got hold of after a step. -/
theorem Step.obtained (h : w.Step w') {v : Variable} (hv : v ∈ w'.obtained) :
    v ∈ w.obtained ∨ w.env.Has v := by
  cases h with
  | obtain hhas =>
    rcases List.mem_cons.mp hv with rfl | hv
    · exact Or.inr hhas
    · exact Or.inl hv
  | construct =>
    unfold after at hv
    split at hv
    · exact Or.inl hv
    · exact Or.inl hv
  | _ => exact Or.inl hv

/-- The nodes after a step: besides the ones there were, at most one that is made of them. -/
theorem Step.built (h : w.Step w') {node : Node} (hn : node ∈ w'.nodes) :
    node ∈ w.nodes ∨ node.MadeOf w'.env w.nodes := by
  cases h with
  | @construct x hx =>
    cases hmade : x w.system with
    | error e s =>
      rw [hmade] at hn
      exact Or.inl hn
    | ok made s =>
      rw [hmade] at hn
      rcases List.mem_cons.mp hn with rfl | hn
      · exact Or.inr ((hx.gives w.system).of_ok hmade)
      · exact Or.inl hn
  | _ => exact Or.inl hn

theorem Step.tidy (h : w.Step w') (hw : w.Tidy) : w'.Tidy := by
  have hgrows : w.env.Grows w'.env := (h.grows hw).names
  have hproper : w'.env.Proper (· ∈ w.nodes) := h.changes.proper hw.proper
  refine ⟨hgrows.tidy, hproper.mono fun body hbody => h.nodes hbody, fun v hv hc => ?_,
    fun node hnode => ?_⟩
  · rcases h.obtained hv with hv | hv
    · exact hgrows.writable (hw.obtained v hv hc)
    · exact hgrows.writable (hw.writable_of_has hv hc)
  · rcases h.built hnode with hnode | hmade
    · exact (hw.node node hnode).mono hgrows
    · exact hmade.tidy hgrows.tidy hproper.folds fun g hg => (hw.node g hg).mono hgrows

theorem tidy_opened (defaultWidth : Width) (denied : List String) (port : Port)
    (silent trace : Bool) : (opened defaultWidth denied port silent trace).Tidy := by
  have hnone : ∀ name : String, (∅ : Names)[name]? = none := fun _ => by simp
  refine ⟨Environment.tidy_of_unbound hnone hnone, ⟨rfl, fun hs => ?_, fun hs => ?_⟩,
    fun v hv => ?_, fun node hnode => ?_⟩
  · cases hs
  · cases hs
  · cases hv
  · cases hnode

/-- Every world that can be reached is tidy. -/
theorem Reached.tidy (h : w.Reached) : w.Tidy :=
  h.induction tidy_opened fun hw hstep => hstep.tidy hw

/-- However many steps are taken, every constant keeps its name and its value. -/
theorem Steps.grows (h : w.Steps w') (hw : w.Tidy) : w'.Tidy ∧ w.system.Grows w'.system := by
  induction h with
  | refl => exact ⟨hw, .refl hw.names⟩
  | tail _ hlast ih => exact ⟨hlast.tidy ih.1, ih.2.trans (hlast.grows ih.1)⟩

end World

end PeekPoke
