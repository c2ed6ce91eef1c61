import PeekPoke.Proofs.Moves
import PeekPoke.Proofs.Folding.Relation
set_option autoImplicit false

/-!
# Constants that stay fixed

The slots of constants are never written by a script: a name that can be assigned is never a
constant, and a new variable never takes a slot that is in use (`Environment.Tidy`).  Every move of
building keeps the names tidy, keeps every constant under its name with its value, and keeps
writable what was writable (`System.Moves.grows`).  So a tidy system has a `Fixture`
(`System.fixture`), which only grows while scripts are built.
-/

namespace PeekPoke

/-! ## Tidy names -/

namespace Environment

/-- A variable that a script may write: it is no constant and not in the slot of one. -/
def Writable (env : Environment) (v : Variable) : Prop :=
  v.isConstant = false ∧
    (v.scope = .global → v.slot < env.globalSlots ∧
      ∀ (name : String) (c : Variable), env.globals[name]? = some c → c.isConstant = true →
        c.slot ≠ v.slot)

/-- Global names are bound to global slots that are in use, under their own name, and everything
that is not a constant may be written. -/
structure Tidy (env : Environment) : Prop where
  named : ∀ {name : String} {v : Variable}, env.globals[name]? = some v → v.name = name
  global : ∀ {name : String} {v : Variable}, env.globals[name]? = some v →
    v.scope = .global ∧ v.slot < env.globalSlots
  writable : ∀ {name : String} {v : Variable}, env.globals[name]? = some v →
    v.isConstant = false → env.Writable v
  locals : ∀ {name : String} {v : Variable}, env.locals[name]? = some v → env.Writable v

variable {env env' : Environment}

theorem writable_of_subroutine {v : Variable} {id : Nat} (hv : v.isConstant = false)
    (hscope : v.scope = .subroutine id) : env.Writable v := by
  refine ⟨hv, fun hglobal => ?_⟩
  rw [hscope] at hglobal
  cases hglobal

/-- Whether a variable may be written depends on the global names and slots only. -/
theorem Writable.of_eq {v : Variable} (hg : env'.globals = env.globals)
    (hs : env'.globalSlots = env.globalSlots) (h : env.Writable v) : env'.Writable v := by
  unfold Writable at h ⊢
  rw [hg, hs]
  exact h

/-- Other names may become visible in a definition as long as they may be written. -/
theorem Tidy.of_locals (h : env.Tidy) (hg : env'.globals = env.globals)
    (hs : env'.globalSlots = env.globalSlots)
    (hl : ∀ {name : String} {v : Variable}, env'.locals[name]? = some v → env'.Writable v) :
    env'.Tidy where
  named hv := by
    rw [hg] at hv
    exact h.named hv
  global hv := by
    rw [hg] at hv
    rw [hs]
    exact h.global hv
  writable hv hc := by
    rw [hg] at hv
    exact (h.writable hv hc).of_eq hg hs
  locals := hl

/-- Where no name is bound, everything is tidy. -/
theorem tidy_of_unbound (hglobals : ∀ name : String, env.globals[name]? = none)
    (hlocals : ∀ name : String, env.locals[name]? = none) : env.Tidy where
  named hv := by simp [hglobals] at hv
  global hv := by simp [hglobals] at hv
  writable hv := by simp [hglobals] at hv
  locals hv := by simp [hlocals] at hv

/-- What a name is bound to may be written unless it is a constant. -/
theorem Tidy.writable_of_lookup (h : env.Tidy) {name : String} {v : Variable}
    (hv : env.lookup name = some v) (hc : v.isConstant = false) : env.Writable v := by
  rcases Option.or_eq_some_iff.mp hv with hlocal | ⟨_, hglobal⟩
  · exact h.locals hlocal
  · exact h.writable hglobal hc

/-- A constant that a name is bound to is bound globally, under its own name. -/
theorem Tidy.global_of_lookup (h : env.Tidy) {name : String} {v : Variable}
    (hv : env.lookup name = some v) (hc : v.isConstant = true) :
    env.globals[v.name]? = some v := by
  rcases Option.or_eq_some_iff.mp hv with hlocal | ⟨_, hglobal⟩
  · have hfalse := (h.locals hlocal).1
    rw [hc] at hfalse
    cases hfalse
  · rw [h.named hglobal]
    exact hglobal

/-! ### Growing -/

/-- The second environment is tidy, has every constant of the first one, and lets a script write
whatever the first one did. -/
structure Grows (env env' : Environment) : Prop where
  tidy : env'.Tidy
  constant : ∀ {name : String} {c : Variable}, env.globals[name]? = some c → c.isConstant = true →
    env'.globals[name]? = some c
  writable : ∀ {v : Variable}, env.Writable v → env'.Writable v

theorem Grows.refl (h : env.Tidy) : env.Grows env := ⟨h, fun hc _ => hc, fun hv => hv⟩

theorem Grows.trans {env'' : Environment} (h : env.Grows env') (h' : env'.Grows env'') :
    env.Grows env'' :=
  ⟨h'.tidy, fun hc hconst => h'.constant (h.constant hc hconst) hconst,
    fun hv => h'.writable (h.writable hv)⟩

/-- The global names stay as they are. -/
theorem Tidy.grows_of_locals (h : env.Tidy) (hg : env'.globals = env.globals)
    (hs : env'.globalSlots = env.globalSlots)
    (hl : ∀ {name : String} {v : Variable}, env'.locals[name]? = some v → env'.Writable v) :
    env.Grows env' where
  tidy := h.of_locals hg hs hl
  constant hc _ := by
    rw [hg]
    exact hc
  writable := Writable.of_eq hg hs

/-- All names stay as they are. -/
theorem Tidy.grows_of_names (h : env.Tidy) (hg : env'.globals = env.globals)
    (hs : env'.globalSlots = env.globalSlots) (hp : env'.pending = env.pending) :
    env.Grows env' := by
  have hl : env'.locals = env.locals := by
    unfold Environment.locals
    rw [hp]
  refine h.grows_of_locals hg hs fun hv => ?_
  rw [hl] at hv
  exact (h.locals hv).of_eq hg hs

/-- What may be written stays so when the only new constant is in a new slot. -/
theorem Writable.of_new {v : Variable} (h : env.Writable v)
    (hs : env.globalSlots ≤ env'.globalSlots)
    (hnew : ∀ {name : String} {c : Variable}, env'.globals[name]? = some c →
      env.globals[name]? = some c ∨ c.slot = env.globalSlots) : env'.Writable v := by
  refine ⟨h.1, fun hglobal => ?_⟩
  obtain ⟨hslot, hapart⟩ := h.2 hglobal
  refine ⟨by omega, fun name c hc hconst => ?_⟩
  rcases hnew hc with hc | hc
  · exact hapart name c hc hconst
  · omega

/-- A new global variable is what its name is bound to. -/
theorem globals_bindGlobal (env : Environment) (kind : VariableKind) (name : String) :
    ((env.newGlobal kind name).2.bindGlobal (env.newGlobal kind name).1).globals[name]? =
      some (env.newGlobal kind name).1 := by
  show (env.globals.bind (env.newGlobal kind name).1)[name]? = _
  rw [Names.getElem?_bind]
  exact if_pos rfl

/-- A new global name in a new slot. -/
theorem Tidy.grows_bindGlobal (h : env.Tidy) (kind : VariableKind) {name : String}
    (hfresh : env.globals[name]? = none) :
    env.Grows ((env.newGlobal kind name).2.bindGlobal (env.newGlobal kind name).1) := by
  generalize hv : (env.newGlobal kind name).1 = v
  generalize henv : (env.newGlobal kind name).2.bindGlobal v = env'
  have hname : v.name = name := by rw [← hv]; rfl
  have hscope : v.scope = .global := by rw [← hv]; rfl
  have hslot : v.slot = env.globalSlots := by rw [← hv]; rfl
  have hslots : env'.globalSlots = env.globalSlots + 1 := by rw [← henv]; rfl
  have hlocals : env'.locals = env.locals := by rw [← henv]; rfl
  have hglobals : ∀ other, env'.globals[other]? =
      if name = other then some v else env.globals[other]? := by
    intro other
    rw [← hname, ← henv]
    exact Names.getElem?_bind env.globals v other
  have hcases : ∀ {other : String} {c : Variable}, env'.globals[other]? = some c →
      c = v ∧ name = other ∨ env.globals[other]? = some c := by
    intro other c hc
    rw [hglobals] at hc
    split at hc
    · cases hc
      exact Or.inl ⟨rfl, ‹_›⟩
    · exact Or.inr hc
  have hkeep : ∀ {x : Variable}, env.Writable x → env'.Writable x := by
    intro x hx
    refine hx.of_new (by omega) fun hc => ?_
    rcases hcases hc with ⟨rfl, _⟩ | hc
    · exact Or.inr hslot
    · exact Or.inl hc
  refine ⟨⟨fun hc => ?_, fun hc => ?_, fun hc hnot => ?_, fun hc => ?_⟩, fun hc _ => ?_, hkeep⟩
  · rcases hcases hc with ⟨rfl, rfl⟩ | hc
    · exact hname
    · exact h.named hc
  · rcases hcases hc with ⟨rfl, rfl⟩ | hc
    · exact ⟨hscope, by omega⟩
    · exact ⟨(h.global hc).1, Nat.lt_trans (h.global hc).2 (by omega)⟩
  · rcases hcases hc with ⟨rfl, rfl⟩ | hc
    · -- The new variable is no constant, so all constants are in slots that were in use before.
      refine ⟨hnot, fun _ => ⟨by omega, fun other c hother hconst => ?_⟩⟩
      rcases hcases hother with ⟨rfl, _⟩ | hother
      · rw [hnot] at hconst
        cases hconst
      · have hused := (h.global hother).2
        omega
    · exact hkeep (h.writable hc hnot)
  · rw [hlocals] at hc
    exact hkeep (h.locals hc)
  · rw [hglobals]
    split
    · rename_i heq
      subst heq
      rw [hfresh] at hc
      cases hc
    · exact hc

/-! ### The operations on names -/

theorem bind_of_none (hp : env.pending = none) (v : Variable) : env.bind v = env.bindGlobal v := by
  unfold bind
  rw [hp]

theorem bind_of_some {definition : OpenDefinition} (hp : env.pending = some definition)
    (v : Variable) :
    env.bind v =
      { env with pending := some { definition with locals := definition.locals.bind v } } := by
  unfold bind
  rw [hp]

/-- A new plain variable outside every definition is a new global one. -/
theorem newPlain_of_none (hp : env.pending = none) (name : String) :
    env.newPlain name = ((env.newGlobal .plain name).1,
      (env.newGlobal .plain name).2.bindGlobal (env.newGlobal .plain name).1) := by
  have hbind := @bind_of_none (env.newGlobal .plain name).2 hp (env.newGlobal .plain name).1
  unfold newPlain
  rw [hp]
  exact congrArg (Prod.mk (env.newGlobal .plain name).1) hbind

/-- A name that nothing is bound to has no global variable. -/
theorem global_eq_none_of_lookup {name : String} (h : env.lookup name = none) :
    env.globals[name]? = none := (Option.or_eq_none_iff.mp h).2

/-- Binding a variable that may be written as a local of the open definition. -/
theorem Tidy.grows_bindLocal (h : env.Tidy) {definition : OpenDefinition} {v : Variable}
    (hp : env.pending = some definition) (hg : env'.globals = env.globals)
    (hs : env.globalSlots ≤ env'.globalSlots)
    (hp' : env'.pending = some { definition with locals := definition.locals.bind v })
    (hv : env'.Writable v) : env.Grows env' := by
  have hkeep : ∀ {x : Variable}, env.Writable x → env'.Writable x := by
    intro x hx
    refine hx.of_new hs fun hc => ?_
    rw [hg] at hc
    exact Or.inl hc
  have hbefore : env.locals = definition.locals := by
    unfold Environment.locals
    rw [hp]
  have hafter : env'.locals = definition.locals.bind v := by
    unfold Environment.locals
    rw [hp']
  refine ⟨⟨fun hc => ?_, fun hc => ?_, fun hc hnot => ?_, fun hc => ?_⟩, fun hc _ => ?_, hkeep⟩
  · rw [hg] at hc
    exact h.named hc
  · rw [hg] at hc
    exact ⟨(h.global hc).1, Nat.lt_of_lt_of_le (h.global hc).2 hs⟩
  · rw [hg] at hc
    exact hkeep (h.writable hc hnot)
  · rw [hafter, Names.getElem?_bind] at hc
    split at hc
    · cases hc
      exact hv
    · rw [← hbefore] at hc
      exact hkeep (h.locals hc)
  · rw [hg]
    exact hc

/-- A variable that is assigned may be written. -/
theorem Tidy.grows_assignable? (h : env.Tidy) {name : String} {v : Variable}
    (hv : env.assignable? name = some (v, env')) : env.Grows env' ∧ env'.Writable v := by
  unfold assignable? at hv
  cases hlookup : env.lookup name with
  | some bound =>
    rw [hlookup] at hv
    dsimp only at hv
    split at hv
    · cases hv
    · rename_i hnot
      cases hv
      exact ⟨.refl h, h.writable_of_lookup hlookup (by simpa using hnot)⟩
  | none =>
    rw [hlookup] at hv
    have hfresh : env.globals[name]? = none := global_eq_none_of_lookup hlookup
    cases hp : env.pending with
    | none =>
      rw [newPlain_of_none hp] at hv
      have hgrows := h.grows_bindGlobal .plain hfresh
      cases hv
      exact ⟨hgrows, hgrows.tidy.writable (globals_bindGlobal env .plain name) rfl⟩
    | some definition =>
      unfold newPlain at hv
      rw [hp] at hv
      cases hv
      have hwritable : ∀ {env' : Environment} {slot : Nat},
          env'.Writable ⟨name, .plain, .subroutine definition.subroutine, slot⟩ :=
        writable_of_subroutine rfl rfl
      exact ⟨h.grows_bindLocal hp rfl (Nat.le_refl _) rfl hwritable, hwritable⟩

/-- A new static variable has a new slot, and outside every definition a new name. -/
theorem newStatic?_eq_some {name : String} {v : Variable}
    (hv : env.newStatic? name = some (v, env')) :
    (env.pending = none → env.globals[name]? = none) ∧ v = (env.newGlobal .static name).1 ∧
      env' = (env.newGlobal .static name).2.bind v := by
  unfold newStatic? at hv
  dsimp only at hv
  generalize hvisible : (if env.pending.isSome then env.locals else env.globals) = visible at hv
  by_cases hfree : visible.contains name = true
  · rw [if_pos hfree] at hv
    cases hv
  · rw [if_neg hfree] at hv
    cases hv
    refine ⟨fun hp => ?_, rfl, rfl⟩
    rw [hp] at hvisible
    subst hvisible
    exact Std.TreeMap.getElem?_eq_none hfree

/-- A new constant has a new name and a new slot, and its name is bound globally. -/
theorem newConstant?_eq_some {name : String} {v : Variable}
    (hv : env.newConstant? name = some (v, env')) :
    env.lookup name = none ∧ v = (env.newGlobal .constant name).1 ∧
      ∃ family, env' = { (env.newGlobal .constant name).2.bindGlobal v with family } := by
  unfold newConstant? at hv
  split at hv
  · cases hv
  · rename_i hfree
    refine ⟨by simpa using hfree, ?_⟩
    dsimp only at hv
    split at hv
    · cases hv
      exact ⟨rfl, env.family, rfl⟩
    · cases hv
      exact ⟨rfl, _, rfl⟩

/-- A new static variable may be written. -/
theorem Tidy.grows_newStatic? (h : env.Tidy) {name : String} {v : Variable}
    (hv : env.newStatic? name = some (v, env')) : env.Grows env' ∧ env'.Writable v := by
  obtain ⟨hfresh, rfl, rfl⟩ := newStatic?_eq_some hv
  cases hp : env.pending with
  | none =>
    rw [@bind_of_none (env.newGlobal .static name).2 hp]
    have hgrows := h.grows_bindGlobal .static (hfresh hp)
    exact ⟨hgrows, hgrows.tidy.writable (globals_bindGlobal env .static name) rfl⟩
  | some definition =>
    rw [@bind_of_some (env.newGlobal .static name).2 definition hp]
    -- The slot is new, so no constant has it.
    have hwritable : Writable { (env.newGlobal .static name).2 with
        pending := some { definition with
          locals := definition.locals.bind (env.newGlobal .static name).1 } }
        (env.newGlobal .static name).1 := by
      refine ⟨rfl, fun _ => ⟨Nat.lt_succ_self _, fun other c hc _ => ?_⟩⟩
      exact Nat.ne_of_lt (h.global hc).2
    exact ⟨h.grows_bindLocal hp rfl (Nat.le_succ _) rfl hwritable, hwritable⟩

/-- A new constant is bound globally. -/
theorem Tidy.grows_newConstant? (h : env.Tidy) {name : String} {v : Variable}
    (hv : env.newConstant? name = some (v, env')) :
    env.Grows env' ∧ v.scope = .global ∧ v.slot = env.globalSlots := by
  obtain ⟨hfree, rfl, family, rfl⟩ := newConstant?_eq_some hv
  have hgrows := h.grows_bindGlobal .constant (global_eq_none_of_lookup hfree)
  exact ⟨hgrows.trans (hgrows.tidy.grows_of_names rfl rfl rfl), rfl, rfl⟩

/-- The names a definition opens with are those of its parameters and its result. -/
theorem locals_begin {name other : String} {parameters : List String} {result : Option String}
    {v : Variable} (hv : (env.begin name parameters result).locals[other]? = some v) :
    (v.kind = .parameter ∨ v.kind = .result) ∧ v.scope = .subroutine env.subroutines.size := by
  rcases List.mem_append.mp (Names.mem_of_getElem?_ofList hv) with hmem | hmem
  · obtain ⟨slot, hslot, rfl⟩ := List.mem_mapIdx.mp hmem
    exact ⟨Or.inl rfl, rfl⟩
  · obtain ⟨_, -, rfl⟩ := Option.map_eq_some_iff.mp (Option.mem_toList.mp hmem)
    exact ⟨Or.inr rfl, rfl⟩

theorem Tidy.grows_begin (h : env.Tidy) (name : String) (parameters : List String)
    (result : Option String) : env.Grows (env.begin name parameters result) := by
  refine h.grows_of_locals rfl rfl fun {other v} hv => ?_
  obtain ⟨hkind, hscope⟩ := locals_begin hv
  refine writable_of_subroutine ?_ hscope
  rcases hkind with hkind | hkind
  · simp [Variable.isConstant, hkind]
  · simp [Variable.isConstant, hkind]

/-- Closing or giving up a definition hides its names. -/
theorem Tidy.grows_close (h : env.Tidy) (hg : env'.globals = env.globals)
    (hs : env'.globalSlots = env.globalSlots) (hp : env'.pending = none) : env.Grows env' := by
  refine h.grows_of_locals hg hs fun hv => ?_
  have hl : env'.locals = {} := by
    unfold Environment.locals
    rw [hp]
  rw [hl] at hv
  simp at hv

end Environment

/-! ## Tidy systems -/

namespace System

variable {s s' : System}

/-- The names grow and every constant keeps its value. -/
structure Grows (s s' : System) : Prop where
  names : s.env.Grows s'.env
  value : ∀ {name : String} {c : Variable}, s.env.globals[name]? = some c → c.isConstant = true →
    s'.get c = s.get c

theorem Grows.refl (h : s.env.Tidy) : s.Grows s := ⟨.refl h, fun _ _ => rfl⟩

theorem Grows.trans {s'' : System} (h : s.Grows s') (h' : s'.Grows s'') : s.Grows s'' where
  names := h.names.trans h'.names
  value hc hconst := (h'.value (h.names.constant hc hconst) hconst).trans (h.value hc hconst)

theorem Grows.of_stores (h : s.env.Grows s'.env) (hs : s'.machine.stores = s.machine.stores) :
    s.Grows s' where
  names := h
  value _ _ := by
    unfold System.get
    rw [hs]

theorem noteRequest_grows (h : s.env.Tidy) (start length : Word) (device : String) :
    s.Grows (s.noteRequest start length device) := by
  unfold noteRequest
  split
  · exact .of_stores (.refl h) rfl
  · exact .refl h

theorem map_grows (h : s.env.Tidy) {start length : Word} {device : String}
    (hmap : s.map start length device = .ok s') : s.Grows s' := by
  unfold map at hmap
  dsimp only at hmap
  split at hmap
  · cases hmap
  · cases hmap
  · cases hmap
    exact .of_stores (.refl h) rfl
  · cases hmap
    exact .of_stores (.refl h) rfl

/-- A new constant and its value: the slot is new, so no other constant is touched. -/
theorem newConstant?_grows (h : s.env.Tidy) {name : String} {v : Variable} (w : Word)
    (hnew : s.newConstant? name = some (v, s')) : s.Grows (s'.assign v w) := by
  obtain ⟨henv, trace, hmachine⟩ := newConstant?_eq_some hnew
  obtain ⟨hgrows, _, hslot⟩ := h.grows_newConstant? henv
  refine ⟨hgrows, fun hc hconst => ?_⟩
  have hused := h.global hc
  show (s'.machine.stores.set v w).get _ = _
  rw [Stores.get_set_of_ne _ hused.1 (fun _ => by omega), hmachine]
  rfl

/-- Every move of building keeps a system tidy and its constants fixed. -/
theorem Move.grows (hmove : Move s s') (h : s.env.Tidy) : s.Grows s' := by
  cases hmove with
  | trace => exact .of_stores (.refl h) rfl
  | plain hv =>
    obtain ⟨henv, trace, hmachine⟩ := assignable?_eq_some hv
    exact .of_stores (h.grows_assignable? henv).1 (by rw [hmachine]; rfl)
  | static hv =>
    obtain ⟨henv, trace, hmachine⟩ := newStatic?_eq_some hv
    exact .of_stores (h.grows_newStatic? henv).1 (by rw [hmachine]; rfl)
  | cell => exact .of_stores (h.grows_of_names rfl rfl rfl) rfl
  | constant w hv => exact newConstant?_grows h w hv
  | request start length device => exact noteRequest_grows h start length device
  | map hmap => exact map_grows h hmap
  | begin name _ _ => exact .of_stores (h.grows_begin name _ _) rfl

/-- However much is built, every constant keeps its name and its value. -/
theorem Moves.grows (hmoves : Moves s s') (h : s.env.Tidy) : s.Grows s' := by
  induction hmoves with
  | refl => exact .refl h
  | tail _ hmove ih => exact ih.trans (hmove.grows ih.names.tidy)

/-- What is fixed in a tidy system: its constants, with the values they have. -/
def fixture (s : System) (h : s.env.Tidy) (bound : Nat) : Fixture where
  fixed v w := s.env.globals[v.name]? = some v ∧ v.isConstant = true ∧ s.get v = w
  writable := s.env.Writable
  bound := bound
  global hv := (h.global hv.1).1
  apart hv hw hscope := (hw.2 hscope).2 _ _ hv.1 hv.2.1

theorem holds_fixture (h : s.env.Tidy) (bound : Nat) : (s.fixture h bound).Holds s.machine.stores :=
  fun _ _ hv => hv.2.2

/-- The fixture grows with the system. -/
theorem Grows.within (hgrows : s.Grows s') (h : s.env.Tidy) (bound : Nat) :
    (s.fixture h bound).Within (s'.fixture hgrows.names.tidy bound) where
  fixed _ _ hv :=
    ⟨hgrows.names.constant hv.1 hv.2.1, hv.2.1, (hgrows.value hv.1 hv.2.1).trans hv.2.2⟩
  writable _ hv := hgrows.names.writable hv
  bound := Nat.le_refl _

end System

end PeekPoke
