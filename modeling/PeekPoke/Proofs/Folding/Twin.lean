import PeekPoke.Proofs.Folding.Execution
import PeekPoke.Proofs.Folding.Names
set_option autoImplicit false

/-!
# Twin systems

A script can be built with folding and, beside it, without.  The two systems are twins as long as
they have the same names, the same machine up to the trace, and subroutines whose bodies are related
by folding (`Twin`).  Every operation on names and subroutines gives the same answer in both, and
leads to twins again.
-/

namespace PeekPoke

/-! ## Subroutines -/

/-- The same head, and a body with its folded form. -/
structure Subroutine.FoldsTo (c : Fixture) (p s : Subroutine) : Prop where
  name : p.name = s.name
  parameters : p.parameters = s.parameters
  result : p.result = s.result
  slots : p.slots = s.slots
  writable : ∀ v ∈ s.parameters, c.writable v
  body : Option.Rel (Folds c) p.body s.body

theorem Subroutine.FoldsTo.mono {c c' : Fixture} (hc : c.Within c') {p s : Subroutine}
    (h : p.FoldsTo c s) : p.FoldsTo c' s where
  name := h.name
  parameters := h.parameters
  result := h.result
  slots := h.slots
  writable v hv := hc.writable v (h.writable v hv)
  body := h.body.imp fun _ _ => Folds.mono hc

/-- Subroutines that are related one by one. -/
def SubroutinesFold (c : Fixture) (ps ss : Array Subroutine) : Prop :=
  ∀ id : Nat, Option.Rel (Subroutine.FoldsTo c) ps[id]? ss[id]?

namespace SubroutinesFold

variable {c c' : Fixture} {ps ss : Array Subroutine}

theorem mono (hc : c.Within c') (h : SubroutinesFold c ps ss) : SubroutinesFold c' ps ss :=
  fun id => (h id).imp fun _ _ => Subroutine.FoldsTo.mono hc

/-- What does not depend on the body is the same on both sides. -/
theorem elim_eq {α : Type} (h : SubroutinesFold c ps ss) (id : Nat) (d : α) {f : Subroutine → α}
    (hf : ∀ p s, p.FoldsTo c s → f p = f s) : ps[id]?.elim d f = ss[id]?.elim d f := by
  have hid := h id
  generalize ps[id]? = p at hid ⊢
  generalize ss[id]? = s at hid ⊢
  cases hid with
  | none => rfl
  | some hps => exact hf _ _ hps

theorem size_eq (h : SubroutinesFold c ps ss) : ps.size = ss.size := by
  rcases Nat.lt_trichotomy ps.size ss.size with hlt | heq | hlt
  · have hid := h ps.size
    rw [Array.getElem?_eq_none (Nat.le_refl _), Array.getElem?_eq_getElem hlt] at hid
    cases hid
  · exact heq
  · have hid := h ss.size
    rw [Array.getElem?_eq_none (Nat.le_refl _), Array.getElem?_eq_getElem hlt] at hid
    cases hid

theorem push (h : SubroutinesFold c ps ss) {p s : Subroutine} (hps : p.FoldsTo c s) :
    SubroutinesFold c (ps.push p) (ss.push s) := by
  intro id
  rw [Array.getElem?_push, Array.getElem?_push, h.size_eq]
  split
  · exact .some hps
  · exact h id

theorem modify (h : SubroutinesFold c ps ss) (target : Nat) {f g : Subroutine → Subroutine}
    (hfg : ∀ p s, p.FoldsTo c s → (f p).FoldsTo c (g s)) :
    SubroutinesFold c (ps.modify target f) (ss.modify target g) := by
  intro id
  have hid := h id
  rw [Array.getElem?_modify, Array.getElem?_modify]
  split
  · generalize ps[id]? = p at hid ⊢
    generalize ss[id]? = s at hid ⊢
    cases hid with
    | none => exact .none
    | some hps => exact .some (hfg _ _ hps)
  · exact hid

end SubroutinesFold

/-! ## Environments -/

namespace Environment

/-- The environment in which children stay as they are, with other subroutines. -/
def plain (env : Environment) (subroutines : Array Subroutine) : Environment :=
  { env with foldConstants := false, subroutines }

variable {env env' : Environment} {c : Fixture} {subs : Array Subroutine} {v : Variable}
  {name : String}

theorem bind_plain (env : Environment) (subs : Array Subroutine) (v : Variable) :
    (env.plain subs).bind v = (env.bind v).plain subs := by
  cases hp : env.pending with
  | none => rw [bind_of_none hp, @bind_of_none (env.plain subs) hp]; rfl
  | some definition =>
    rw [bind_of_some hp, @bind_of_some (env.plain subs) definition hp]
    rfl

theorem subroutines_bind (env : Environment) (v : Variable) :
    (env.bind v).subroutines = env.subroutines := by
  cases hp : env.pending with
  | none => rw [bind_of_none hp]; rfl
  | some definition => rw [bind_of_some hp]

/-- A new static variable is the same on both sides. -/
theorem newStatic?_plain (env : Environment) (subs : Array Subroutine) (name : String) :
    (env.plain subs).newStatic? name =
      (env.newStatic? name).map fun made => (made.1, made.2.plain subs) := by
  unfold newStatic?
  dsimp only
  have hvisible : (if (env.plain subs).pending.isSome then (env.plain subs).locals
      else (env.plain subs).globals) = if env.pending.isSome then env.locals else env.globals := rfl
  rw [hvisible]
  by_cases hfree : (if env.pending.isSome then env.locals else env.globals).contains name = true
  · rw [if_pos hfree, if_pos hfree]
    rfl
  · rw [if_neg hfree, if_neg hfree]
    exact congrArg (fun e => some (_, e)) (bind_plain (env.newGlobal .static name).2 subs _)

/-- A new constant is the same on both sides. -/
theorem newConstant?_plain (env : Environment) (subs : Array Subroutine) (name : String) :
    (env.plain subs).newConstant? name =
      (env.newConstant? name).map fun made => (made.1, made.2.plain subs) := by
  unfold newConstant?
  show (if (env.lookup name).isSome then none else _) = _
  split
  · rfl
  · dsimp only
    split
    · rfl
    · rfl

theorem subroutines_newStatic? (h : env.newStatic? name = some (v, env')) :
    env'.subroutines = env.subroutines := by
  obtain ⟨_, _, rfl⟩ := newStatic?_eq_some h
  exact subroutines_bind (env.newGlobal .static name).2 v

theorem subroutines_newConstant? (h : env.newConstant? name = some (v, env')) :
    env'.subroutines = env.subroutines := by
  obtain ⟨-, -, _, rfl⟩ := newConstant?_eq_some h
  rfl

/-- A name that cannot be assigned on one side cannot be assigned on the other. -/
theorem assignable?_plain_eq_none (h : env.assignable? name = none) :
    (env.plain subs).assignable? name = none := by
  have hlookup : (env.plain subs).lookup name = env.lookup name := rfl
  unfold assignable? at h ⊢
  rw [hlookup]
  cases hbound : env.lookup name with
  | none =>
    rw [hbound] at h
    cases h
  | some bound =>
    rw [hbound] at h
    dsimp only at h ⊢
    split at h
    · rename_i hconst
      rw [if_pos hconst]
    · cases h

/-- A new plain variable inside a definition takes the next slot of its subroutine. -/
theorem newPlain_of_some {definition : OpenDefinition} (hp : env.pending = some definition)
    (name : String) :
    let id := definition.subroutine
    let v : Variable := ⟨name, .plain, .subroutine id, (env.subroutines[id]?).elim 0 (·.slots)⟩
    env.newPlain name = (v, { env with
      subroutines := env.subroutines.modify id fun s => { s with slots := s.slots + 1 }
      pending := some { definition with locals := definition.locals.bind v } }) := by
  unfold newPlain
  rw [hp]
  rfl

theorem assignable?_plain (hs : SubroutinesFold c subs env.subroutines)
    (h : env.assignable? name = some (v, env')) :
    ∃ subs', (env.plain subs).assignable? name = some (v, env'.plain subs') ∧
      SubroutinesFold c subs' env'.subroutines := by
  have hlookup : (env.plain subs).lookup name = env.lookup name := rfl
  unfold assignable? at h ⊢
  rw [hlookup]
  cases hbound : env.lookup name with
  | some bound =>
    rw [hbound] at h
    dsimp only at h ⊢
    split at h
    · cases h
    · rename_i hnot
      cases h
      rw [if_neg hnot]
      exact ⟨subs, rfl, hs⟩
  | none =>
    rw [hbound] at h
    dsimp only at h ⊢
    cases hp : env.pending with
    | none =>
      rw [newPlain_of_none hp] at h
      rw [@newPlain_of_none (env.plain subs) hp]
      cases h
      exact ⟨subs, rfl, hs⟩
    | some definition =>
      rw [newPlain_of_some hp] at h
      rw [@newPlain_of_some (env.plain subs) definition hp]
      cases h
      have hslot := hs.elim_eq definition.subroutine 0 (f := (·.slots)) fun _ _ hps => hps.slots
      dsimp only [plain]
      rw [hslot]
      refine ⟨_, rfl, hs.modify _ fun p s hps => ?_⟩
      exact ⟨hps.name, hps.parameters, hps.result, congrArg (· + 1) hps.slots, hps.writable,
        hps.body⟩

theorem subroutineId?_plain (hs : SubroutinesFold c subs env.subroutines) (name : String) :
    (env.plain subs).subroutineId? name = env.subroutineId? name := by
  have hpending : ∀ id : Nat, (subs[id]?).any (·.name == name) =
      (env.subroutines[id]?).any (·.name == name) := by
    intro id
    have hname := hs.elim_eq id false (f := (·.name == name)) fun _ _ hps => by rw [hps.name]
    have hany : ∀ o : Option Subroutine,
        o.any (·.name == name) = o.elim false (·.name == name) := by
      intro o
      cases o with
      | none => rfl
      | some s => rfl
    rw [hany, hany, hname]
  unfold subroutineId?
  show (env.pendingId?.filter fun id => (subs[id]?).any (·.name == name)).or _ = _
  simp only [hpending]
  rfl

theorem arity_plain (hs : SubroutinesFold c subs env.subroutines) (id : Nat) :
    ((env.plain subs).subroutines[id]?).elim 0 Subroutine.arity =
      (env.subroutines[id]?).elim 0 Subroutine.arity :=
  hs.elim_eq id 0 fun _ _ hps => by rw [Subroutine.arity, hps.parameters, Subroutine.arity]

/-- Calls run a body and its folded form. -/
theorem foldsCalls_plain (hs : SubroutinesFold c subs env.subroutines) :
    FoldsCalls c (env.plain subs) env := by
  intro id
  have hid := hs id
  unfold callable?
  show Option.Rel _ (if env.isAvailable id then (subs[id]?).bind _ else none) _
  by_cases havailable : env.isAvailable id = true
  · rw [if_pos havailable, if_pos havailable]
    generalize subs[id]? = p at hid ⊢
    show Option.Rel _ _ ((env.subroutines[id]?).bind _)
    generalize env.subroutines[id]? = s at hid ⊢
    cases hid with
    | none => exact .none
    | @some p s hps =>
      have hbody := hps.body
      show Option.Rel _ (p.body.bind fun body => some (p, body))
        (s.body.bind fun body => some (s, body))
      generalize p.body = pbody at hbody ⊢
      generalize s.body = sbody at hbody ⊢
      cases hbody with
      | none => exact .none
      | some hfolds =>
        refine .some ⟨hps.parameters.symm, hps.result.symm, fun v hv w v' hv' => ?_,
          fun v _ v' hv' => (by cases hv'), hfolds⟩
        rw [hps.parameters] at hv
        cases hv'
        exact hps.writable v hv
  · rw [if_neg havailable, if_neg havailable]
    exact .none

/-- A definition opens in the same way on both sides. -/
theorem begin_plain (hs : SubroutinesFold c subs env.subroutines)
    (hw : ∀ (v : Variable) (id : Nat), v.isConstant = false → v.scope = .subroutine id →
      c.writable v) (name : String) (parameters : List String) (result : Option String) :
    ∃ subs', (env.plain subs).begin name parameters result =
        (env.begin name parameters result).plain subs' ∧
      SubroutinesFold c subs' (env.begin name parameters result).subroutines := by
  unfold begin
  dsimp only [plain]
  rw [hs.size_eq]
  refine ⟨_, rfl, hs.push ⟨rfl, rfl, rfl, rfl, fun v hv => ?_, .none⟩⟩
  obtain ⟨slot, hslot, rfl⟩ := List.mem_mapIdx.mp hv
  exact hw _ _ rfl rfl

/-- A subroutine has a body on both sides or on neither. -/
theorem isDefined_plain (hs : SubroutinesFold c subs env.subroutines) (id : Nat) :
    (env.plain subs).isDefined id = env.isDefined id := by
  have hany : ∀ o : Option Subroutine,
      o.any (·.body.isSome) = o.elim false (·.body.isSome) := by
    intro o
    cases o with
    | none => rfl
    | some s => rfl
  unfold isDefined
  rw [hany, hany]
  refine hs.elim_eq id false fun p s hps => ?_
  have hbody := hps.body
  generalize p.body = pbody at hbody ⊢
  generalize s.body = sbody at hbody ⊢
  cases hbody with
  | none => rfl
  | some _ => rfl

/-- A definition is closed in the same way on both sides, with a body and its folded form. -/
theorem finish?_plain (hs : SubroutinesFold c subs env.subroutines) {u f : Node}
    (hbody : Folds c u f) {id : Nat} (h : env.finish? name f = some (id, env')) :
    ∃ subs', (env.plain subs).finish? name u = some (id, env'.plain subs') ∧
      SubroutinesFold c subs' env'.subroutines := by
  obtain ⟨hp, hdefined, rfl⟩ := finish?_eq_some h
  refine ⟨subs.modify id fun s => { s with body := some u }, ?_, ?_⟩
  · have hp' : (env.plain subs).pendingId? = some id := hp
    unfold finish?
    rw [hp']
    dsimp only
    rw [isDefined_plain hs, hdefined]
    rfl
  · exact hs.modify _ fun p s hps =>
      ⟨hps.name, hps.parameters, hps.result, hps.slots, hps.writable, .some hbody⟩

end Environment

/-! ## Twins -/

/-- A system that is built with folding and, first, one that is built without: the names are the
same, the machines are so up to the trace, and the subroutines have the same bodies up to
folding. -/
inductive Twin : Fixture → System → System → Prop where
  | intro {s : System} (tidy : s.env.Tidy) (bound : Nat) (subs : Array Subroutine) (trace : Trace) :
      SubroutinesFold (s.fixture tidy bound) subs s.env.subroutines →
      Twin (s.fixture tidy bound) ⟨s.env.plain subs, s.machine.withTrace trace⟩ s

/-- Something that holds of two states and two results under a larger fixture. -/
def Later {σ α β : Type} (T : Fixture → σ → σ → Prop) (A : Fixture → α → β → Prop) (c : Fixture)
    (p s : σ) (a : α) (b : β) : Prop :=
  ∃ c', c.Within c' ∧ T c' p s ∧ A c' a b

/-- Results of which nothing is said. -/
def Unsaid {α β : Type} : Fixture → α → β → Prop := fun _ _ _ => True

/-- Results that are equal. -/
def Equal {α : Type} : Fixture → α → α → Prop := fun _ a b => a = b

/-- The same variable, which may be written. -/
def Assigned (c : Fixture) (v v' : Variable) : Prop := v = v' ∧ c.writable v

/-- The same variable, which is fixed if it is a constant. -/
def Resolved (c : Fixture) (v v' : Variable) : Prop :=
  v = v' ∧ (v.isConstant = true → ∃ w, c.fixed v w)

namespace Twin

variable {c : Fixture} {p s : System}

/-- Twins whose folded side grows are twins under the fixture that grows with it. -/
theorem grow {s s' : System} {tidy : s.env.Tidy} {bound : Nat} {subs : Array Subroutine}
    (hgrows : s.Grows s') (trace : Trace)
    (hs : SubroutinesFold (s.fixture tidy bound) subs s'.env.subroutines) :
    Twin (s'.fixture hgrows.names.tidy bound) ⟨s'.env.plain subs, s'.machine.withTrace trace⟩ s' :=
  .intro _ _ _ trace (hs.mono (hgrows.within tidy bound))

/-- The traces of twins do not matter. -/
theorem withTrace (h : Twin c p s) (trace trace' : Trace) :
    Twin c { p with machine := p.machine.withTrace trace }
      { s with machine := s.machine.withTrace trace' } := by
  cases h with
  | intro tidy bound subs t hs =>
    exact .intro (s := ⟨s.env, s.machine.withTrace trace'⟩) tidy bound subs trace hs

/-- The bound can be raised. -/
theorem raise (h : Twin c p s) (height : Nat) :
    ∃ c', c.Within c' ∧ Twin c' p s ∧ height ≤ c'.bound := by
  cases h with
  | intro tidy bound subs t hs =>
    have hwithin : (s.fixture tidy bound).Within (s.fixture tidy (max bound height)) :=
      ⟨fun _ _ hv => hv, fun _ hv => hv, Nat.le_max_left _ _⟩
    exact ⟨_, hwithin, .intro tidy _ subs t (hs.mono hwithin), Nat.le_max_right _ _⟩

theorem holds (h : Twin c p s) : c.Holds s.machine.stores := by
  cases h with
  | intro tidy bound subs t hs => exact System.holds_fixture tidy bound

theorem machine_eq (h : Twin c p s) : ∃ trace, p.machine = s.machine.withTrace trace := by
  cases h with
  | intro tidy bound subs t hs => exact ⟨t, rfl⟩

theorem env_eq (h : Twin c p s) : p.env = s.env.plain p.env.subroutines := by
  cases h
  rfl

theorem subroutines (h : Twin c p s) : SubroutinesFold c p.env.subroutines s.env.subroutines := by
  cases h with
  | intro tidy bound subs t hs => exact hs

/-- Calls run a body and its folded form. -/
theorem foldsCalls (h : Twin c p s) : FoldsCalls c p.env s.env := by
  cases h with
  | intro tidy bound subs t hs => exact Environment.foldsCalls_plain hs

/-- What is fixed are the constants, with the values they have. -/
theorem holds_iff (h : Twin c p s) (stores : Stores) :
    c.Holds stores ↔ ∀ (name : String) (v : Variable), s.env.globals[name]? = some v →
      v.isConstant = true → stores.get v = s.get v := by
  cases h with
  | intro tidy bound subs t hs =>
    constructor
    · intro hholds name v hv hconst
      have hname : s.env.globals[v.name]? = some v := by
        rw [tidy.named hv]
        exact hv
      exact hholds v (s.get v) ⟨hname, hconst, rfl⟩
    · intro hvalues v w hv
      rw [hvalues v.name v hv.1 hv.2.1]
      exact hv.2.2

/-! ### Changes that leave the names alone -/

theorem withEnv (h : Twin c p s) {g : Environment → Environment}
    (hgrows : s.env.Tidy → s.env.Grows (g s.env))
    (hplain : ∀ subs, g (s.env.plain subs) = (g s.env).plain subs)
    (hsame : (g s.env).subroutines = s.env.subroutines) :
    ∃ c', c.Within c' ∧ Twin c' { p with env := g p.env } { s with env := g s.env } := by
  cases h with
  | intro tidy bound subs t hs =>
    have hsystem : s.Grows { s with env := g s.env } := .of_stores (hgrows tidy) rfl
    have hsubs : SubroutinesFold (s.fixture tidy bound) subs (g s.env).subroutines := by
      rw [hsame]
      exact hs
    have htwin := Twin.grow hsystem t hsubs
    refine ⟨_, hsystem.within tidy bound, ?_⟩
    dsimp only
    rw [hplain]
    exact htwin

theorem withMachine (h : Twin c p s) {g : Machine → Machine}
    (hstores : (g s.machine).stores = s.machine.stores)
    (hg : ∀ trace, ∃ trace', g (s.machine.withTrace trace) = (g s.machine).withTrace trace') :
    ∃ c', c.Within c' ∧
      Twin c' { p with machine := g p.machine } { s with machine := g s.machine } := by
  cases h with
  | intro tidy bound subs t hs =>
    have hsystem : s.Grows { s with machine := g s.machine } := .of_stores (.refl tidy) hstores
    obtain ⟨t', ht'⟩ := hg t
    refine ⟨_, hsystem.within tidy bound, ?_⟩
    dsimp only
    rw [ht']
    exact Twin.grow hsystem t' hs

/-! ### Names -/

variable {s' : System} {name : String} {v : Variable}

theorem lookup_eq (h : Twin c p s) (name : String) : p.env.lookup name = s.env.lookup name := by
  cases h
  rfl

theorem assignable?_eq_none (h : Twin c p s) (hv : s.assignable? name = none) :
    p.assignable? name = none := by
  have henv : s.env.assignable? name = none := Option.map_eq_none_iff.mp hv
  cases h with
  | intro tidy bound subs t hs =>
    exact Option.map_eq_none_iff.mpr (Environment.assignable?_plain_eq_none henv)

theorem newStatic?_eq_none (h : Twin c p s) (hv : s.newStatic? name = none) :
    p.newStatic? name = none := by
  have henv : s.env.newStatic? name = none := Option.map_eq_none_iff.mp hv
  cases h with
  | intro tidy bound subs t hs =>
    refine Option.map_eq_none_iff.mpr ?_
    rw [Environment.newStatic?_plain, henv]
    rfl

theorem newConstant?_eq_none (h : Twin c p s) (hv : s.newConstant? name = none) :
    p.newConstant? name = none := by
  have henv : s.env.newConstant? name = none := Option.map_eq_none_iff.mp hv
  cases h with
  | intro tidy bound subs t hs =>
    refine Option.map_eq_none_iff.mpr ?_
    rw [Environment.newConstant?_plain, henv]
    rfl

theorem assignable? (h : Twin c p s) (hv : s.assignable? name = some (v, s')) :
    ∃ v' p', p.assignable? name = some (v', p') ∧ Later Twin Assigned c p' s' v' v := by
  cases h with
  | intro tidy bound subs t hs =>
    have hgrows := (System.Move.plain hv).grows tidy
    obtain ⟨henv, trace, hmachine⟩ := System.assignable?_eq_some hv
    obtain ⟨subs', hplain, hsubs⟩ := Environment.assignable?_plain hs henv
    obtain ⟨t', hp⟩ := System.assignable?_eq ⟨s.env.plain subs, s.machine.withTrace t⟩ name
    rw [hplain] at hp
    have htwin := Twin.grow hgrows t' hsubs
    rw [hmachine] at htwin
    exact ⟨v, _, hp, _, hgrows.within tidy bound, htwin, rfl, (tidy.grows_assignable? henv).2⟩

theorem newStatic? (h : Twin c p s) (hv : s.newStatic? name = some (v, s')) :
    ∃ v' p', p.newStatic? name = some (v', p') ∧ Later Twin Assigned c p' s' v' v := by
  cases h with
  | intro tidy bound subs t hs =>
    have hgrows := (System.Move.static hv).grows tidy
    obtain ⟨henv, trace, hmachine⟩ := System.newStatic?_eq_some hv
    obtain ⟨t', hp⟩ := System.newStatic?_eq ⟨s.env.plain subs, s.machine.withTrace t⟩ name
    rw [Environment.newStatic?_plain, henv] at hp
    have htwin := Twin.grow hgrows t' (Environment.subroutines_newStatic? henv ▸ hs)
    rw [hmachine] at htwin
    exact ⟨v, _, hp, _, hgrows.within tidy bound, htwin, rfl, (tidy.grows_newStatic? henv).2⟩

/-- A new constant that is given no value. -/
theorem newConstant?_unset (h : Twin c p s) (hv : s.newConstant? name = some (v, s')) :
    ∃ p', p.newConstant? name = some (v, p') ∧ ∃ c', c.Within c' ∧ Twin c' p' s' := by
  cases h with
  | intro tidy bound subs t hs =>
    obtain ⟨henv, trace, hmachine⟩ := System.newConstant?_eq_some hv
    have hgrows : s.Grows s' :=
      .of_stores (tidy.grows_newConstant? henv).1 (by rw [hmachine]; rfl)
    obtain ⟨t', hp⟩ := System.newConstant?_eq ⟨s.env.plain subs, s.machine.withTrace t⟩ name
    rw [Environment.newConstant?_plain, henv] at hp
    have htwin := Twin.grow hgrows t' (Environment.subroutines_newConstant? henv ▸ hs)
    rw [hmachine] at htwin
    exact ⟨_, hp, _, hgrows.within tidy bound, htwin⟩

/-- A new constant with its value. -/
theorem newConstant? (h : Twin c p s) (hv : s.newConstant? name = some (v, s')) (w : Word) :
    ∃ p', p.newConstant? name = some (v, p') ∧
      ∃ c', c.Within c' ∧ Twin c' (p'.assign v w) (s'.assign v w) := by
  cases h with
  | intro tidy bound subs t hs =>
    have hgrows := System.newConstant?_grows tidy w hv
    obtain ⟨henv, trace, hmachine⟩ := System.newConstant?_eq_some hv
    obtain ⟨t', hp⟩ := System.newConstant?_eq ⟨s.env.plain subs, s.machine.withTrace t⟩ name
    rw [Environment.newConstant?_plain, henv] at hp
    have hsubs : SubroutinesFold (s.fixture tidy bound) subs (s'.assign v w).env.subroutines := by
      show SubroutinesFold _ subs s'.env.subroutines
      rw [Environment.subroutines_newConstant? henv]
      exact hs
    have htwin := Twin.grow hgrows t' hsubs
    obtain ⟨env, machine⟩ := s'
    cases hmachine
    exact ⟨_, hp, _, hgrows.within tidy bound, htwin⟩

/-! ### Mappings -/

theorem noteRequest (h : Twin c p s) (start length : Word) (device : String) :
    ∃ c', c.Within c' ∧
      Twin c' (p.noteRequest start length device) (s.noteRequest start length device) := by
  cases h with
  | intro tidy bound subs t hs =>
    have hgrows := System.noteRequest_grows tidy start length device
    refine ⟨_, hgrows.within tidy bound, ?_⟩
    have hsubs : SubroutinesFold (s.fixture tidy bound) subs
        (s.noteRequest start length device).env.subroutines := by
      unfold System.noteRequest
      split
      · exact hs
      · exact hs
    have htwin := Twin.grow hgrows t hsubs
    have hplain : (⟨(s.noteRequest start length device).env.plain subs,
        (s.noteRequest start length device).machine.withTrace t⟩ : System) =
        System.noteRequest ⟨s.env.plain subs, s.machine.withTrace t⟩ start length device := by
      unfold System.noteRequest
      show _ = if (s.machine.bus.request start length device).isAsked = true then _ else _
      split
      · rfl
      · rfl
    rw [hplain] at htwin
    exact htwin

theorem map (h : Twin c p s) {start length : Word} {device : String}
    (hmap : s.map start length device = .ok s') :
    ∃ p', p.map start length device = .ok p' ∧ ∃ c', c.Within c' ∧ Twin c' p' s' := by
  cases h with
  | intro tidy bound subs t hs =>
    have hgrows := System.map_grows tidy hmap
    have hbus : (s.machine.withTrace t).bus = s.machine.bus := rfl
    unfold System.map at hmap ⊢
    dsimp only at hmap ⊢
    rw [hbus]
    cases hreply : s.machine.bus.request start length device with
    | rejected e =>
      rw [hreply] at hmap
      cases hmap
    | denied e =>
      rw [hreply] at hmap
      cases hmap
    | covered =>
      rw [hreply] at hmap
      cases hmap
      exact ⟨_, rfl, _, hgrows.within tidy bound, Twin.grow hgrows _ hs⟩
    | mapped window =>
      rw [hreply] at hmap
      cases hmap
      exact ⟨_, rfl, _, hgrows.within tidy bound, Twin.grow hgrows _ hs⟩

theorem map_eq_error (h : Twin c p s) {start length : Word} {device : String} {e : MapError}
    (hmap : s.map start length device = .error e) : p.map start length device = .error e := by
  cases h with
  | intro tidy bound subs t hs =>
    have hbus : (s.machine.withTrace t).bus = s.machine.bus := rfl
    unfold System.map at hmap ⊢
    dsimp only at hmap ⊢
    rw [hbus]
    cases hreply : s.machine.bus.request start length device with
    | rejected e =>
      rw [hreply] at hmap
      exact hmap
    | denied e =>
      rw [hreply] at hmap
      exact hmap
    | covered =>
      rw [hreply] at hmap
      cases hmap
    | mapped window =>
      rw [hreply] at hmap
      cases hmap

/-! ### Subroutines -/

theorem begin (h : Twin c p s) (name : String) (parameters : List String)
    (result : Option String) :
    ∃ c', c.Within c' ∧ Twin c' { p with env := p.env.begin name parameters result }
      { s with env := s.env.begin name parameters result } := by
  cases h with
  | intro tidy bound subs t hs =>
    have hgrows : s.Grows { s with env := s.env.begin name parameters result } :=
      .of_stores (tidy.grows_begin name parameters result) rfl
    have hw : ∀ (v : Variable) (id : Nat), v.isConstant = false → v.scope = .subroutine id →
        (s.fixture tidy bound).writable v :=
      fun _ _ hv hscope => Environment.writable_of_subroutine hv hscope
    obtain ⟨subs', hplain, hsubs⟩ := Environment.begin_plain hs hw name parameters result
    have htwin := Twin.grow hgrows t hsubs
    refine ⟨_, hgrows.within tidy bound, ?_⟩
    dsimp only
    rw [hplain]
    exact htwin

theorem finish?_eq_none (h : Twin c p s) {u f : Node} (hf : s.finish? name f = none) :
    p.finish? name u = none := by
  have henv := (s.env.finish?_eq_none_iff name f).mp (Option.map_eq_none_iff.mp hf)
  cases h with
  | intro tidy bound subs t hs =>
    refine Option.map_eq_none_iff.mpr ((Environment.finish?_eq_none_iff _ name u).mpr ?_)
    intro id hid
    rw [Environment.isDefined_plain hs]
    exact henv id hid

theorem finish? (h : Twin c p s) {u f : Node} (hbody : Folds c u f) {id : Nat}
    (hf : s.finish? name f = some (id, s')) :
    ∃ p', p.finish? name u = some (id, p') ∧ ∃ c', c.Within c' ∧ Twin c' p' s' := by
  obtain ⟨⟨_, env'⟩, henv, hmade⟩ := Option.map_eq_some_iff.mp hf
  cases hmade
  cases h with
  | intro tidy bound subs t hs =>
    obtain ⟨subs', hplain, hsubs⟩ := Environment.finish?_plain hs hbody henv
    obtain ⟨-, -, hclosed⟩ := Environment.finish?_eq_some henv
    have hnames : s.env.Grows env' := by
      rw [hclosed]
      exact tidy.grows_close rfl rfl rfl
    have hgrows : s.Grows { s with env := env' } := .of_stores hnames rfl
    have htwin := Twin.grow hgrows t hsubs
    have hp : ∃ trace, System.finish? ⟨s.env.plain subs, s.machine.withTrace t⟩ name u =
        some (id, ⟨env'.plain subs', s.machine.withTrace trace⟩) := by
      unfold System.finish?
      dsimp only
      rw [hplain]
      exact ⟨_, rfl⟩
    obtain ⟨trace, hp⟩ := hp
    exact ⟨_, hp, _, hgrows.within tidy bound, htwin.withTrace trace _⟩

theorem abandon (h : Twin c p s) (name : String) :
    ∃ c', c.Within c' ∧ Twin c' (p.abandon name) (s.abandon name) := by
  obtain ⟨c', hc', htwin⟩ := h.withEnv (g := Environment.abandon)
    (fun tidy => tidy.grows_close rfl rfl rfl) (fun _ => rfl) rfl
  exact ⟨c', hc', htwin.withTrace _ _⟩

theorem registered_eq (h : Twin c p s) : p.env.registered = s.env.registered := by
  cases h
  rfl

theorem subroutineId?_eq (h : Twin c p s) (name : String) :
    p.env.subroutineId? name = s.env.subroutineId? name := by
  cases h with
  | intro tidy bound subs t hs => exact Environment.subroutineId?_plain hs name

end Twin

end PeekPoke
