import Mathlib.Data.List.Nodup
import PeekPoke.Proofs.Histories
import PeekPoke.Proofs.Tidiness
set_option autoImplicit false

/-!
# Variables never share a slot

A `Roster` is a collection of variables of which no two share a slot: all those that names,
subroutines, nodes and the embedder refer to, and all those they ever referred to.  Every step of an
embedder adds to it only variables in new slots (`World.Step.roster`).  Main statement: whatever
happens after a world was reached, its variables and all later ones keep apart, no node and no call
gives a value to a constant, and every constant keeps the value it was given
(`World.Reached.bindings`).
-/

namespace PeekPoke

/-! ## The values of constants -/

namespace System

/-- Every name stays bound to its variable, which keeps its value, and keeps its members. -/
structure Retains (s s' : System) : Prop where
  tidy : s'.env.Tidy
  members : ∀ base : String, s.env.members base ⊆ s'.env.members base
  bound : ∀ {name : String} {v : Variable}, s.env.lookup name = some v →
    s'.env.lookup name = some v ∧ s'.get v = s.get v

variable {s s' : System} {name : String}

theorem Retains.refl (h : s.env.Tidy) : s.Retains s :=
  ⟨h, fun base => List.Subset.refl (s.env.members base), fun hv => ⟨hv, rfl⟩⟩

theorem Retains.trans {s'' : System} (h : s.Retains s') (h' : s'.Retains s'') : s.Retains s'' := by
  refine ⟨h'.tidy, fun base => List.Subset.trans (h.members base) (h'.members base), fun hv => ?_⟩
  obtain ⟨hv', hvalue⟩ := h.bound hv
  obtain ⟨hv'', hvalue'⟩ := h'.bound hv'
  exact ⟨hv'', hvalue'.trans hvalue⟩

/-- A constant that has a name and a value. -/
def Holds (s : System) (name : String) (x : Word) : Prop :=
  ∃ c, s.env.lookup name = some c ∧ c.isConstant = true ∧ s.get c = x

theorem Holds.retains {x : Word} (hx : s.Holds name x) (h : s.Retains s') : s'.Holds name x := by
  obtain ⟨c, hc, hconst, rfl⟩ := hx
  obtain ⟨hc', hvalue⟩ := h.bound hc
  exact ⟨c, hc', hconst, hvalue⟩

end System

namespace Environment

variable {env env' : Environment} {name : String} {v : Variable}

/-- A new constant is found under its name, and everything else is found as before. -/
theorem lookup_newConstant? (h : env.newConstant? name = some (v, env')) :
    v.isConstant = true ∧ env'.lookup name = some v ∧
      ∀ {other : String} {u : Variable}, env.lookup other = some u → env'.lookup other = some u := by
  obtain ⟨hfree, rfl, family, rfl⟩ := newConstant?_eq_some h
  have hlookup : ∀ other, (env.locals[other]?.or
      (env.globals.bind (env.newGlobal .constant name).1)[other]?) =
      if name = other then some (env.newGlobal .constant name).1 else env.lookup other := by
    intro other
    rw [Names.getElem?_bind, lookup]
    by_cases hother : name = other
    · subst hother
      simp [(Option.or_eq_none_iff.mp hfree).1, newGlobal]
    · simp [hother, newGlobal]
  refine ⟨rfl, (hlookup name).trans (if_pos rfl), fun {other u} hu => ?_⟩
  have hother : name ≠ other := by
    rintro rfl
    rw [hfree] at hu
    cases hu
  exact (hlookup other).trans ((if_neg hother).trans hu)

theorem members_addMember (env : Environment) (base member other : String) :
    env.members other ⊆ (env.addMember base member).members other := by
  intro x hx
  simp only [members, addMember, Std.TreeMap.getD_insert, List.mem_reverse] at hx ⊢
  split
  · rename_i heq
    obtain rfl := Std.LawfulEqOrd.eq_of_compare heq
    exact List.mem_cons_of_mem member hx
  · exact hx

theorem members_newConstant? (h : env.newConstant? name = some (v, env')) (base : String) :
    env.members base ⊆ env'.members base := by
  unfold newConstant? at h
  split at h
  · cases h
  · dsimp only at h
    split at h
    · cases h
      exact List.Subset.refl _
    · cases h
      exact members_addMember _ _ _ base

/-- What a name is bound to is in a slot that is in use. -/
theorem Tidy.used_of_lookup (h : env.Tidy) (hv : env.lookup name = some v)
    (hscope : v.scope = .global) : v.slot < env.globalSlots := by
  rcases Option.or_eq_some_iff.mp hv with hv | ⟨_, hv⟩
  · exact ((h.locals hv).2 hscope).1
  · exact (h.global hv).2

end Environment

namespace Build

variable {s s' : System} {l : Location} {name : String}

theorem requireConstant_eq_ok {node : Node} {x : Word} (h : requireConstant node s = .ok x s') :
    node.constantValue s.get = .ok x ∧ s'.env = s.env := by
  unfold requireConstant at h
  split at h
  · obtain ⟨hvalue, trace, rfl⟩ := evaluate_eq_ok ‹_› h
    exact ⟨hvalue, rfl⟩
  · cases h

theorem newConstant_eq_ok {x : Word} {u : Unit} (h : newConstant l name x s = .ok u s') :
    ∃ v made, s.newConstant? name = some (v, made) ∧ s' = made.assign v x := by
  obtain ⟨v, made, hmade, hset⟩ := EStateM.bind_eq_ok h
  cases hresult : s.newConstant? name with
  | none =>
    rw [orFail_of_none hresult] at hmade
    cases hmade
  | some result =>
    rw [orFail_of_some hresult] at hmade
    cases hmade
    cases hset
    exact ⟨_, _, rfl, rfl⟩

/-- A constant that was bound has its value. -/
theorem holds_of_newConstant {x : Word} {u : Unit} (h : newConstant l name x s = .ok u s') :
    s'.Holds name x := by
  obtain ⟨v, made, hnew, rfl⟩ := newConstant_eq_ok h
  obtain ⟨henv, -⟩ := System.newConstant?_eq_some hnew
  obtain ⟨hconst, hbound, -⟩ := Environment.lookup_newConstant? henv
  have hscope : v.scope = .global := by
    obtain ⟨-, rfl, -⟩ := Environment.newConstant?_eq_some henv
    rfl
  exact ⟨v, hbound, hconst, Stores.get_set_self _ hscope x⟩

/-- Binding a constant gives it its value and changes nothing else. -/
theorem holds_newConstant (hs : s.env.Tidy) {x : Word} {u : Unit}
    (h : newConstant l name x s = .ok u s') : s.Retains s' ∧ s'.Holds name x := by
  refine ⟨?_, holds_of_newConstant h⟩
  obtain ⟨v, made, hnew, rfl⟩ := newConstant_eq_ok h
  obtain ⟨henv, trace, hmachine⟩ := System.newConstant?_eq_some hnew
  obtain ⟨hgrows, hscope, hslot⟩ := hs.grows_newConstant? henv
  obtain ⟨-, -, hkept⟩ := Environment.lookup_newConstant? henv
  refine ⟨hgrows.tidy, Environment.members_newConstant? henv, fun {other u} hu => ⟨hkept hu, ?_⟩⟩
  have hapart : u.scope = v.scope → u.slot ≠ v.slot := by
    intro hsame
    have hused := hs.used_of_lookup hu (hsame.trans hscope)
    omega
  show (made.machine.stores.set v x).get u = s.get u
  rw [Stores.get_set_of_apart _ hapart, hmachine]
  rfl

/-- The members of a constant that is defined from another one are the differences. -/
theorem holds_defineMembers (hs : s.env.Tidy) {base : String} {x : Word} {members : List String}
    {u : Unit} (h : defineMembers l name base x members s = .ok u s') :
    s.Retains s' ∧ ∀ member ∈ members, ∃ source,
      s'.env.lookup (memberName base member) = some source ∧
        s'.Holds (memberName name member) (s'.get source - x) := by
  induction members generalizing s with
  | nil =>
    cases h
    exact ⟨.refl hs, by simp⟩
  | cons member rest ih =>
    rw [defineMembers, EStateM.get_bind] at h
    cases hsource : s.env.lookup (memberName base member) with
    | none =>
      rw [hsource] at h
      cases h
    | some source =>
      rw [hsource] at h
      obtain ⟨_, middle, hfirst, hrest⟩ := EStateM.bind_eq_ok h
      obtain ⟨hkept, hmember⟩ := holds_newConstant hs hfirst
      obtain ⟨hkept', hmembers⟩ := ih hkept.tidy hrest
      refine ⟨hkept.trans hkept', List.forall_mem_cons.mpr ⟨?_, hmembers⟩⟩
      obtain ⟨hbound, hvalue⟩ := (hkept.trans hkept').bound hsource
      refine ⟨source, hbound, ?_⟩
      rw [hvalue]
      exact hmember.retains hkept'

/-- A constant is given the value of its expression. -/
theorem holds_define (hs : s.env.Tidy) {value node : Node}
    (h : define l name value s = .ok node s') :
    ∃ x, value.constantValue s.get = .ok x ∧ s'.Holds name x := by
  obtain ⟨x, s₁, hvalue, h⟩ := EStateM.bind_eq_ok h
  obtain ⟨_, s₂, hnew, h⟩ := EStateM.bind_eq_ok h
  obtain ⟨hx, henv⟩ := requireConstant_eq_ok hvalue
  obtain ⟨-, hconstant⟩ := holds_newConstant (henv ▸ hs) hnew
  cases h
  exact ⟨x, hx, hconstant⟩

/-- A constant that is defined from another one is given the value of its expression, and its members
the differences between the members of the other one and that one. -/
theorem holds_defineFrom (hs : s.env.Tidy) {value node : Node} {base : String}
    (h : defineFrom l name value base s = .ok node s') :
    ∃ x b, value.constantValue s.get = .ok x ∧ s'.Holds name x ∧ s'.Holds base b ∧
      ∀ member ∈ s.env.members base, ∃ source,
        s'.env.lookup (memberName base member) = some source ∧
          s'.Holds (memberName name member) (s'.get source - b) := by
  obtain ⟨x, s₁, hvalue, h⟩ := EStateM.bind_eq_ok h
  obtain ⟨_, s₂, hnew, h⟩ := EStateM.bind_eq_ok h
  obtain ⟨hx, henv⟩ := requireConstant_eq_ok hvalue
  obtain ⟨hkept, hconstant⟩ := holds_newConstant (henv ▸ hs) hnew
  rw [EStateM.get_bind] at h
  cases hsource : s₂.env.lookup base with
  | none =>
    rw [hsource] at h
    cases h
  | some source =>
    rw [hsource] at h
    dsimp only at h
    split at h
    · rename_i hconst
      obtain ⟨_, s₃, hmembers, h⟩ := EStateM.bind_eq_ok h
      obtain ⟨hkept', heach⟩ := holds_defineMembers hkept.tidy hmembers
      have hname : s₃.Holds name x := hconstant.retains hkept'
      have hbase : s₃.Holds base (s₂.get source) :=
        System.Holds.retains ⟨source, hsource, hconst, rfl⟩ hkept'
      have hsub : s.env.members base ⊆ s₂.env.members base := henv ▸ hkept.members base
      cases h
      exact ⟨x, s₂.get source, hx, hname, hbase, fun member hmember =>
        heach member (hsub hmember)⟩
    · cases h

end Build

/-! ## Rosters -/

namespace Environment

/-- The variables of an environment are among certain variables, which are in slots that are in use
and of which no two share a slot. -/
structure Roster (env : Environment) (known : Variable → Prop) : Prop where
  has : ∀ {v : Variable}, env.Has v → known v
  used : ∀ {v : Variable}, known v → v.slot < env.slots v.scope
  apart : ∀ {u v : Variable}, known u → known v → u.scope = v.scope → u.slot = v.slot → u = v
  pending : ∀ {id : Nat}, env.pendingId? = some id → id < env.subroutines.size

/-- The second environment has every roster of the first, up to new variables. -/
def Enrolls (env env' : Environment) : Prop :=
  ∀ known, env.Roster known → ∃ known', (∀ v, known v → known' v) ∧ env'.Roster known'

variable {bodies : Node → Prop} {env env' : Environment}

theorem Enrolls.refl (env : Environment) : env.Enrolls env :=
  fun known h => ⟨known, fun _ hv => hv, h⟩

theorem Enrolls.trans {env'' : Environment} (h : env.Enrolls env') (h' : env'.Enrolls env'') :
    env.Enrolls env'' := by
  intro known hknown
  obtain ⟨known', hsub, hknown'⟩ := h known hknown
  obtain ⟨known'', hsub', hknown''⟩ := h' known' hknown'
  exact ⟨known'', fun v hv => hsub' v (hsub v hv), hknown''⟩

/-- New variables join a roster if they are in new slots. -/
theorem enrolls_of_new (new : Variable → Prop)
    (hhas : ∀ {v : Variable}, env'.Has v → new v ∨ env.Has v)
    (hslots : ∀ scope, env.slots scope ≤ env'.slots scope)
    (hnew : ∀ {v : Variable}, new v → env.slots v.scope ≤ v.slot ∧ v.slot < env'.slots v.scope)
    (hapart : ∀ {u v : Variable}, new u → new v → u.scope = v.scope → u.slot = v.slot → u = v)
    (hpending : (∀ {id : Nat}, env.pendingId? = some id → id < env.subroutines.size) →
      ∀ {id : Nat}, env'.pendingId? = some id → id < env'.subroutines.size) : env.Enrolls env' := by
  intro known h
  refine ⟨fun v => known v ∨ new v, fun v hv => Or.inl hv, fun hv => ?_, fun {v} hv => ?_,
    fun {u v} hu hv hscope hslot => ?_, hpending h.pending⟩
  · rcases hhas hv with hv | hv
    · exact Or.inr hv
    · exact Or.inl (h.has hv)
  · rcases hv with hv | hv
    · exact Nat.lt_of_lt_of_le (h.used hv) (hslots v.scope)
    · exact (hnew hv).2
  · -- An old variable is in an old slot and a new one in a new slot, so they differ.
    rcases hu with hu | hu <;> rcases hv with hv | hv
    · exact h.apart hu hv hscope hslot
    · have hold := h.used hu
      have hfresh := (hnew hv).1
      rw [hscope] at hold
      omega
    · have hold := h.used hv
      have hfresh := (hnew hu).1
      rw [hscope] at hfresh
      omega
    · exact hapart hu hv hscope hslot

/-- Nothing new is bound, and no slot is given up. -/
theorem enrolls_of_has (hhas : ∀ {v : Variable}, env'.Has v → env.Has v)
    (hslots : ∀ scope, env.slots scope ≤ env'.slots scope)
    (hpending : (∀ {id : Nat}, env.pendingId? = some id → id < env.subroutines.size) →
      ∀ {id : Nat}, env'.pendingId? = some id → id < env'.subroutines.size) : env.Enrolls env' :=
  enrolls_of_new (fun _ => False) (fun hv => Or.inr (hhas hv)) hslots False.elim False.elim hpending

/-- One variable in the first slot that was free. -/
theorem enrolls_of_slot (v : Variable) (hhas : ∀ {u : Variable}, env'.Has u → u = v ∨ env.Has u)
    (hslots : ∀ scope, env.slots scope ≤ env'.slots scope) (hslot : v.slot = env.slots v.scope)
    (hused : v.slot < env'.slots v.scope)
    (hpending : (∀ {id : Nat}, env.pendingId? = some id → id < env.subroutines.size) →
      ∀ {id : Nat}, env'.pendingId? = some id → id < env'.subroutines.size) : env.Enrolls env' := by
  refine enrolls_of_new (· = v) hhas hslots ?_ ?_ hpending
  · rintro u rfl
    exact ⟨Nat.le_of_eq hslot.symm, hused⟩
  · rintro u v' rfl rfl _ _
    rfl

/-- The variables of an environment, by where they are bound. -/
theorem Has.elim {v : Variable} {P : Prop} (h : env.Has v)
    (hglobals : ∀ {name : String}, env.globals[name]? = some v → P)
    (hlocals : ∀ {name : String}, env.locals[name]? = some v → P)
    (hown : ∀ {id : Nat} {s : Subroutine}, env.subroutines[id]? = some s →
      v ∈ s.parameters ++ s.result.toList → P) : P := by
  cases h with
  | global hv => exact hglobals hv
  | inner hv => exact hlocals hv
  | parameter hs hv => exact hown hs (List.mem_append_left _ hv)
  | result hs hv => exact hown hs (by simp [hv])

theorem Has.of_own {v : Variable} {id : Nat} {s : Subroutine} (hs : env.subroutines[id]? = some s)
    (hv : v ∈ s.parameters ++ s.result.toList) : env.Has v := by
  rcases List.mem_append.mp hv with hv | hv
  · exact .parameter hs hv
  · exact .result hs (by simpa using hv)

/-- Changing one subroutine but not its variables changes no variables. -/
theorem Has.of_modify {v : Variable} {id j : Nat} {f : Subroutine → Subroutine}
    (hparameters : ∀ s, (f s).parameters = s.parameters) (hresult : ∀ s, (f s).result = s.result)
    {s' : Subroutine} (hs' : (env.subroutines.modify id f)[j]? = some s')
    (hv : v ∈ s'.parameters ++ s'.result.toList) : env.Has v := by
  rw [Array.getElem?_modify] at hs'
  split at hs'
  · obtain ⟨s, hs, rfl⟩ := Option.map_eq_some_iff.mp hs'
    rw [hparameters, hresult] at hv
    exact .of_own hs hv
  · exact .of_own hs' hv

theorem enrolls_of_names (hglobals : env'.globals = env.globals)
    (hslots : env'.globalSlots = env.globalSlots) (hsubs : env'.subroutines = env.subroutines)
    (hp : env'.pending = env.pending) : env.Enrolls env' := by
  have hlocals : env'.locals = env.locals := by rw [locals, hp, locals]
  have hscopes : ∀ scope, env'.slots scope = env.slots scope := by
    intro scope
    cases scope with
    | global => exact hslots
    | subroutine id => rw [slots, hsubs, slots]
  refine enrolls_of_has (fun hv => hv.elim (fun hv => ?_) (fun hv => ?_) fun hs hv => ?_)
    (fun scope => Nat.le_of_eq (hscopes scope).symm) fun hpending id hid => ?_
  · exact .global (hglobals ▸ hv)
  · exact .inner (hlocals ▸ hv)
  · exact .of_own (hsubs ▸ hs) hv
  · rw [pendingId?, hp] at hid
    rw [hsubs]
    exact hpending hid

/-- A definition that is closed or given up: its names are hidden, its variables stay. -/
theorem enrolls_of_close (hglobals : env'.globals = env.globals) (hp : env'.pending = none)
    (hscopes : ∀ scope, env'.slots scope = env.slots scope)
    (hown : ∀ {v : Variable} {id : Nat} {s : Subroutine}, env'.subroutines[id]? = some s →
      v ∈ s.parameters ++ s.result.toList → env.Has v) : env.Enrolls env' := by
  refine enrolls_of_has (fun hv => hv.elim (fun hv => ?_) (fun hv => ?_) hown)
    (fun scope => Nat.le_of_eq (hscopes scope).symm) fun _ id hid => ?_
  · exact .global (hglobals ▸ hv)
  · simp [locals, hp] at hv
  · simp [pendingId?, hp] at hid

theorem enrolls_globalSlot (v : Variable) (hscope : v.scope = .global)
    (hslot : v.slot = env.globalSlots) (hslots : env'.globalSlots = env.globalSlots + 1)
    (hsubs : env'.subroutines = env.subroutines) (hp : env'.pendingId? = env.pendingId?)
    (hglobals : ∀ {name : String} {u : Variable}, env'.globals[name]? = some u →
      u = v ∨ env.globals[name]? = some u)
    (hlocals : ∀ {name : String} {u : Variable}, env'.locals[name]? = some u →
      u = v ∨ env.locals[name]? = some u) : env.Enrolls env' := by
  have hglobal : env'.slots .global = env.slots .global + 1 := hslots
  have hmore : ∀ scope, env.slots scope ≤ env'.slots scope := by
    intro scope
    cases scope with
    | global => omega
    | subroutine id => simp [slots, hsubs]
  have hfirst : v.slot = env.slots v.scope := by rw [hscope, hslot, slots]
  refine enrolls_of_slot v (fun hv => hv.elim (fun hu => ?_) (fun hu => ?_) fun hs hu => ?_) hmore
    hfirst ?_ fun hpending id hid => ?_
  · exact (hglobals hu).imp_right .global
  · exact (hlocals hu).imp_right .inner
  · exact Or.inr (.of_own (hsubs ▸ hs) hu)
  · rw [hfirst, hscope]
    omega
  · rw [hsubs]
    exact hpending (hp ▸ hid)

theorem enrolls_localSlot {id : Nat} (v : Variable) (hid : env.pendingId? = some id)
    (hscope : v.scope = .subroutine id) (hslot : v.slot = env.slots (.subroutine id))
    (hglobals : env'.globals = env.globals) (hslots : env'.globalSlots = env.globalSlots)
    (hsubs : env'.subroutines =
      env.subroutines.modify id (fun s => { s with slots := s.slots + 1 }))
    (hp : env'.pendingId? = env.pendingId?)
    (hlocals : ∀ {name : String} {u : Variable}, env'.locals[name]? = some u →
      u = v ∨ env.locals[name]? = some u) : env.Enrolls env' := by
  intro known hroster
  obtain ⟨s, hs⟩ : ∃ s, env.subroutines[id]? = some s :=
    ⟨_, Array.getElem?_eq_getElem (hroster.pending hid)⟩
  have hown : env'.slots (.subroutine id) = env.slots (.subroutine id) + 1 := by
    simp [slots, hsubs, Array.getElem?_modify, hs]
  have hmore : ∀ scope, env.slots scope ≤ env'.slots scope := by
    intro scope
    cases scope with
    | global => exact Nat.le_of_eq hslots.symm
    | subroutine j =>
      by_cases hj : id = j
      · subst hj
        omega
      · simp [slots, hsubs, Array.getElem?_modify, hj]
  have hfirst : v.slot = env.slots v.scope := by rw [hscope, hslot]
  refine enrolls_of_slot v (fun hv => hv.elim (fun hu => ?_) (fun hu => ?_) fun hs' hu => ?_) hmore
    hfirst ?_ (fun hpending j hj => ?_) known hroster
  · exact Or.inr (.global (hglobals ▸ hu))
  · exact (hlocals hu).imp_right .inner
  · rw [hsubs] at hs'
    exact Or.inr (.of_modify (f := fun s => { s with slots := s.slots + 1 }) (fun _ => rfl)
      (fun _ => rfl) hs' hu)
  · rw [hfirst, hscope]
    omega
  · rw [hsubs, Array.size_modify]
    exact hpending (hp ▸ hj)

theorem enrolls_begin (env : Environment) (name : String) (parameters : List String)
    (result : Option String) : env.Enrolls (env.begin name parameters result) := by
  obtain ⟨s, hsubs, hs, -, hslots, hp⟩ := env.subroutines_begin name parameters result
  generalize henv : env.begin name parameters result = env' at hsubs hp
  have hglobals : env'.globals = env.globals := by rw [← henv]; rfl
  have hglobal : env'.slots .global = env.slots .global := by rw [← henv]; rfl
  have hempty : env.slots (.subroutine env.subroutines.size) = 0 := by simp [slots]
  have hnew : env'.slots (.subroutine env.subroutines.size) = s.slots := by simp [slots, hsubs]
  have hmore : ∀ scope, env.slots scope ≤ env'.slots scope := by
    intro scope
    cases scope with
    | global => exact Nat.le_of_eq hglobal.symm
    | subroutine id =>
      by_cases hid : id = env.subroutines.size
      · subst hid
        omega
      · simp [slots, hsubs, Array.getElem?_push, hid]
  refine enrolls_of_new (· ∈ s.parameters ++ s.result.toList)
    (fun hv => hv.elim (fun hv => ?_) (fun hv => ?_) fun {id s'} hs' hv => ?_) hmore (fun {v} hv => ?_)
    (fun hu hv _ hslot => ?_) fun _ id hid => ?_
  · exact Or.inr (.global (hglobals ▸ hv))
  · rw [locals_of_some hp] at hv
    exact Or.inl (Names.mem_of_getElem?_ofList hv)
  · rw [hsubs, Array.getElem?_push] at hs'
    split at hs'
    · cases hs'
      exact Or.inl hv
    · exact Or.inr (.of_own hs' hv)
  · rw [(hs.own v hv).1, hempty, hnew]
    exact ⟨Nat.zero_le _, hslots v hv⟩
  · exact List.inj_on_of_nodup_map (List.pairwise_map.mpr hs.apart) hu hv hslot
  · simp only [pendingId?, hp, Option.map_some, Option.some.injEq] at hid
    rw [hsubs, Array.size_push]
    omega

/-- Every change of an environment puts new variables into new slots. -/
theorem Change.enrolls (h : env.Change bodies env') : env.Enrolls env' := by
  cases h with
  | same hglobals hslots hsubs hp _ => exact enrolls_of_names hglobals hslots hsubs hp
  | globalSlot v hscope hslot hslots hsubs hp _ hglobals hlocals =>
    exact enrolls_globalSlot v hscope hslot hslots hsubs hp hglobals hlocals
  | localSlot v hid hscope hslot hglobals hslots hsubs hp _ hlocals =>
    exact enrolls_localSlot v hid hscope hslot hglobals hslots hsubs hp hlocals
  | begin name parameters result => exact enrolls_begin env name parameters result
  | @finish _ body _ _ _ hfinish =>
    obtain ⟨-, -, rfl⟩ := Environment.finish?_eq_some hfinish
    refine enrolls_of_close rfl rfl (fun scope => ?_) fun hs hv =>
      .of_modify (f := fun s => { s with body := some body }) (fun _ => rfl) (fun _ => rfl) hs hv
    cases scope with
    | global => rfl
    | subroutine id =>
      simp only [slots, close, unregister, Array.getElem?_modify]
      split
      · cases env.subroutines[id]? <;> rfl
      · rfl
  | abandon =>
    exact enrolls_of_close rfl rfl (fun scope => by cases scope <;> rfl)
      fun {_ id s} (hs : env.subroutines[id]? = some s) hv => .of_own hs hv

theorem Changes.enrolls (h : Changes bodies env env') : env.Enrolls env' := by
  induction h with
  | refl => exact .refl env
  | tail _ hchange ih => exact ih.trans hchange.enrolls

end Environment

/-! ## Worlds -/

namespace World

/-- The variables of a world are among certain variables, which are in slots that are in use and of
which no two share a slot. -/
structure Roster (w : World) (known : Variable → Prop) : Prop where
  env : w.env.Roster known
  has : ∀ {v : Variable}, w.Has v → known v

variable {w w' : World} {known : Variable → Prop}

/-- The variables after a step: the ones there were, and those of the new environment. -/
theorem Step.has (h : w.Step w') {v : Variable} (hv : w'.Has v) : w.Has v ∨ w'.env.Has v := by
  cases hv with
  | env hv => exact Or.inr hv
  | obtained hv =>
    rcases h.obtained hv with hv | hv
    · exact Or.inl (.obtained hv)
    · exact Or.inl (.env hv)
  | @node node part hnode hpart hmentions =>
    rcases h.built hnode with hnode | hmade
    · exact Or.inl (.node hnode hpart hmentions)
    · rcases hmade.cases_part hpart with rfl | ⟨g, hg, hpart⟩ | ⟨l, x, rfl⟩
      · rcases hmentions with htarget | hsource
        · rcases hmade.target v htarget with ⟨_, name, hlookup⟩ | ⟨g, hg, htarget⟩
          · exact Or.inr (.of_lookup hlookup)
          · exact Or.inl (.node hg .self (Or.inl htarget))
        · obtain ⟨name, hlookup⟩ := hmade.source v hsource
          exact Or.inr (.of_lookup hlookup)
      · exact Or.inl (.node hg hpart hmentions)
      · rcases hmentions with hnone | hnone
        · cases hnone
        · cases hnone

/-- A step adds only variables in new slots. -/
theorem Step.roster (h : w.Step w') (hw : w.Roster known) :
    ∃ known', (∀ v, known v → known' v) ∧ w'.Roster known' := by
  obtain ⟨known', hsub, henv⟩ := h.changes.enrolls known hw.env
  refine ⟨known', hsub, henv, fun {v} hv => ?_⟩
  rcases h.has hv with hv | hv
  · exact hsub v (hw.has hv)
  · exact henv.has hv

/-- However many steps are taken, they add only variables in new slots. -/
theorem Steps.roster (h : w.Steps w') (hw : w.Roster known) :
    ∃ known', (∀ v, known v → known' v) ∧ w'.Roster known' := by
  induction h with
  | refl => exact ⟨known, fun _ hv => hv, hw⟩
  | tail _ hlast ih =>
    obtain ⟨known', hsub, hroster⟩ := ih
    obtain ⟨known'', hsub', hroster'⟩ := hlast.roster hroster
    exact ⟨known'', fun v hv => hsub' v (hsub v hv), hroster'⟩

theorem roster_opened (defaultWidth : Width) (denied : List String) (port : Port)
    (silent trace : Bool) :
    (opened defaultWidth denied port silent trace).Roster fun _ => False := by
  have hnames : ∀ name : String, (∅ : Names)[name]? = none := fun _ => by simp
  have hnone : ∀ v, ¬ (opened defaultWidth denied port silent trace).env.Has v := by
    intro v hv
    refine hv.elim (fun {name} hv => ?_) (fun {name} hv => ?_) fun hs _ => ?_
    · cases (hnames name).symm.trans hv
    · cases (hnames name).symm.trans hv
    · cases hs
  refine ⟨⟨fun hv => hnone _ hv, False.elim, False.elim, fun hid => by cases hid⟩, fun hv => ?_⟩
  cases hv with
  | env hv => exact hnone _ hv
  | obtained hv => cases hv
  | node hnode => cases hnode

theorem Reached.roster (h : w.Reached) : ∃ known, w.Roster known := by
  obtain ⟨defaultWidth, denied, port, silent, trace, hsteps⟩ := h
  obtain ⟨known, -, hroster⟩ :=
    hsteps.roster (roster_opened defaultWidth denied port silent trace)
  exact ⟨known, hroster⟩

end World

/-! ## Bindings -/

/-- A variable that is made for a new name, or for a subroutine whose definition is opened. -/
inductive Environment.Allocates (env : Environment) (v : Variable) : Prop where
  | plain {name : String} {env' : Environment} : env.lookup name = none →
      env.assignable? name = some (v, env') → Allocates env v
  | static {name : String} {env' : Environment} : env.newStatic? name = some (v, env') →
      Allocates env v
  | constant {name : String} {env' : Environment} : env.newConstant? name = some (v, env') →
      Allocates env v
  | own {name : String} {parameters : List String} {result : Option String} {s : Subroutine} :
      (env.begin name parameters result).subroutines[env.subroutines.size]? = some s →
      v ∈ s.parameters ++ s.result.toList → Allocates env v

/-- A new variable is in a slot that was free. -/
theorem Environment.Allocates.slot {env : Environment} {v : Variable} (h : env.Allocates v) :
    env.slots v.scope ≤ v.slot := by
  cases h with
  | plain hfree h =>
    unfold assignable? at h
    rw [hfree] at h
    cases hp : env.pending with
    | none =>
      rw [newPlain_of_none hp] at h
      cases h
      exact Nat.le_refl _
    | some definition =>
      rw [newPlain_of_some hp] at h
      cases h
      exact Nat.le_refl _
  | static h =>
    obtain ⟨_, rfl, rfl⟩ := newStatic?_eq_some h
    exact Nat.le_refl _
  | constant h =>
    obtain ⟨-, rfl, -⟩ := newConstant?_eq_some h
    exact Nat.le_refl _
  | @own name parameters result s hs hv =>
    obtain ⟨s', hsubs, hproper, -⟩ := env.subroutines_begin name parameters result
    rw [hsubs, Array.getElem?_push_size] at hs
    cases hs
    rw [(hproper.own v hv).1]
    simp [slots]

/-- What holds between a world and a later one. -/
structure World.Bindings (w w' : World) : Prop where
  /-- No variable of either shares its slot with another. -/
  apart : ∀ {u v : Variable}, w.Has u → w'.Has v → u.scope = v.scope → u.slot = v.slot → u = v
  /-- Setting one of them changes no other. -/
  independent : ∀ {u v : Variable}, w.Has u → w'.Has v → u ≠ v → ∀ (s : Stores) (x : Word),
    (s.set u x).get v = s.get v ∧ (s.set v x).get u = s.get u
  /-- A variable that is made later is in a slot of its own. -/
  fresh : ∀ {u v : Variable}, w.Has u → w'.env.Allocates v → u.scope = v.scope → u.slot ≠ v.slot
  /-- No part of a node gives a value to a constant. -/
  target : ∀ {node part : Node} {v : Variable}, node ∈ w'.nodes → part.Part node →
    part.target? = some v → v.isConstant = false
  /-- No parameter of a subroutine is a constant, and no two of them share a slot. -/
  parameter : ∀ {id : Nat} {s : Subroutine}, w'.env.subroutines[id]? = some s →
    (∀ v ∈ s.parameters, v.isConstant = false) ∧ s.parameters.Pairwise fun u v => u.slot ≠ v.slot
  /-- A constant stays what its name is bound to, unless a definition hides the name. -/
  bound : ∀ {name : String} {c : Variable}, w.env.globals[name]? = some c → c.isConstant = true →
    w'.env.globals[name]? = some c ∧ (w'.env.locals[name]? = none → w'.env.lookup name = some c)
  /-- A constant has its value in all machines of the later world. -/
  value : ∀ {name : String} {c : Variable}, w.env.globals[name]? = some c → c.isConstant = true →
    ∀ {m : Machine}, w'.Visits m → m.stores.get c = w.machine.stores.get c
  /-- A constant that is defined has the value of its expression. -/
  defined : ∀ {l : Location} {name : String} {value node : Node} {s : System},
    Build.define l name value w'.system = .ok node s →
    ∃ x, value.constantValue w'.system.get = .ok x ∧ s.Holds name x
  /-- So has one that is defined from another constant, and its members have the differences between
  the members of that constant and the constant itself. -/
  definedFrom : ∀ {l : Location} {name base : String} {value node : Node} {s : System},
    Build.defineFrom l name value base w'.system = .ok node s →
    ∃ x b, value.constantValue w'.system.get = .ok x ∧ s.Holds name x ∧ s.Holds base b ∧
      ∀ member ∈ w'.env.members base, ∃ source,
        s.env.lookup (Build.memberName base member) = some source ∧
          s.Holds (Build.memberName name member) (s.get source - b)

/-- Whatever happens after a world was reached, variables never share a slot and constants never
change. -/
theorem World.Reached.bindings {w w' : World} (h : w.Reached) (hsteps : w.Steps w') :
    w.Bindings w' := by
  obtain ⟨known, hroster⟩ := h.roster
  obtain ⟨known', hsub, hroster'⟩ := hsteps.roster hroster
  obtain ⟨htidy, hgrows⟩ := hsteps.grows h.tidy
  have hapart : ∀ {u v : Variable}, w.Has u → w'.Has v → u.scope = v.scope → u.slot = v.slot →
      u = v := fun hu hv => hroster'.env.apart (hsub _ (hroster.has hu)) (hroster'.has hv)
  refine ⟨hapart, fun {u v} hu hv hne s x => ⟨?_, ?_⟩, fun {u v} hu hv hscope hslot => ?_,
    fun hnode hpart hv => ?_, fun hs => ?_, fun hc hconst => ?_, fun {name c} hc hconst m hm => ?_,
    Build.holds_define htidy.names, Build.holds_defineFrom htidy.names⟩
  · exact s.get_set_of_apart (fun hscope hslot => hne (hapart hu hv hscope.symm hslot.symm)) x
  · exact s.get_set_of_apart (fun hscope hslot => hne (hapart hu hv hscope hslot)) x
  · have hused := hroster'.env.used (hsub u (hroster.has hu))
    have hfree := hv.slot
    rw [hscope] at hused
    omega
  · exact ((htidy.node _ hnode _ hpart).target _ hv).1
  · obtain ⟨hown, hpairwise⟩ := htidy.proper.subroutine hs
    exact ⟨fun v hv => (hown v (List.mem_append_left _ hv)).2, (List.pairwise_append.mp hpairwise).1⟩
  · have hbound := hgrows.names.constant hc hconst
    refine ⟨hbound, fun hlocal => ?_⟩
    rw [Environment.lookup, hlocal]
    exact hbound
  · have hbound := hgrows.names.constant hc hconst
    have hvalue := htidy.holds_of_visits hm c _
      ⟨htidy.names.named hbound ▸ hbound, hconst, rfl⟩
    exact hvalue.trans (hgrows.value hc hconst)

/-- The definition of a constant. -/
def limitDefined : List Command :=
  [.build "limit" (.define .unknown "limit" (.literal .unknown 5))]

/-- A subroutine with a parameter that hides the constant and is assigned, and a call of it. -/
def limitHidden : List Command :=
  let l := Location.unknown
  [.define ⟨l, "raise", ["limit"], none⟩ (.assign l "limit" (.literal l 9)),
    .build "call" (.call l "raise" [.var l "limit"]), .execute "call"]

/-- After the call the constant is still what its name is bound to, with its value. -/
theorem limit_bindings :
    ∃ w w' : World, w.Reached ∧ w.Steps w' ∧ w.Bindings w' ∧
      ∃ c, w.env.globals["limit"]? = some c ∧ c.isConstant = true ∧
        w'.env.globals["limit"]? = some c ∧ w'.machine.stores.get c = 5 := by
  let new := Session.start .native [] (.simulated {}) false false
  have hspares : new.sparesAll limitDefined = true := by rfl
  have hspares' : (new.steps limitDefined).2.sparesAll limitHidden = true := by rfl
  obtain ⟨w, hreached, hmirrors⟩ :=
    Session.steps_reached .native [] (.simulated {}) false false hspares
  obtain ⟨w', hsteps, -⟩ := Session.follows_steps hmirrors hspares'
  let c : Variable := ⟨"limit", .constant, .global, 0⟩
  have hc : w.env.globals["limit"]? = some c := by
    rw [World.env, hmirrors.system]
    rfl
  have hvalue : w.machine.stores.get c = 5 := by
    rw [World.machine, hmirrors.system]
    rfl
  have hbindings : w.Bindings w' := World.Reached.bindings hreached hsteps
  exact ⟨w, w', hreached, hsteps, hbindings, c, hc, by decide, (hbindings.bound hc (by decide)).1,
    (hbindings.value hc (by decide) .now).trans hvalue⟩

end PeekPoke
