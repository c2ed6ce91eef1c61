import PeekPoke.Proofs.Activations
import PeekPoke.Proofs.Tidiness
set_option autoImplicit false

/-!
# Calls and the subroutines they are bound to

A call is bound to a subroutine and not to a name.  The embedder opens definitions, and closes each
of them or gives it up with the token it got when it opened it; it drops subroutines, defines others
under their names, and holds and releases them (`Custody`).  A subroutine is live while it is
registered or held (`Environment.Live`).

Main statement: whatever the embedder does, a call runs the body of the subroutine that its name
referred to when the call was built, if that one has a body and is live, and otherwise fails before
an argument is evaluated; a subroutine keeps its body, and one that is not live any more never
becomes live again (`Custody.Reached.callsBound`).

Because of the tokens every step is one of a few turns of the environment (`Environment.Turn`), from
which everything else follows by induction.
-/

namespace PeekPoke

open MonadScript

/-! ## Definitions, registrations and holders -/

/-- The subroutine apart from how many slots it takes. -/
def Subroutine.core (s : Subroutine) : Subroutine := { s with slots := 0 }

theorem Subroutine.eq_of_core {s s' : Subroutine} (h : s'.core = s.core) :
    s'.name = s.name ∧ s'.parameters = s.parameters ∧ s'.result = s.result ∧ s'.body = s.body := by
  unfold core at h
  simp only [mk.injEq] at h
  exact ⟨h.1, h.2.1, h.2.2.1, h.2.2.2.2⟩

namespace Environment

/-- The subroutine is registered under some name or held under some key. -/
def Live (env : Environment) (id : Nat) : Prop :=
  (∃ name, (name, id) ∈ env.registered) ∨ ∃ key, (key, id) ∈ env.held

/-- Nothing is opened, closed, registered, dropped, held or released. -/
structure SameRegistry (env env' : Environment) : Prop where
  registered : env'.registered = env.registered
  held : env'.held = env.held
  pending : env'.pendingId? = env.pendingId?
  core : ∀ id : Nat, (env'.subroutines[id]?).map Subroutine.core =
    (env.subroutines[id]?).map Subroutine.core

variable {env env' : Environment} {id : Nat} {s : Subroutine} {body : Node}

theorem SameRegistry.refl (env : Environment) : env.SameRegistry env :=
  ⟨rfl, rfl, rfl, fun _ => rfl⟩

theorem SameRegistry.trans {env'' : Environment} (h : env.SameRegistry env')
    (h' : env'.SameRegistry env'') : env.SameRegistry env'' :=
  ⟨h'.registered.trans h.registered, h'.held.trans h.held, h'.pending.trans h.pending,
    fun id => (h'.core id).trans (h.core id)⟩

/-- A subroutine is the same one apart from its slots. -/
theorem SameRegistry.exists_eq (h : env.SameRegistry env') (hs : env.subroutines[id]? = some s) :
    ∃ s', env'.subroutines[id]? = some s' ∧ s'.core = s.core := by
  have hcore := h.core id
  rw [hs] at hcore
  exact Option.map_eq_some_iff.mp hcore

theorem sameRegistry_bind (env : Environment) (v : Variable) : env.SameRegistry (env.bind v) := by
  refine ⟨?_, ?_, env.pendingId?_bind v, fun id => by rw [subroutines_bind]⟩
  · unfold bind
    split
    · rfl
    · rfl
  · unfold bind
    split
    · rfl
    · rfl

theorem sameRegistry_assignable? {name : String} {v : Variable}
    (h : env.assignable? name = some (v, env')) : env.SameRegistry env' := by
  unfold assignable? at h
  split at h
  · split at h
    · cases h
    · cases h
      exact .refl env
  · cases hp : env.pending with
    | none =>
      rw [newPlain_of_none hp] at h
      cases h
      exact ⟨rfl, rfl, rfl, fun _ => rfl⟩
    | some definition =>
      rw [newPlain_of_some hp] at h
      cases h
      refine ⟨rfl, rfl, ?_, fun id => ?_⟩
      · unfold pendingId?
        rw [hp]
        rfl
      · rw [Array.getElem?_modify]
        split
        · cases env.subroutines[id]? <;> rfl
        · rfl

theorem sameRegistry_newStatic? {name : String} {v : Variable}
    (h : env.newStatic? name = some (v, env')) : env.SameRegistry env' := by
  obtain ⟨-, rfl, rfl⟩ := newStatic?_eq_some h
  have hnew : env.SameRegistry (env.newGlobal .static name).2 := ⟨rfl, rfl, rfl, fun _ => rfl⟩
  exact hnew.trans (sameRegistry_bind _ _)

theorem sameRegistry_newConstant? {name : String} {v : Variable}
    (h : env.newConstant? name = some (v, env')) : env.SameRegistry env' := by
  obtain ⟨-, -, _, rfl⟩ := newConstant?_eq_some h
  exact ⟨rfl, rfl, rfl, fun _ => rfl⟩

/-! ## Turns -/

/-- What a step does to definitions, registrations and holders.  A definition is closed under the
name it was opened with, and only what is available is held. -/
inductive Turn (env : Environment) : Environment → Prop where
  | same {env' : Environment} : env.SameRegistry env' → Turn env env'
  | begin (name : String) (parameters : List String) (result : Option String) :
      env.pending = none → Turn env (env.begin name parameters result)
  | finish {name : String} {body : Node} {id : Nat} {s : Subroutine} {env' : Environment} :
      env.pendingId? = some id → env.subroutines[id]? = some s → s.name = name →
      env.finish? name body = some (id, env') → Turn env env'
  | abandon : Turn env env.abandon
  | drop (name : String) : Turn env (env.unregister name)
  | hold (key : String) {id : Nat} : env.isAvailable id = true → Turn env (env.hold key id)
  | release (key : String) : Turn env (env.release key)

theorem isAvailable_iff (env : Environment) (id : Nat) :
    env.isAvailable id = true ↔ env.Live id ∨ env.pendingId? = some id := by
  simp [isAvailable, Live, or_assoc]

/-- Closing a definition gives its subroutine the body and leaves the others as they are. -/
theorem subroutines_close_self (hs : env.subroutines[id]? = some s) (name : String) (body : Node) :
    (env.close id name body).subroutines[id]? = some { s with body := some body } := by
  rw [close, Array.getElem?_modify, if_pos rfl]
  exact congrArg _ hs

theorem subroutines_close_of_ne (env : Environment) {other : Nat} (hne : other ≠ id)
    (name : String) (body : Node) :
    (env.close id name body).subroutines[other]? = env.subroutines[other]? := by
  rw [close, Array.getElem?_modify, if_neg hne.symm]
  rfl

/-- Opening a definition leaves all subroutines as they are. -/
theorem subroutines_begin_of_some (hs : env.subroutines[id]? = some s) (name : String)
    (parameters : List String) (result : Option String) :
    (env.begin name parameters result).subroutines[id]? = some s := by
  obtain ⟨hlt, -⟩ := Array.getElem?_eq_some_iff.mp hs
  exact (Array.getElem?_push_lt hlt).trans (Array.getElem?_eq_getElem hlt ▸ hs)

/-- Registered subroutines have bodies and are registered under their own names, the one that is
being defined has none yet, and all that is held exists. -/
structure Consistent (env : Environment) : Prop where
  registered : ∀ {name : String} {id : Nat}, (name, id) ∈ env.registered →
    ∃ s body, env.subroutines[id]? = some s ∧ s.name = name ∧ s.body = some body
  pending : ∀ {id : Nat}, env.pendingId? = some id →
    ∃ s, env.subroutines[id]? = some s ∧ s.body = none
  held : ∀ {key : String} {id : Nat}, (key, id) ∈ env.held →
    ∃ s, env.subroutines[id]? = some s

theorem Consistent.exists_of_isAvailable (h : env.Consistent) (hid : env.isAvailable id = true) :
    ∃ s, env.subroutines[id]? = some s := by
  rcases (env.isAvailable_iff id).mp hid with (⟨name, hname⟩ | ⟨key, hkey⟩) | hpending
  · obtain ⟨s, body, hs, -⟩ := h.registered hname
    exact ⟨s, hs⟩
  · exact h.held hkey
  · obtain ⟨s, hs, -⟩ := h.pending hpending
    exact ⟨s, hs⟩

/-- A subroutine that has a body is not the one that is being defined. -/
theorem Consistent.ne_of_body (h : env.Consistent) (hs : env.subroutines[id]? = some s)
    (hbody : s.body = some body) {new : Nat} (hnew : env.pendingId? = some new) : id ≠ new := by
  rintro rfl
  obtain ⟨s', hs', hnone⟩ := h.pending hnew
  cases hs.symm.trans hs'
  rw [hbody] at hnone
  cases hnone

/-- So it is available only while it is live. -/
theorem Consistent.live_of_isAvailable (h : env.Consistent) (hs : env.subroutines[id]? = some s)
    (hbody : s.body = some body) (hid : env.isAvailable id = true) : env.Live id := by
  rcases (env.isAvailable_iff id).mp hid with hlive | hpending
  · exact hlive
  · exact absurd rfl (h.ne_of_body hs hbody hpending)

/-- Nothing is registered any more under a name that is dropped. -/
theorem Consistent.not_mem_unregister (h : env.Consistent) (hs : env.subroutines[id]? = some s)
    (other : String) : (other, id) ∉ (env.unregister s.name).registered := by
  intro hmem
  obtain ⟨hregistered, hother⟩ := List.mem_filter.mp hmem
  obtain ⟨s', _, hs', hnamed, -⟩ := h.registered hregistered
  cases hs.symm.trans hs'
  simp [hnamed] at hother

/-- A definition can be closed exactly if one is open, since its subroutine has no body yet. -/
theorem Consistent.finish?_eq_none_iff (h : env.Consistent) (name : String) (body : Node) :
    env.finish? name body = none ↔ env.pending = none := by
  rw [Environment.finish?_eq_none_iff]
  constructor
  · intro hdefined
    cases hp : env.pending with
    | none => rfl
    | some definition =>
      have hid : env.pendingId? = some definition.subroutine := by rw [pendingId?, hp]; rfl
      obtain ⟨s, hs, hnone⟩ := h.pending hid
      have hbody := hdefined _ hid
      rw [isDefined, hs, Option.any_some, hnone] at hbody
      cases hbody
  · intro hp id hid
    rw [pendingId?, hp] at hid
    cases hid

/-- Every turn keeps the environment consistent. -/
theorem Turn.consistent (h : env.Turn env') (henv : env.Consistent) : env'.Consistent := by
  cases h with
  | same hsame =>
    refine ⟨fun hmem => ?_, fun hid => ?_, fun hmem => ?_⟩
    · obtain ⟨s, body, hs, hname, hbody⟩ := henv.registered (hsame.registered ▸ hmem)
      obtain ⟨s', hs', hcore⟩ := hsame.exists_eq hs
      obtain ⟨hname', -, -, hbody'⟩ := Subroutine.eq_of_core hcore
      exact ⟨s', body, hs', hname'.trans hname, hbody'.trans hbody⟩
    · obtain ⟨s, hs, hbody⟩ := henv.pending (hsame.pending ▸ hid)
      obtain ⟨s', hs', hcore⟩ := hsame.exists_eq hs
      exact ⟨s', hs', (Subroutine.eq_of_core hcore).2.2.2.trans hbody⟩
    · obtain ⟨s, hs⟩ := henv.held (hsame.held ▸ hmem)
      obtain ⟨s', hs', -⟩ := hsame.exists_eq hs
      exact ⟨s', hs'⟩
  | begin name parameters result hp =>
    obtain ⟨s, hsubs, -, hbody, -, hpending⟩ := env.subroutines_begin name parameters result
    refine ⟨fun hmem => ?_, fun hid => ?_, fun hmem => ?_⟩
    · obtain ⟨s', body, hs', hnamed⟩ := henv.registered hmem
      exact ⟨s', body, subroutines_begin_of_some hs' _ _ _, hnamed⟩
    · unfold pendingId? at hid
      rw [hpending] at hid
      cases hid
      exact ⟨s, by rw [hsubs, Array.getElem?_push_size], hbody⟩
    · obtain ⟨s', hs'⟩ := henv.held hmem
      exact ⟨s', subroutines_begin_of_some hs' _ _ _⟩
  | @finish name body id s _ hid hs hname hfinish =>
    obtain ⟨-, -, rfl⟩ := finish?_eq_some hfinish
    refine ⟨fun {other id'} hmem => ?_, nofun, fun {key id'} hmem => ?_⟩
    · rcases List.mem_cons.mp hmem with heq | hmem
      · cases heq
        exact ⟨_, body, subroutines_close_self hs name body, hname, rfl⟩
      · obtain ⟨s', body', hs', hnamed, hbody'⟩ :=
          henv.registered ((List.mem_filter.mp hmem).1)
        have hne : id' ≠ id := henv.ne_of_body hs' hbody' hid
        exact ⟨s', body', (subroutines_close_of_ne env hne name body).trans hs', hnamed, hbody'⟩
    · obtain ⟨s', hs'⟩ := henv.held hmem
      by_cases heq : id' = id
      · subst heq
        exact ⟨_, subroutines_close_self hs' name body⟩
      · exact ⟨s', (subroutines_close_of_ne env heq name body).trans hs'⟩
  | abandon => exact ⟨henv.registered, nofun, henv.held⟩
  | drop name =>
    exact ⟨fun hmem => henv.registered ((List.mem_filter.mp hmem).1), henv.pending, henv.held⟩
  | hold key hid =>
    refine ⟨henv.registered, henv.pending, fun hmem => ?_⟩
    rcases List.mem_cons.mp hmem with heq | hmem
    · cases heq
      exact henv.exists_of_isAvailable hid
    · exact henv.held ((List.mem_filter.mp hmem).1)
  | release key =>
    exact ⟨henv.registered, henv.pending, fun hmem => henv.held ((List.mem_filter.mp hmem).1)⟩

/-! ## What becomes of a subroutine -/

/-- A subroutine is the same one later on.  It keeps its body; if it has none and is not being
defined, it never gets one; and if it is not available, it never is again. -/
structure Outlives (env env' : Environment) (id : Nat) (s s' : Subroutine) : Prop where
  found : env'.subroutines[id]? = some s'
  name : s'.name = s.name
  parameters : s'.parameters = s.parameters
  result : s'.result = s.result
  body : ∀ {body : Node}, s.body = some body → s'.body = some body
  bodiless : s.body = none → env.pendingId? ≠ some id → s'.body = none ∧ env'.pendingId? ≠ some id
  unavailable : env.isAvailable id = false → env'.isAvailable id = false

theorem Outlives.of_core {s' : Subroutine} (hs : env'.subroutines[id]? = some s')
    (hcore : s'.core = s.core) (hpending : env'.pendingId? = some id → env.pendingId? = some id)
    (hgone : env'.isAvailable id = true → env.isAvailable id = true) :
    Outlives env env' id s s' := by
  obtain ⟨hname, hparameters, hresult, hbody⟩ := Subroutine.eq_of_core hcore
  refine ⟨hs, hname, hparameters, hresult, fun h => hbody.trans h,
    fun h hp => ⟨hbody.trans h, fun hp' => hp (hpending hp')⟩, fun h => ?_⟩
  cases hnow : env'.isAvailable id with
  | false => rfl
  | true =>
    rw [hgone hnow] at h
    cases h

/-- A subroutine that changes at most its slots, while no other registration, holder or definition
makes it available. -/
theorem Outlives.of_subset {s' : Subroutine} (hs : env'.subroutines[id]? = some s')
    (hcore : s'.core = s.core) (hpending : env'.pendingId? = some id → env.pendingId? = some id)
    (hregistered : env'.registered ⊆ env.registered) (hheld : env'.held ⊆ env.held) :
    Outlives env env' id s s' := by
  refine .of_core hs hcore hpending fun hnow => (env.isAvailable_iff id).mpr ?_
  rcases (env'.isAvailable_iff id).mp hnow with (⟨name, hmem⟩ | ⟨key, hmem⟩) | hid
  · exact Or.inl (Or.inl ⟨name, hregistered hmem⟩)
  · exact Or.inl (Or.inr ⟨key, hheld hmem⟩)
  · exact Or.inr (hpending hid)

/-- Every turn keeps every subroutine. -/
theorem Turn.outlives (h : env.Turn env') (henv : env.Consistent)
    (hs : env.subroutines[id]? = some s) : ∃ s', Outlives env env' id s s' := by
  cases h with
  | same hsame =>
    obtain ⟨s', hs', hcore⟩ := hsame.exists_eq hs
    exact ⟨s', .of_subset hs' hcore (fun hid => hsame.pending ▸ hid)
      (fun _ hmem => hsame.registered ▸ hmem) fun _ hmem => hsame.held ▸ hmem⟩
  | begin name parameters result hp =>
    obtain ⟨new, -, -, -, -, hpending⟩ := env.subroutines_begin name parameters result
    obtain ⟨hlt, -⟩ := Array.getElem?_eq_some_iff.mp hs
    have hs' := subroutines_begin_of_some hs name parameters result
    refine ⟨s, .of_subset hs' rfl (fun hid => ?_) (fun _ hmem => hmem) fun _ hmem => hmem⟩
    -- The definition that is opened gets a number that no subroutine had.
    unfold pendingId? at hid
    rw [hpending] at hid
    cases hid
    exact absurd hlt (Nat.lt_irrefl _)
  | @finish name body new defined _ hid hdefined hname hfinish =>
    obtain ⟨-, -, rfl⟩ := finish?_eq_some hfinish
    by_cases heq : id = new
    · subst heq
      obtain ⟨_, hs', hnone⟩ := henv.pending hid
      cases hs.symm.trans hs'
      refine ⟨_, subroutines_close_self hs name body, rfl, rfl, rfl, fun h => ?_, fun _ h => ?_,
        fun h => ?_⟩
      · rw [hnone] at h
        cases h
      · exact absurd hid h
      · rw [(env.isAvailable_iff id).mpr (Or.inr hid)] at h
        cases h
    · have hs' := (subroutines_close_of_ne env heq name body).trans hs
      refine ⟨s, .of_core hs' rfl nofun fun hnow => ?_⟩
      refine (env.isAvailable_iff id).mpr (Or.inl ?_)
      rcases (isAvailable_iff _ id).mp hnow with (⟨other, hmem⟩ | ⟨key, hmem⟩) | hid'
      · rcases List.mem_cons.mp hmem with hnew | hmem
        · cases hnew
          exact absurd rfl heq
        · exact Or.inl ⟨other, (List.mem_filter.mp hmem).1⟩
      · exact Or.inr ⟨key, hmem⟩
      · cases hid'
  | abandon => exact ⟨s, .of_subset hs rfl nofun (fun _ hmem => hmem) fun _ hmem => hmem⟩
  | drop name =>
    exact ⟨s, .of_subset hs rfl (fun hid => hid) (fun _ hmem => (List.mem_filter.mp hmem).1)
      fun _ hmem => hmem⟩
  | @hold key held hid =>
    refine ⟨s, .of_core hs rfl (fun hp => hp) fun hnow => ?_⟩
    rcases (isAvailable_iff _ id).mp hnow with (hregistered | ⟨other, hmem⟩) | hpending
    · exact (env.isAvailable_iff id).mpr (Or.inl (Or.inl hregistered))
    · rcases List.mem_cons.mp hmem with heq | hmem
      · cases heq
        exact hid
      · exact (env.isAvailable_iff id).mpr (Or.inl (Or.inr ⟨other, (List.mem_filter.mp hmem).1⟩))
    · exact (env.isAvailable_iff id).mpr (Or.inr hpending)
  | release key =>
    exact ⟨s, .of_subset hs rfl (fun hid => hid) (fun _ hmem => hmem)
      fun _ hmem => (List.mem_filter.mp hmem).1⟩

theorem Outlives.refl (hs : env.subroutines[id]? = some s) : Outlives env env id s s :=
  .of_subset hs rfl (fun hid => hid) (fun _ hmem => hmem) fun _ hmem => hmem

theorem Outlives.trans {env'' : Environment} {s' s'' : Subroutine} (h : Outlives env env' id s s')
    (h' : Outlives env' env'' id s' s'') : Outlives env env'' id s s'' where
  found := h'.found
  name := h'.name.trans h.name
  parameters := h'.parameters.trans h.parameters
  result := h'.result.trans h.result
  body hbody := h'.body (h.body hbody)
  bodiless hnone hp := by
    obtain ⟨hnone', hp'⟩ := h.bodiless hnone hp
    exact h'.bodiless hnone' hp'
  unavailable hgone := h'.unavailable (h.unavailable hgone)

/-- Any number of turns. -/
def Turns : Environment → Environment → Prop := Relation.ReflTransGen Turn

theorem Turns.outlives (h : env.Turns env') (henv : env.Consistent)
    (hs : env.subroutines[id]? = some s) : env'.Consistent ∧ ∃ s', Outlives env env' id s s' := by
  induction h with
  | refl => exact ⟨henv, s, .refl hs⟩
  | tail _ hturn ih =>
    obtain ⟨hmiddle, s', hs'⟩ := ih
    obtain ⟨s'', hs''⟩ := hturn.outlives hmiddle hs'.found
    exact ⟨hturn.consistent hmiddle, s'', hs'.trans hs''⟩

/-! ## Calls -/

/-- A subroutine can be called exactly if it has a body and is live. -/
theorem Consistent.callable?_eq_some_iff (h : env.Consistent) :
    env.callable? id = some (s, body) ↔
      env.subroutines[id]? = some s ∧ s.body = some body ∧ env.Live id := by
  constructor
  · intro hcallable
    obtain ⟨hs, hbody⟩ := callable?_eq_some hcallable
    have havailable : env.isAvailable id = true := by
      unfold callable? at hcallable
      split at hcallable
      · assumption
      · cases hcallable
    exact ⟨hs, hbody, h.live_of_isAvailable hs hbody havailable⟩
  · rintro ⟨hs, hbody, hlive⟩
    have havailable : env.isAvailable id = true := (env.isAvailable_iff id).mpr (Or.inl hlive)
    simp [callable?, havailable, hs, hbody]

end Environment

/-- What a name refers to exists and has that name. -/
theorem Environment.Consistent.of_subroutineId? {env : Environment} (h : env.Consistent)
    {name : String} {id : Nat} (hid : env.subroutineId? name = some id) :
    ∃ s, env.subroutines[id]? = some s ∧ s.name = name ∧ env.isAvailable id = true := by
  rcases Option.or_eq_some_iff.mp hid with hpending | ⟨-, hregistered⟩
  · obtain ⟨hp, hnamed⟩ := Option.filter_eq_some_iff.mp hpending
    obtain ⟨s, hs, -⟩ := h.pending hp
    rw [hs, Option.any_some] at hnamed
    exact ⟨s, hs, by simpa using hnamed, (env.isAvailable_iff id).mpr (Or.inr hp)⟩
  · have hmem : (name, id) ∈ env.registered := by
      obtain ⟨before, after, hsplit, -⟩ := List.lookup_eq_some_iff.mp hregistered
      rw [hsplit]
      simp
    obtain ⟨s, body, hs, hname, -⟩ := h.registered hmem
    exact ⟨s, hs, hname, (env.isAvailable_iff id).mpr (Or.inl (Or.inl ⟨name, hmem⟩))⟩

/-- Calling a constructor opens, closes, registers and drops nothing. -/
theorem System.sameRegistry_respected :
    System.Respected (fun _ => True) fun s s' : System => s.env.SameRegistry s'.env where
  refl s := .refl s.env
  trans := .trans
  onTrace s _ := .refl s.env
  onPlain h := Environment.sameRegistry_assignable? (assignable?_eq_some h).1
  onStatic h := Environment.sameRegistry_newStatic? (newStatic?_eq_some h).1
  onCell _ := ⟨rfl, rfl, rfl, fun _ => rfl⟩
  onConstant _ _ h := Environment.sameRegistry_newConstant? (newConstant?_eq_some h).1
  onRequest s start length device := by
    rw [env_noteRequest]
    exact .refl s.env
  onMap h := by
    rw [env_map h]
    exact .refl _

/-! ## Definitions and their tokens -/

/-- A world, and the names of the definitions for which the embedder has a token. -/
structure Custody where
  world : World
  tokens : List String := []

namespace Custody

/-- The environment of the world. -/
def env (c : Custody) : Environment := c.world.env

/-- The system of the world. -/
def system (c : Custody) : System := c.world.system

/-- The custody in another system. -/
def withSystem (c : Custody) (system : System) : Custody :=
  { c with world := c.world.withSystem system }

/-- The custody with another environment. -/
def withEnv (c : Custody) (env : Environment) : Custody := { c with world := c.world.withEnv env }

/-- A token is used up. -/
def spend (c : Custody) (name : String) : Custody := { c with tokens := c.tokens.erase name }

/-- The definition is given up with its token. -/
def abort (c : Custody) (name : String) : Custody :=
  (c.spend name).withSystem (c.system.abandon name)

/-- One thing that an embedder does.  Opening a definition gives it a token, and closing the
definition or giving it up takes the token. -/
inductive Step (c : Custody) : Custody → Prop where
  | begin {l : Location} {name : String} {parameters : List String} {result : Option String}
      {system : System} : Build.beginSubroutine l name parameters result c.system = .ok () system →
      Step c { c.withSystem system with tokens := name :: c.tokens }
  | finish {name : String} {body : Node} {id : Nat} {system : System} : name ∈ c.tokens →
      body ∈ c.world.nodes → c.system.finish? name body = some (id, system) →
      Step c ((c.spend name).withSystem system)
  /-- Close a definition that cannot be closed, which is then no longer open. -/
  | finishFails {name : String} {body : Node} : name ∈ c.tokens →
      c.system.finish? name body = none → Step c ((c.spend name).withEnv c.env.abandon)
  | abort {name : String} : name ∈ c.tokens → Step c (c.abort name)
  /-- Lose a token without using it. -/
  | lose (name : String) : Step c (c.spend name)
  | drop {name : String} {system : System} : c.system.drop? name = some system →
      Step c (c.withSystem system)
  /-- Hold a subroutine, which can be got hold of while it is available. -/
  | hold (key : String) {id : Nat} : c.env.isAvailable id = true →
      Step c (c.withEnv (c.env.hold key id))
  | release (key : String) : Step c (c.withEnv (c.env.release key))
  /-- Call a constructor. -/
  | construct {x : Build Node} : Construction c.world.nodes x →
      Step c { c with world := c.world.after (x c.system) }
  /-- Do anything else that an embedder can do. -/
  | other {world : World} : c.world.Step world → c.env.SameRegistry world.env →
      Step c { c with world }

/-- Any number of steps. -/
def Steps : Custody → Custody → Prop := Relation.ReflTransGen Step

/-- A session that has just been opened, without any token. -/
def opened (defaultWidth : Width) (denied : List String) (port : Port)
    (silent trace : Bool) : Custody where
  world := .opened defaultWidth denied port silent trace

/-- A custody that can come about. -/
def Reached (c : Custody) : Prop :=
  ∃ defaultWidth denied port silent trace,
    Steps (opened defaultWidth denied port silent trace) c

variable {c c' : Custody}

/-- There is at most one token, and it belongs to the definition that is open. -/
structure Valid (c : Custody) : Prop where
  single : c.tokens.length ≤ 1
  token : ∀ {name : String}, name ∈ c.tokens →
    ∃ id s, c.env.pendingId? = some id ∧ c.env.subroutines[id]? = some s ∧ s.name = name

theorem Valid.tokens_eq_nil (h : c.Valid) (hp : c.env.pending = none) : c.tokens = [] := by
  cases htokens : c.tokens with
  | nil => rfl
  | cons name rest =>
    obtain ⟨id, s, hid, -⟩ := h.token (htokens ▸ List.mem_cons_self)
    unfold Environment.pendingId? at hid
    rw [hp] at hid
    cases hid

/-- Once the only token is used up there is none. -/
theorem Valid.erase_eq_nil (h : c.Valid) {name : String} (hname : name ∈ c.tokens) :
    c.tokens.erase name = [] := by
  obtain ⟨other, hother⟩ := List.length_eq_one_iff.mp
    (Nat.le_antisymm h.single (List.length_pos_of_mem hname))
  rw [hother] at hname ⊢
  rw [List.mem_singleton.mp hname, List.erase_cons_head]

/-- Without tokens there is nothing to check. -/
theorem Valid.of_nil (h : c.tokens = []) : c.Valid where
  single := by simp [h]
  token hname := by simp [h] at hname

/-- While nothing is opened or closed, tokens can only be lost. -/
theorem Valid.of_sameRegistry (h : c.Valid) (htokens : c'.tokens.Sublist c.tokens)
    (hsame : c.env.SameRegistry c'.env) : c'.Valid where
  single := Nat.le_trans htokens.length_le h.single
  token hname := by
    obtain ⟨id, s, hid, hs, hnamed⟩ := h.token (htokens.subset hname)
    obtain ⟨s', hs', hcore⟩ := hsame.exists_eq hs
    exact ⟨id, s', hsame.pending.trans hid, hs', (Subroutine.eq_of_core hcore).1.trans hnamed⟩

/-- Other registrations and holders do not concern the tokens. -/
theorem Valid.of_eq (h : c.Valid) (htokens : c'.tokens = c.tokens)
    (hpending : c'.env.pendingId? = c.env.pendingId?)
    (hsubs : c'.env.subroutines = c.env.subroutines) : c'.Valid where
  single := htokens ▸ h.single
  token hname := by
    rw [hpending, hsubs]
    exact h.token (htokens ▸ hname)

/-- Every step keeps the tokens valid and is a turn of the environment. -/
theorem Step.turn (h : c.Step c') (hc : c.Valid) : c'.Valid ∧ c.env.Turn c'.env := by
  cases h with
  | @begin l name parameters result system hbegin =>
    obtain ⟨hp, henv⟩ := Build.beginSubroutine_eq_ok hbegin
    have henv' : (c.withSystem system).env = c.env.begin name parameters result := henv
    refine ⟨⟨by simp [hc.tokens_eq_nil hp], fun {other} hother => ?_⟩, henv' ▸ .begin _ _ _ hp⟩
    have hother' : other = name := by simpa [hc.tokens_eq_nil hp] using hother
    obtain ⟨s, hs, hnamed⟩ : ∃ s, (c.env.begin name parameters result).subroutines[
        c.env.subroutines.size]? = some s ∧ s.name = name := ⟨_, Array.getElem?_push_size, rfl⟩
    exact ⟨c.env.subroutines.size, s, congrArg Environment.pendingId? henv', henv' ▸ hs,
      hnamed.trans hother'.symm⟩
  | @finish name body id system hname hbody hfinish =>
    obtain ⟨id', s, hid, hs, hnamed⟩ := hc.token hname
    obtain ⟨hid', -⟩ := System.finish?_eq_some hfinish
    have hsame : id' = id := Option.some.inj (hid.symm.trans hid')
    subst hsame
    exact ⟨.of_nil (hc.erase_eq_nil hname), .finish hid hs hnamed (System.env_finish? hfinish)⟩
  | finishFails hname | abort hname => exact ⟨.of_nil (hc.erase_eq_nil hname), .abandon⟩
  | lose => exact ⟨hc.of_sameRegistry List.erase_sublist (.refl _), .same (.refl _)⟩
  | @drop name _ hdrop =>
    obtain rfl := System.drop?_eq_some hdrop
    exact ⟨hc.of_eq rfl rfl rfl, .drop name⟩
  | hold key hid => exact ⟨hc.of_eq rfl rfl rfl, .hold key hid⟩
  | release key => exact ⟨hc.of_eq rfl rfl rfl, .release key⟩
  | construct hx =>
    have hsame := hx.respects System.sameRegistry_respected (fun _ => trivial) c.system
    rw [← World.after_system c.world] at hsame
    exact ⟨hc.of_sameRegistry (List.Sublist.refl _) hsame, .same hsame⟩
  | other _ hsame => exact ⟨hc.of_sameRegistry (List.Sublist.refl _) hsame, .same hsame⟩

theorem Steps.turns (h : c.Steps c') (hc : c.Valid) : c'.Valid ∧ c.env.Turns c'.env := by
  induction h with
  | refl => exact ⟨hc, .refl⟩
  | tail _ hstep ih =>
    obtain ⟨hvalid, hturn⟩ := hstep.turn ih.1
    exact ⟨hvalid, ih.2.tail hturn⟩

theorem Reached.steps (h : c.Reached) (hs : c.Steps c') : c'.Reached := by
  obtain ⟨defaultWidth, denied, port, silent, trace, hc⟩ := h
  exact ⟨defaultWidth, denied, port, silent, trace, hc.trans hs⟩

/-- Tokens are valid and the environment is consistent wherever the embedder gets. -/
theorem Reached.consistent (h : c.Reached) : c.Valid ∧ c.env.Consistent := by
  obtain ⟨defaultWidth, denied, port, silent, trace, hc⟩ := h
  induction hc with
  | refl =>
    refine ⟨.of_nil rfl, fun hmem => ?_, nofun, fun hmem => ?_⟩
    · cases hmem
    · cases hmem
  | tail _ hstep ih =>
    obtain ⟨hvalid, hturn⟩ := hstep.turn ih.1
    exact ⟨hvalid, hturn.consistent ih.2⟩

/-- What becomes of a subroutine from then on. -/
theorem Reached.outlives (h : c.Reached) (hs : c.Steps c') {id : Nat} {s : Subroutine}
    (hid : c.env.subroutines[id]? = some s) :
    ∃ s', Environment.Outlives c.env c'.env id s s' := by
  obtain ⟨hvalid, henv⟩ := h.consistent
  exact ((hs.turns hvalid).2.outlives henv hid).2

/-! ## Calls are bound to subroutines -/

/-- What the calls do that are built in a custody or were built before. -/
structure CallsBound (c : Custody) : Prop where
  /-- Every registered subroutine has a body and is registered under its own name. -/
  registered : ∀ {name : String} {id : Nat}, (name, id) ∈ c.env.registered →
    ∃ s body, c.env.subroutines[id]? = some s ∧ s.name = name ∧ s.body = some body
  /-- Closing a definition has no result exactly if none is open. -/
  closes : ∀ name body, c.system.finish? name body = none ↔ c.env.pending = none
  /-- A call that is built is bound to the subroutine that its name refers to. -/
  bound : ∀ {l : Location} {name : String} {arguments : List Node} {node : Node} {system : System},
    Build.call l name arguments c.system = .ok node system →
    ∃ id s arguments', c.env.subroutineId? name = some id ∧ c.env.subroutines[id]? = some s ∧
      s.name = name ∧ node = .call l name id arguments'
  /-- It is the same subroutine ever after, with its variables and with its body, if it has one. -/
  kept : ∀ {id : Nat} {s : Subroutine} {c' : Custody}, c.env.subroutines[id]? = some s →
    c.Steps c' → ∃ s', c'.env.subroutines[id]? = some s' ∧ s'.name = s.name ∧
      s'.parameters = s.parameters ∧ s'.result = s.result ∧
      ∀ body, s.body = some body → s'.body = some body
  /-- If it has a body and is live, a call that is bound to it evaluates the arguments and runs that
  body. -/
  runs : ∀ {id : Nat} {s : Subroutine} {body : Node}, c.env.subroutines[id]? = some s →
    s.body = some body → c.env.Live id →
    ∀ (fuel : Nat) (l : Location) (name : String) (arguments : List Node),
      exec c.env (fuel + 1) (.call l name id arguments) = (do
        emit (.execute "call" l)
        bracket (·.emit (.callEntered name)) (·.emit (.callLeft name)) do
          let values ← evalAll (exec c.env fuel) arguments
          activate id s (exec c.env fuel body) values)
  /-- The record of that call is that of its arguments and then, if all of them have values, the
  execution of that body. -/
  executes : ∀ {id : Nat} {s : Subroutine} {body : Node}, c.env.subroutines[id]? = some s →
    s.body = some body → c.env.Live id →
    ∀ (fuel : Nat) (l : Location) (name : String) (arguments : List Node) (m : Machine),
      CallRecord c.env (fuel + 1) id s body arguments
        ((m.emit (.execute "call" l)).emit (.callEntered name))
        (inside c.env (fuel + 1) (.call l name id arguments) m).1
  /-- Otherwise the call fails.  It executes no argument, and all it changes is the trace. -/
  fails : ∀ {id : Nat}, (∀ s body, c.env.subroutines[id]? = some s → s.body = some body →
      ¬ c.env.Live id) →
    ∀ (fuel : Nat) (l : Location) (name : String) (arguments : List Node) (m : Machine),
      inside c.env fuel (.call l name id arguments) m =
        ([], some (.error (.failure ⟨.subroutineUnavailable name, l⟩),
          ((m.emit (.execute "call" l)).emit (.callEntered name)).emit (.callLeft name)))
  /-- The subroutine that is being defined has no body. -/
  pending : ∀ {id : Nat}, c.env.pendingId? = some id →
    ∃ s, c.env.subroutines[id]? = some s ∧ s.body = none
  /-- If its definition is given up, it never gets one. -/
  aborted : ∀ {id : Nat} {name : String} {c' : Custody}, c.env.pendingId? = some id →
    name ∈ c.tokens → (c.abort name).Steps c' →
    ∀ s', c'.env.subroutines[id]? = some s' → s'.body = none
  /-- If another one is defined under the name of a subroutine that is not held, that one is not
  live any more; it is not the new one, and it is what it was. -/
  redefined : ∀ {id new : Nat} {s : Subroutine} {body old : Node} {system : System},
    c.system.finish? s.name body = some (new, system) → c.env.subroutines[id]? = some s →
    s.body = some old → id ≠ new ∧ system.env.subroutines[id]? = some s ∧
      ((∀ key, (key, id) ∉ c.env.held) → ¬ system.env.Live id)
  /-- Nor is it live any more once it is dropped. -/
  dropped : ∀ {id : Nat} {s : Subroutine} {system : System},
    c.system.drop? s.name = some system → c.env.subroutines[id]? = some s →
    (∀ key, (key, id) ∉ c.env.held) → ¬ system.env.Live id
  /-- A subroutine with a body that is not live never is again. -/
  gone : ∀ {id : Nat} {s : Subroutine} {body : Node} {c' : Custody},
    c.env.subroutines[id]? = some s → s.body = some body → ¬ c.env.Live id → c.Steps c' →
    ¬ c'.env.Live id

/-- **Calls.**  Whatever an embedder does, calls stay bound to their subroutines. -/
theorem Reached.callsBound (h : c.Reached) : c.CallsBound := by
  obtain ⟨-, hconsistent⟩ := h.consistent
  constructor
  case registered => exact hconsistent.registered
  case closes =>
    intro name body
    exact Option.map_eq_none_iff.trans (hconsistent.finish?_eq_none_iff name body)
  case bound =>
    intro l name arguments node system hbuilt
    obtain ⟨id, arguments', hid, hnode, -⟩ := Build.call_eq_ok hbuilt
    obtain ⟨s, hs, hname, -⟩ := hconsistent.of_subroutineId? hid
    exact ⟨id, s, arguments', hid, hs, hname, hnode⟩
  case kept =>
    intro id s c' hs hsteps
    obtain ⟨s', hs'⟩ := h.outlives hsteps hs
    exact ⟨s', hs'.found, hs'.name, hs'.parameters, hs'.result, fun _ => hs'.body⟩
  case runs =>
    intro id s body hs hbody hlive
    exact exec_call_of_callable (hconsistent.callable?_eq_some_iff.mpr ⟨hs, hbody, hlive⟩)
  case executes =>
    intro id s body hs hbody hlive
    exact callRecord_of_callable (hconsistent.callable?_eq_some_iff.mpr ⟨hs, hbody, hlive⟩)
  case fails =>
    intro id hnot
    refine inside_call_of_not_callable ?_
    refine Option.eq_none_iff_forall_ne_some.mpr fun ⟨s, body⟩ hc => ?_
    obtain ⟨hs, hbody, hlive⟩ := hconsistent.callable?_eq_some_iff.mp hc
    exact hnot s body hs hbody hlive
  case pending => exact hconsistent.pending
  case aborted =>
    intro id name c' hid hname hsteps s' hs'
    obtain ⟨s, hs, hnone⟩ := hconsistent.pending hid
    have haborted : (c.abort name).Reached := h.steps (.single (.abort hname))
    obtain ⟨s'', hlater⟩ := haborted.outlives hsteps hs
    cases hs'.symm.trans hlater.found
    exact (hlater.bodiless hnone nofun).1
  case redefined =>
    intro id new s body old system hfinish hs hold
    obtain ⟨hnew, -, _, rfl⟩ := System.finish?_eq_some hfinish
    have hne : id ≠ new := hconsistent.ne_of_body hs hold hnew
    have hsame := Environment.subroutines_close_of_ne c.env hne s.name body
    refine ⟨hne, hsame.trans hs, fun hfree => ?_⟩
    rintro (⟨other, hmem⟩ | ⟨key, hmem⟩)
    · rcases List.mem_cons.mp hmem with heq | hmem
      · exact hne (congrArg Prod.snd heq)
      · exact hconsistent.not_mem_unregister hs other hmem
    · exact hfree key hmem
  case dropped =>
    intro id s system hdrop hs hheld
    obtain rfl := System.drop?_eq_some hdrop
    rintro (⟨other, hmem⟩ | ⟨key, hmem⟩)
    · exact hconsistent.not_mem_unregister hs other hmem
    · exact hheld key hmem
  case gone =>
    intro id s body c' hs hbody hlive hsteps hlive'
    obtain ⟨s', hlater⟩ := h.outlives hsteps hs
    have hnow : c.env.isAvailable id = false := by
      cases havailable : c.env.isAvailable id with
      | false => rfl
      | true => exact absurd (hconsistent.live_of_isAvailable hs hbody havailable) hlive
    have hthen : c'.env.isAvailable id = true := (c'.env.isAvailable_iff id).mpr (Or.inl hlive')
    rw [hlater.unavailable hnow] at hthen
    cases hthen

/-- The custody after a definition without parameters is opened. -/
def begins (c : Custody) (name : String) : Custody :=
  { c.withSystem (stateAfter (Build.beginSubroutine .unknown name [] none c.system)) with
    tokens := name :: c.tokens }

/-- The custody after a call of a constructor. -/
def builds (c : Custody) (x : Build Node) : Custody :=
  { c with world := c.world.after (x c.system) }

/-- The custody after the open definition is closed with its token. -/
def finishes (c : Custody) (name : String) (body : Node) : Custody :=
  (c.spend name).withSystem ((c.system.finish? name body).elim c.system Prod.snd)

theorem step_begins {name : String} {system : System}
    (h : Build.beginSubroutine .unknown name [] none c.system = .ok () system) :
    c.Step (c.begins name) := by
  unfold begins
  rw [h]
  exact .begin h

theorem step_finishes {name : String} {body : Node} (hname : name ∈ c.tokens)
    (hbody : body ∈ c.world.nodes) (h : (c.system.finish? name body).isSome = true) :
    c.Step (c.finishes name body) := by
  obtain ⟨made, hmade⟩ := Option.isSome_iff_exists.mp h
  unfold finishes
  rw [hmade]
  exact .finish hname hbody hmade

/-- A subroutine is defined, a call of it is built, and it is defined anew. -/
def redefinition : Custody :=
  let new := opened .native [] (.simulated {}) false false
  let first := (new.begins "f").builds (Build.jump .unknown .exit)
  let called := (first.finishes "f" (.jump .unknown .exit)).builds (Build.call .unknown "f" [])
  (called.begins "f").finishes "f" (.jump .unknown .exit)

theorem redefinition_reached : redefinition.Reached := by
  let new := opened .native [] (.simulated {}) false false
  let first := (new.begins "f").builds (Build.jump .unknown .exit)
  let called := (first.finishes "f" (.jump .unknown .exit)).builds (Build.call .unknown "f" [])
  have hfirst : new.Steps first :=
    .tail (.single (step_begins rfl)) (.construct (.jump .unknown .exit))
  have hcalled : first.Steps called :=
    .tail (.single (step_finishes List.mem_cons_self List.mem_cons_self (by decide +kernel)))
      (.construct (.call .unknown "f" (by simp)))
  have hsecond : called.Steps redefinition :=
    .tail (.single (step_begins rfl))
      (step_finishes List.mem_cons_self (List.mem_cons_of_mem _ List.mem_cons_self)
        (by decide +kernel))
  exact ⟨.native, [], .simulated {}, false, false, hfirst.trans (hcalled.trans hsecond)⟩

/-- The call is bound to the first subroutine, which is not live any more, so it fails. -/
theorem redefinition_callsBound :
    redefinition.Reached ∧ redefinition.CallsBound ∧
      Node.call .unknown "f" 0 [] ∈ redefinition.world.nodes ∧
      ∀ fuel m, (inside redefinition.env fuel (.call .unknown "f" 0 []) m).2.map Prod.fst =
        some (.error (.failure ⟨.subroutineUnavailable "f", .unknown⟩)) := by
  have hbound : redefinition.CallsBound := Reached.callsBound redefinition_reached
  have hdead : ¬ redefinition.env.Live 0 := by
    have hregistered : redefinition.env.registered = [("f", 1)] := rfl
    have hheld : redefinition.env.held = [] := rfl
    simp [Environment.Live, hregistered, hheld]
  refine ⟨redefinition_reached, hbound, List.mem_cons_self, fun fuel m => ?_⟩
  rw [hbound.fails (fun _ _ _ _ => hdead) fuel .unknown "f" [] m]
  rfl

end Custody

end PeekPoke
