import PeekPoke.Proofs.Construction
set_option autoImplicit false

/-!
# Failed constructions

A call that fails can have reported to the trace and asked a device for a mapping; names, values,
members, subroutines, windows, memory and output are as they were (`System.Intact`).

Main statement: every constructor of nodes leaves a system intact when it fails, and so does the
opening of a definition, with one exception.  The definition of a constant together with members
fails either before its name is bound, and then the system is intact, or after that, and then it has
bound its name and the names of the members before the offending one, and nothing else is different
(`System.failsCleanly`).

A constructor ends with at most one change that can fail, and nothing fails after it; before it there
are quiet steps only, which leave the system intact whether they succeed or fail
(`Construction.atomic`).
-/

namespace PeekPoke

/-! ## Intact systems -/

namespace System

/-- Nothing is different but the trace, and the requests for mappings that the devices saw. -/
structure Intact (s s' : System) : Prop where
  env : s'.env = s.env
  machine : ∃ trace asked, s'.machine =
      { s.machine with trace, traffic := asked ++ s.machine.traffic } ∧
    ∀ e ∈ asked, ∃ start length device, e = BusEvent.map start length device

theorem Intact.of_trace (s : System) (trace : Trace) :
    s.Intact { s with machine := s.machine.withTrace trace } where
  env := rfl
  machine := ⟨trace, [], rfl, by simp⟩

theorem Intact.refl (s : System) : s.Intact s := .of_trace s s.machine.trace

theorem Intact.trans {a b c : System} (hab : a.Intact b) (hbc : b.Intact c) : a.Intact c where
  env := hbc.env.trans hab.env
  machine := by
    obtain ⟨_, asked, hb, hasked⟩ := hab.machine
    obtain ⟨trace, asked', hc, hasked'⟩ := hbc.machine
    refine ⟨trace, asked' ++ asked, by rw [hc, hb, List.append_assoc], fun e he => ?_⟩
    rcases List.mem_append.1 he with he | he
    · exact hasked' e he
    · exact hasked e he

/-- Asking a device leaves the system intact. -/
theorem intact_noteRequest (s : System) (start length : Word) (device : String) :
    s.Intact (s.noteRequest start length device) := by
  unfold noteRequest
  split
  · exact ⟨rfl, s.machine.trace, [.map start length device], rfl, by simp⟩
  · exact .refl s

end System

/-! ## Steps that cannot do harm -/

namespace Build

variable {α β : Type}

/-- The step leaves every system intact, whether it succeeds or fails. -/
def Quiet (x : Build α) : Prop := Leads System.Intact x

/-- The step leaves a system intact if it fails. -/
def Atomic (x : Build α) : Prop := ∀ s e s', x s = .error e s' → s.Intact s'

/-- The step does not fail. -/
def Unfailing (x : Build α) : Prop := ∀ s, ∃ a s', x s = .ok a s'

theorem quiet_pure (a : α) : Quiet (pure a) := Leads.pure System.Intact.refl a

theorem quiet_bind {x : Build α} {f : α → Build β} (hx : Quiet x) (hf : ∀ a, Quiet (f a)) :
    Quiet (x >>= f) := Leads.bind .trans hx hf

theorem quiet_fail (cause : BuildCause) (location : Location) :
    Quiet (fail cause location : Build α) := .refl

theorem quiet_emit (e : TraceEvent) : Quiet (emit e) := fun s => .of_trace s (s.machine.trace.add e)

theorem quiet_create (node : Node) : Quiet (create node) :=
  quiet_bind (quiet_emit _) fun _ => quiet_pure node

theorem quiet_resolve (location : Location) (name : String) : Quiet (resolve location name) := by
  intro s
  cases h : s.env.lookup name with
  | none =>
    rw [resolve, orFail_of_none (by rw [h]; rfl)]
    exact .refl s
  | some v =>
    rw [resolve, orFail_of_some (by rw [h]; rfl)]
    exact .refl s

theorem quiet_evaluate {node : Node} (hc : node.isConstant = true) : Quiet (evaluate node) := by
  intro s
  obtain ⟨trace, h⟩ := evaluate_of_isConstant hc s
  rw [h]
  cases node.constantValue s.machine.stores.get with
  | ok w => exact .of_trace s trace
  | error u => exact .of_trace s trace

theorem quiet_requireConstant (node : Node) : Quiet (requireConstant node) := by
  unfold requireConstant
  split
  · exact quiet_evaluate ‹_›
  · exact quiet_fail _ _

theorem quiet_literalOf (location : Location) (r : Except Numeral.LiteralError Word) :
    Quiet (literalOf location r) := by
  cases r with
  | ok w => exact quiet_create _
  | error e => exact quiet_fail _ _

theorem quiet_attach (child : Node) : Quiet (attach child) := by
  refine Leads.get_bind fun s => ?_
  split
  · rename_i h
    simp only [Bool.and_eq_true] at h
    exact quiet_bind (quiet_evaluate h.1.2) fun _ => quiet_bind (quiet_emit _) fun _ =>
      quiet_create _
  · exact quiet_pure child

theorem quiet_attachAll (children : List Node) : Quiet (attachAll children) := by
  induction children with
  | nil => exact quiet_pure []
  | cons child rest ih =>
    exact quiet_bind (quiet_attach child) fun _ => quiet_bind ih fun _ => quiet_pure _

theorem quiet_attachOption (child : Option Node) : Quiet (attachOption child) := by
  cases child with
  | none => exact quiet_pure none
  | some child => exact quiet_bind (quiet_attach child) fun _ => quiet_pure _

theorem quiet_printParts (items : List (PrintItem Node)) : Quiet (printParts items) := by
  induction items with
  | nil => exact quiet_pure []
  | cons item rest ih =>
    cases item with
    | text text => exact quiet_bind ih fun _ => quiet_pure _
    | value expr format =>
      refine Leads.get_bind fun s => ?_
      dsimp only
      split
      · exact quiet_bind (quiet_attach expr) fun _ => quiet_bind ih fun _ => quiet_pure _
      · exact quiet_fail _ _

theorem Quiet.atomic {x : Build α} (h : Quiet x) : Atomic x := by
  intro s e s' hx
  have hintact := h s
  rwa [hx] at hintact

/-- What fails after a quiet step fails as if it had come first. -/
theorem Quiet.atomic_bind {x : Build α} {f : α → Build β} (hx : Quiet x) (hf : ∀ a, Atomic (f a)) :
    Atomic (x >>= f) := by
  intro s e s' h
  have hintact := hx s
  cases hxs : x s with
  | ok a middle =>
    rw [hxs] at hintact
    rw [EStateM.bind_of_ok hxs] at h
    exact hintact.trans (hf a middle e s' h)
  | error e' middle =>
    rw [hxs] at hintact
    rw [EStateM.bind_of_error hxs] at h
    cases h
    exact hintact

/-- A step that changes the system may come last but for steps that do not fail. -/
theorem Atomic.bind {x : Build α} {f : α → Build β} (hx : Atomic x) (hf : ∀ a, Unfailing (f a)) :
    Atomic (x >>= f) := by
  intro s e s' h
  cases hxs : x s with
  | ok a middle =>
    obtain ⟨b, s'', hok⟩ := hf a middle
    rw [EStateM.bind_of_ok hxs, hok] at h
    cases h
  | error e' middle =>
    rw [EStateM.bind_of_error hxs] at h
    cases h
    exact hx s e s' hxs

theorem atomic_orFail (result : System → Option (α × System)) (cause : BuildCause)
    (location : Location) : Atomic (orFail result cause location) := by
  intro s e s' h
  cases hr : result s with
  | none =>
    rw [orFail_of_none hr] at h
    cases h
    exact .refl s
  | some made =>
    rw [orFail_of_some hr] at h
    cases h

theorem unfailing_create (node : Node) : Unfailing (create node) := fun _ => ⟨node, _, rfl⟩

theorem Unfailing.bind {x : Build α} {f : α → Build β} (hx : Unfailing x)
    (hf : ∀ a, Unfailing (f a)) : Unfailing (x >>= f) := by
  intro s
  obtain ⟨a, middle, h⟩ := hx s
  obtain ⟨b, s', hok⟩ := hf a middle
  exact ⟨b, s', by rw [EStateM.bind_of_ok h, hok]⟩

/-! ### Constructors that check something -/

theorem quiet_forLoop (location : Location) (start target : Node) (step : Option Node)
    (body : Node) : Quiet (forLoop location start target step body) := by
  unfold forLoop
  split
  · exact quiet_bind (quiet_attach target) fun _ => quiet_bind (quiet_attachOption step) fun _ =>
      quiet_bind (quiet_attach body) fun _ => quiet_create _
  · exact quiet_fail _ _

theorem quiet_call (location : Location) (name : String) (arguments : List Node) :
    Quiet (call location name arguments) := by
  refine Leads.get_bind fun s => ?_
  dsimp only
  split
  · exact quiet_fail _ _
  · split
    · exact quiet_bind (quiet_attachAll arguments) fun _ => quiet_create _
    · exact quiet_fail _ _

/-! ### Constructors that change names or the table -/

theorem atomic_assign (location : Location) (name : String) (value : Node) :
    Atomic (assign location name value) :=
  (quiet_attach value).atomic_bind fun _ => (atomic_orFail _ _ _).bind fun _ => unfailing_create _

theorem atomic_static (location : Location) (name : String) (value : Node) :
    Atomic (static location name value) :=
  (quiet_attach value).atomic_bind fun _ => (atomic_orFail _ _ _).bind fun _ =>
    .bind (fun _ => ⟨_, _, rfl⟩) fun _ => unfailing_create _

theorem atomic_newConstant (location : Location) (name : String) (w : Word) :
    Atomic (newConstant location name w) :=
  (atomic_orFail _ _ _).bind fun _ _ => ⟨_, _, rfl⟩

theorem atomic_define (location : Location) (name : String) (value : Node) :
    Atomic (define location name value) :=
  (quiet_requireConstant value).atomic_bind fun _ => (atomic_newConstant _ _ _).bind fun _ =>
    .bind (fun _ => ⟨_, _, rfl⟩) fun _ => unfailing_create _

theorem atomic_map (location : Location) (start length : Node) (device : Option String) :
    Atomic (map location start length device) := by
  refine (quiet_requireConstant start).atomic_bind fun first =>
    (quiet_requireConstant length).atomic_bind fun size =>
      Quiet.atomic_bind (fun s => s.intact_noteRequest first size _) fun _ s e s' h => ?_
  rw [EStateM.get_bind] at h
  cases hmap : s.map first size (device.getD defaultDevice) with
  | ok made =>
    rw [hmap] at h
    cases h
  | error reason =>
    rw [hmap] at h
    cases h
    exact .refl s

end Build

/-- A constructor that fails leaves the system intact, unless it defines a constant with members. -/
theorem Construction.atomic {given : List Node} {x : Build Node} (h : Construction given x) :
    (∃ l name value base, x = Build.defineFrom l name value base) ∨ Build.Atomic x := by
  open Build in
  cases h with
  | defineFrom l name base => exact Or.inl ⟨l, name, _, base, rfl⟩
  | assign => exact Or.inr (atomic_assign _ _ _)
  | static => exact Or.inr (atomic_static _ _ _)
  | define => exact Or.inr (atomic_define _ _ _)
  | map => exact Or.inr (atomic_map _ _ _ _)
  | literal | jump | imported => exact Or.inr (quiet_create _).atomic
  | integer | float => exact Or.inr (quiet_literalOf _ _).atomic
  | forLoop => exact Or.inr (quiet_forLoop _ _ _ _ _).atomic
  | call => exact Or.inr (quiet_call _ _ _).atomic
  | block => exact Or.inr (quiet_bind (quiet_attachAll _) fun _ => quiet_create _).atomic
  | print => exact Or.inr (quiet_bind (quiet_printParts _) fun _ => quiet_create _).atomic
  | var => exact Or.inr (quiet_bind (quiet_resolve _ _) fun _ => quiet_create _).atomic
  | indexed =>
    exact Or.inr (quiet_bind (quiet_resolve _ _) fun _ => quiet_bind (quiet_attach _) fun _ =>
      quiet_create _).atomic
  | sleep | unary | narrow | peek =>
    exact Or.inr (quiet_bind (quiet_attach _) fun _ => quiet_create _).atomic
  | whileLoop | binary =>
    exact Or.inr (quiet_bind (quiet_attach _) fun _ => quiet_bind (quiet_attach _) fun _ =>
      quiet_create _).atomic
  | cond | poke =>
    exact Or.inr (quiet_bind (quiet_attach _) fun _ => quiet_bind (quiet_attach _) fun _ =>
      quiet_bind (quiet_attachOption _) fun _ => quiet_create _).atomic

/-- A definition that cannot be opened changes nothing at all. -/
theorem Build.eq_of_beginSubroutine_error {l : Location} {name : String} {parameters : List String}
    {result : Option String} {s s' : System} {e : BuildError}
    (h : beginSubroutine l name parameters result s = .error e s') : s' = s := by
  rw [beginSubroutine, EStateM.get_bind] at h
  split at h
  · cases h
    rfl
  · cases hr : Environment.repeated? [] (parameters ++ result.toList) with
    | some twice =>
      rw [hr] at h
      cases h
      rfl
    | none =>
      rw [hr] at h
      cases h

/-! ## Constants with members -/

/-- The environment in which a name was bound to a new global constant, and a dotted name became a
member. -/
def Environment.withConstant (env : Environment) (name : String) : Environment :=
  { env with
    globals := env.globals.bind ⟨name, .constant, .global, env.globalSlots⟩
    globalSlots := env.globalSlots + 1
    family :=
      match Environment.splitMember? name with
      | none => env.family
      | some (base, member) => env.family.insert base (member :: env.family.getD base []) }

theorem Environment.newConstant?_of_free {env : Environment} {name : String}
    (h : env.lookup name = none) :
    env.newConstant? name =
      some (⟨name, .constant, .global, env.globalSlots⟩, env.withConstant name) := by
  unfold newConstant? withConstant
  rw [h]
  cases splitMember? name <;> rfl

namespace System

/-- The system in which a name was bound to a new global constant of this value. -/
def withConstant (s : System) (name : String) (w : Word) : System where
  env := s.env.withConstant name
  machine := s.machine.assign ⟨name, .constant, .global, s.env.globalSlots⟩ w

/-- Nothing is different but the trace. -/
def SameButTrace (s s' : System) : Prop := ∃ trace, s' = { s with machine := s.machine.withTrace trace }

/-- From one system to another, members of `base` were bound in their order as members of `name`:
each to its value less that of `base`, and under a name that was free. -/
inductive CopiesMembers (name base : String) (b : Word) : System → List String → System → Prop
  | none (s : System) : CopiesMembers name base b s [] s
  | member {s s' : System} {member : String} {rest : List String} {source : Variable} :
      s.env.lookup (Build.memberName base member) = some source →
      s.env.lookup (Build.memberName name member) = Option.none →
      CopiesMembers name base b (s.withConstant (Build.memberName name member) (s.get source - b))
        rest s' →
      CopiesMembers name base b s (member :: rest) s'

namespace SameButTrace

variable {s s' s'' : System}

theorem refl (s : System) : s.SameButTrace s := ⟨s.machine.trace, rfl⟩

theorem trans (h : s.SameButTrace s') (h' : s'.SameButTrace s'') : s.SameButTrace s'' := by
  obtain ⟨_, rfl⟩ := h
  obtain ⟨trace, rfl⟩ := h'
  exact ⟨trace, rfl⟩

theorem withConstant (h : s.SameButTrace s') (name : String) (w : Word) :
    (s.withConstant name w).SameButTrace (s'.withConstant name w) := by
  obtain ⟨trace, rfl⟩ := h
  exact ⟨trace, rfl⟩

end SameButTrace

/-- The name can be bound to the value of the node: that is known, and the name is free. -/
structure Accepts (s : System) (name : String) (value : Node) (w : Word) : Prop where
  constant : value.isConstant = true
  value : value.constantValue s.get = .ok w
  free : s.env.lookup name = none

end System

namespace Build

/-- Why a member of `base` cannot become a member of `name`. -/
inductive Offends (s : System) (name base member : String) : BuildCause → Prop
  | missing : s.env.lookup (memberName base member) = none →
      Offends s name base member (.undefinedVariable (memberName base member))
  | taken {source : Variable} : s.env.lookup (memberName base member) = some source →
      (s.env.lookup (memberName name member)).isSome = true →
      Offends s name base member (.namingConflict (memberName name member))

/-- How the definition of members fails once the name is bound, and what it leaves behind. -/
inductive FailsAfter (s : System) (name base : String) : BuildCause → System → Prop
  /-- There is no constant to take members from. -/
  | base : (∀ v, s.env.lookup base = some v → v.isConstant = false) →
      FailsAfter s name base (.namingConflict base) s
  /-- The members before the offending one were copied. -/
  | member {s' : System} {source : Variable} {copied rest : List String} {offending : String}
      {cause : BuildCause} :
      s.env.lookup base = some source → source.isConstant = true →
      s.env.members base = copied ++ offending :: rest →
      s.CopiesMembers name base (s.get source) copied s' → Offends s' name base offending cause →
      FailsAfter s name base cause s'

variable {l : Location} {name : String} {s s' : System} {e : BuildError}

theorem requireConstant_ok {value : Node} {w : Word} (h : requireConstant value s = .ok w s') :
    value.isConstant = true ∧ value.constantValue s.get = .ok w ∧ s.SameButTrace s' := by
  unfold requireConstant at h
  split at h
  · obtain ⟨hvalue, htrace⟩ := evaluate_eq_ok ‹_› h
    exact ⟨‹_›, hvalue, htrace⟩
  · cases h

theorem requireConstant_of_isConstant {value : Node} {w : Word} (hconstant : value.isConstant = true)
    (hvalue : value.constantValue s.get = .ok w) :
    ∃ s', requireConstant value s = .ok w s' ∧ s.SameButTrace s' := by
  obtain ⟨trace, hevaluate⟩ := evaluate_of_isConstant hconstant s
  have hw : value.constantValue s.machine.stores.get = .ok w := hvalue
  rw [hw] at hevaluate
  exact ⟨_, by rw [requireConstant, if_pos hconstant, hevaluate], ⟨trace, rfl⟩⟩

theorem newConstant_of_free (h : s.env.lookup name = none) (w : Word) :
    ∃ s', newConstant l name w s = .ok () s' ∧ (s.withConstant name w).SameButTrace s' := by
  have hmade : s.newConstant? name =
      some (⟨name, .constant, .global, s.env.globalSlots⟩,
        ({ s with env := s.env.withConstant name } : System).emit (.constantAllocated name)) := by
    rw [System.newConstant?, Environment.newConstant?_of_free h]
    rfl
  refine ⟨_, ?_, ⟨s.machine.trace.add (.constantAllocated name), rfl⟩⟩
  rw [newConstant, EStateM.bind_of_ok (orFail_of_some hmade _ _)]
  rfl

theorem newConstant_of_bound (h : (s.env.lookup name).isSome = true) (w : Word) :
    newConstant l name w s = .error ⟨.namingConflict name, l⟩ s := by
  have hrefused : s.newConstant? name = none := by
    rw [System.newConstant?, Environment.newConstant?, if_pos h]
    rfl
  rw [newConstant, EStateM.bind_of_error (orFail_of_none hrefused _ _)]

/-- Members are copied until one of them offends. -/
theorem copies_defineMembers (l : Location) (name base : String) (b : Word) (members : List String)
    {t : System} (ht : t.SameButTrace s) :
    match defineMembers l name base b members s with
    | .ok _ s' => ∃ t', t.CopiesMembers name base b members t' ∧ t'.SameButTrace s'
    | .error e s' => ∃ copied offending rest t', members = copied ++ offending :: rest ∧
        t.CopiesMembers name base b copied t' ∧ t'.SameButTrace s' ∧
        Offends t' name base offending e.cause ∧ e.location = l := by
  induction members generalizing s t with
  | nil => exact ⟨t, .none t, ht⟩
  | cons member rest ih =>
    obtain ⟨trace, hs⟩ := ht
    have henv : s.env = t.env := by rw [hs]
    rw [defineMembers, EStateM.get_bind]
    cases hsource : s.env.lookup (memberName base member) with
    | none =>
      exact ⟨[], member, rest, t, rfl, .none t, ⟨trace, hs⟩, .missing (henv ▸ hsource), rfl⟩
    | some source =>
      dsimp only
      have hget : s.get source = t.get source := by rw [hs]; rfl
      cases hbound : s.env.lookup (memberName name member) with
      | some v =>
        have htaken : (s.env.lookup (memberName name member)).isSome = true := by rw [hbound]; rfl
        rw [EStateM.bind_of_error (newConstant_of_bound htaken _)]
        exact ⟨[], member, rest, t, rfl, .none t, ⟨trace, hs⟩,
          .taken (henv ▸ hsource) (henv ▸ htaken), rfl⟩
      | none =>
        obtain ⟨s₁, hnew, hs₁⟩ := newConstant_of_free (l := l) hbound (s.get source - b)
        have ht₁ := (System.SameButTrace.withConstant ⟨trace, hs⟩ (memberName name member)
          (s.get source - b)).trans hs₁
        have hrest := ih ht₁
        rw [hget] at hrest
        rw [EStateM.bind_of_ok hnew]
        cases hends : defineMembers l name base b rest s₁ with
        | ok u s' =>
          rw [hends] at hrest
          obtain ⟨t', hcopies, hsame⟩ := hrest
          exact ⟨t', .member (henv ▸ hsource) (henv ▸ hbound) hcopies, hsame⟩
        | error e s' =>
          rw [hends] at hrest
          obtain ⟨copied, offending, rest', t', hmembers, hcopies, hstopped⟩ := hrest
          exact ⟨member :: copied, offending, rest', t', by rw [hmembers, List.cons_append],
            .member (henv ▸ hsource) (henv ▸ hbound) hcopies, hstopped⟩

/-- A definition with members that is not accepted leaves the system intact. -/
theorem intact_of_defineFrom {value : Node} {base : String}
    (hrefused : ¬ ∃ w, s.Accepts name value w)
    (h : defineFrom l name value base s = .error e s') : s.Intact s' := by
  rw [defineFrom] at h
  cases hvalue : requireConstant value s with
  | error e' s₁ =>
    rw [EStateM.bind_of_error hvalue] at h
    cases h
    exact (quiet_requireConstant value).atomic s e s' hvalue
  | ok w s₁ =>
    rw [EStateM.bind_of_ok hvalue] at h
    obtain ⟨hconstant, hw, trace, hs₁⟩ := requireConstant_ok hvalue
    have henv : s₁.env = s.env := by rw [hs₁]
    cases hfree : s₁.env.lookup name with
    | none => exact absurd ⟨w, hconstant, hw, henv ▸ hfree⟩ hrefused
    | some v =>
      have htaken : (s₁.env.lookup name).isSome = true := by rw [hfree]; rfl
      rw [EStateM.bind_of_error (newConstant_of_bound htaken w)] at h
      cases h
      exact hs₁ ▸ .of_trace s trace

/-- A definition with members that is accepted leaves its name bound, and the members that could be
copied. -/
theorem failsAfter_of_defineFrom {value : Node} {base : String} {w : Word}
    (haccepts : s.Accepts name value w) (h : defineFrom l name value base s = .error e s') :
    ∃ left, FailsAfter (s.withConstant name w) name base e.cause left ∧ left.SameButTrace s' ∧
      e.location = l := by
  obtain ⟨s₁, hvalue, hs₁⟩ := requireConstant_of_isConstant haccepts.constant haccepts.value
  have hfree : s₁.env.lookup name = none := by
    obtain ⟨trace, rfl⟩ := hs₁
    exact haccepts.free
  obtain ⟨s₂, hnew, hs₂⟩ := newConstant_of_free (l := l) hfree w
  have hbound : (s.withConstant name w).SameButTrace s₂ := (hs₁.withConstant name w).trans hs₂
  rw [defineFrom, EStateM.bind_of_ok hvalue, EStateM.bind_of_ok hnew, EStateM.get_bind] at h
  -- From here on the system is that in which the name is bound, where it may itself be a member of
  -- the base.
  obtain ⟨trace, hs₂⟩ := hbound
  have henv : s₂.env = (s.withConstant name w).env := by rw [hs₂]
  have nothing (hbase : ∀ v, s₂.env.lookup base = some v → v.isConstant = false) :
      FailsAfter (s.withConstant name w) name base (.namingConflict base) (s.withConstant name w) :=
    .base (henv ▸ hbase)
  cases hbase : s₂.env.lookup base with
  | none =>
    rw [hbase] at h
    cases h
    exact ⟨_, nothing (by simp [hbase]), ⟨trace, hs₂⟩, rfl⟩
  | some source =>
    rw [hbase] at h
    dsimp only at h
    cases hconstant : source.isConstant with
    | false =>
      rw [hconstant] at h
      cases h
      exact ⟨_, nothing (by simp [hbase, hconstant]), ⟨trace, hs₂⟩, rfl⟩
    | true =>
      rw [hconstant, if_pos rfl] at h
      cases hmembers : defineMembers l name base (s₂.get source) (s₂.env.members base) s₂ with
      | ok u s₃ =>
        rw [EStateM.bind_of_ok hmembers] at h
        cases h
      | error e' s₃ =>
        rw [EStateM.bind_of_error hmembers] at h
        cases h
        have hstopped := copies_defineMembers l name base (s₂.get source) (s₂.env.members base)
          ⟨trace, hs₂⟩
        rw [hmembers] at hstopped
        obtain ⟨copied, offending, rest, left, hsplit, hcopies, hleft, hoffends, hl⟩ := hstopped
        have hget : s₂.get source = (s.withConstant name w).get source := by rw [hs₂]; rfl
        rw [hget] at hcopies
        exact ⟨left, .member (henv ▸ hbase) hconstant (henv ▸ hsplit) hcopies hoffends, hleft, hl⟩

end Build

namespace System

/-- What the calls that fail in a system leave behind. -/
structure FailsCleanly (s : System) : Prop where
  /-- A constructor that fails leaves the system intact, unless it defines a constant with members. -/
  construction : ∀ given x e s', Construction given x → x s = .error e s' →
    (∃ l name value base, x = Build.defineFrom l name value base) ∨ s.Intact s'
  /-- A definition that cannot be opened changes nothing at all. -/
  opening : ∀ l name parameters result e s',
    Build.beginSubroutine l name parameters result s = .error e s' → s' = s
  /-- A definition with members whose name is not accepted leaves the system intact. -/
  refused : ∀ l name value base e s', (¬ ∃ w, s.Accepts name value w) →
    Build.defineFrom l name value base s = .error e s' → s.Intact s'
  /-- One whose name is accepted leaves the name bound and the members copied that come before the
  offending one, and nothing else is different but the trace. -/
  accepted : ∀ l name value base w e s', s.Accepts name value w →
    Build.defineFrom l name value base s = .error e s' →
    ∃ left, Build.FailsAfter (s.withConstant name w) name base e.cause left ∧
      left.SameButTrace s' ∧ e.location = l

/-- **Failed constructions.**  In every system, whatever fails leaves it intact, but for a definition
with members that fails after its name was accepted. -/
theorem failsCleanly (s : System) : s.FailsCleanly where
  construction := by
    intro given x e s' hconstruction h
    exact hconstruction.atomic.imp id fun hatomic => hatomic s e s' h
  opening := fun _ _ _ _ _ _ h => Build.eq_of_beginSubroutine_error h
  refused := fun _ _ _ _ _ _ hrefused h => Build.intact_of_defineFrom hrefused h
  accepted := fun _ _ _ _ _ _ _ haccepts h => Build.failsAfter_of_defineFrom haccepts h

end System

end PeekPoke
