import PeekPoke.Proofs.Folding.Sources
import PeekPoke.Session
set_option autoImplicit false

/-!
# Folding preserves meaning

The same commands are given to a session that folds constants and to one that keeps every child as
it is.  Main statement: whenever the folding session builds everything it is asked to, so does the
other one, and what the two have built means the same (`Session.steps_equivalent`).  The
environments agree up to the folding of subroutine bodies, the machines agree up to the trace, and
from every machine in which the constants have the values they were defined with, a node and its
folded form end with the same result and the same machine: the same traffic, memory, printed text
and variables.  No execution changes a constant, so such a machine is all that one run after another
ever starts from.
-/

namespace PeekPoke

/-- Whether a command runs no script and assigns no variable on behalf of the embedder. -/
def Command.onlyBuilds : Command → Bool
  | .run .. => false
  | .execute .. => false
  | .assign .. => false
  | _ => true

/-- Whether the answer says that something could not be built. -/
def Answer.refuses : Answer → Bool
  | .noNode => true
  | .buildError _ => true
  | _ => false

namespace Session

/-- The session in which children stay as they are. -/
def withoutFolding (s : Session) : Session := s.withEnv { s.env with foldConstants := false }

/-! ## Sessions side by side -/

/-- A session that folds constants and, first, one that does not. -/
structure Paired (c : Fixture) (p s : Session) : Prop where
  workshop : Shops c p.workshop s.workshop

/-- Unless the second session refuses, the first one does not refuse either, and the sessions that
are left are paired under a larger fixture. -/
def Answered (c : Fixture) (x y : Answer × Session) : Prop :=
  y.1.refuses = false → x.1.refuses = false ∧ ∃ c', c.Within c' ∧ Paired c' x.2 y.2

theorem Answered.of_refuses {c : Fixture} {x y : Answer × Session} (h : y.1.refuses = true) :
    Answered c x y := by
  intro hy
  rw [h] at hy
  cases hy

theorem describeSubroutine_refuses (s : Session) (id : Nat) :
    (s.describeSubroutine id).refuses = false := by
  unfold describeSubroutine
  split
  · rfl
  · rfl

theorem failure_refuses (e : SourceError) : (failure e).refuses = true := by
  cases e with
  | noNode key => rfl
  | build e => rfl

namespace Paired

variable {c : Fixture} {p s : Session}

theorem unchanged (h : Paired c p s) {a b : Answer} (ha : a.refuses = false) :
    Answered c (a, p) (b, s) := fun _ => ⟨ha, c, .refl c, h⟩

/-- The systems change and nothing else does. -/
theorem withSystem (h : Paired c p s) {psystem ssystem : System}
    (hT : ∃ c', c.Within c' ∧ Twin c' psystem ssystem) {a b : Answer} (ha : a.refuses = false) :
    Answered c (a, p.withSystem psystem) (b, s.withSystem ssystem) := by
  obtain ⟨c', hc', hT⟩ := hT
  exact fun _ => ⟨ha, c', hc', ⟨h.workshop.withSystem hc' hT⟩⟩

theorem withMachine (h : Paired c p s) {g : Machine → Machine}
    (hstores : (g s.machine).stores = s.machine.stores)
    (hg : ∀ trace, ∃ trace', g (s.machine.withTrace trace) = (g s.machine).withTrace trace')
    {a b : Answer} (ha : a.refuses = false) :
    Answered c (a, p.withMachine (g p.machine)) (b, s.withMachine (g s.machine)) :=
  h.withSystem (h.workshop.system.withMachine hstores hg) ha

theorem withMemory (h : Paired c p s) (f : Memory → Memory) {a b : Answer}
    (ha : a.refuses = false) : Answered c (a, p.withMemory f) (b, s.withMemory f) :=
  h.withMachine (g := fun m => { m with bus := m.bus.withMemory f }) rfl
    (fun trace => ⟨trace, rfl⟩) ha

theorem withStop (h : Paired c p s) (f : StopFlag → StopFlag) {a b : Answer}
    (ha : a.refuses = false) : Answered c (a, p.withStop f) (b, s.withStop f) :=
  h.withMachine (g := fun m => { m with stop := f m.stop }) rfl (fun trace => ⟨trace, rfl⟩) ha

/-! ### Nodes and names -/

theorem build (h : Paired c p s) (key : String) (source : Source) :
    Answered c (p.build key source) (s.build key source) := by
  unfold Session.build
  cases hb : source.build s.workshop with
  | error e w => exact .of_refuses (failure_refuses e)
  | ok f w =>
    obtain ⟨u, pw, hu, c', hc', hshops, hfolds⟩ :=
      source.build_tracks c c p.workshop s.workshop f w (.refl c) h.workshop hb
    rw [hu]
    exact fun _ => ⟨rfl, c', hc', ⟨hshops.store hfolds key⟩⟩

/-- The answer to a binding only depends on what was made. -/
theorem answerBinding (h : Paired c p s) {pmade made : Option (Variable × System)}
    (hnone : made = none → pmade = none)
    (hsome : ∀ v system, made = some (v, system) → ∃ v' psystem, pmade = some (v', psystem) ∧
      ∃ c', c.Within c' ∧ Twin c' psystem system) :
    Answered c (p.answerBinding pmade) (s.answerBinding made) := by
  cases made with
  | none =>
    rw [hnone rfl]
    exact h.unchanged rfl
  | some made =>
    obtain ⟨v', psystem, hp, hT⟩ := hsome made.1 made.2 rfl
    rw [hp]
    exact h.withSystem hT rfl

theorem bind (h : Paired c p s) (binding : Binding) (name : String) :
    Answered c (p.step (.bind binding name)) (s.step (.bind binding name)) := by
  cases binding with
  | plain =>
    refine h.answerBinding h.workshop.system.assignable?_eq_none fun v system hv => ?_
    obtain ⟨v', psystem, hp, c', hc', hT, _⟩ := h.workshop.system.assignable? hv
    exact ⟨v', psystem, hp, c', hc', hT⟩
  | static =>
    refine h.answerBinding h.workshop.system.newStatic?_eq_none fun v system hv => ?_
    obtain ⟨v', psystem, hp, c', hc', hT, _⟩ := h.workshop.system.newStatic? hv
    exact ⟨v', psystem, hp, c', hc', hT⟩
  | constant =>
    refine h.answerBinding h.workshop.system.newConstant?_eq_none fun v system hv => ?_
    obtain ⟨psystem, hp, hT⟩ := h.workshop.system.newConstant?_unset hv
    exact ⟨v, psystem, hp, hT⟩

/-! ### Subroutines -/

/-- A definition that opens with folding opens without. -/
theorem openDefinition (h : Paired c p s) {header : Header} {next : Session}
    (hs : s.openDefinition header = (.ok (), next)) :
    ∃ pnext c', p.openDefinition header = (.ok (), pnext) ∧ c.Within c' ∧ Paired c' pnext next := by
  unfold Session.openDefinition at hs ⊢
  cases hb : Build.beginSubroutine header.location header.name header.parameters header.result
      s.workshop.system with
  | error e system =>
    rw [hb] at hs
    cases hs
  | ok done system =>
    rw [hb] at hs
    cases hs
    obtain ⟨_, psystem, hp, c', hc', hT, _⟩ :=
      Build.tracks_beginSubroutine header.location header.name header.parameters header.result
        c p.workshop.system s.workshop.system done system (.refl c) h.workshop.system hb
    rw [hp]
    exact ⟨_, c', rfl, hc', ⟨h.workshop.withSystem hc' hT⟩⟩

theorem closeDefinition (h : Paired c p s) {u f : Node} (hbody : Folds c u f) (name : String) :
    Answered c (p.closeDefinition name u) (s.closeDefinition name f) := by
  unfold Session.closeDefinition
  cases hf : s.workshop.system.finish? name f with
  | none =>
    rw [h.workshop.system.finish?_eq_none hf]
    exact h.withSystem (h.workshop.system.withEnv (g := Environment.abandon)
      (fun tidy => tidy.grows_close rfl rfl rfl) (fun _ => rfl) rfl) rfl
  | some finished =>
    obtain ⟨psystem, hp, hT⟩ := h.workshop.system.finish? hbody hf
    rw [hp]
    exact h.withSystem hT (describeSubroutine_refuses _ _)

theorem define (h : Paired c p s) (header : Header) (body : Source) :
    Answered c (p.define header body) (s.define header body) := by
  unfold Session.define
  rcases hs : s.openDefinition header with ⟨_ | _, next⟩
  · exact .of_refuses rfl
  · obtain ⟨pnext, c₁, hp, hc₁, hpaired⟩ := h.openDefinition hs
    rw [hp]
    dsimp only
    cases hb : body.build next.workshop with
    | error e w => exact .of_refuses (failure_refuses e)
    | ok f w =>
      obtain ⟨u, pw, hu, c₂, hc₂, hshops, hfolds⟩ :=
        body.build_tracks c₁ c₁ pnext.workshop next.workshop f w (.refl c₁) hpaired.workshop hb
      rw [hu]
      have hclose : Paired c₂ { workshop := pw } { workshop := w } := ⟨hshops⟩
      intro hok
      obtain ⟨hnot, c₃, hc₃, hlast⟩ := hclose.closeDefinition hfolds header.name hok
      exact ⟨hnot, c₃, hc₁.trans (hc₂.trans hc₃), hlast⟩

theorem beginDefinition (h : Paired c p s) (header : Header) :
    Answered c (p.beginDefinition header) (s.beginDefinition header) := by
  unfold Session.beginDefinition
  rcases hs : s.openDefinition header with ⟨_ | _, next⟩
  · exact .of_refuses rfl
  · obtain ⟨pnext, c', hp, hc', hpaired⟩ := h.openDefinition hs
    rw [hp]
    exact fun _ => ⟨rfl, c', hc', hpaired⟩

theorem endDefinition (h : Paired c p s) (key name : String) :
    Answered c (p.endDefinition key name) (s.endDefinition key name) := by
  unfold Session.endDefinition
  have hnodes := h.workshop.nodes key
  generalize p.workshop.node? key = u at hnodes ⊢
  generalize s.workshop.node? key = f at hnodes ⊢
  cases hnodes with
  | none => exact .of_refuses rfl
  | some hfolds =>
    have hremoved : Paired c { workshop := p.workshop.remove key }
        { workshop := s.workshop.remove key } := ⟨h.workshop.remove key⟩
    exact hremoved.closeDefinition hfolds name

theorem drop (h : Paired c p s) (name : String) :
    Answered c (p.step (.drop name)) (s.step (.drop name)) := by
  unfold step System.drop?
  dsimp only
  rw [h.workshop.system.registered_eq]
  cases s.workshop.system.env.registered.lookup name with
  | none => exact h.unchanged rfl
  | some id =>
    obtain ⟨c', hc', hT⟩ := h.workshop.system.withEnv (g := (·.unregister name))
      (fun tidy => tidy.grows_of_names rfl rfl rfl) (fun _ => rfl) rfl
    exact h.withSystem ⟨c', hc', hT.withTrace _ _⟩ rfl

theorem hold (h : Paired c p s) (name key : String) :
    Answered c (p.step (.hold name key)) (s.step (.hold name key)) := by
  have hid : p.env.subroutineId? name = s.env.subroutineId? name :=
    h.workshop.system.subroutineId?_eq name
  unfold step
  dsimp only
  rw [hid]
  cases s.env.subroutineId? name with
  | none => exact h.unchanged rfl
  | some id =>
    exact h.withSystem (h.workshop.system.withEnv (g := (·.hold key id))
      (fun tidy => tidy.grows_of_names rfl rfl rfl) (fun _ => rfl) rfl)
      (describeSubroutine_refuses _ _)

theorem map (h : Paired c p s) (start length : Word) (device : String) :
    Answered c (p.step (.map start length device)) (s.step (.map start length device)) := by
  obtain ⟨c₁, hc₁, hnoted⟩ := h.workshop.system.noteRequest start length device
  unfold step
  dsimp only
  cases hmap : (s.workshop.system.noteRequest start length device).map start length device with
  | error e =>
    rw [hnoted.map_eq_error hmap]
    exact h.withSystem ⟨c₁, hc₁, hnoted⟩ rfl
  | ok system =>
    obtain ⟨psystem, hp, c₂, hc₂, hT⟩ := hnoted.map hmap
    rw [hp]
    exact h.withSystem ⟨c₂, hc₁.trans hc₂, hT⟩ rfl

/-! ### Commands -/

/-- Every command that only builds leads from paired sessions to paired sessions. -/
theorem step (h : Paired c p s) {command : Command} (hbuilds : command.onlyBuilds = true) :
    Answered c (p.step command) (s.step command) := by
  have hlookup : ∀ name, p.env.lookup name = s.env.lookup name := h.workshop.system.lookup_eq
  have hid : ∀ name, p.env.subroutineId? name = s.env.subroutineId? name :=
    h.workshop.system.subroutineId?_eq
  have hmachine : ∃ trace, p.machine = s.machine.withTrace trace := h.workshop.system.machine_eq
  cases command with
  | run | execute | assign => cases hbuilds
  | build key source => exact h.build key source
  | bind binding name => exact h.bind binding name
  | define header body => exact h.define header body
  | beginDefinition header => exact h.beginDefinition header
  | endDefinition key name => exact h.endDefinition key name
  | abortDefinition name => exact h.withSystem (h.workshop.system.abandon name) rfl
  | drop name => exact h.drop name
  | hold name key => exact h.hold name key
  | release key =>
    exact h.withSystem (h.workshop.system.withEnv (g := (·.release key))
      (fun tidy => tidy.grows_of_names rfl rfl rfl) (fun _ => rfl) rfl) rfl
  | map start length device => exact h.map start length device
  | lookup name =>
    unfold Session.step
    dsimp only
    rw [hlookup]
    cases s.env.lookup name with
    | none => exact h.unchanged rfl
    | some v => exact h.unchanged rfl
  | subroutine name =>
    unfold Session.step
    dsimp only
    rw [hid]
    cases s.env.subroutineId? name with
    | none => exact h.unchanged rfl
    | some id => exact h.unchanged (describeSubroutine_refuses _ _)
  | find address width =>
    obtain ⟨trace, hmachine⟩ := hmachine
    have hbus : p.machine.bus = s.machine.bus := by
      rw [hmachine]
      rfl
    unfold Session.step
    dsimp only
    rw [hbus]
    cases (s.machine.bus.find? address width).bind (s.machine.bus.windows[·]?) with
    | none => exact h.unchanged rfl
    | some window => exact h.unchanged rfl
  | writeMemory address width w => exact h.withMemory _ rfl
  | injectFault address => exact h.withMemory _ rfl
  | clearFaults => exact h.withMemory _ rfl
  | supervise supervisor => exact h.withStop _ rfl
  | requestStop => exact h.withStop _ rfl
  | resetStop => exact h.withStop _ rfl
  | nap micros =>
    obtain ⟨trace, hmachine⟩ := hmachine
    have hstop : p.machine.stop = s.machine.stop := by
      rw [hmachine]
      rfl
    unfold Session.step
    dsimp only
    rw [hstop]
    exact h.withStop (fun _ => (s.machine.stop.sleep micros).2) rfl
  | values | members | readMemory | stopState | defaultWidth => exact h.unchanged rfl

/-- A report empties what was reported, on both sides. -/
theorem clearReport (h : Paired c p s) :
    ∃ c', c.Within c' ∧ Paired c' p.clearReport s.clearReport := by
  have hclear := h.withMachine (a := .done) (b := .done)
    (g := fun m => { m with sink := m.sink.clear, traffic := [], trace := m.trace.clear }) rfl
    (fun trace => ⟨trace.clear, rfl⟩) rfl
  exact (hclear rfl).2

/-- Commands that only build, one after the other, as long as the folding session refuses none. -/
theorem steps (h : Paired c p s) {commands : List Command}
    (hbuilds : ∀ command ∈ commands, command.onlyBuilds = true)
    (hok : ∀ report ∈ (s.steps commands).1, report.answer.refuses = false) :
    (∀ report ∈ (p.steps commands).1, report.answer.refuses = false) ∧
      ∃ c', c.Within c' ∧ Paired c' (p.steps commands).2 (s.steps commands).2 := by
  induction commands generalizing c p s with
  | nil => exact ⟨fun _ hr => (List.not_mem_nil hr).elim, c, .refl c, h⟩
  | cons command rest ih =>
    have hfirst : (s.step command).1.refuses = false := hok _ List.mem_cons_self
    obtain ⟨hnot, c₁, hc₁, hstep⟩ := h.step (hbuilds _ List.mem_cons_self) hfirst
    obtain ⟨c₂, hc₂, hreport⟩ := hstep.clearReport
    obtain ⟨hrest, c₃, hc₃, hlast⟩ := ih hreport
      (fun other hother => hbuilds other (List.mem_cons_of_mem command hother))
      (fun report hr => hok report (List.mem_cons_of_mem _ hr))
    refine ⟨fun report hr => ?_, c₃, hc₁.trans (hc₂.trans hc₃), hlast⟩
    rcases List.mem_cons.mp hr with rfl | hr
    · exact hnot
    · exact hrest report hr

end Paired

/-! ## Meaning -/

/-- The constants of the session have, in the machine, the values they were defined with. -/
def Agrees (s : Session) (m : Machine) : Prop :=
  ∀ (name : String) (v : Variable), s.env.globals[name]? = some v → v.isConstant = true →
    m.stores.get v = s.machine.stores.get v

/-- A node of the first session and its folded form in the second: some constant parts have become
literals, and from every machine that agrees with the constants both end in the same ways, with a
machine that agrees with them again. -/
structure Unfolds (p s : Session) (u f : Node) : Prop where
  folds : ∃ c : Fixture, c.Holds s.machine.stores ∧ Folds c u f
  ends_iff : ∀ m, s.Agrees m → ∀ r m', Ends p.env u m r m' ↔ Ends s.env f m r m'
  agrees : ∀ m, s.Agrees m → ∀ r m', Ends s.env f m r m' → s.Agrees m'

/-- Subroutines with the same head, and a body with its folded form. -/
structure SameHead (p s : Session) (r r' : Subroutine) : Prop where
  head : r = { r' with body := r.body }
  body : Option.Rel (Unfolds p s) r.body r'.body

/-- Two sessions that have built the same, the first one without folding: the environments are the
same up to the folding of bodies, the machines up to the trace, and the nodes up to folding. -/
structure Equivalent (p s : Session) : Prop where
  env : p.env = { s.env with foldConstants := false, subroutines := p.env.subroutines }
  subroutines : ∀ id : Nat,
    Option.Rel (SameHead p s) p.env.subroutines[id]? s.env.subroutines[id]?
  machine : ∃ trace, p.machine = s.machine.withTrace trace
  nodes : ∀ key : String, Option.Rel (Unfolds p s) (p.workshop.node? key) (s.workshop.node? key)

theorem Paired.holds_iff_agrees {c : Fixture} {p s : Session} (h : Paired c p s) (m : Machine) :
    c.Holds m.stores ↔ s.Agrees m := h.workshop.system.holds_iff m.stores

theorem Paired.unfolds {c : Fixture} {p s : Session} (h : Paired c p s) {u f : Node}
    (hfolds : Folds c u f) : Unfolds p s u f where
  folds := ⟨c, h.workshop.system.holds, hfolds⟩
  ends_iff m hm _ _ :=
    hfolds.ends_iff h.workshop.system.foldsCalls ((h.holds_iff_agrees m).mpr hm) _ _
  agrees m hm _ m' hends := by
    have hholds : c.Holds m.stores := (h.holds_iff_agrees m).mpr hm
    have hleft : c.Holds m'.stores := hfolds.holds_of_ends h.workshop.system.foldsCalls hholds hends
    exact (h.holds_iff_agrees m').mp hleft

theorem Paired.equivalent {c : Fixture} {p s : Session} (h : Paired c p s) : p.Equivalent s where
  env := h.workshop.system.env_eq
  subroutines id := by
    refine (h.workshop.system.subroutines id).imp fun r r' hr => ⟨?_, ?_⟩
    · cases r
      cases r'
      cases hr.name
      cases hr.parameters
      cases hr.result
      cases hr.slots
      rfl
    · exact hr.body.imp fun _ _ => h.unfolds
  machine := h.workshop.system.machine_eq
  nodes key := (h.workshop.nodes key).imp fun _ _ => h.unfolds

/-- Sessions start without names, so they start paired. -/
theorem paired_start (defaultWidth : Width) (denied : List String) (port : Port)
    (silent trace : Bool) :
    ∃ c, Paired c (start defaultWidth denied port silent trace).withoutFolding
      (start defaultWidth denied port silent trace) := by
  generalize hs : start defaultWidth denied port silent trace = s
  have hglobals : ∀ name : String, s.env.globals[name]? = none := by
    intro name
    rw [← hs]
    exact Std.TreeMap.getElem?_emptyc
  have hlocals : ∀ name : String, s.env.locals[name]? = none := by
    intro name
    rw [← hs]
    exact Std.TreeMap.getElem?_emptyc
  have tidy : s.env.Tidy := Environment.tidy_of_unbound hglobals hlocals
  have hsubroutines : s.env.subroutines = #[] := by
    rw [← hs]
    rfl
  have hnodes : ∀ key : String, s.workshop.node? key = none := by
    intro key
    rw [← hs]
    exact Std.TreeMap.getElem?_emptyc
  have hnone : SubroutinesFold (s.workshop.system.fixture tidy 0) s.env.subroutines
      s.env.subroutines := by
    intro id
    rw [hsubroutines]
    exact .none
  have htwin : Twin (s.workshop.system.fixture tidy 0) s.withoutFolding.workshop.system
      s.workshop.system := .intro tidy 0 s.env.subroutines s.machine.trace hnone
  refine ⟨_, ⟨htwin, fun key => ?_⟩⟩
  have hsame : s.withoutFolding.workshop.node? key = s.workshop.node? key := rfl
  rw [hsame, hnodes]
  exact .none

/-- **Folding preserves meaning.**  Commands that only build are given to a session that folds
constants and to one that keeps every child as it is.  If the first one refuses none of them,
neither does the second, and what they have built is equivalent. -/
theorem steps_equivalent (defaultWidth : Width) (denied : List String) (port : Port)
    (silent trace : Bool) (commands : List Command)
    (hbuilds : ∀ command ∈ commands, command.onlyBuilds = true)
    (hok : ∀ report ∈ ((start defaultWidth denied port silent trace).steps commands).1,
      report.answer.refuses = false) :
    (∀ report ∈ ((start defaultWidth denied port silent trace).withoutFolding.steps commands).1,
      report.answer.refuses = false) ∧
    ((start defaultWidth denied port silent trace).withoutFolding.steps commands).2.Equivalent
      ((start defaultWidth denied port silent trace).steps commands).2 := by
  obtain ⟨c, hstart⟩ := paired_start defaultWidth denied port silent trace
  obtain ⟨hplain, c', _, hend⟩ := hstart.steps hbuilds hok
  exact ⟨hplain, hend.equivalent⟩

/-- A constant, a subroutine that uses it, and a script that calls the subroutine. -/
def offsets : List Command :=
  let l := Location.unknown
  [.build "base" (.define l "base" (.binary l .mul (.literal l 6) (.literal l 7))),
    .define ⟨l, "f", ["n"], some "r"⟩
      (.assign l "r" (.binary l .add (.var l "n") (.binary l .mul (.var l "base") (.literal l 2)))),
    .build "main" (.block l
      [.assign l "x" (.call l "f" [.indexed l "base" (.unary l .neg (.literal l 1))]),
        .sleep l (.binary l .sub (.var l "x") (.var l "base"))])]

/-- Both sessions build these, and what they build is equivalent. -/
theorem offsets_equivalent :
    let s := start .native [] (.simulated {}) false false
    (∀ command ∈ offsets, command.onlyBuilds = true) ∧
      (∀ report ∈ (s.steps offsets).1, report.answer.refuses = false) ∧
      ((s.steps offsets).2.workshop.node? "main").isSome = true ∧
      (s.withoutFolding.steps offsets).2.Equivalent (s.steps offsets).2 := by
  have hbuilds : ∀ command ∈ offsets, command.onlyBuilds = true := by decide
  have hok : ∀ report ∈ ((start .native [] (.simulated {}) false false).steps offsets).1,
      report.answer.refuses = false := by decide +kernel
  exact ⟨hbuilds, hok, by decide +kernel,
    (steps_equivalent .native [] (.simulated {}) false false offsets hbuilds hok).2⟩

end Session

end PeekPoke
