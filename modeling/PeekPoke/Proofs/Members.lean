import Mathlib.Data.List.TakeWhile
import PeekPoke.Proofs.Bindings
import PeekPoke.Proofs.Definitions
import PeekPoke.Proofs.Failures
set_option autoImplicit false

/-!
# Member families

The members of a name are kept beside the names themselves.  In every world that can come about,
even if the embedder sets constants, they agree: the members of a name are the constants that are
named after it, each once (`World.Possible.indexed`).  Main statement: so the definition of a
constant from another one fails only because a name is taken, and if it succeeds it has bound the
constant and its members, each to the difference there is at the other one, and nothing else
(`World.Possible.derivesFamily`).
-/

namespace PeekPoke

open Build (memberName)

/-! ## Names with a dot -/

theorem Build.toList_memberName (base member : String) :
    (memberName base member).toList = base.toList ++ '.' :: member.toList := by
  simp [memberName]

theorem Build.memberName_inj {base member member' : String} :
    memberName base member = memberName base member' ↔ member = member' := by
  rw [← String.toList_inj, toList_memberName, toList_memberName, List.append_cancel_left_eq,
    List.cons_inj_right, String.toList_inj]

theorem Build.memberName_ne (name member : String) : memberName name member ≠ name := by
  intro h
  have hlength := congrArg (fun text : String => text.toList.length) h
  rw [toList_memberName, List.length_append, List.length_cons] at hlength
  omega

namespace Environment

open Build (toList_memberName memberName_inj memberName_ne)

variable {env env' : Environment} {name base member : String} {v : Variable}

theorem dot_notMem_iff {chars : List Char} :
    '.' ∉ chars ↔ ∀ c ∈ chars, (c != '.') = true :=
  ⟨fun h _ hc => bne_iff_ne.mpr (ne_of_mem_of_not_mem hc h),
    fun h hdot => bne_iff_ne.mp (h _ hdot) rfl⟩

/-- A name is split at its first dot. -/
theorem splitMember?_eq_some_iff :
    splitMember? name = some (base, member) ↔
      '.' ∉ base.toList ∧ name = memberName base member := by
  unfold splitMember?
  dsimp only
  constructor
  · intro h
    split at h
    · cases h
    · rename_i c rest hdrop
      have hc : c = '.' := by
        have hhead := List.head?_dropWhile_not (· != '.') name.toList
        rw [hdrop] at hhead
        simpa using hhead
      subst hc
      cases h
      refine ⟨?_, String.toList_inj.mp ?_⟩
      · rw [String.toList_ofList, dot_notMem_iff]
        exact fun c hmem => List.mem_takeWhile_imp (p := (· != '.')) hmem
      · rw [toList_memberName, String.toList_ofList, String.toList_ofList, ← hdrop,
          List.takeWhile_append_dropWhile]
  · rintro ⟨hbase, rfl⟩
    have hall := dot_notMem_iff.mp hbase
    rw [toList_memberName, List.dropWhile_append_of_pos hall, List.takeWhile_append_of_pos hall]
    simp

/-- What a name adds to the members of a base. -/
def memberOf? (base name : String) : Option String :=
  (splitMember? name).bind fun (first, member) => if first = base then some member else none

theorem memberOf?_eq_some_iff :
    memberOf? base name = some member ↔ '.' ∉ base.toList ∧ name = memberName base member := by
  rw [← splitMember?_eq_some_iff, memberOf?, Option.bind_eq_some_iff]
  constructor
  · rintro ⟨⟨first, rest⟩, hsplit, hrest⟩
    dsimp only at hrest
    split at hrest
    · rename_i hfirst
      cases hrest
      rw [hsplit, hfirst]
    · cases hrest
  · intro hsplit
    exact ⟨_, hsplit, if_pos rfl⟩

/-- No name is a member of itself. -/
theorem memberOf?_self (name : String) : memberOf? name name = none :=
  Option.eq_none_iff_forall_ne_some.mpr fun member h =>
    memberName_ne name member (memberOf?_eq_some_iff.mp h).2.symm

end Environment

/-! ## Members and constants agree -/

namespace Environment

variable {env env' : Environment} {name base member : String} {v : Variable}

/-- A global constant has the name. -/
def HasConstant (env : Environment) (name : String) : Prop :=
  ∃ c, env.globals[name]? = some c ∧ c.isConstant = true

/-- The members of every name are the constants that are named after it, each once. -/
structure Indexed (env : Environment) : Prop where
  mem_iff : ∀ {base member : String}, member ∈ env.members base ↔
    '.' ∉ base.toList ∧ env.HasConstant (memberName base member)
  nodup : ∀ base : String, (env.members base).Nodup

/-- No constant was bound and no member added. -/
structure SameConstants (env env' : Environment) : Prop where
  family : env'.family = env.family
  hasConstant : ∀ name, env'.HasConstant name ↔ env.HasConstant name

theorem SameConstants.of_globals (hglobals : env'.globals = env.globals)
    (hfamily : env'.family = env.family) : env.SameConstants env' where
  family := hfamily
  hasConstant name := by rw [HasConstant, HasConstant, hglobals]

theorem SameConstants.members_eq (h : env.SameConstants env') (base : String) :
    env'.members base = env.members base := by
  rw [members, h.family, members]

theorem Indexed.of_same (h : env.Indexed) (hsame : env.SameConstants env') : env'.Indexed :=
  ⟨by simp only [hsame.members_eq, hsame.hasConstant, h.mem_iff, implies_true],
    fun base => hsame.members_eq base ▸ h.nodup base⟩

/-- A variable that is no constant was bound under a free name. -/
theorem sameConstants_bind (hv : v.isConstant = false)
    (hfree : env.pending = none → env.globals[v.name]? = none) : env.SameConstants (env.bind v) := by
  cases hp : env.pending with
  | some definition =>
    rw [bind_of_some hp]
    exact .of_globals rfl rfl
  | none =>
    rw [bind_of_none hp]
    refine ⟨rfl, fun name => ?_⟩
    have hglobals := Names.getElem?_bind env.globals v name
    unfold HasConstant
    show (∃ c, (env.globals.bind v)[name]? = some c ∧ _) ↔ _
    rw [hglobals]
    split
    · rename_i hname
      subst hname
      rw [hfree hp]
      simp [hv]
    · exact Iff.rfl

theorem sameConstants_assignable? (hv : env.assignable? name = some (v, env')) :
    env.SameConstants env' := by
  unfold Environment.assignable? at hv
  split at hv
  · split at hv
    · cases hv
    · cases hv
      exact .of_globals rfl rfl
  · rename_i hfree
    cases hp : env.pending with
    | some definition =>
      rw [newPlain_of_some hp] at hv
      cases hv
      exact .of_globals rfl rfl
    | none =>
      have hbound : (env.newGlobal .plain name).2.SameConstants
          ((env.newGlobal .plain name).2.bind (env.newGlobal .plain name).1) :=
        sameConstants_bind rfl fun _ => global_eq_none_of_lookup hfree
      unfold newPlain at hv
      rw [hp] at hv
      cases hv
      exact ⟨hbound.family, hbound.hasConstant⟩

theorem sameConstants_newStatic? (hv : env.newStatic? name = some (v, env')) :
    env.SameConstants env' := by
  obtain ⟨hfree, rfl, rfl⟩ := newStatic?_eq_some hv
  have hbound : (env.newGlobal .static name).2.SameConstants
      ((env.newGlobal .static name).2.bind (env.newGlobal .static name).1) :=
    sameConstants_bind rfl hfree
  exact ⟨hbound.family, hbound.hasConstant⟩

theorem members_withConstant (env : Environment) (name base : String) :
    (env.withConstant name).members base = env.members base ++ (memberOf? base name).toList := by
  unfold members withConstant memberOf?
  cases splitMember? name with
  | none => simp
  | some part =>
    obtain ⟨first, member⟩ := part
    by_cases hfirst : first = base
    · subst hfirst
      simp
    · simp [Std.TreeMap.getD_insert, hfirst]

/-- A new constant is found under its name, and everything else as before. -/
theorem lookup_withConstant (hfree : env.lookup name = none) (other : String) :
    (env.withConstant name).lookup other =
      if name = other then some ⟨name, .constant, .global, env.globalSlots⟩ else env.lookup other := by
  show env.locals[other]?.or (env.globals.bind _)[other]? = _
  rw [Names.getElem?_bind]
  split
  · rename_i hname
    subst hname
    rw [(Option.or_eq_none_iff.mp hfree).1, Option.none_or]
  · rfl

theorem hasConstant_withConstant (env : Environment) (name other : String) :
    (env.withConstant name).HasConstant other ↔ other = name ∨ env.HasConstant other := by
  show (∃ c, (env.globals.bind _)[other]? = some c ∧ _) ↔ _
  rw [Names.getElem?_bind]
  split
  · rename_i hname
    exact iff_of_true ⟨_, rfl, rfl⟩ (Or.inl hname.symm)
  · rename_i hname
    exact ⟨Or.inr, fun h => h.resolve_left (Ne.symm hname)⟩

/-- A new constant joins the members of the name before its first dot. -/
theorem Indexed.withConstant (h : env.Indexed) (hfree : env.lookup name = none) :
    (env.withConstant name).Indexed := by
  have hnew : ¬ env.HasConstant name := by
    rintro ⟨c, hc, -⟩
    rw [(Option.or_eq_none_iff.mp hfree).2] at hc
    cases hc
  refine ⟨fun {base member} => ?_, fun base => ?_⟩
  · rw [members_withConstant, List.mem_append, Option.mem_toList, memberOf?_eq_some_iff,
      hasConstant_withConstant, h.mem_iff, eq_comm (a := name)]
    tauto
  · rw [members_withConstant]
    refine List.nodup_append.mpr ⟨h.nodup base, Option.toList_nodup _, ?_⟩
    intro member hmember member' hmember' heq
    subst heq
    obtain ⟨-, hname⟩ := memberOf?_eq_some_iff.mp (Option.mem_toList.mp hmember')
    exact hnew (hname ▸ (h.mem_iff.mp hmember).2)

theorem Indexed.newConstant? (h : env.Indexed) (hv : env.newConstant? name = some (v, env')) :
    env'.Indexed := by
  have hfree := (newConstant?_eq_some hv).1
  rw [newConstant?_of_free hfree] at hv
  cases hv
  exact h.withConstant hfree

end Environment

theorem System.Move.indexed {s s' : System} (h : System.Move s s') (hs : s.env.Indexed) :
    s'.env.Indexed := by
  cases h with
  | trace | cell => exact hs.of_same (.of_globals rfl rfl)
  | plain hmade =>
    exact hs.of_same (Environment.sameConstants_assignable? (System.assignable?_eq_some hmade).1)
  | static hmade =>
    exact hs.of_same (Environment.sameConstants_newStatic? (System.newStatic?_eq_some hmade).1)
  | constant w hmade => exact hs.newConstant? (System.newConstant?_eq_some hmade).1
  | request start length device =>
    rw [System.env_noteRequest]
    exact hs
  | map hmap =>
    rw [System.env_map hmap]
    exact hs
  | begin name _ _ => exact hs.of_same (.of_globals rfl rfl)

theorem System.Moves.indexed {s s' : System} (h : System.Moves s s') (hs : s.env.Indexed) :
    s'.env.Indexed := by
  induction h with
  | refl => exact hs
  | tail _ hmove ih => exact hmove.indexed ih

/-! ## Worlds in which constants can be set -/

namespace World

/-- One thing that an embedder does, or that it sets a variable, which can be a constant. -/
inductive Turn (w : World) : World → Prop where
  | step {w' : World} : w.Step w' → Turn w w'
  | assign {v : Variable} (x : Word) : v ∈ w.obtained → Turn w (w.withSystem (w.system.assign v x))

/-- Any number of turns. -/
def Turns : World → World → Prop := Relation.ReflTransGen Turn

/-- A world that can come about, whatever the embedder does. -/
def Possible (w : World) : Prop :=
  ∃ defaultWidth denied port silent trace,
    Turns (opened defaultWidth denied port silent trace) w

variable {w w' : World}

theorem Steps.turns (h : w.Steps w') : w.Turns w' :=
  Relation.ReflTransGen.lift id (fun _ _ => Turn.step) _ _ h

/-- What holds of a new session and is kept by every turn holds of every world that can come
about. -/
theorem Possible.induction {P : World → Prop} (h : w.Possible)
    (hopened : ∀ defaultWidth denied port silent trace,
      P (opened defaultWidth denied port silent trace))
    (hturn : ∀ {w w' : World}, P w → w.Turn w' → P w') : P w := by
  obtain ⟨defaultWidth, denied, port, silent, trace, hturns⟩ := h
  induction hturns with
  | refl => exact hopened _ _ _ _ _
  | tail _ hlast ih => exact hturn ih hlast

theorem Turn.tidy (h : w.Turn w') (hw : w.Tidy) : w'.Tidy := by
  cases h with
  | step h => exact h.tidy hw
  | assign => exact ⟨hw.names, hw.proper, hw.obtained, hw.node⟩

theorem Possible.tidy (h : w.Possible) : w.Tidy :=
  h.induction tidy_opened fun hw hturn => hturn.tidy hw

theorem Step.indexed (h : w.Step w') (hw : w.env.Indexed) : w'.env.Indexed := by
  cases h with
  | construct hx =>
    unfold World.env
    rw [after_system]
    exact System.Moves.indexed (hx.leads w.system) hw
  | move hmove => exact hmove.indexed hw
  | newConstant hmade => exact hw.newConstant? (System.newConstant?_eq_some hmade).1
  | finish _ hfinish =>
    obtain ⟨-, -, _, rfl⟩ := System.finish?_eq_some hfinish
    exact hw.of_same (.of_globals rfl rfl)
  | drop hdrop =>
    obtain rfl := System.drop?_eq_some hdrop
    exact hw.of_same (.of_globals rfl rfl)
  | finishFails | abandon | hold | release => exact hw.of_same (.of_globals rfl rfl)
  | obtain | assign | execute | outside => exact hw

theorem Turn.indexed (h : w.Turn w') (hw : w.env.Indexed) : w'.env.Indexed := by
  cases h with
  | step h => exact h.indexed hw
  | assign => exact hw

/-- A new session has neither members nor constants. -/
theorem members_opened (defaultWidth : Width) (denied : List String) (port : Port)
    (silent trace : Bool) (base : String) :
    (opened defaultWidth denied port silent trace).env.members base = [] := by
  simp [Environment.members, opened, env, Session.start]

theorem not_hasConstant_opened (defaultWidth : Width) (denied : List String) (port : Port)
    (silent trace : Bool) (name : String) :
    ¬ (opened defaultWidth denied port silent trace).env.HasConstant name := by
  rintro ⟨c, hc, -⟩
  simp [opened, env, Session.start] at hc

theorem indexed_opened (defaultWidth : Width) (denied : List String) (port : Port)
    (silent trace : Bool) : (opened defaultWidth denied port silent trace).env.Indexed :=
  ⟨by simp [members_opened, not_hasConstant_opened], by simp [members_opened]⟩

/-- Names and members agree, whatever the embedder did. -/
theorem Possible.indexed (h : w.Possible) : w.env.Indexed :=
  h.induction indexed_opened fun hw hturn => hturn.indexed hw

end World

namespace Session

variable {w : World} {s : Session}

/-- A command is made of turns of an embedder. -/
theorem turns_command (h : w.Mirrors s.workshop) (c : Command) :
    ∃ w', w.Turns w' ∧ w'.Mirrors (s.step c).2.workshop := by
  by_cases hspares : s.spares c = true
  · obtain ⟨w', hsteps, hmirrors⟩ := follows_command h hspares
    exact ⟨w', hsteps.turns, hmirrors⟩
  · cases c with
    | assign name x =>
      cases hlookup : s.env.lookup name with
      | none => simp [spares, hlookup] at hspares
      | some v =>
        have henv : w.env = s.env := congrArg System.env h.system
        have hobtain : w.Step { w with obtained := v :: w.obtained } :=
          .obtain (.of_lookup (henv ▸ hlookup))
        have hassign := World.Turn.assign (w := { w with obtained := v :: w.obtained }) x
          List.mem_cons_self
        have hstep : (s.step (.assign name x)).2 =
            s.withSystem (s.workshop.system.assign v x) := by
          unfold step
          simp only [hlookup]
        refine ⟨_, (Relation.ReflTransGen.single (.step hobtain)).tail hassign, ?_⟩
        rw [hstep]
        exact (h.system ▸ ⟨rfl, h.nodes⟩)
    | _ => exact absurd rfl hspares

theorem turns_steps (h : w.Mirrors s.workshop) (commands : List Command) :
    ∃ w', w.Turns w' ∧ w'.Mirrors (s.steps commands).2.workshop := by
  induction commands generalizing w s with
  | nil => exact ⟨w, .refl, h⟩
  | cons c rest ih =>
    obtain ⟨w₁, hcommand, h₁⟩ := turns_command h c
    obtain ⟨w₂, hcleared, h₂⟩ : Follows w₁ (s.report c).2 := follows_machine h₁ rfl rfl
    obtain ⟨w₃, hrest, h₃⟩ := ih h₂
    exact ⟨w₃, (hcommand.trans hcleared.turns).trans hrest, h₃⟩

/-- Every history of a session leads to a world that can come about, with the system of the session
and the nodes that are stored in it. -/
theorem steps_possible (defaultWidth : Width) (denied : List String) (port : Port)
    (silent trace : Bool) (commands : List Command) :
    ∃ w : World, w.Possible ∧
      w.Mirrors ((start defaultWidth denied port silent trace).steps commands).2.workshop := by
  obtain ⟨w, hturns, hmirrors⟩ :=
    turns_steps (mirrors_start defaultWidth denied port silent trace) commands
  exact ⟨w, ⟨defaultWidth, denied, port, silent, trace, hturns⟩, hmirrors⟩

end Session

/-! ## Constants that are added -/

namespace System

variable {s s' s'' : System} {name base : String} {names : List String} {x b : Word}

/-- From one system to another constants of these names were bound in this order, and nothing else
was. -/
structure Adds (s : System) (names : List String) (s' : System) : Prop where
  retains : s.Retains s'
  new : ∀ {other : String} {v : Variable}, s'.env.lookup other = some v →
    s.env.lookup other = some v ∨ other ∈ names ∧ v.isConstant = true
  members : ∀ base : String, s'.env.members base =
    s.env.members base ++ names.filterMap (Environment.memberOf? base)

theorem SameButTrace.symm (h : s.SameButTrace s') : s'.SameButTrace s := by
  obtain ⟨trace, rfl⟩ := h
  exact ⟨s.machine.trace, rfl⟩

theorem Retains.trace (h : s.Retains s') (h' : s'.SameButTrace s'') : s.Retains s'' := by
  obtain ⟨_, rfl⟩ := h'
  exact ⟨h.tidy, h.members, h.bound⟩

theorem Holds.trace (h : s.Holds name x) (h' : s.SameButTrace s') : s'.Holds name x := by
  obtain ⟨_, rfl⟩ := h'
  exact h

theorem Adds.of_trace (hs : s.env.Tidy) (h : s.SameButTrace s') : s.Adds [] s' := by
  refine ⟨(Retains.refl hs).trace h, fun hv => Or.inl ?_, fun base => ?_⟩
  · obtain ⟨_, rfl⟩ := h
    exact hv
  · obtain ⟨_, rfl⟩ := h
    exact (List.append_nil _).symm

theorem Adds.trans {names' : List String} (h : s.Adds names s') (h' : s'.Adds names' s'') :
    s.Adds (names ++ names') s'' where
  retains := h.retains.trans h'.retains
  new hv := by
    rcases h'.new hv with hv | ⟨hmem, hconst⟩
    · rcases h.new hv with hv | ⟨hmem, hconst⟩
      · exact Or.inl hv
      · exact Or.inr ⟨List.mem_append_left _ hmem, hconst⟩
    · exact Or.inr ⟨List.mem_append_right _ hmem, hconst⟩
  members base := by rw [h'.members, h.members, List.filterMap_append, List.append_assoc]

/-- A name that is free is bound to a constant of its value. -/
theorem holds_withConstant (hs : s.env.Tidy) (hfree : s.env.lookup name = none) (x : Word) :
    s.Retains (s.withConstant name x) ∧ (s.withConstant name x).Holds name x := by
  obtain ⟨made, hmade, hsame⟩ := Build.newConstant_of_free (l := .unknown) hfree x
  obtain ⟨hretains, hholds⟩ := Build.holds_newConstant hs hmade
  exact ⟨hretains.trace hsame.symm, hholds.trace hsame.symm⟩

theorem adds_withConstant (hs : s.env.Tidy) (hfree : s.env.lookup name = none) (x : Word) :
    s.Adds [name] (s.withConstant name x) where
  retains := (holds_withConstant hs hfree x).1
  new {other v} hv := by
    rw [withConstant, Environment.lookup_withConstant hfree] at hv
    split at hv
    · rename_i hname
      cases hv
      exact Or.inr ⟨List.mem_singleton.mpr hname.symm, rfl⟩
    · exact Or.inl hv
  members base := by
    rw [withConstant, Environment.members_withConstant]
    cases hmember : Environment.memberOf? base name <;> simp [hmember]

/-- A free name stays free only under other names. -/
theorem Adds.free (h : s.Adds names s') {other : String} (hfree : s'.env.lookup other = none) :
    s.env.lookup other = none := by
  refine Option.eq_none_iff_forall_ne_some.mpr fun v hv => ?_
  rw [(h.retains.bound hv).1] at hfree
  cases hfree

/-- Copying members binds their names, in their order. -/
theorem CopiesMembers.adds {members : List String} (h : s.CopiesMembers name base b members s')
    (hs : s.env.Tidy) : s.Adds (members.map (memberName name)) s' := by
  induction h with
  | none s => exact .of_trace hs (.refl s)
  | @member s _ _ _ source _ hfree _ ih =>
    have hfirst := adds_withConstant hs hfree (s.get source - b)
    exact hfirst.trans (ih hfirst.retains.tidy)

/-- The names of copied members were free. -/
theorem CopiesMembers.free {members : List String} (h : s.CopiesMembers name base b members s')
    (hs : s.env.Tidy) : ∀ member ∈ members, s.env.lookup (memberName name member) = .none := by
  induction h with
  | none s => simp
  | @member s _ _ _ source _ hfree _ ih =>
    have hfirst := adds_withConstant hs hfree (s.get source - b)
    exact List.forall_mem_cons.mpr
      ⟨hfree, fun member hmember => hfirst.free (ih hfirst.retains.tidy member hmember)⟩

/-- Copied members have the values of the others, less that of the base. -/
theorem CopiesMembers.holds {members : List String} (h : s.CopiesMembers name base b members s')
    (hs : s.env.Tidy) : ∀ member ∈ members, ∀ y, s.Holds (memberName base member) y →
      s'.Holds (memberName name member) (y - b) := by
  induction h with
  | none s => simp
  | @member s _ _ _ source hsource hfree hrest ih =>
    obtain ⟨hretains, hholds⟩ := holds_withConstant hs hfree (s.get source - b)
    refine List.forall_mem_cons.mpr ⟨?_, fun member hmember y hy =>
      ih hretains.tidy member hmember y (hy.retains hretains)⟩
    rintro y ⟨c, hc, -, rfl⟩
    cases hsource.symm.trans hc
    exact hholds.retains (hrest.adds hretains.tidy).retains

end System

/-! ## Definitions with members -/

namespace Build

variable {s s' : System} {l : Location} {name base : String} {x : Word} {value node : Node}

theorem newConstant_ok {u : Unit} (h : newConstant l name x s = .ok u s') :
    s.env.lookup name = none ∧ (s.withConstant name x).SameButTrace s' := by
  cases hfree : s.env.lookup name with
  | some v =>
    rw [newConstant_of_bound (by rw [hfree]; rfl)] at h
    cases h
  | none =>
    obtain ⟨made, hmade, hsame⟩ := newConstant_of_free (l := l) hfree x
    rw [hmade] at h
    cases h
    exact ⟨rfl, hsame⟩

/-- A definition with members that succeeds has bound its name and copied all members there are right
after that. -/
theorem defineFrom_eq_ok (h : defineFrom l name value base s = .ok node s') :
    ∃ x source t', s.Accepts name value x ∧
      (s.withConstant name x).env.lookup base = some source ∧ source.isConstant = true ∧
      (s.withConstant name x).CopiesMembers name base ((s.withConstant name x).get source)
        ((s.withConstant name x).env.members base) t' ∧ t'.SameButTrace s' := by
  obtain ⟨x, s₁, hvalue, h⟩ := EStateM.bind_eq_ok h
  obtain ⟨_, s₂, hnew, h⟩ := EStateM.bind_eq_ok h
  obtain ⟨hconstant, hx, hs₁⟩ := requireConstant_ok hvalue
  obtain ⟨hfree, hs₂⟩ := newConstant_ok hnew
  have hfree' : s.env.lookup name = none := by
    obtain ⟨_, rfl⟩ := hs₁
    exact hfree
  obtain ⟨trace, hbound⟩ := (hs₁.withConstant name x).trans hs₂
  have henv : s₂.env = (s.withConstant name x).env := by rw [hbound]
  rw [EStateM.get_bind] at h
  cases hsource : s₂.env.lookup base with
  | none =>
    rw [hsource] at h
    cases h
  | some source =>
    rw [hsource] at h
    dsimp only at h
    split at h
    · rename_i hconst
      obtain ⟨_, s₃, hmembers, h⟩ := EStateM.bind_eq_ok h
      have hcopied := copies_defineMembers l name base (s₂.get source) (s₂.env.members base)
        ⟨trace, hbound⟩
      rw [hmembers] at hcopied
      obtain ⟨t', hcopies, hsame⟩ := hcopied
      have hget : s₂.get source = (s.withConstant name x).get source := by rw [hbound]; rfl
      rw [hget, henv] at hcopies
      cases h
      exact ⟨x, source, t', ⟨hconstant, hx, hfree'⟩, henv ▸ hsource, hconst, hcopies,
        hsame.trans ⟨_, rfl⟩⟩
    · cases h

/-- A definition with members whose name is taken fails because of that. -/
theorem defineFrom_of_bound (l : Location) (base : String) (hconstant : value.isConstant = true)
    (hx : value.constantValue s.get = .ok x) (hbound : (s.env.lookup name).isSome = true) :
    ∃ s', defineFrom l name value base s = .error ⟨.namingConflict name, l⟩ s' := by
  obtain ⟨s₁, hvalue, hs₁⟩ := requireConstant_of_isConstant hconstant hx
  have hbound₁ : (s₁.env.lookup name).isSome = true := by
    obtain ⟨_, rfl⟩ := hs₁
    exact hbound
  exact ⟨s₁, by
    rw [defineFrom, EStateM.bind_of_ok hvalue, EStateM.bind_of_error (newConstant_of_bound hbound₁ x)]⟩

end Build

namespace System

/-- A family was added: a name with a value, and under it the members of a base, each to its value less
that of the base. -/
structure GainsFamily (s : System) (name base : String) (x : Word) (members : List String)
    (s' : System) : Prop where
  /-- Nothing else was bound, and no variable but constants. -/
  new : ∀ {other : String} {v : Variable}, s'.env.lookup other = some v →
    s.env.lookup other = some v ∨
      v.isConstant = true ∧ (other = name ∨ ∃ member ∈ members, other = memberName name member)
  value : s'.Holds name x
  difference : ∃ b, s'.Holds base b ∧ ∀ member ∈ members, ∃ y,
    s'.Holds (memberName base member) y ∧ s'.Holds (memberName name member) (y - b)
  /-- Whatever was bound is bound as before, to the same value. -/
  kept : ∀ {other : String} {v : Variable}, s.env.lookup other = some v →
    s'.env.lookup other = some v ∧ s'.get v = s.get v
  /-- The members are those of the name, in the order they have at the base. -/
  members : '.' ∉ name.toList → s'.env.members name = s.env.members name ++ members

theorem Holds.unique {s : System} {name : String} {x y : Word} (hx : s.Holds name x)
    (hy : s.Holds name y) : x = y := by
  obtain ⟨c, hc, -, rfl⟩ := hx
  obtain ⟨c', hc', -, rfl⟩ := hy
  cases hc.symm.trans hc'
  rfl

theorem GainsFamily.holds {s s' : System} {name base other : String} {x y : Word}
    {members : List String} (h : s.GainsFamily name base x members s') (hy : s.Holds other y) :
    s'.Holds other y := by
  obtain ⟨c, hc, hconst, rfl⟩ := hy
  obtain ⟨hc', hvalue⟩ := h.kept hc
  exact ⟨c, hc', hconst, hvalue⟩

/-- A name that is in the way of a definition of a constant from another one. -/
inductive Conflict (s : System) (name base : String) (x : Word) : String → Prop where
  | name : (s.env.lookup name).isSome = true → Conflict s name base x name
  | base : (∀ c, (s.withConstant name x).env.lookup base = some c → c.isConstant = false) →
      Conflict s name base x base
  | member {member : String} : member ∈ (s.withConstant name x).env.members base →
      (s.env.lookup (memberName name member)).isSome = true →
      Conflict s name base x (memberName name member)

/-- How a definition of a constant from another one goes, where its expression has this value.  The
members are those the base has right after the name was bound. -/
structure DerivesFamily (s : System) (name base : String) (value : Node) (x : Word) : Prop where
  succeeds_iff : ∀ l, (∃ node s', Build.defineFrom l name value base s = .ok node s') ↔
    s.env.lookup name = none ∧
      (∃ c, (s.withConstant name x).env.lookup base = some c ∧ c.isConstant = true) ∧
        ∀ member ∈ (s.withConstant name x).env.members base,
          s.env.lookup (memberName name member) = none
  gains : ∀ l node s', Build.defineFrom l name value base s = .ok node s' →
    s.GainsFamily name base x ((s.withConstant name x).env.members base) s'
  /-- It fails only with a naming conflict, so no member of the base is missing. -/
  conflicts : ∀ l e s', Build.defineFrom l name value base s = .error e s' →
    ∃ taken, s.Conflict name base x taken ∧ e = ⟨.namingConflict taken, l⟩

variable {s s' : System} {l : Location} {name base : String} {x : Word} {value node : Node}

/-- Outside every definition, members have values. -/
theorem exists_holds_of_mem (hi : s.env.Indexed) (hp : s.env.pending = none) {member : String}
    (h : member ∈ s.env.members base) : ∃ y, s.Holds (memberName base member) y := by
  obtain ⟨c, hc, hconst⟩ := (hi.mem_iff.mp h).2
  exact ⟨s.get c, c, (Environment.lookup_of_none hp _).trans hc, hconst, rfl⟩

theorem gainsFamily_of_ok (hs : s.env.Tidy) (hi : s.env.Indexed) (hp : s.env.pending = none)
    (hx : value.constantValue s.get = .ok x)
    (h : Build.defineFrom l name value base s = .ok node s') :
    s.GainsFamily name base x ((s.withConstant name x).env.members base) s' := by
  obtain ⟨x', source, t, haccepts, hsource, hconst, hcopies, hsame⟩ := Build.defineFrom_eq_ok h
  obtain rfl : x' = x := Except.ok.inj (haccepts.value.symm.trans hx)
  obtain ⟨hbound, hvalue⟩ := holds_withConstant hs haccepts.free x'
  have hcopied := hcopies.adds hbound.tidy
  have hall := (adds_withConstant hs haccepts.free x').trans hcopied
  have hlast : (s.withConstant name x').Retains s' := hcopied.retains.trace hsame
  refine ⟨fun {other v} hv => ?_, hvalue.retains hlast, ?_, fun hv => ?_, fun hdot => ?_⟩
  · obtain ⟨_, rfl⟩ := hsame
    rcases hall.new hv with hv | ⟨hmem, hc⟩
    · exact Or.inl hv
    · refine Or.inr ⟨hc, (List.mem_cons.mp hmem).imp id fun hmem => ?_⟩
      obtain ⟨member, hmember, rfl⟩ := List.mem_map.mp hmem
      exact ⟨member, hmember, rfl⟩
  · refine ⟨_, Holds.retains ⟨source, hsource, hconst, rfl⟩ hlast, fun member hmember => ?_⟩
    obtain ⟨y, hy⟩ := exists_holds_of_mem (s := s.withConstant name x')
      (hi.withConstant haccepts.free) hp hmember
    exact ⟨y, hy.retains hlast, (hcopies.holds hbound.tidy member hmember y hy).trace hsame⟩
  · exact (hall.retains.trace hsame).bound hv
  · have hmembers := hall.members name
    obtain ⟨_, rfl⟩ := hsame
    refine hmembers.trans (congrArg _ ?_)
    have hself : ∀ member, Environment.memberOf? name (memberName name member) = some member :=
      fun member => Environment.memberOf?_eq_some_iff.mpr ⟨hdot, rfl⟩
    simp [Environment.memberOf?_self, List.filterMap_map, hself]

theorem conflict_of_error (hs : s.env.Tidy) (hi : s.env.Indexed) (hp : s.env.pending = none)
    (hconstant : value.isConstant = true) (hx : value.constantValue s.get = .ok x) {e : BuildError}
    (h : Build.defineFrom l name value base s = .error e s') :
    ∃ taken, s.Conflict name base x taken ∧ e = ⟨.namingConflict taken, l⟩ := by
  cases hfree : s.env.lookup name with
  | some v =>
    have hbound : (s.env.lookup name).isSome = true := by rw [hfree]; rfl
    obtain ⟨s₁, hfails⟩ := Build.defineFrom_of_bound l base hconstant hx hbound
    cases hfails.symm.trans h
    exact ⟨name, .name hbound, rfl⟩
  | none =>
    obtain ⟨left, hfails, -, hl⟩ := Build.failsAfter_of_defineFrom ⟨hconstant, hx, hfree⟩ h
    obtain ⟨cause, location⟩ := e
    obtain rfl : location = l := hl
    have hfirst := adds_withConstant hs hfree x
    cases hfails with
    | base hbase => exact ⟨base, .base hbase, rfl⟩
    | @member left source copied rest offending cause hsource hconst hmembers hcopies hoffends =>
      have hmem : offending ∈ (s.withConstant name x).env.members base := by simp [hmembers]
      have hcopied := hcopies.adds hfirst.retains.tidy
      cases hoffends with
      | missing hmissing =>
        -- The members of the base are bound, and they stay bound.
        obtain ⟨y, c, hc, -⟩ := exists_holds_of_mem (s := s.withConstant name x)
          (hi.withConstant hfree) hp hmem
        rw [hcopied.free hmissing] at hc
        cases hc
      | taken _ htaken =>
        obtain ⟨v, hv⟩ := Option.isSome_iff_exists.mp htaken
        refine ⟨_, .member hmem ?_, rfl⟩
        rcases (hfirst.trans hcopied).new hv with hv | ⟨hnew, -⟩
        · rw [hv]
          rfl
        · -- It was not bound by this definition, for no member comes twice.
          have hnodup := (hi.withConstant hfree).nodup base
          have hmembers' : (s.env.withConstant name).members base = copied ++ offending :: rest :=
            hmembers
          rw [hmembers', List.nodup_append] at hnodup
          rcases List.mem_cons.mp hnew with hself | hnew
          · exact absurd hself (Build.memberName_ne name offending)
          · obtain ⟨member, hmember, heq⟩ := List.mem_map.mp hnew
            obtain rfl := Build.memberName_inj.mp heq
            exact absurd rfl (hnodup.2.2 member hmember member List.mem_cons_self)

/-- A definition of a constant from another one in a system in which names and members agree. -/
theorem derives (hs : s.env.Tidy) (hi : s.env.Indexed) (hp : s.env.pending = none)
    (hconstant : value.isConstant = true) (hx : value.constantValue s.get = .ok x) :
    s.DerivesFamily name base value x where
  succeeds_iff l := by
    constructor
    · rintro ⟨node, s', h⟩
      obtain ⟨x', source, t, haccepts, hsource, hconst, hcopies, -⟩ := Build.defineFrom_eq_ok h
      obtain rfl : x' = x := Except.ok.inj (haccepts.value.symm.trans hx)
      have hfirst := adds_withConstant hs haccepts.free x'
      exact ⟨haccepts.free, ⟨source, hsource, hconst⟩, fun member hmember =>
        hfirst.free (hcopies.free hfirst.retains.tidy member hmember)⟩
    · rintro ⟨hfree, ⟨c, hc, hconst⟩, hmembers⟩
      cases h : Build.defineFrom l name value base s with
      | ok node s' => exact ⟨node, s', rfl⟩
      | error e s' =>
        obtain ⟨taken, hconflict, -⟩ := conflict_of_error hs hi hp hconstant hx h
        cases hconflict with
        | name hbound =>
          rw [hfree] at hbound
          cases hbound
        | base hbase =>
          rw [hbase c hc] at hconst
          cases hconst
        | member hmember hbound =>
          rw [hmembers _ hmember] at hbound
          cases hbound
  gains _ _ _ h := gainsFamily_of_ok hs hi hp hx h
  conflicts _ _ _ h := conflict_of_error hs hi hp hconstant hx h

end System

/-- Whatever the embedder did, outside every definition the definition of a constant from another one
derives exactly the family of the other one, or fails because a name is in the way. -/
theorem World.Possible.derivesFamily {w : World} (h : w.Possible) (hp : w.env.pending = none)
    {value : Node} {x : Word} (hconstant : value.isConstant = true)
    (hx : value.constantValue w.system.get = .ok x) (name base : String) :
    w.system.DerivesFamily name base value x :=
  System.derives h.tidy.names h.indexed hp hconstant hx

/-- A constant with a member, which is set after it was defined. -/
def uartDefined : List Command :=
  let l := Location.unknown
  [.build "uart" (.define l "uart" (.literal l 0x1000)),
    .build "data" (.define l "uart.data" (.literal l 0)), .assign "uart.data" 0x1004]

/-- A copy that is itself a member of the base has a member for itself. -/
theorem World.uart_derivesFamily :
    ∃ w : World, w.Possible ∧ w.env.pending = none ∧
      w.system.DerivesFamily "uart.copy" "uart" (.literal .unknown 0x3000) 0x3000 ∧
      ∃ node s', Build.defineFrom .unknown "uart.copy" (.literal .unknown 0x3000) "uart" w.system =
          .ok node s' ∧
        s'.Holds "uart.copy" 0x3000 ∧ s'.Holds "uart.copy.data" 4 ∧
          s'.Holds "uart.copy.copy" 0x2000 := by
  obtain ⟨w, hpossible, hmirrors⟩ :=
    Session.steps_possible .native [] (.simulated {}) false false uartDefined
  have hp : w.env.pending = none := by
    rw [World.env, hmirrors.system]
    exact Option.isNone_iff_eq_none.mp (by decide +kernel)
  have hconstant : (Node.literal .unknown 0x3000).isConstant = true := rfl
  have hfamily := World.Possible.derivesFamily hpossible hp hconstant rfl "uart.copy" "uart"
  have hmembers : (w.system.withConstant "uart.copy" 0x3000).env.members "uart" =
      ["data", "copy"] := by
    rw [hmirrors.system]
    decide +kernel
  have hbase : w.system.Holds "uart" 0x1000 := by
    rw [hmirrors.system]
    exact ⟨⟨"uart", .constant, .global, 0⟩, by decide +kernel, rfl, by decide +kernel⟩
  have hdata : w.system.Holds "uart.data" 0x1004 := by
    rw [hmirrors.system]
    exact ⟨⟨"uart.data", .constant, .global, 1⟩, by decide +kernel, rfl, by decide +kernel⟩
  have hfree : w.system.env.lookup "uart.copy" = none ∧
      (∃ c, (w.system.withConstant "uart.copy" 0x3000).env.lookup "uart" = some c ∧
        c.isConstant = true) ∧
      ∀ member ∈ ["data", "copy"], w.system.env.lookup (memberName "uart.copy" member) = none := by
    rw [hmirrors.system]
    exact ⟨by decide +kernel,
      ⟨⟨"uart", .constant, .global, 0⟩, by decide +kernel, rfl⟩, by decide +kernel⟩
  rw [← hmembers] at hfree
  obtain ⟨node, s', hok⟩ := (hfamily.succeeds_iff .unknown).mpr hfree
  have hgains := hfamily.gains .unknown node s' hok
  rw [hmembers] at hgains
  obtain ⟨b, hb, heach⟩ := hgains.difference
  obtain rfl : b = 0x1000 := hb.unique (hgains.holds hbase)
  obtain ⟨y, hy, hcopied⟩ := heach "data" (by decide)
  obtain rfl : y = 0x1004 := hy.unique (hgains.holds hdata)
  obtain ⟨z, hz, hself⟩ := heach "copy" (by decide)
  obtain rfl : z = 0x3000 := hz.unique hgains.value
  exact ⟨w, hpossible, hp, hfamily, node, s', hok, hgains.value, hcopied, hself⟩

end PeekPoke
