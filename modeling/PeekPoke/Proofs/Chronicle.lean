import PeekPoke.Proofs.Members
set_option autoImplicit false

/-!
# The order of members

The operations of an environment are listed once, with the constant that each of them defines
(`Environment.Operation`).  A chronicle of a world is a history of it and the names of all constants that
were defined on the way, in the order of their definitions (`World.Chronicle`).  Main statement: in every
world that can come about, the members of a name without a dot are the constants that are named after it,
each once and in the order in which they were defined, and a name with a dot has no members
(`World.Possible.mirrorsMembers`).
-/

namespace PeekPoke

open Build (memberName)

namespace Environment

/-- One operation on an environment, and the name of the constant that it defines, if it defines one. -/
inductive Operation (env : Environment) : Option String → Environment → Prop where
  | assignable {name : String} {v : Variable} {env' : Environment} :
      env.assignable? name = some (v, env') → Operation env none env'
  | newStatic {name : String} {v : Variable} {env' : Environment} :
      env.newStatic? name = some (v, env') → Operation env none env'
  | newConstant {name : String} {v : Variable} {env' : Environment} :
      env.newConstant? name = some (v, env') → Operation env (some name) env'
  | newStaticCell : Operation env none env.newStaticCell.2
  | begin (name : String) (parameters : List String) (result : Option String) :
      Operation env none (env.begin name parameters result)
  | finish {name : String} {body : Node} {id : Nat} {env' : Environment} :
      env.finish? name body = some (id, env') → Operation env none env'
  | abandon : Operation env none env.abandon
  | unregister (name : String) : Operation env none (env.unregister name)
  | hold (key : String) (id : Nat) : Operation env none (env.hold key id)
  | release (key : String) : Operation env none (env.release key)

/-- Any number of operations, and the names of the constants that they define, in their order. -/
inductive Operations (env : Environment) : List String → Environment → Prop where
  | none : Operations env [] env
  | more {log : List String} {made : Option String} {env' env'' : Environment} :
      Operations env log env' → env'.Operation made env'' → Operations env (log ++ made.toList) env''

variable {env env' env'' : Environment} {made : Option String} {log log' : List String}

/-- An operation that defines no constant changes neither constants nor members. -/
theorem Operation.same (h : env.Operation none env') : env.SameConstants env' := by
  cases h with
  | assignable hv => exact sameConstants_assignable? hv
  | newStatic hv => exact sameConstants_newStatic? hv
  | finish hfinish =>
    obtain ⟨-, -, rfl⟩ := finish?_eq_some hfinish
    exact .of_globals rfl rfl
  | newStaticCell | begin | abandon | unregister | hold | release => exact .of_globals rfl rfl

/-- A definition defines a constant under a free name, and nothing else. -/
theorem Operation.defines {name : String} (h : env.Operation (some name) env') :
    env.lookup name = none ∧ env' = env.withConstant name := by
  cases h with
  | newConstant hv =>
    have hfree := (newConstant?_eq_some hv).1
    rw [newConstant?_of_free hfree] at hv
    cases hv
    exact ⟨hfree, rfl⟩

theorem Operations.trans (h : env.Operations log env') (h' : env'.Operations log' env'') :
    env.Operations (log ++ log') env'' := by
  induction h' with
  | none =>
    rw [List.append_nil]
    exact h
  | more _ hlast ih =>
    rw [← List.append_assoc]
    exact .more ih hlast

theorem Operation.single (h : env.Operation made env') : env.Operations made.toList env' := by
  have hone := Operations.more .none h
  rwa [List.nil_append] at hone

/-- The log of the definitions of an environment: the names of its constants, in the order in which
they were defined. -/
structure Logged (env : Environment) (log : List String) : Prop where
  mem_iff : ∀ {name : String}, name ∈ log ↔ env.HasConstant name
  nodup : log.Nodup
  members : ∀ base : String, env.members base = log.filterMap (memberOf? base)

theorem Logged.operation (h : env.Logged log) (hop : env.Operation made env') :
    env'.Logged (log ++ made.toList) := by
  cases made with
  | none =>
    have hsame := hop.same
    rw [Option.toList_none, List.append_nil]
    exact ⟨by simp only [h.mem_iff, hsame.hasConstant, implies_true], h.nodup,
      fun base => by rw [hsame.members_eq, h.members]⟩
  | some name =>
    obtain ⟨hfree, rfl⟩ := hop.defines
    have hnew : name ∉ log := by
      intro hmem
      obtain ⟨c, hc, -⟩ := h.mem_iff.mp hmem
      rw [(Option.or_eq_none_iff.mp hfree).2] at hc
      cases hc
    refine ⟨fun {other} => ?_, List.nodup_append.mpr ⟨h.nodup, List.nodup_singleton name, ?_⟩,
      fun base => ?_⟩
    · rw [hasConstant_withConstant, List.mem_append, h.mem_iff, or_comm]
      exact or_congr_left List.mem_singleton
    · rintro other hother _ hname rfl
      exact hnew (List.mem_singleton.mp hname ▸ hother)
    · rw [members_withConstant, h.members, List.filterMap_append]
      cases hmember : memberOf? base name <;> simp [hmember]

theorem Logged.operations (h : env.Logged log) (hops : env.Operations log' env') :
    env'.Logged (log ++ log') := by
  induction hops with
  | none =>
    rw [List.append_nil]
    exact h
  | more _ hlast ih =>
    rw [← List.append_assoc]
    exact ih.operation hlast

/-- The names of the members occur in the log in the order of the members. -/
theorem Logged.sublist (h : env.Logged log) (base : String) :
    ((env.members base).map (memberName base)).Sublist log := by
  rw [h.members]
  clear h
  induction log with
  | nil => exact .slnil
  | cons name rest ih =>
    cases hmember : memberOf? base name with
    | none =>
      rw [List.filterMap_cons_none hmember]
      exact ih.cons name
    | some member =>
      rw [List.filterMap_cons_some hmember, List.map_cons, ← (memberOf?_eq_some_iff.mp hmember).2]
      exact ih.cons_cons name

end Environment

/-! ## Worlds -/

open Environment (Operations)

theorem System.Move.operations {s s' : System} (h : System.Move s s') :
    ∃ log, s.env.Operations log s'.env := by
  cases h with
  | trace => exact ⟨_, .none⟩
  | plain h => exact ⟨_, (Environment.Operation.assignable (System.assignable?_eq_some h).1).single⟩
  | static h => exact ⟨_, (Environment.Operation.newStatic (System.newStatic?_eq_some h).1).single⟩
  | cell => exact ⟨_, Environment.Operation.newStaticCell.single⟩
  | constant w h =>
    exact ⟨_, (Environment.Operation.newConstant (System.newConstant?_eq_some h).1).single⟩
  | request start length device =>
    rw [System.env_noteRequest]
    exact ⟨_, .none⟩
  | map h =>
    rw [System.env_map h]
    exact ⟨_, .none⟩
  | begin name parameters result =>
    exact ⟨_, (Environment.Operation.begin name _ _).single⟩

theorem System.Moves.operations {s s' : System} (h : System.Moves s s') :
    ∃ log, s.env.Operations log s'.env := by
  induction h with
  | refl => exact ⟨[], .none⟩
  | tail _ hmove ih =>
    obtain ⟨log, hlog⟩ := ih
    obtain ⟨log', hlog'⟩ := hmove.operations
    exact ⟨log ++ log', hlog.trans hlog'⟩

namespace World

variable {w w' : World} {log : List String}

theorem Step.operations (h : w.Step w') : ∃ log, w.env.Operations log w'.env := by
  cases h with
  | construct hx =>
    unfold World.env
    rw [after_system]
    exact System.Moves.operations (hx.leads w.system)
  | move hmove => exact hmove.operations
  | newConstant hmade =>
    exact ⟨_, (Environment.Operation.newConstant (System.newConstant?_eq_some hmade).1).single⟩
  | finish _ hfinish =>
    exact ⟨_, (Environment.Operation.finish (System.env_finish? hfinish)).single⟩
  | finishFails | abandon => exact ⟨_, Environment.Operation.abandon.single⟩
  | @drop name _ hdrop =>
    obtain rfl := System.drop?_eq_some hdrop
    exact ⟨_, (Environment.Operation.unregister name).single⟩
  | hold key id => exact ⟨_, (Environment.Operation.hold key id).single⟩
  | release key => exact ⟨_, (Environment.Operation.release key).single⟩
  | obtain | assign | execute | outside => exact ⟨_, .none⟩

/-- Whatever an embedder does is done to the environment by operations. -/
theorem Turn.operations (h : w.Turn w') : ∃ log, w.env.Operations log w'.env := by
  cases h with
  | step h => exact h.operations
  | assign => exact ⟨[], .none⟩

/-- A history of a world, and the names of the constants that were defined in it, in the order of their
definitions. -/
inductive Chronicle : World → List String → Prop where
  | opened (defaultWidth : Width) (denied : List String) (port : Port) (silent trace : Bool) :
      Chronicle (opened defaultWidth denied port silent trace) []
  | turn {w w' : World} {log made : List String} : Chronicle w log → w.Turn w' →
      w.env.Operations made w'.env → Chronicle w' (log ++ made)

theorem Possible.exists_chronicle (h : w.Possible) : ∃ log, w.Chronicle log := by
  obtain ⟨defaultWidth, denied, port, silent, trace, hturns⟩ := h
  induction hturns with
  | refl => exact ⟨[], .opened defaultWidth denied port silent trace⟩
  | tail _ hturn ih =>
    obtain ⟨log, hlog⟩ := ih
    obtain ⟨made, hmade⟩ := hturn.operations
    exact ⟨log ++ made, .turn hlog hturn hmade⟩

/-- A chronicle logs the definitions. -/
theorem Chronicle.logged (h : w.Chronicle log) : w.env.Logged log := by
  induction h with
  | opened defaultWidth denied port silent trace =>
    exact ⟨by simp [not_hasConstant_opened], List.nodup_nil, by simp [members_opened]⟩
  | turn _ _ hmade ih => exact ih.operations hmade

/-- **Members.**  Whatever the embedder did, the members of a name without a dot are the constants that
are named after it, none of them occurs twice, and in every history they were defined in this order.  A
name with a dot has no members. -/
theorem Possible.mirrorsMembers (h : w.Possible) :
    (∃ log, w.Chronicle log) ∧ ∀ base : String,
      ('.' ∉ base.toList → ∀ member : String, member ∈ w.env.members base ↔
        ∃ c, w.env.globals[base ++ "." ++ member]? = some c ∧ c.kind = .constant) ∧
      (w.env.members base).Nodup ∧
      (∀ log, w.Chronicle log →
        log.Nodup ∧ ((w.env.members base).map fun member => base ++ "." ++ member).Sublist log) ∧
      ('.' ∈ base.toList → w.env.members base = []) := by
  refine ⟨h.exists_chronicle, fun base => ⟨fun hdot member => ?_, h.indexed.nodup base,
    fun log hlog => ⟨hlog.logged.nodup, hlog.logged.sublist base⟩, fun hdot => ?_⟩⟩
  · rw [h.indexed.mem_iff, and_iff_right hdot]
    exact exists_congr fun c => and_congr_right fun _ => beq_iff_eq
  · refine List.eq_nil_iff_forall_not_mem.mpr fun member hmember => ?_
    exact (h.indexed.mem_iff.mp hmember).1 hdot

/-- Two registers and a bit of one of them. -/
def registersDefined : List Command :=
  let l := Location.unknown
  [.build "tx" (.define l "uart.tx" (.literal l 0x1000)),
    .build "rx" (.define l "uart.rx" (.literal l 0x1004)),
    .build "full" (.define l "uart.rx.full" (.literal l 1))]

/-- The bit is a member of the device, and not of its register. -/
theorem registers_mirrorsMembers :
    ∃ w : World, w.Possible ∧ w.env.members "uart" = ["tx", "rx", "rx.full"] ∧
      (∃ log, w.Chronicle log) ∧
      (∀ log, w.Chronicle log → List.Sublist ["uart.tx", "uart.rx", "uart.rx.full"] log) ∧
      w.env.members "uart.rx" = [] := by
  obtain ⟨w, hpossible, hmirrors⟩ :=
    Session.steps_possible .native [] (.simulated {}) false false registersDefined
  have hmembers : w.env.members "uart" = ["tx", "rx", "rx.full"] := by
    rw [World.env, hmirrors.system]
    decide +kernel
  obtain ⟨hchronicle, hbase⟩ := World.Possible.mirrorsMembers hpossible
  obtain ⟨-, -, horder, -⟩ := hbase "uart"
  obtain ⟨-, -, -, hdotted⟩ := hbase "uart.rx"
  rw [hmembers] at horder
  exact ⟨w, hpossible, hmembers, hchronicle, fun log hlog => (horder log hlog).2,
    hdotted (by decide)⟩

end World

end PeekPoke
