import Std.Data.TreeMap
import PeekPoke.Script.Node
set_option autoImplicit false

/-!
# Names and definitions

The environment of a script: which names are bound to which variables, the members of dotted
constants, and the subroutines.  Names are looked up among the locals of the subroutine that is
being defined, if any, and then among the globals.  Constants and statics have their slots in the
global scope; a static declared inside a subroutine is still visible by name only there.

A subroutine is never forgotten, but it can become unavailable: it can be called while it is
registered under some name, held by the embedder, or being defined.
-/

namespace PeekPoke

/-- A subroutine: its name, its variables, how many slots they take, and, once it is defined, its
body. -/
structure Subroutine where
  name : String
  parameters : List Variable
  result : Option Variable
  slots : Nat
  body : Option Node := none
  deriving Inhabited

namespace Subroutine

/-- The number of parameters. -/
def arity (s : Subroutine) : Nat := s.parameters.length

/-- A one-line description. -/
def describe (s : Subroutine) : String :=
  let flag (b : Bool) : String := if b then "true" else "false"
  "Subroutine \x7b name: " ++ Text.quoted s.name ++ ", params: " ++ Text.decimal s.arity
    ++ ", retval: " ++ flag s.result.isSome ++ ", defined: " ++ flag s.body.isSome ++ " \x7d"

end Subroutine

/-- Which names are bound to which variables. -/
abbrev Names := Std.TreeMap String Variable

namespace Names

/-- Binds a variable's name. -/
def bind (names : Names) (v : Variable) : Names := names.insert v.name v

/-- The names of some variables. -/
def ofList (vars : List Variable) : Names := vars.foldl bind {}

theorem getElem?_bind (names : Names) (v : Variable) (name : String) :
    (names.bind v)[name]? = if v.name = name then some v else names[name]? := by
  unfold bind
  rw [Std.TreeMap.getElem?_insert]
  simp only [Std.compare_eq_iff_eq]

/-- What the names of some variables are bound to is among these variables. -/
theorem mem_of_getElem?_ofList {vars : List Variable} {name : String} {v : Variable}
    (h : (ofList vars)[name]? = some v) : v ∈ vars := by
  suffices hfold : ∀ (vars : List Variable) (names : Names),
      (vars.foldl bind names)[name]? = some v → v ∈ vars ∨ names[name]? = some v by
    rcases hfold vars {} h with hv | hv
    · exact hv
    · simp at hv
  intro vars
  induction vars with
  | nil => exact fun _ hv => Or.inr hv
  | cons first rest ih =>
    intro names hv
    rcases ih _ hv with hv | hv
    · exact Or.inl (List.mem_cons_of_mem first hv)
    · rw [getElem?_bind] at hv
      split at hv
      · cases hv
        exact Or.inl List.mem_cons_self
      · exact Or.inr hv

end Names

/-- The definition that is open: the subroutine and the names visible only inside it. -/
structure OpenDefinition where
  subroutine : Nat
  locals : Names
  deriving Inhabited

/-- Names, members and subroutines. -/
structure Environment where
  globals : Names := {}
  globalSlots : Nat := 0
  /-- For each name the members defined under it, newest first. -/
  family : Std.TreeMap String (List String) := {}
  /-- All subroutines ever begun; a subroutine is known by its position. -/
  subroutines : Array Subroutine := #[]
  registered : List (String × Nat) := []
  /-- Subroutines the embedder keeps available, each under a key of its own. -/
  held : List (String × Nat) := []
  pending : Option OpenDefinition := none
  /-- How many static declarations there are. -/
  statics : Nat := 0
  defaultWidth : Width := .native
  /-- Whether constant parts of a script are replaced by literals while it is built. -/
  foldConstants : Bool := true
  deriving Inhabited

namespace Environment

/-! ## Names -/

/-- The names visible only inside the open definition. -/
def locals (env : Environment) : Names :=
  match env.pending with
  | none => {}
  | some definition => definition.locals

/-- The variable a name is bound to, locals first. -/
def lookup (env : Environment) (name : String) : Option Variable :=
  env.locals[name]?.or env.globals[name]?

/-- A new global slot under a name of some kind; the name is not bound yet. -/
def newGlobal (env : Environment) (kind : VariableKind) (name : String) : Variable × Environment :=
  (⟨name, kind, .global, env.globalSlots⟩, { env with globalSlots := env.globalSlots + 1 })

/-- Binds a variable's name among the globals. -/
def bindGlobal (env : Environment) (v : Variable) : Environment :=
  { env with globals := env.globals.bind v }

/-- Binds a variable's name in the open definition, or among the globals if there is none. -/
def bind (env : Environment) (v : Variable) : Environment :=
  match env.pending with
  | none => env.bindGlobal v
  | some definition =>
    { env with pending := some { definition with locals := definition.locals.bind v } }

/-- A new plain variable: a local of the open definition, or a global if there is none. -/
def newPlain (env : Environment) (name : String) : Variable × Environment :=
  match env.pending with
  | none =>
    let (v, env) := env.newGlobal .plain name
    (v, env.bind v)
  | some definition =>
    let id := definition.subroutine
    let slot := (env.subroutines[id]?).elim 0 (·.slots)
    let v : Variable := ⟨name, .plain, .subroutine id, slot⟩
    let env := { env with
      subroutines := env.subroutines.modify id fun s => { s with slots := s.slots + 1 } }
    (v, env.bind v)

/-- The variable that an assignment to a name writes: the one it is bound to, unless that is a
constant, or a new plain one. -/
def assignable? (env : Environment) (name : String) : Option (Variable × Environment) :=
  match env.lookup name with
  | some v => if v.isConstant then none else some (v, env)
  | none => some (env.newPlain name)

/-- A new static variable, unless the innermost names already bind its name. -/
def newStatic? (env : Environment) (name : String) : Option (Variable × Environment) :=
  let visible := if env.pending.isSome then env.locals else env.globals
  if visible.contains name then none
  else
    let (v, env) := env.newGlobal .static name
    some (v, env.bind v)

/-- The parts of a name before and after its first dot. -/
def splitMember? (name : String) : Option (String × String) :=
  let chars := name.toList
  match chars.dropWhile (· != '.') with
  | [] => none
  | _ :: member => some (String.ofList (chars.takeWhile (· != '.')), String.ofList member)

/-- Adds a member to a name. -/
def addMember (env : Environment) (base member : String) : Environment :=
  { env with family := env.family.insert base (member :: env.family.getD base []) }

/-- A new global constant, unless its name is bound.  A dotted name becomes a member of the part
before its first dot. -/
def newConstant? (env : Environment) (name : String) : Option (Variable × Environment) :=
  if (env.lookup name).isSome then none
  else
    let (v, env) := env.newGlobal .constant name
    let env := env.bindGlobal v
    match splitMember? name with
    | none => some (v, env)
    | some (base, member) => some (v, env.addMember base member)

/-- The members of a name, in order of definition. -/
def members (env : Environment) (base : String) : List String :=
  (env.family.getD base []).reverse

/-- A number that tells a static declaration from all others. -/
def newStaticCell (env : Environment) : Nat × Environment :=
  (env.statics, { env with statics := env.statics + 1 })

/-! ## Subroutines -/

/-- The subroutine the open definition defines. -/
def pendingId? (env : Environment) : Option Nat := env.pending.map (·.subroutine)

/-- The subroutine a name refers to: the one being defined, or else the registered one. -/
def subroutineId? (env : Environment) (name : String) : Option Nat :=
  let isPending (id : Nat) : Bool := (env.subroutines[id]?).any (·.name == name)
  (env.pendingId?.filter isPending).or (env.registered.lookup name)

/-- Whether the subroutine is registered, held or being defined. -/
def isAvailable (env : Environment) (id : Nat) : Bool :=
  env.registered.any (·.2 == id) || env.held.any (·.2 == id) || env.pendingId? == some id

/-- A subroutine that can be called, with its body. -/
def callable? (env : Environment) (id : Nat) : Option (Subroutine × Node) :=
  if env.isAvailable id then do
    let s ← env.subroutines[id]?
    let body ← s.body
    return (s, body)
  else
    none

/-- The first name that occurs a second time. -/
def repeated? : List String → List String → Option String
  | _, [] => none
  | seen, name :: rest => if seen.contains name then some name else repeated? (name :: seen) rest

/-- Opens the definition of a subroutine.  Its parameters and its return variable take the first
slots of its own scope. -/
def begin (env : Environment) (name : String) (parameters : List String) (result : Option String) :
    Environment :=
  let id := env.subroutines.size
  let vars := parameters.mapIdx fun slot name =>
    ({ name, kind := .parameter, scope := .subroutine id, slot } : Variable)
  let returned := result.map fun name =>
    ({ name, kind := .result, scope := .subroutine id, slot := parameters.length } : Variable)
  let locals := vars ++ returned.toList
  { env with
    subroutines := env.subroutines.push
      { name, parameters := vars, result := returned, slots := locals.length }
    pending := some { subroutine := id, locals := Names.ofList locals } }

/-- Removes the registration under a name. -/
def unregister (env : Environment) (name : String) : Environment :=
  { env with registered := env.registered.filter (·.1 != name) }

/-- Whether the subroutine has a body. -/
def isDefined (env : Environment) (id : Nat) : Bool := (env.subroutines[id]?).any (·.body.isSome)

/-- Gives the subroutine of the open definition its body and registers it under a name, in place of
what was registered there. -/
def close (env : Environment) (id : Nat) (name : String) (body : Node) : Environment :=
  let env := env.unregister name
  { env with
    subroutines := env.subroutines.modify id fun s => { s with body := some body }
    registered := (name, id) :: env.registered
    pending := none }

/-- Closes the open definition under a name; `none` if no definition is open or if its subroutine
has a body already. -/
def finish? (env : Environment) (name : String) (body : Node) : Option (Nat × Environment) :=
  match env.pendingId? with
  | none => none
  | some id => if env.isDefined id then none else some (id, env.close id name body)

/-- A definition is closed only if it is open and its subroutine has no body. -/
theorem finish?_eq_some {env env' : Environment} {name : String} {body : Node} {id : Nat}
    (h : env.finish? name body = some (id, env')) :
    env.pendingId? = some id ∧ env.isDefined id = false ∧ env' = env.close id name body := by
  unfold finish? at h
  split at h
  · cases h
  · split at h
    · cases h
    · rename_i hp hdefined
      cases h
      exact ⟨hp, by simpa using hdefined, rfl⟩

/-- Nothing else can be in the way. -/
theorem finish?_eq_none_iff (env : Environment) (name : String) (body : Node) :
    env.finish? name body = none ↔ ∀ id, env.pendingId? = some id → env.isDefined id = true := by
  unfold finish?
  cases env.pendingId? with
  | none => simp
  | some id => simp

/-- Gives up the open definition. -/
def abandon (env : Environment) : Environment := { env with pending := none }

/-- Keeps a subroutine available under a key, in place of what the key kept so far. -/
def hold (env : Environment) (key : String) (id : Nat) : Environment :=
  { env with held := (key, id) :: env.held.filter (·.1 != key) }

/-- Gives up what a key keeps available. -/
def release (env : Environment) (key : String) : Environment :=
  { env with held := env.held.filter (·.1 != key) }

end Environment

end PeekPoke
