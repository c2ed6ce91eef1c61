import PeekPoke.Proofs.Folding.Names
set_option autoImplicit false

/-!
# What constructors make

A `Construction` is a call of one constructor of nodes with nodes that were built before.  Main
statements: a call that succeeds makes its node of the given nodes and of literals, with every
constant child folded, and gives it only variables that names are bound to; it never assigns a
constant.  A call that fails never does so because the evaluation of a constant went wrong in an
unforeseen way (both `Construction.gives`).  Either way it changes the system by moves only
(`Construction.leads`).
-/

theorem Except.bind_eq_error {ε α β : Type} {x : Except ε α} {f : α → Except ε β} {e : ε}
    (h : x >>= f = .error e) : x = .error e ∨ ∃ a, x = .ok a ∧ f a = .error e := by
  cases x with
  | error e' =>
    cases h
    exact Or.inl rfl
  | ok a => exact Or.inr ⟨a, rfl, h⟩

namespace PeekPoke

/-! ## Calls of constructors -/

/-- The expression of a print item. -/
def PrintItem.expr? {α : Type} : PrintItem α → Option α
  | value expr _ => some expr
  | text _ => none

/-- A call of a constructor with given nodes. -/
inductive Construction (given : List Node) : Build Node → Prop where
  | literal (l : Location) (w : Word) : Construction given (Build.literal l w)
  | integer (l : Location) (text : String) : Construction given (Build.integer l text)
  | float (l : Location) (text : String) : Construction given (Build.float l text)
  | jump (l : Location) (j : Jump) : Construction given (Build.jump l j)
  | block (l : Location) {statements : List Node} : (∀ n ∈ statements, n ∈ given) →
      Construction given (Build.block l statements)
  | assign (l : Location) (name : String) {value : Node} : value ∈ given →
      Construction given (Build.assign l name value)
  | static (l : Location) (name : String) {value : Node} : value ∈ given →
      Construction given (Build.static l name value)
  | define (l : Location) (name : String) {value : Node} : value ∈ given →
      Construction given (Build.define l name value)
  | defineFrom (l : Location) (name base : String) {value : Node} : value ∈ given →
      Construction given (Build.defineFrom l name value base)
  | map (l : Location) (device : Option String) {start length : Node} : start ∈ given →
      length ∈ given → Construction given (Build.map l start length device)
  | cond (l : Location) {condition thenBranch : Node} {elseBranch : Option Node} :
      condition ∈ given → thenBranch ∈ given → (∀ n ∈ elseBranch.toList, n ∈ given) →
      Construction given (Build.cond l condition thenBranch elseBranch)
  | whileLoop (l : Location) {condition body : Node} : condition ∈ given → body ∈ given →
      Construction given (Build.whileLoop l condition body)
  | forLoop (l : Location) {start target body : Node} {step : Option Node} : start ∈ given →
      target ∈ given → (∀ n ∈ step.toList, n ∈ given) → body ∈ given →
      Construction given (Build.forLoop l start target step body)
  | print (l : Location) (trailing : Option String) {items : List (PrintItem Node)} :
      (∀ n ∈ items.filterMap PrintItem.expr?, n ∈ given) →
      Construction given (Build.print l items trailing)
  | sleep (l : Location) {micros : Node} : micros ∈ given → Construction given (Build.sleep l micros)
  | imported (l : Location) {root : Option Node} : (∀ n ∈ root.toList, n ∈ given) →
      Construction given (Build.imported l root)
  | var (l : Location) (name : String) : Construction given (Build.var l name)
  | indexed (l : Location) (name : String) {offset : Node} : offset ∈ given →
      Construction given (Build.indexed l name offset)
  | unary (l : Location) (op : UnaryOp) {operand : Node} : operand ∈ given →
      Construction given (Build.unary l op operand)
  | binary (l : Location) (op : BinaryOp) {left right : Node} : left ∈ given → right ∈ given →
      Construction given (Build.binary l op left right)
  | narrow (l : Location) (width : Width) {operand : Node} : operand ∈ given →
      Construction given (Build.narrow l width operand)
  | peek (l : Location) (width : Width) {address : Node} : address ∈ given →
      Construction given (Build.peek l address width)
  | poke (l : Location) (width : Width) {address value : Node} {mask : Option Node} :
      address ∈ given → value ∈ given → (∀ n ∈ mask.toList, n ∈ given) →
      Construction given (Build.poke l address value mask width)
  | call (l : Location) (name : String) {arguments : List Node} : (∀ n ∈ arguments, n ∈ given) →
      Construction given (Build.call l name arguments)

/-- Whether the node is an import. -/
def Node.isImport : Node → Bool
  | .imported .. => true
  | _ => false

/-- A child of a new node: a given node or a literal, and not a constant that is left to fold. -/
structure Node.Fits (fold : Bool) (given : List Node) (child : Node) : Prop where
  given : child ∈ given ∨ ∃ l w, child = .literal l w
  folded : fold = true → child.isConstant = true → child.literal?.isSome = true

/-- A node made of given ones: where its children and its variables come from. -/
structure Node.MadeOf (env : Environment) (given : List Node) (node : Node) : Prop where
  child : ∀ c ∈ node.children, c ∈ given ∨ ∃ l w, c = .literal l w
  folded : env.foldConstants = true → node.isImport = false → ∀ c ∈ node.children,
    c.isConstant = true → c.literal?.isSome = true
  target : ∀ v, node.target? = some v →
    (v.isConstant = false ∧ ∃ name, env.lookup name = some v) ∨ ∃ g ∈ given, g.target? = some v
  source : ∀ v, node.source? = some v → ∃ name, env.lookup name = some v

/-- A node without variables of its own, all of whose children fit. -/
theorem Node.MadeOf.of_fits {env : Environment} {given : List Node} {node : Node}
    (h : ∀ c ∈ node.children, c.Fits env.foldConstants given) (ht : node.target? = none)
    (hs : node.source? = none) : node.MadeOf env given where
  child c hc := (h c hc).given
  folded hfold _ c hc := (h c hc).folded hfold
  target v hv := by simp [ht] at hv
  source v hv := by simp [hs] at hv

/-! ## Failures -/

/-- The failure is not that the evaluation of a constant went wrong in an unforeseen way. -/
def BuildError.Foreseen (e : BuildError) : Prop := ∀ text, e.cause ≠ .constantEvaluation text

/-- A division by zero, at a location. -/
def Unwind.IsZeroDivision (u : Unwind) (l : Location) : Prop :=
  u = .failure ⟨.divisionByZero, l⟩ ∨ u = .failure ⟨.moduloByZero, l⟩

theorem BinaryOp.eval_eq_error {op : BinaryOp} {a b : Word} {l : Location} {e : RunError}
    (h : op.eval a b l = .error e) : Unwind.IsZeroDivision (.failure e) l := by
  unfold BinaryOp.eval at h
  split at h
  · cases h
  · cases h
    cases op <;> simp [BinaryOp.zeroDivisor, Unwind.IsZeroDivision]

/-- All that can go wrong in a constant node is a division by zero. -/
theorem Node.zeroDivision_of_constantValue {get : Variable → Word} (node : Node) {u : Unwind}
    (h : node.constantValue get = .error u) : ∃ l, u.IsZeroDivision l := by
  fun_induction Node.constantValue get node with
  | case1 => cases h
  | case2 => cases h
  | case3 l v offset ih | case4 l op operand ih | case6 l width operand ih =>
    rcases Except.bind_eq_error h with h | ⟨w, _, h⟩
    · exact ih h
    · cases h
  | case5 l op left right ihleft ihright =>
    rcases Except.bind_eq_error h with h | ⟨a, _, h⟩
    · exact ihleft h
    · split at h
      · cases h
      · rcases Except.bind_eq_error h with h | ⟨b, _, h⟩
        · exact ihright h
        · split at h
          · cases h
          · cases h
            exact ⟨l, BinaryOp.eval_eq_error ‹_›⟩
  | case7 => cases h

theorem BuildError.foreseen_ofUnwind (place : Location) {u : Unwind} {l : Location}
    (h : u.IsZeroDivision l) : (BuildError.ofUnwind place u).Foreseen := by
  rcases h with rfl | rfl <;> simp [BuildError.ofUnwind, BuildError.Foreseen]

/-! ## Names -/

namespace Environment

/-- A variable that was bound is what its name refers to. -/
@[simp] theorem lookup_bind (env : Environment) (v : Variable) :
    (env.bind v).lookup v.name = some v := by
  unfold Environment.bind
  cases hp : env.pending with
  | none => simp [lookup, locals, bindGlobal, hp, Names.getElem?_bind]
  | some definition => simp [lookup, locals, Names.getElem?_bind]

@[simp] theorem foldConstants_bind (env : Environment) (v : Variable) :
    (env.bind v).foldConstants = env.foldConstants := by
  unfold Environment.bind
  split <;> rfl

/-- A name that is assigned refers to the variable, which is no constant. -/
theorem lookup_assignable? {env env' : Environment} {name : String} {v : Variable}
    (h : env.assignable? name = some (v, env')) :
    env'.lookup name = some v ∧ v.isConstant = false ∧ env'.foldConstants = env.foldConstants := by
  unfold assignable? at h
  split at h
  · rename_i hlookup
    split at h
    · cases h
    · rename_i hnot
      cases h
      exact ⟨hlookup, by simpa using hnot, rfl⟩
  · have hnew : env.newPlain name = (v, env') := Option.some.inj h
    unfold newPlain at hnew
    split at hnew
    · cases hnew
      exact ⟨lookup_bind _ _, rfl, foldConstants_bind _ _⟩
    · cases hnew
      exact ⟨lookup_bind _ _, rfl, foldConstants_bind _ _⟩

/-- The name of a new static variable refers to it. -/
theorem lookup_newStatic? {env env' : Environment} {name : String} {v : Variable}
    (h : env.newStatic? name = some (v, env')) :
    env'.lookup name = some v ∧ v.isConstant = false ∧ env'.foldConstants = env.foldConstants := by
  obtain ⟨_, rfl, rfl⟩ := newStatic?_eq_some h
  exact ⟨lookup_bind _ _, rfl, foldConstants_bind _ _⟩

end Environment

/-! ## Steps of building -/

namespace Build

variable {α β : Type} {s : System}

/-- The step, taken in a system, gives a result as described, or fails as foreseen. -/
def Gives (x : Build α) (s : System) (Q : α → System → Prop) : Prop :=
  match x s with
  | .ok a s' => Q a s'
  | .error e _ => e.Foreseen

theorem Gives.of_ok {x : Build α} {Q : α → System → Prop} (h : Gives x s Q) {a : α} {s' : System}
    (hx : x s = .ok a s') : Q a s' := by
  simpa [Gives, hx] using h

theorem Gives.of_error {x : Build α} {Q : α → System → Prop} (h : Gives x s Q) {e : BuildError}
    {s' : System} (hx : x s = .error e s') : e.Foreseen := by
  simpa [Gives, hx] using h

theorem gives_pure {Q : α → System → Prop} {a : α} (h : Q a s) : Gives (pure a) s Q := h

theorem gives_bind {x : Build α} {f : α → Build β} {Q : α → System → Prop} {Q' : β → System → Prop}
    (hx : Gives x s Q) (hf : ∀ a s', Q a s' → Gives (f a) s' Q') : Gives (x >>= f) s Q' := by
  unfold Gives
  cases h : x s with
  | ok a s' =>
    rw [EStateM.bind_of_ok h]
    exact hf a s' (hx.of_ok h)
  | error e s' =>
    rw [EStateM.bind_of_error h]
    exact hx.of_error h

theorem gives_get_bind {f : System → Build β} {Q : β → System → Prop} (h : Gives (f s) s Q) :
    Gives (get >>= f) s Q := h

theorem gives_fail {Q : α → System → Prop} {cause : BuildCause} (location : Location)
    (h : ∀ text, cause ≠ .constantEvaluation text) : Gives (fail cause location) s Q := h

theorem gives_orFail {result : System → Option (α × System)} {Q : α → System → Prop}
    {cause : BuildCause} (location : Location) (hcause : ∀ text, cause ≠ .constantEvaluation text)
    (h : ∀ a s', result s = some (a, s') → Q a s') : Gives (orFail result cause location) s Q := by
  unfold Gives
  cases hr : result s with
  | none =>
    rw [orFail_of_none hr]
    exact hcause
  | some made =>
    rw [orFail_of_some hr]
    exact h made.1 made.2 hr

/-! ### Nodes that are made -/

/-- Every node that is made is like this. -/
def Makes (P : Node → Prop) (x : Build Node) : Prop := ∀ s node s', x s = .ok node s' → P node

theorem makes_bind {P : Node → Prop} {x : Build α} {f : α → Build Node} (h : ∀ a, Makes P (f a)) :
    Makes P (x >>= f) := by
  intro s node s' hmade
  obtain ⟨a, middle, -, hmade⟩ := EStateM.bind_eq_ok hmade
  exact h a middle node s' hmade

theorem makes_create {P : Node → Prop} {node : Node} (h : P node) : Makes P (create node) := by
  intro s made s' hmade
  cases hmade
  exact h

theorem makes_fail {P : Node → Prop} (cause : BuildCause) (location : Location) :
    Makes P (fail cause location) := by
  intro s made s' hmade
  cases hmade

/-! ### Calls that are made -/

theorem length_attachAll {children attached : List Node} {s' : System}
    (h : attachAll children s = .ok attached s') : attached.length = children.length := by
  induction children generalizing attached s with
  | nil =>
    cases h
    rfl
  | cons child rest ih =>
    obtain ⟨first, middle, -, h⟩ := EStateM.bind_eq_ok h
    obtain ⟨others, last, hrest, h⟩ := EStateM.bind_eq_ok h
    cases h
    rw [List.length_cons, List.length_cons, ih hrest]

/-- A call that is made is bound to the subroutine its name refers to, and has as many arguments as
that has parameters. -/
theorem call_eq_ok {l : Location} {name : String} {arguments : List Node} {s' : System}
    {node : Node} (h : call l name arguments s = .ok node s') :
    ∃ id attached, s.env.subroutineId? name = some id ∧ node = .call l name id attached ∧
      (s.env.subroutines[id]?).elim 0 Subroutine.arity = attached.length := by
  unfold call at h
  rw [EStateM.get_bind] at h
  cases hid : s.env.subroutineId? name with
  | none =>
    simp only [hid] at h
    cases h
  | some id =>
    simp only [hid] at h
    split at h
    · rename_i harity
      obtain ⟨attached, middle, hattached, hmade⟩ := EStateM.bind_eq_ok h
      cases hmade
      exact ⟨id, attached, rfl, rfl, harity.trans (length_attachAll hattached).symm⟩
    · cases h

/-! ### Steps that leave the environment as it is -/

section

variable {env : Environment}

theorem gives_emit (henv : s.env = env) (e : TraceEvent) :
    Gives (emit e) s fun _ s' => s'.env = env := henv

theorem gives_evaluate (henv : s.env = env) {node : Node} (hc : node.isConstant = true) :
    Gives (evaluate node) s fun _ s' => s'.env = env := by
  obtain ⟨trace, h⟩ := evaluate_of_isConstant hc s
  unfold Gives
  rw [h]
  cases hvalue : node.constantValue s.machine.stores.get with
  | ok w => exact henv
  | error u =>
    obtain ⟨l, hu⟩ := node.zeroDivision_of_constantValue hvalue
    exact BuildError.foreseen_ofUnwind _ hu

theorem gives_requireConstant (henv : s.env = env) (node : Node) :
    Gives (requireConstant node) s fun _ s' => s'.env = env := by
  unfold requireConstant
  split
  · exact gives_evaluate henv ‹_›
  · exact gives_fail _ (by simp)

theorem gives_resolve (henv : s.env = env) (location : Location) (name : String) :
    Gives (resolve location name) s fun v s' => s'.env = env ∧ env.lookup name = some v := by
  refine gives_orFail _ (by simp) fun v s' hv => ?_
  obtain ⟨_, hlookup, hfound⟩ := Option.map_eq_some_iff.mp hv
  cases hfound
  exact ⟨henv, henv ▸ hlookup⟩

variable {given : List Node}

theorem gives_attach (henv : s.env = env) {child : Node} (h : child ∈ given) :
    Gives (attach child) s fun c s' => s'.env = env ∧ c.Fits env.foldConstants given := by
  refine gives_get_bind ?_
  rw [henv]
  split
  · rename_i hfold
    simp only [Bool.and_eq_true] at hfold
    refine gives_bind (gives_evaluate henv hfold.1.2) fun w s₁ h₁ =>
      gives_bind (gives_emit h₁ _) fun _ s₂ h₂ => gives_bind (gives_emit h₂ _) fun _ s₃ h₃ => ?_
    exact gives_pure ⟨h₃, Or.inr ⟨_, _, rfl⟩, fun _ _ => rfl⟩
  · rename_i hfold
    refine gives_pure ⟨henv, Or.inl h, fun hf hc => ?_⟩
    simpa [hf, hc, Option.isSome_iff_ne_none] using hfold

theorem gives_attachAll (henv : s.env = env) {children : List Node}
    (h : ∀ n ∈ children, n ∈ given) :
    Gives (attachAll children) s fun cs s' =>
      s'.env = env ∧ ∀ c ∈ cs, c.Fits env.foldConstants given := by
  induction children generalizing s with
  | nil => exact gives_pure ⟨henv, by simp⟩
  | cons child rest ih =>
    refine gives_bind (gives_attach henv (h child List.mem_cons_self)) fun c s₁ h₁ =>
      gives_bind (ih h₁.1 fun n hn => h n (List.mem_cons_of_mem child hn)) fun cs s₂ h₂ => ?_
    exact gives_pure ⟨h₂.1, List.forall_mem_cons.mpr ⟨h₁.2, h₂.2⟩⟩

theorem gives_attachOption (henv : s.env = env) {child : Option Node}
    (h : ∀ n ∈ child.toList, n ∈ given) :
    Gives (attachOption child) s fun c s' =>
      s'.env = env ∧ ∀ n ∈ c.toList, n.Fits env.foldConstants given := by
  cases child with
  | none => exact gives_pure ⟨henv, by simp⟩
  | some child =>
    refine gives_bind (gives_attach henv (h child (by simp))) fun c s₁ h₁ => gives_pure ⟨h₁.1, ?_⟩
    simpa using h₁.2

theorem gives_printParts (henv : s.env = env) {items : List (PrintItem Node)}
    (h : ∀ n ∈ items.filterMap PrintItem.expr?, n ∈ given) :
    Gives (printParts items) s fun parts s' =>
      s'.env = env ∧ ∀ c ∈ parts.filterMap PrintPart.expr?, c.Fits env.foldConstants given := by
  induction items generalizing s with
  | nil => exact gives_pure ⟨henv, by simp⟩
  | cons item rest ih =>
    cases item with
    | text text =>
      refine gives_bind (ih henv h) fun parts s₁ h₁ => gives_pure ⟨h₁.1, ?_⟩
      simpa [PrintPart.expr?] using h₁.2
    | value expr format =>
      obtain ⟨hexpr, hrest⟩ := List.forall_mem_cons.mp h
      refine gives_get_bind ?_
      dsimp only
      split
      · refine gives_bind (gives_attach henv hexpr) fun c s₁ h₁ =>
          gives_bind (ih h₁.1 hrest) fun parts s₂ h₂ => gives_pure ⟨h₂.1, ?_⟩
        exact List.forall_mem_cons.mpr ⟨h₁.2, h₂.2⟩
      · exact gives_fail _ (by simp)

/-! ### New nodes -/

theorem gives_create (henv : s.env = env) {node : Node} (h : node.MadeOf env given) :
    Gives (create node) s fun n s' => n.MadeOf s'.env given := by
  refine gives_bind (gives_emit henv _) fun _ s₁ h₁ => gives_pure ?_
  rw [h₁]
  exact h

/-- A new node without variables of its own. -/
theorem gives_createPlain (henv : s.env = env) {node : Node}
    (h : ∀ c ∈ node.children, c.Fits env.foldConstants given) (ht : node.target? = none)
    (hs : node.source? = none) : Gives (create node) s fun n s' => n.MadeOf s'.env given :=
  gives_create henv (.of_fits h ht hs)

/-- A new node without children and variables. -/
theorem gives_createLeaf {node : Node} (h : node.children = []) (ht : node.target? = none)
    (hs : node.source? = none) : Gives (create node) s fun n s' => n.MadeOf s'.env given :=
  gives_createPlain rfl (by simp [h]) ht hs

theorem gives_literalOf (l : Location) (r : Except Numeral.LiteralError Word) :
    Gives (literalOf l r) s fun n s' => n.MadeOf s'.env given := by
  cases r with
  | ok w => exact gives_createLeaf rfl rfl rfl
  | error e => exact gives_fail _ (by simp)

end

/-! ### Constructors with conditions -/

section

variable {given : List Node}

/-- The start of a counting loop is the given assignment itself, and the loop takes its variable. -/
theorem gives_forLoop (l : Location) {start target body : Node} {step : Option Node}
    (hi : start ∈ given) (ht : target ∈ given) (hst : ∀ n ∈ step.toList, n ∈ given)
    (hb : body ∈ given) :
    Gives (forLoop l start target step body) s fun n s' => n.MadeOf s'.env given := by
  unfold forLoop
  split
  · rename_i startLocation counter first
    refine gives_bind (gives_attach rfl ht) fun t _ h₁ =>
      gives_bind (gives_attachOption h₁.1 hst) fun st _ h₂ =>
        gives_bind (gives_attach h₂.1 hb) fun b _ h₃ => gives_create h₃.1 ?_
    have hchild : ∀ c ∈ (Node.forLoop l startLocation counter first t st b).children,
        c.Fits s.env.foldConstants given := by
      have hstart : (Node.assign startLocation counter first).Fits s.env.foldConstants given :=
        ⟨Or.inl hi, by simp [Node.isConstant]⟩
      simpa [Node.children] using ⟨hstart, h₁.2, h₃.2, by simpa using h₂.2⟩
    refine ⟨fun c hc => (hchild c hc).given, fun hfold _ c hc => (hchild c hc).folded hfold, ?_, ?_⟩
    · exact fun v hv => Or.inr ⟨_, hi, hv⟩
    · simp [Node.source?]
  · exact gives_fail _ (by simp)

theorem gives_call (l : Location) (name : String) {arguments : List Node}
    (ha : ∀ n ∈ arguments, n ∈ given) :
    Gives (call l name arguments) s fun n s' => n.MadeOf s'.env given := by
  refine gives_get_bind ?_
  dsimp only
  split
  · exact gives_fail _ (by simp)
  · split
    · exact gives_bind (gives_attachAll rfl ha) fun cs _ h₁ => gives_createPlain h₁.1 h₁.2 rfl rfl
    · exact gives_fail _ (by simp)

end

/-! ### Constructors that change names -/

section

variable {given : List Node}

/-- A new node that gives a variable values. -/
theorem madeOf_assigning {env : Environment} {name : String} {v : Variable} {node : Node}
    (hc : v.isConstant = false) (hv : env.lookup name = some v) (ht : node.target? = some v)
    (hs : node.source? = none) (h : ∀ c ∈ node.children, c.Fits env.foldConstants given) :
    node.MadeOf env given where
  child c hc := (h c hc).given
  folded hfold _ c hc := (h c hc).folded hfold
  target v' hv' := by
    obtain rfl : v = v' := Option.some.inj (ht.symm.trans hv')
    exact Or.inl ⟨hc, name, hv⟩
  source v' hv' := by simp [hs] at hv'

/-- A new node that reads a variable. -/
theorem madeOf_reading {env : Environment} {name : String} {v : Variable} {node : Node}
    (hv : env.lookup name = some v) (ht : node.target? = none) (hs : node.source? = some v)
    (h : ∀ c ∈ node.children, c.Fits env.foldConstants given) : node.MadeOf env given where
  child c hc := (h c hc).given
  folded hfold _ c hc := (h c hc).folded hfold
  target v' hv' := by simp [ht] at hv'
  source v' hv' := by
    obtain rfl : v = v' := Option.some.inj (hs.symm.trans hv')
    exact ⟨name, hv⟩

theorem gives_assign (l : Location) (name : String) {value : Node} (h : value ∈ given) :
    Gives (assign l name value) s fun n s' => n.MadeOf s'.env given := by
  refine gives_bind (gives_attach rfl h) fun c s₁ h₁ =>
    gives_bind (Q := fun v s₂ => s₁.env.assignable? name = some (v, s₂.env))
      (gives_orFail _ (by simp) fun v s₂ hv => (System.assignable?_eq_some hv).1) fun v s₂ hv => ?_
  obtain ⟨hlookup, hconst, hfold⟩ := Environment.lookup_assignable? hv
  refine gives_create rfl (madeOf_assigning hconst hlookup rfl rfl ?_)
  rw [hfold, h₁.1]
  simpa [Node.children] using h₁.2

theorem gives_static (l : Location) (name : String) {value : Node} (h : value ∈ given) :
    Gives (static l name value) s fun n s' => n.MadeOf s'.env given := by
  refine gives_bind (gives_attach rfl h) fun c s₁ h₁ =>
    gives_bind (Q := fun v s₂ => s₁.env.newStatic? name = some (v, s₂.env))
      (gives_orFail _ (by simp) fun v s₂ hv => (System.newStatic?_eq_some hv).1) fun v s₂ hv =>
        gives_bind (Q := fun _ s₃ => s₃.env = s₂.env.newStaticCell.2) rfl fun cell s₃ hcell => ?_
  obtain ⟨hlookup, hconst, hfold⟩ := Environment.lookup_newStatic? hv
  have hlookup₃ : s₃.env.lookup name = some v := by
    rw [hcell]
    exact hlookup
  have hfold₃ : s₃.env.foldConstants = s.env.foldConstants := by
    rw [hcell, ← h₁.1]
    exact hfold
  refine gives_create rfl (madeOf_assigning hconst hlookup₃ rfl rfl ?_)
  rw [hfold₃]
  simpa [Node.children] using h₁.2

theorem gives_newConstant (l : Location) (name : String) (w : Word) :
    Gives (newConstant l name w) s fun _ _ => True :=
  gives_bind (gives_orFail (Q := fun _ _ => True) _ (by simp) fun _ _ _ => trivial) fun _ _ _ =>
    trivial

theorem gives_define (l : Location) (name : String) (value : Node) :
    Gives (define l name value) s fun n s' => n.MadeOf s'.env given :=
  gives_bind (gives_requireConstant rfl value) fun _ _ _ =>
    gives_bind (gives_newConstant l name _) fun _ _ _ =>
      gives_bind (gives_emit rfl _) fun _ _ _ => gives_createLeaf rfl rfl rfl

theorem gives_defineMembers (l : Location) (name base : String) (baseValue : Word)
    (members : List String) :
    Gives (defineMembers l name base baseValue members) s fun _ _ => True := by
  induction members generalizing s with
  | nil => exact gives_pure trivial
  | cons member rest ih =>
    refine gives_get_bind ?_
    split
    · exact gives_fail _ (by simp)
    · exact gives_bind (gives_newConstant l _ _) fun _ _ _ => ih

theorem gives_defineFrom (l : Location) (name base : String) (value : Node) :
    Gives (defineFrom l name value base) s fun n s' => n.MadeOf s'.env given := by
  refine gives_bind (gives_requireConstant rfl value) fun w _ _ =>
    gives_bind (gives_newConstant l name w) fun _ s₂ _ => gives_get_bind ?_
  split
  · exact gives_fail _ (by simp)
  · split
    · exact gives_bind (gives_defineMembers l name base _ _) fun _ _ _ =>
        gives_bind (gives_emit rfl _) fun _ _ _ => gives_createLeaf rfl rfl rfl
    · exact gives_fail _ (by simp)

theorem gives_map (l : Location) (start length : Node) (device : Option String) :
    Gives (map l start length device) s fun n s' => n.MadeOf s'.env given := by
  refine gives_bind (gives_requireConstant rfl start) fun a _ _ =>
    gives_bind (gives_requireConstant rfl length) fun b _ _ =>
      gives_bind (Q := fun _ _ => True) trivial fun _ s₃ _ => gives_get_bind ?_
  split
  · exact gives_bind (Q := fun _ _ => True) trivial fun _ _ _ => gives_createLeaf rfl rfl rfl
  · exact gives_fail _ (by simp)

end

end Build

/-- A call of a constructor makes its node of the given ones, or fails as foreseen. -/
theorem Construction.gives {given : List Node} {x : Build Node} (h : Construction given x)
    (s : System) : Build.Gives x s fun node s' => node.MadeOf s'.env given := by
  open Build in
  cases h with
  | literal l w => exact gives_createLeaf rfl rfl rfl
  | integer l text => exact gives_literalOf l _
  | float l text => exact gives_literalOf l _
  | jump l j => exact gives_createLeaf rfl rfl rfl
  | block l hs =>
    exact gives_bind (gives_attachAll rfl hs) fun cs _ h₁ => gives_createPlain h₁.1 h₁.2 rfl rfl
  | assign l name hv => exact gives_assign l name hv
  | static l name hv => exact gives_static l name hv
  | define l name => exact gives_define l name _
  | defineFrom l name base => exact gives_defineFrom l name base _
  | map l device => exact gives_map l _ _ device
  | cond l hc ht he =>
    refine gives_bind (gives_attach rfl hc) fun c _ h₁ => gives_bind (gives_attach h₁.1 ht) fun t _ h₂ =>
      gives_bind (gives_attachOption h₂.1 he) fun e _ h₃ => gives_createPlain h₃.1 ?_ rfl rfl
    simpa [Node.children] using ⟨h₁.2, h₂.2, by simpa using h₃.2⟩
  | whileLoop l hc hb =>
    refine gives_bind (gives_attach rfl hc) fun c _ h₁ => gives_bind (gives_attach h₁.1 hb) fun b _ h₂ =>
      gives_createPlain h₂.1 ?_ rfl rfl
    simpa [Node.children] using ⟨h₁.2, h₂.2⟩
  | forLoop l hi ht hst hb => exact gives_forLoop l hi ht hst hb
  | print l trailing hi =>
    exact gives_bind (gives_printParts rfl hi) fun parts _ h₁ => gives_createPlain h₁.1 h₁.2 rfl rfl
  | sleep l hm =>
    refine gives_bind (gives_attach rfl hm) fun c _ h₁ => gives_createPlain h₁.1 ?_ rfl rfl
    simpa [Node.children] using h₁.2
  | imported l hr =>
    refine gives_create rfl ⟨fun c hc => Or.inl (hr c hc), fun _ himport => ?_, ?_, ?_⟩
    · cases himport
    · simp [Node.target?]
    · simp [Node.source?]
  | var l name =>
    refine gives_bind (gives_resolve rfl l name) fun v _ h₁ => gives_create h₁.1 ?_
    exact madeOf_reading h₁.2 rfl rfl (by simp [Node.children])
  | indexed l name ho =>
    refine gives_bind (gives_resolve rfl l name) fun v _ h₁ =>
      gives_bind (gives_attach h₁.1 ho) fun c _ h₂ => gives_create h₂.1 ?_
    exact madeOf_reading h₁.2 rfl rfl (by simpa [Node.children] using h₂.2)
  | unary l op ho =>
    refine gives_bind (gives_attach rfl ho) fun c _ h₁ => gives_createPlain h₁.1 ?_ rfl rfl
    simpa [Node.children] using h₁.2
  | binary l op hl hr =>
    refine gives_bind (gives_attach rfl hl) fun a _ h₁ => gives_bind (gives_attach h₁.1 hr) fun b _ h₂ =>
      gives_createPlain h₂.1 ?_ rfl rfl
    simpa [Node.children] using ⟨h₁.2, h₂.2⟩
  | narrow l width ho =>
    refine gives_bind (gives_attach rfl ho) fun c _ h₁ => gives_createPlain h₁.1 ?_ rfl rfl
    simpa [Node.children] using h₁.2
  | peek l width ha =>
    refine gives_bind (gives_attach rfl ha) fun c _ h₁ => gives_createPlain h₁.1 ?_ rfl rfl
    simpa [Node.children] using h₁.2
  | poke l width ha hv hm =>
    refine gives_bind (gives_attach rfl ha) fun a _ h₁ => gives_bind (gives_attach h₁.1 hv) fun v _ h₂ =>
      gives_bind (gives_attachOption h₂.1 hm) fun m _ h₃ => gives_createPlain h₃.1 ?_ rfl rfl
    simpa [Node.children] using ⟨h₁.2, h₂.2, by simpa using h₃.2⟩
  | call l name ha => exact gives_call l name ha

/-- The constructor defines a constant of that name. -/
inductive Build.Binds : Build Node → String → Prop where
  | define (l : Location) (name : String) (value : Node) : Binds (Build.define l name value) name
  | defineFrom (l : Location) (name : String) (value : Node) (base : String) :
      Binds (Build.defineFrom l name value base) name
  | member (l : Location) (name : String) (value : Node) (base member : String) :
      Binds (Build.defineFrom l name value base) (Build.memberName name member)

/-- Whether it succeeds or fails, a call of a constructor respects what all changes respect that
constructors make. -/
theorem Construction.respects {given : List Node} {x : Build Node} (h : Construction given x)
    {defines : String → Prop} {R : System → System → Prop} (hR : System.Respected defines R)
    (hdefines : ∀ {name : String}, x.Binds name → defines name) : Leads R x := by
  cases h with
  | literal | jump | imported => exact hR.create _
  | integer | float => exact hR.literalOf _ _
  | block => exact hR.block _ _
  | assign => exact hR.assign _ _ _
  | static => exact hR.static _ _ _
  | define l name => exact hR.define _ (hdefines (.define l name _)) _
  | defineFrom l name base =>
    exact hR.defineFrom _ (hdefines (.defineFrom l name _ base))
      (fun member => hdefines (.member l name _ base member)) _ _
  | map => exact hR.map _ _ _ _
  | cond => exact hR.cond _ _ _ _
  | whileLoop => exact hR.whileLoop _ _ _
  | forLoop => exact hR.forLoop _ _ _ _ _
  | print => exact hR.print _ _ _
  | sleep => exact hR.sleep _ _
  | var => exact hR.var _ _
  | indexed => exact hR.indexed _ _ _
  | unary => exact hR.unary _ _ _
  | binary => exact hR.binary _ _ _ _
  | narrow => exact hR.narrow _ _ _
  | peek => exact hR.peek _ _ _
  | poke => exact hR.poke _ _ _ _ _
  | call => exact hR.call _ _ _

/-- So it changes the system by moves. -/
theorem Construction.leads {given : List Node} {x : Build Node} (h : Construction given x) :
    Build.Made x := h.respects System.moves_respected fun _ => trivial

end PeekPoke
