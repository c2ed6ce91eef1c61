import PeekPoke.Proofs.Bindings
import PeekPoke.Proofs.Expressions
set_option autoImplicit false

/-!
# Strict folding

Constructors fold constant children, and definitions and mappings take the values of constant
expressions.  A `Build.Place` is a place for an expression in a call of a constructor: what the call
does before it comes to that place, and what it does after it.  `Build.FoldsChild` and
`Build.RequiresValue` list all of them.

Main statement: wherever a constant expression is used, the call goes on with its strict value; if
it has none, either building it or the call fails, at an operator in the expression that divides by
zero (`Source.Constant.foldsStrictly`).
-/

namespace PeekPoke

/-! ## Places for an expression -/

namespace Build

/-- A place in a call of a constructor: what the call does before it comes to what is in that place,
and what it does with what it takes from there. -/
structure Place (β : Type) where
  {Before : Type}
  before : Build Before
  after : Before → β → Build Node

/-- The call with a node in that place. -/
def Place.fill {β : Type} (p : Place β) (take : Node → Build β) (child : Node) : Build Node := do
  let a ← p.before
  let b ← take child
  p.after a b

/-- The subroutine a name refers to, which has to have so many parameters. -/
def callee (location : Location) (name : String) (count : Nat) : Build Nat := do
  let env := (← get).env
  match env.subroutineId? name with
  | none => fail (.undefinedSubroutine name) location
  | some id =>
    let arity := (env.subroutines[id]?).elim 0 Subroutine.arity
    if arity = count then return id
    else fail (.argumentCount name arity count) location

/-- The width of a print item at a location, which has to fit its format. -/
def printWidth (place : Location) (format : PrintFormat) : Build Width := do
  let width := format.width (← get).env.defaultWidth
  if PrintFormat.fits format.style width then return width
  else fail (.invalidFormat width) place

/-- The mapping of a range whose ends are known. -/
def mapRange (location : Location) (start length : Word) (device : Option String) :
    Build Node := do
  let device := device.getD defaultDevice
  modify (·.noteRequest start length device)
  match (← get).map start length device with
  | .ok s =>
    set s
    create (.directive location)
  | .error e => fail (.mappingFailure start length device e.message) location

/-- The members that a new constant of this value takes from another constant. -/
def takeMembers (location : Location) (name base : String) (w : Word) : Build Node := do
  let s ← get
  match s.env.lookup base with
  | none => fail (.namingConflict base) location
  | some source =>
    if source.isConstant then
      defineMembers location name base (s.get source) (s.env.members base)
      emit (.familyDefined name base w)
      create (.directive location)
    else
      fail (.namingConflict base) location

/-- The constructors that fold a child, with the place of the child. -/
inductive FoldsChild (place : Location) : (Node → Build Node) → Place Node → Prop where
  | statement (l : Location) (earlier later : List Node) :
      FoldsChild place (fun n => block l (earlier ++ n :: later))
        { before := attachAll earlier
          after := fun earlier n => do
            let later ← attachAll later
            create (.block l (earlier ++ n :: later)) }
  | assigned (l : Location) (name : String) :
      FoldsChild place (fun n => assign l name n)
        { before := pure ()
          after := fun _ n => do
            let v ← orFail (·.assignable? name) (.namingConflict name) l
            create (.assign l v n) }
  | initial (l : Location) (name : String) :
      FoldsChild place (fun n => static l name n)
        { before := pure ()
          after := fun _ n => do
            let v ← orFail (·.newStatic? name) (.namingConflict name) l
            let cell ← modifyGet fun s =>
              let (cell, env) := s.env.newStaticCell
              (cell, { s with env })
            create (.static l cell v n) }
  | condition (l : Location) (thenBranch : Node) (elseBranch : Option Node) :
      FoldsChild place (fun n => cond l n thenBranch elseBranch)
        { before := pure ()
          after := fun _ n => do
            let thenBranch ← attach thenBranch
            let elseBranch ← attachOption elseBranch
            create (.cond l n thenBranch elseBranch) }
  | thenBranch (l : Location) (condition : Node) (elseBranch : Option Node) :
      FoldsChild place (fun n => cond l condition n elseBranch)
        { before := attach condition
          after := fun condition n => do
            let elseBranch ← attachOption elseBranch
            create (.cond l condition n elseBranch) }
  | elseBranch (l : Location) (condition thenBranch : Node) :
      FoldsChild place (fun n => cond l condition thenBranch (some n))
        { before := do
            let condition ← attach condition
            let thenBranch ← attach thenBranch
            return (condition, thenBranch)
          after := fun (condition, thenBranch) n =>
            create (.cond l condition thenBranch (some n)) }
  | loopCondition (l : Location) (body : Node) :
      FoldsChild place (fun n => whileLoop l n body)
        { before := pure ()
          after := fun _ n => do
            let body ← attach body
            create (.whileLoop l n body) }
  | loopBody (l : Location) (condition : Node) :
      FoldsChild place (fun n => whileLoop l condition n)
        { before := attach condition
          after := fun condition n => create (.whileLoop l condition n) }
  | target (l startLocation : Location) (counter : Variable) (first : Node) (step : Option Node)
      (body : Node) :
      FoldsChild place (fun n => forLoop l (.assign startLocation counter first) n step body)
        { before := pure ()
          after := fun _ n => do
            let step ← attachOption step
            let body ← attach body
            create (.forLoop l startLocation counter first n step body) }
  | step (l startLocation : Location) (counter : Variable) (first target body : Node) :
      FoldsChild place
        (fun n => forLoop l (.assign startLocation counter first) target (some n) body)
        { before := attach target
          after := fun target n => do
            let body ← attach body
            create (.forLoop l startLocation counter first target (some n) body) }
  | forBody (l startLocation : Location) (counter : Variable) (first target : Node)
      (step : Option Node) :
      FoldsChild place (fun n => forLoop l (.assign startLocation counter first) target step n)
        { before := do
            let target ← attach target
            let step ← attachOption step
            return (target, step)
          after := fun (target, step) n =>
            create (.forLoop l startLocation counter first target step n) }
  | printed (l : Location) (earlier later : List (PrintItem Node)) (format : PrintFormat)
      (trailing : Option String) :
      FoldsChild place (fun n => print l (earlier ++ .value n format :: later) trailing)
        { before := do
            let earlier ← printParts earlier
            let width ← printWidth place format
            return (earlier, width)
          after := fun (earlier, width) n => do
            let later ← printParts later
            create (.print l (earlier ++ .value n format.style width :: later)
              (trailing.getD "\n")) }
  | micros (l : Location) :
      FoldsChild place (fun n => sleep l n)
        { before := pure (), after := fun _ n => create (.sleep l n) }
  | offset (l : Location) (name : String) :
      FoldsChild place (fun n => indexed l name n)
        { before := resolve l name, after := fun v n => create (.indexed l v n) }
  | operand (l : Location) (op : UnaryOp) :
      FoldsChild place (fun n => unary l op n)
        { before := pure (), after := fun _ n => create (.unary l op n) }
  | left (l : Location) (op : BinaryOp) (right : Node) :
      FoldsChild place (fun n => binary l op n right)
        { before := pure ()
          after := fun _ n => do
            let right ← attach right
            create (.binary l op n right) }
  | right (l : Location) (op : BinaryOp) (left : Node) :
      FoldsChild place (fun n => binary l op left n)
        { before := attach left, after := fun left n => create (.binary l op left n) }
  | narrowed (l : Location) (width : Width) :
      FoldsChild place (fun n => narrow l width n)
        { before := pure (), after := fun _ n => create (.narrow l width n) }
  | register (l : Location) (width : Width) :
      FoldsChild place (fun n => peek l n width)
        { before := pure (), after := fun _ n => create (.peek l n width) }
  | address (l : Location) (value : Node) (mask : Option Node) (width : Width) :
      FoldsChild place (fun n => poke l n value mask width)
        { before := pure ()
          after := fun _ n => do
            let value ← attach value
            let mask ← attachOption mask
            create (.poke l n value mask width) }
  | written (l : Location) (address : Node) (mask : Option Node) (width : Width) :
      FoldsChild place (fun n => poke l address n mask width)
        { before := attach address
          after := fun address n => do
            let mask ← attachOption mask
            create (.poke l address n mask width) }
  | mask (l : Location) (address value : Node) (width : Width) :
      FoldsChild place (fun n => poke l address value (some n) width)
        { before := do
            let address ← attach address
            let value ← attach value
            return (address, value)
          after := fun (address, value) n => create (.poke l address value (some n) width) }
  | argument (l : Location) (name : String) (earlier later : List Node) :
      FoldsChild place (fun n => call l name (earlier ++ n :: later))
        { before := do
            let id ← callee l name (earlier.length + (later.length + 1))
            let earlier ← attachAll earlier
            return (id, earlier)
          after := fun (id, earlier) n => do
            let later ← attachAll later
            create (.call l name id (earlier ++ n :: later)) }

/-- The constructors that need the value of an expression, with its place. -/
inductive RequiresValue : (Node → Build Node) → Place Word → Prop where
  | define (l : Location) (name : String) :
      RequiresValue (fun n => define l name n)
        { before := pure ()
          after := fun _ w => do
            newConstant l name w
            emit (.constantDefined name w)
            create (.directive l) }
  | defineFrom (l : Location) (name base : String) :
      RequiresValue (fun n => defineFrom l name n base)
        { before := pure ()
          after := fun _ w => do
            newConstant l name w
            takeMembers l name base w }
  | start (l : Location) (length : Node) (device : Option String) :
      RequiresValue (fun n => map l n length device)
        { before := pure ()
          after := fun _ start => do
            let length ← requireConstant length
            mapRange l start length device }
  | length (l : Location) (start : Node) (device : Option String) :
      RequiresValue (fun n => map l start n device)
        { before := requireConstant start
          after := fun start length => mapRange l start length device }

theorem attachAll_append (earlier : List Node) (child : Node) (later : List Node) :
    attachAll (earlier ++ child :: later) = (do
      let earlier ← attachAll earlier
      let child ← attach child
      let later ← attachAll later
      return earlier ++ child :: later) := by
  induction earlier with
  | nil => simp [attachAll]
  | cons first rest ih => simp [attachAll, ih]

theorem printParts_value (expr : Node) (format : PrintFormat) (rest : List (PrintItem Node)) :
    printParts (.value expr format :: rest) = (do
      let width ← printWidth expr.location format
      let expr ← attach expr
      let rest ← printParts rest
      return .value expr format.style width :: rest) := by
  funext s
  rw [printParts, printWidth, bind_assoc, EStateM.get_bind, EStateM.get_bind]
  dsimp only
  split
  · rfl
  · rfl

theorem printParts_append (earlier : List (PrintItem Node)) (expr : Node) (format : PrintFormat)
    (later : List (PrintItem Node)) :
    printParts (earlier ++ .value expr format :: later) = (do
      let earlier ← printParts earlier
      let width ← printWidth expr.location format
      let expr ← attach expr
      let later ← printParts later
      return earlier ++ .value expr format.style width :: later) := by
  induction earlier with
  | nil => simp [printParts, printParts_value]
  | cons item rest ih =>
    cases item with
    | text text => simp [printParts, ih]
    | value expr format => simp [printParts_value, ih]

theorem call_eq (l : Location) (name : String) (arguments : List Node) :
    call l name arguments = (do
      let id ← callee l name arguments.length
      let arguments ← attachAll arguments
      create (.call l name id arguments)) := by
  funext s
  rw [call, callee, bind_assoc, EStateM.get_bind, EStateM.get_bind]
  dsimp only
  cases s.env.subroutineId? name with
  | none => rfl
  | some id =>
    dsimp only
    split
    · rfl
    · rfl

theorem map_eq (l : Location) (start length : Node) (device : Option String) :
    map l start length device = (do
      let start ← requireConstant start
      let length ← requireConstant length
      mapRange l start length device) := rfl

theorem defineFrom_eq (l : Location) (name : String) (value : Node) (base : String) :
    defineFrom l name value base = (do
      let w ← requireConstant value
      newConstant l name w
      takeMembers l name base w) := rfl

theorem FoldsChild.eq {place : Location} {use : Node → Build Node} {p : Place Node}
    (h : FoldsChild place use p) {child : Node} (hchild : child.location = place) :
    use child = p.fill attach child := by
  cases h with
  | statement => simp [block, attachAll_append, Place.fill]
  | printed => simp [print, printParts_append, Place.fill, hchild]
  | argument => simp [call_eq, attachAll_append, Place.fill]
  | target | step | forBody => simp [forLoop, attachOption, Place.fill]
  | assigned => simp [assign, Place.fill]
  | initial => simp [static, Place.fill]
  | condition | thenBranch | elseBranch => simp [cond, attachOption, Place.fill]
  | loopCondition | loopBody => simp [whileLoop, Place.fill]
  | micros => simp [sleep, Place.fill]
  | offset => simp [indexed, Place.fill]
  | operand => simp [unary, Place.fill]
  | left | right => simp [binary, Place.fill]
  | narrowed => simp [narrow, Place.fill]
  | register => simp [peek, Place.fill]
  | address | written | mask => simp [poke, attachOption, Place.fill]

theorem RequiresValue.eq {use : Node → Build Node} {p : Place Word} (h : RequiresValue use p)
    (child : Node) : use child = p.fill requireConstant child := by
  cases h with
  | define => simp [Build.define, Place.fill]
  | defineFrom => simp [defineFrom_eq, Place.fill]
  | start | length => simp [map_eq, Place.fill]

/-! ### What is done before the place is reached -/

theorem quiet_callee (l : Location) (name : String) (count : Nat) :
    Quiet (callee l name count) := by
  refine Leads.get_bind fun s => ?_
  dsimp only
  split
  · exact quiet_fail _ _
  · split
    · exact quiet_pure _
    · exact quiet_fail _ _

theorem quiet_printWidth (place : Location) (format : PrintFormat) :
    Quiet (printWidth place format) := by
  refine Leads.get_bind fun s => ?_
  dsimp only
  split
  · exact quiet_pure _
  · exact quiet_fail _ _

theorem FoldsChild.quiet {place : Location} {use : Node → Build Node} {p : Place Node}
    (h : FoldsChild place use p) : Quiet p.before := by
  cases h with
  | statement => exact quiet_attachAll _
  | thenBranch | loopBody | step | right | written => exact quiet_attach _
  | elseBranch | mask =>
    exact quiet_bind (quiet_attach _) fun _ => quiet_bind (quiet_attach _) fun _ => quiet_pure _
  | forBody =>
    exact quiet_bind (quiet_attach _) fun _ => quiet_bind (quiet_attachOption _) fun _ =>
      quiet_pure _
  | printed =>
    exact quiet_bind (quiet_printParts _) fun _ => quiet_bind (quiet_printWidth _ _) fun _ =>
      quiet_pure _
  | offset => exact quiet_resolve _ _
  | argument =>
    exact quiet_bind (quiet_callee _ _ _) fun _ => quiet_bind (quiet_attachAll _) fun _ =>
      quiet_pure _
  | assigned | initial | condition | loopCondition | target | micros | operand | left | narrowed
  | register | address => exact quiet_pure ()

theorem RequiresValue.quiet {use : Node → Build Node} {p : Place Word} (h : RequiresValue use p) :
    Quiet p.before := by
  cases h with
  | define | defineFrom | start => exact quiet_pure ()
  | length => exact quiet_requireConstant _

end Build

theorem System.Serves.intact {s s₁ s₂ : System} {node : Node} (h : s.Serves node s₁)
    (hintact : s₁.Intact s₂) : s.Serves node s₂ := by
  obtain ⟨trace, asked, hmachine, -⟩ := hintact.machine
  refine ⟨hintact.env ▸ h.folds, fun v hv => ?_⟩
  rw [← h.source v hv, System.get, System.get, hmachine]

namespace Build

variable {β : Type} {s s₁ : System} {e : Source} {node : Node} {take : Node → Build β}
  {give : Word → β} {p : Place β}

/-- The step fails because a constant expression divides by zero. -/
def FailsByZero {α : Type} (r : EStateM.Result BuildError System α) : Prop :=
  ∃ l s, r = .error ⟨.constantDivisionByZero, l⟩ s

/-- What becomes of a call in which a place is filled with what was built of an expression. -/
structure UsesStrictly (s : System) (e : Source) (give : Word → β) (p : Place β)
    (s₁ : System) (r : EStateM.Result BuildError System Node) : Prop where
  /-- A call that fails before it comes to the place fails in the same way whatever is there. -/
  unreached : ∀ {err s₂}, p.before s₁ = .error err s₂ → r = .error err s₂
  /-- A call that comes to the place goes on with the strict value, or it fails at one of the
  operators that divide by zero. -/
  reached : ∀ {a s₂}, p.before s₁ = .ok a s₂ →
    e.Strictly s (fun w => ∃ s₃, s₂.SameButTrace s₃ ∧ r = p.after a (give w) s₃) fun l =>
      ∃ s₃, s₂.SameButTrace s₃ ∧ r = .error ⟨.constantDivisionByZero, l⟩ s₃
  /-- So unless the rest of the call divides by zero elsewhere, the call fails for a division by
  zero exactly if the expression has no strict value. -/
  fails_iff : ∀ {a s₂}, p.before s₁ = .ok a s₂ →
    (∀ w s₃, ¬ FailsByZero (p.after a (give w) s₃)) → (FailsByZero r ↔ e.strict? s = none)

theorem usesStrictly_fill (hp : Quiet p.before) (hserves : s.Serves node s₁)
    (htake : ∀ {s₂}, s.Serves node s₂ → Takes s e (take node) give s₂) :
    UsesStrictly s e give p s₁ (p.fill take node s₁) := by
  have hreached : ∀ {a s₂}, p.before s₁ = .ok a s₂ →
      e.Strictly s
        (fun w => ∃ s₃, s₂.SameButTrace s₃ ∧ p.fill take node s₁ = p.after a (give w) s₃) fun l =>
        ∃ s₃, s₂.SameButTrace s₃ ∧
          p.fill take node s₁ = .error ⟨.constantDivisionByZero, l⟩ s₃ := by
    intro a s₂ hbefore
    have hintact := hp s₁
    rw [hbefore] at hintact
    unfold Place.fill
    rw [EStateM.bind_of_ok hbefore]
    rcases htake (hserves.intact hintact) with ⟨hw, s₃, hsame, hx⟩ | ⟨hl, s₃, hsame, hx⟩
    · exact .value hw ⟨s₃, hsame, EStateM.bind_of_ok hx _⟩
    · exact .zero hl ⟨s₃, hsame, EStateM.bind_of_error hx _⟩
  refine ⟨fun hbefore => EStateM.bind_of_error hbefore _, hreached, fun hbefore hafter => ?_⟩
  rcases hreached hbefore with ⟨hw, s₃, -, hr⟩ | ⟨hl, s₃, -, hr⟩
  · exact iff_of_false (hr ▸ hafter _ s₃) (by simp [hw])
  · exact iff_of_true ⟨_, s₃, hr⟩ hl.strict?

theorem FoldsChild.usesStrictly {use : Node → Build Node} {p : Place Node}
    (huse : FoldsChild node.location use p) (h : e.Carries s node) (hserves : s.Serves node s₁) :
    UsesStrictly s e (.literal node.location) p s₁ (use node s₁) := by
  rw [huse.eq rfl]
  exact usesStrictly_fill huse.quiet hserves (takes_attach h)

theorem RequiresValue.usesStrictly {use : Node → Build Node} {p : Place Word}
    (huse : RequiresValue use p) (h : e.Carries s node) (hserves : s.Serves node s₁) :
    UsesStrictly s e id p s₁ (use node s₁) := by
  rw [huse.eq]
  exact usesStrictly_fill huse.quiet hserves (takes_requireConstant h)

/-- A node that is folded is a child of the node that is made. -/
theorem FoldsChild.made {place : Location} {use : Node → Build Node} {p : Place Node}
    (h : FoldsChild place use p) (a : p.Before) (child : Node) :
    Makes (child ∈ ·.children) (p.after a child) := by
  cases h with
  | micros | offset | operand | right | narrowed | register | loopBody | elseBranch | forBody
  | mask => exact makes_create (by simp [Node.children])
  | statement | loopCondition | left | thenBranch | step | written | argument | assigned =>
    exact makes_bind fun _ => makes_create (by simp [Node.children])
  | condition | address | target | initial =>
    exact makes_bind fun _ => makes_bind fun _ => makes_create (by simp [Node.children])
  | printed =>
    exact makes_bind fun _ => makes_create (by simp [Node.children, PrintPart.expr?])

/-- A call that succeeds went on with the strict value. -/
theorem UsesStrictly.eq_ok {β : Type} {e : Source} {s s₁ s' : System} {give : Word → β}
    {p : Place β} {made : Node} (h : UsesStrictly s e give p s₁ (.ok made s')) :
    ∃ w a s₂, e.strict? s = some w ∧ p.after a (give w) s₂ = .ok made s' := by
  cases hbefore : p.before s₁ with
  | error err s₂ => cases h.unreached hbefore
  | ok a s₂ =>
    rcases h.reached hbefore with ⟨hw, s₃, -, hmade⟩ | ⟨-, s₃, -, hmade⟩
    · exact ⟨_, a, s₃, hw, hmade.symm⟩
    · cases hmade

end Build

/-! ## Strict folding -/

namespace Source

/-- What becomes of an expression that is built in a workshop and then handed to constructors. -/
structure FoldsStrictly (e : Source) (shop : Workshop) : Prop where
  /-- It has no strict value exactly if an operator in it divides by zero. -/
  strict : e.strict? shop.system = none ↔ ∃ l, e.DividesByZero shop.system l
  /-- Building it fails only at such an operator. -/
  refused : ∀ {err : SourceError} {shop' : Workshop}, e.build shop = .error err shop' →
    ∃ l, e.DividesByZero shop.system l ∧ err = .build ⟨.constantDivisionByZero, l⟩
  /-- With a strict value it is built. -/
  built : ∀ {w : Word}, e.strict? shop.system = some w →
    ∃ node shop', e.build shop = .ok node shop'
  /-- What was built can be handed on right after it was built. -/
  now : ∀ {node : Node} {shop' : Workshop}, e.build shop = .ok node shop' →
    shop.system.Serves node shop'.system
  /-- It can still be handed on after anything else that an embedder does. -/
  later : ∀ {w : World} {node : Node} {shop' : Workshop}, w.Reached → w.Mirrors shop →
    e.build shop = .ok node shop' → ∃ built : World, w.Steps built ∧ built.Mirrors shop' ∧
      ∀ {w' : World}, built.Steps w' → shop.system.Serves node w'.system
  /-- A constructor that folds children goes on with a literal of the strict value. -/
  child : ∀ {node : Node} {shop' : Workshop} {s : System} {use : Node → Build Node}
    {p : Build.Place Node}, e.build shop = .ok node shop' → shop.system.Serves node s →
    Build.FoldsChild node.location use p →
    Build.UsesStrictly shop.system e (.literal node.location) p s (use node s)
  /-- The literal is a child of the node that is made. -/
  made : ∀ {node made : Node} {shop' : Workshop} {s s' : System} {use : Node → Build Node}
    {p : Build.Place Node}, e.build shop = .ok node shop' → shop.system.Serves node s →
    Build.FoldsChild node.location use p → use node s = .ok made s' →
    ∃ w, e.strict? shop.system = some w ∧ .literal node.location w ∈ made.children
  /-- A definition or a mapping goes on with the strict value itself. -/
  value : ∀ {node : Node} {shop' : Workshop} {s : System} {use : Node → Build Node}
    {p : Build.Place Word}, e.build shop = .ok node shop' → shop.system.Serves node s →
    Build.RequiresValue use p → Build.UsesStrictly shop.system e id p s (use node s)
  /-- A constant that is defined has the strict value. -/
  defined : ∀ {node made : Node} {shop' : Workshop} {s s' : System} {l : Location}
    {name : String}, e.build shop = .ok node shop' → shop.system.Serves node s →
    Build.define l name node s = .ok made s' →
    ∃ w, e.strict? shop.system = some w ∧ s'.Holds name w

variable {e : Source} {shop : Workshop}

/-- **Strict folding.**  Every constant expression folds to its strict value, or fails to fold at an
operator in it that divides by zero, wherever it is used. -/
theorem Constant.foldsStrictly (he : e.Constant shop.system.env)
    (hfold : shop.system.env.foldConstants = true) : e.FoldsStrictly shop := by
  have hbuilt : Built shop.system e shop.nodes (e.build shop) :=
    he.built hfold (.refl shop.system)
  have hcarries : ∀ {node shop'}, e.build shop = .ok node shop' → e.Carries shop.system node :=
    fun hbuild => (hbuild ▸ hbuilt).carries.2
  exact {
    strict := he.strict?_eq_none_iff
    refused := fun hbuild => (hbuild ▸ hbuilt).dividesByZero
    built := by
      intro w hw
      cases hbuild : e.build shop with
      | ok node shop' => exact ⟨node, shop', rfl⟩
      | error err shop' =>
        obtain ⟨l, hl, -⟩ := (hbuild ▸ hbuilt).dividesByZero
        cases hl.strict?.symm.trans hw
    now := fun {node _} hbuild => (hbuild ▸ hbuilt).carries.1.serves hfold node
    later := by
      intro w node shop' hreached hmirrors hbuild
      obtain ⟨built, hsteps, hbuiltMirrors, hnodes⟩ := e.build_realised hmirrors
      rw [hbuild] at hbuiltMirrors hbuilt
      obtain ⟨hsame, hcarries⟩ := hbuilt.carries
      refine ⟨built, hsteps, hbuiltMirrors, fun {w'} hlater => ?_⟩
      have hserves := (hreached.steps hsteps).tidy.serves hlater (hnodes node shop' hbuild)
        hcarries.flat.isConstant
      exact hserves.of_sameButTrace (hbuiltMirrors.system ▸ hsame)
    child := fun hbuild hserves huse => huse.usesStrictly (hcarries hbuild) hserves
    made := by
      intro node made shop' s s' use p hbuild hserves huse hmade
      have huses := huse.usesStrictly (hcarries hbuild) hserves
      rw [hmade] at huses
      obtain ⟨w, a, s₂, hw, hafter⟩ := huses.eq_ok
      exact ⟨w, hw, huse.made a _ s₂ made s' hafter⟩
    value := fun hbuild hserves huse => huse.usesStrictly (hcarries hbuild) hserves
    defined := by
      intro node made shop' s s' l name hbuild hserves hmade
      have huses := (Build.RequiresValue.define l name).usesStrictly (hcarries hbuild) hserves
      rw [hmade] at huses
      obtain ⟨w, _, s₂, hw, hafter⟩ := huses.eq_ok
      obtain ⟨_, s₃, hnew, hrest⟩ := EStateM.bind_eq_ok hafter
      have hholds := Build.holds_of_newConstant hnew
      cases hrest
      exact ⟨w, hw, hholds⟩ }

end Source

/-- A workshop in which the constant `K` is zero. -/
def zeroed : Workshop := { system := ({} : System).withConstant "K" 0 }

/-- `0 && 1 / K`, where the division is never needed. -/
def skipped : Source :=
  .binary ⟨"", 1, 3⟩ .and (.literal ⟨"", 1, 1⟩ 0)
    (.binary ⟨"", 1, 8⟩ .div (.literal ⟨"", 1, 6⟩ 1) (.var ⟨"", 1, 10⟩ "K"))

/-- The division is folded nevertheless, so the expression cannot be built. -/
theorem skipped_foldsStrictly :
    skipped.Constant zeroed.system.env ∧ zeroed.system.env.foldConstants = true ∧
      skipped.FoldsStrictly zeroed ∧ skipped.strict? zeroed.system = none ∧
        ∃ shop, skipped.build zeroed =
          .error (.build ⟨.constantDivisionByZero, ⟨"", 1, 8⟩⟩) shop := by
  have hlookup : zeroed.system.env.lookup "K" = some ⟨"K", .constant, .global, 0⟩ := by rfl
  have hconstant : skipped.Constant zeroed.system.env :=
    .binary _ _ (.literal _ _) (.binary _ _ (.literal _ _) (.var _ hlookup rfl))
  have hfolds : skipped.FoldsStrictly zeroed := Source.Constant.foldsStrictly hconstant rfl
  have hzero : skipped.strict? zeroed.system = none := by rfl
  refine ⟨hconstant, rfl, hfolds, hzero, ?_⟩
  have hfails : EStateM.run' skipped.build zeroed = none := by rfl
  cases hbuild : skipped.build zeroed with
  | ok node shop =>
    have hbuilt : EStateM.run' (fun _ => skipped.build zeroed) zeroed = none := hfails
    rw [hbuild] at hbuilt
    cases hbuilt
  | error err shop =>
    obtain ⟨l, hl, rfl⟩ := hfolds.refused hbuild
    -- Only one of the operators divides.
    cases hl with
    | here hop => simp at hop
    | left hleft => cases hleft
    | right hright =>
      cases hright with
      | here => exact ⟨shop, rfl⟩
      | left hleft => cases hleft
      | right hright => cases hright

end PeekPoke
