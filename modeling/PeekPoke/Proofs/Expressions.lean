import PeekPoke.Proofs.Constants
import PeekPoke.Proofs.Failures
set_option autoImplicit false

/-!
# Constant expressions

A constant expression is made of literals, constants and operators.  `Source.strict?` evaluates all
of it at once, with both operands of every operator, also where the left one decides; it has no
value exactly if an operator in the expression divides by zero
(`Source.Constant.strict?_eq_none_iff`).

Building works from the leaves up and folds an operand when it is attached to its operator, so what
is built is one operator over literals.  Main statement: that node carries the strict value of the
expression, or the division by zero at its top, and if a division by zero stands further down,
building ends there (`Source.Constant.built`).
-/

namespace PeekPoke

/-! ## Expressions and their strict values -/

namespace Source

/-- Made of literals, constants and operators only. -/
inductive Constant (env : Environment) : Source → Prop where
  | literal (l : Location) (w : Word) : Constant env (.literal l w)
  | integer (l : Location) {text : String} {w : Word} : Numeral.integer text = .ok w →
      Constant env (.integer l text)
  | float (l : Location) {text : String} {w : Word} : Numeral.float text = .ok w →
      Constant env (.float l text)
  | var (l : Location) {name : String} {v : Variable} : env.lookup name = some v →
      v.isConstant = true → Constant env (.var l name)
  | indexed (l : Location) {name : String} {v : Variable} {offset : Source} :
      env.lookup name = some v → v.isConstant = true → Constant env offset →
      Constant env (.indexed l name offset)
  | unary (l : Location) (op : UnaryOp) {operand : Source} : Constant env operand →
      Constant env (.unary l op operand)
  | binary (l : Location) (op : BinaryOp) {left right : Source} : Constant env left →
      Constant env right → Constant env (.binary l op left right)
  | narrow (l : Location) (width : Width) {operand : Source} : Constant env operand →
      Constant env (.narrow l width operand)

/-- The value of a constant expression when both operands of every operator are evaluated; `none`
if a divisor is zero. -/
def strict? (s : System) : Source → Option Word
  | .literal _ w => some w
  | .integer _ text => (Numeral.integer text).toOption
  | .float _ text => (Numeral.float text).toOption
  | .var _ name => (s.env.lookup name).map s.get
  | .indexed _ name offset => do
    let v ← s.env.lookup name
    (offset.strict? s).map (s.get v + ·)
  | .unary _ op operand => (operand.strict? s).map op.apply
  | .binary _ op left right => do
    let l ← left.strict? s
    let r ← right.strict? s
    op.value? l r
  | .narrow _ width operand => (operand.strict? s).map width.truncate
  | _ => none

/-- The strict evaluation of the expression comes to a division or remainder at `l` whose right
operand is zero. -/
inductive DividesByZero (s : System) (l : Location) : Source → Prop where
  | here {op : BinaryOp} {left right : Source} {w : Word} : op = .div ∨ op = .mod →
      left.strict? s = some w → right.strict? s = some 0 →
      DividesByZero s l (.binary l op left right)
  | offset {l' : Location} {name : String} {offset : Source} : DividesByZero s l offset →
      DividesByZero s l (.indexed l' name offset)
  | unary {l' : Location} {op : UnaryOp} {operand : Source} : DividesByZero s l operand →
      DividesByZero s l (.unary l' op operand)
  | left {l' : Location} {op : BinaryOp} {left right : Source} : DividesByZero s l left →
      DividesByZero s l (.binary l' op left right)
  | right {l' : Location} {op : BinaryOp} {left right : Source} : DividesByZero s l right →
      DividesByZero s l (.binary l' op left right)
  | narrow {l' : Location} {width : Width} {operand : Source} : DividesByZero s l operand →
      DividesByZero s l (.narrow l' width operand)

variable {s : System} {e : Source}

/-- An expression that divides by zero has no strict value. -/
theorem DividesByZero.strict? {l : Location} (h : e.DividesByZero s l) : e.strict? s = none := by
  induction h with
  | here hop hleft hright =>
    simp [Source.strict?, hleft, hright, (BinaryOp.value?_eq_none_iff _ _ _).mpr ⟨hop, rfl⟩]
  | offset _ ih | unary _ ih | left _ ih | right _ ih | narrow _ ih => simp [Source.strict?, ih]

/-- A constant expression without a strict value divides by zero. -/
theorem Constant.exists_dividesByZero (he : e.Constant s.env) (h : e.strict? s = none) :
    ∃ l, e.DividesByZero s l := by
  induction he with
  | literal => cases h
  | integer _ htext | float _ htext =>
    rw [Source.strict?, htext] at h
    cases h
  | var _ hlookup =>
    rw [Source.strict?, hlookup] at h
    cases h
  | indexed _ hlookup _ _ ih =>
    obtain ⟨l, hl⟩ := ih (by simpa [Source.strict?, hlookup] using h)
    exact ⟨l, .offset hl⟩
  | unary _ _ _ ih =>
    obtain ⟨l, hl⟩ := ih (by simpa [Source.strict?] using h)
    exact ⟨l, .unary hl⟩
  | narrow _ _ _ ih =>
    obtain ⟨l, hl⟩ := ih (by simpa [Source.strict?] using h)
    exact ⟨l, .narrow hl⟩
  | @binary l op left right _ _ ihleft ihright =>
    cases hleft : left.strict? s with
    | none =>
      obtain ⟨l, hl⟩ := ihleft hleft
      exact ⟨l, .left hl⟩
    | some a =>
      cases hright : right.strict? s with
      | none =>
        obtain ⟨l, hl⟩ := ihright hright
        exact ⟨l, .right hl⟩
      | some b =>
        have hvalue : op.value? a b = none := by simpa [Source.strict?, hleft, hright] using h
        obtain ⟨hop, rfl⟩ := (op.value?_eq_none_iff a b).mp hvalue
        exact ⟨l, .here hop hleft hright⟩

/-- A constant expression has no strict value exactly when an operator in it divides by zero. -/
theorem Constant.strict?_eq_none_iff (he : e.Constant s.env) :
    e.strict? s = none ↔ ∃ l, e.DividesByZero s l :=
  ⟨he.exists_dividesByZero, fun ⟨_, h⟩ => h.strict?⟩

/-- One thing holds of the strict value of the expression, or it has none, and another thing holds
of one of the operators in it that divide by zero. -/
inductive Strictly (s : System) (e : Source) (value : Word → Prop) (zero : Location → Prop) :
    Prop where
  | value {w : Word} : e.strict? s = some w → value w → Strictly s e value zero
  | zero {l : Location} : e.DividesByZero s l → zero l → Strictly s e value zero

end Source

/-! ## Built expressions -/

/-- The value of an operator over literals. -/
theorem Node.constantValue_binary_literal (get : Variable → Word) (l ll lr : Location)
    (op : BinaryOp) (a b : Word) :
    (Node.binary l op (.literal ll a) (.literal lr b)).constantValue get =
      match op.value? a b with
      | some w => .ok w
      | none => .error (.failure ⟨op.zeroDivisor, l⟩) := by
  simp only [constantValue, bind, Except.bind, BinaryOp.eval]
  cases hdecided : op.decided? a with
  | some w =>
    rw [BinaryOp.value?_of_decided? hdecided b]
    rfl
  | none =>
    cases op.value? a b with
    | some w => rfl
    | none => rfl

theorem BinaryOp.isZeroDivision_zeroDivisor (op : BinaryOp) (l : Location) :
    Unwind.IsZeroDivision (.failure ⟨op.zeroDivisor, l⟩) l := by
  cases op <;> simp [zeroDivisor, Unwind.IsZeroDivision]

theorem BuildError.ofUnwind_of_isZeroDivision {u : Unwind} {l : Location} (h : u.IsZeroDivision l)
    (place : Location) : ofUnwind place u = ⟨.constantDivisionByZero, l⟩ := by
  rcases h with rfl | rfl <;> rfl

/-- What is built of a constant expression: a flat node that gives the strict value of the
expression, or fails at an operator in it that divides by zero. -/
structure Source.Carries (s : System) (e : Source) (node : Node) : Prop where
  flat : node.Flat
  strictly : e.Strictly s (fun w => node.constantValue s.get = .ok w) fun l =>
    ∃ u, u.IsZeroDivision l ∧ node.constantValue s.get = .error u

/-- In the second system constants are folded too, and the constant that the node reads, if it reads
one, has the same value. -/
structure System.Serves (s : System) (node : Node) (s' : System) : Prop where
  folds : s'.env.foldConstants = true
  source : ∀ v, node.source? = some v → s'.get v = s.get v

theorem System.Serves.of_sameButTrace {s s' s'' : System} {node : Node} (h : s'.Serves node s'')
    (hsame : s.SameButTrace s') : s.Serves node s'' := by
  obtain ⟨trace, rfl⟩ := hsame
  exact ⟨h.folds, h.source⟩

/-- In a world that can be reached the constant that a node reads keeps its value. -/
theorem World.Tidy.serves {w w' : World} (h : w.Tidy) (hsteps : w.Steps w') {node : Node}
    (hnode : node ∈ w.nodes) (hc : node.isConstant = true) : w.system.Serves node w'.system := by
  obtain ⟨h', hgrows⟩ := hsteps.grows h
  refine ⟨h'.proper.folds, fun v hv => ?_⟩
  have hconst : v.isConstant = true := by
    cases node <;> simp_all [Node.source?, Node.isConstant]
  have hbound := (h.node node hnode node .self).source v hv hconst
  exact hgrows.value hbound hconst

theorem System.SameButTrace.serves {s s' : System} (h : s.SameButTrace s')
    (hfold : s.env.foldConstants = true) (node : Node) : s.Serves node s' := by
  obtain ⟨trace, rfl⟩ := h
  exact ⟨hfold, fun _ _ => rfl⟩

namespace Build

variable {β : Type} {s s₁ : System} {e : Source} {node : Node}

/-- The step gives what belongs to the strict value of the expression, or fails at one of the
operators in it that divide by zero, and changes nothing but the trace. -/
def Takes (s : System) (e : Source) (x : Build β) (give : Word → β) (s₁ : System) : Prop :=
  e.Strictly s (fun w => ∃ s₂, s₁.SameButTrace s₂ ∧ x s₁ = .ok (give w) s₂) fun l =>
    ∃ s₂, s₁.SameButTrace s₂ ∧ x s₁ = .error ⟨.constantDivisionByZero, l⟩ s₂

/-- The step evaluates the node and gives what belongs to its value. -/
def Evaluates (x : Build β) (give : Word → β) (node : Node) (s : System) : Prop :=
  ∃ s', s.SameButTrace s' ∧ x s =
    match node.constantValue s.get with
    | .ok w => .ok (give w) s'
    | .error u => .error (BuildError.ofUnwind node.location u) s'

theorem evaluates_evaluate (hc : node.isConstant = true) (s : System) :
    Evaluates (evaluate node) id node s := by
  obtain ⟨trace, h⟩ := evaluate_of_isConstant hc s
  exact ⟨_, ⟨trace, rfl⟩, h⟩

theorem evaluates_requireConstant (hc : node.isConstant = true) (s : System) :
    Evaluates (requireConstant node) id node s := by
  rw [requireConstant, if_pos hc]
  exact evaluates_evaluate hc s

theorem evaluates_attach (hc : node.isConstant = true) (hfold : s.env.foldConstants = true) :
    Evaluates (attach node) (.literal node.location) node s := by
  cases hliteral : node.literal? with
  | some w =>
    -- A literal stays what it is.
    obtain ⟨l, w', rfl⟩ := Node.eq_literal_of_isSome (Option.isSome_of_eq_some hliteral)
    have hkept : attach (.literal l w') s = .ok (.literal l w') s := by
      rw [attach, EStateM.get_bind, if_neg (by simp [Node.literal?])]
      rfl
    exact ⟨s, .refl s, hkept⟩
  | none =>
    have hattach : attach node s =
        (do
          let w ← evaluate node
          emit (.folded w node.location)
          literal node.location w : Build Node) s := by
      rw [attach, EStateM.get_bind, if_pos (by simp [hfold, hc, hliteral])]
    obtain ⟨s', ⟨trace, rfl⟩, h⟩ := evaluates_evaluate hc s
    unfold Evaluates
    rw [hattach]
    cases hvalue : node.constantValue s.get with
    | ok w =>
      rw [hvalue] at h
      rw [EStateM.bind_of_ok h]
      exact ⟨_, ⟨_, rfl⟩, rfl⟩
    | error u =>
      rw [hvalue] at h
      rw [EStateM.bind_of_error h]
      exact ⟨_, ⟨trace, rfl⟩, rfl⟩

/-- Evaluating what was built of a constant expression, now or later, gives its strict value. -/
theorem Evaluates.takes {x : Build β} {give : Word → β} (hx : Evaluates x give node s₁)
    (h : e.Carries s node) (hserves : s.Serves node s₁) : Takes s e x give s₁ := by
  obtain ⟨s₂, hsame, hx⟩ := hx
  have hvalue : node.constantValue s₁.get = node.constantValue s.get :=
    h.flat.constantValue_congr fun v hv _ => hserves.source v hv
  rw [hvalue] at hx
  rcases h.strictly with ⟨hw, hnode⟩ | ⟨hl, u, hu, hnode⟩
  · exact .value hw ⟨s₂, hsame, by rw [hx, hnode]⟩
  · exact .zero hl ⟨s₂, hsame, by
      rw [hx, hnode, ← BuildError.ofUnwind_of_isZeroDivision hu node.location]⟩

theorem takes_attach (h : e.Carries s node) (hserves : s.Serves node s₁) :
    Takes s e (attach node) (.literal node.location) s₁ :=
  (evaluates_attach h.flat.isConstant hserves.folds).takes h hserves

theorem takes_requireConstant (h : e.Carries s node) (hserves : s.Serves node s₁) :
    Takes s e (requireConstant node) id s₁ :=
  (evaluates_requireConstant h.flat.isConstant s₁).takes h hserves

end Build

/-! ## Building expressions -/

namespace Source

/-- The building of an expression ends with a node that carries it, or at one of the operators in it
that divide by zero, and changes nothing but the trace. -/
inductive Built (s : System) (e : Source) (nodes : Std.TreeMap String Node) :
    EStateM.Result SourceError Workshop Node → Prop where
  | ok {node : Node} {system : System} : s.SameButTrace system → e.Carries s node →
      Built s e nodes (.ok node ⟨system, nodes⟩)
  | error {l : Location} {system : System} : s.SameButTrace system → e.DividesByZero s l →
      Built s e nodes (.error (.build ⟨.constantDivisionByZero, l⟩) ⟨system, nodes⟩)

variable {s system : System} {e part : Source} {nodes : Std.TreeMap String Node} {node : Node}

theorem Built.carries {w : Workshop} (h : Built s e nodes (.ok node w)) :
    s.SameButTrace w.system ∧ e.Carries s node := by
  cases h with
  | ok hsame hcarries => exact ⟨hsame, hcarries⟩

theorem Built.dividesByZero {err : SourceError} {w : Workshop} (h : Built s e nodes (.error err w)) :
    ∃ l, e.DividesByZero s l ∧ err = .build ⟨.constantDivisionByZero, l⟩ := by
  cases h with
  | error _ hl => exact ⟨_, hl, rfl⟩

/-- A node that is made last. -/
theorem built_create (hsame : s.SameButTrace system) (h : e.Carries s node) :
    Built s e nodes (Assembly.lift (Build.create node) ⟨system, nodes⟩) :=
  .ok (hsame.trans ⟨_, rfl⟩) h

/-- A part of the expression is attached to what is made of the whole. -/
theorem built_attach {f : Node → Build Node} (h : part.Carries s node)
    (hfold : s.env.foldConstants = true) (hsame : s.SameButTrace system)
    (hzero : ∀ l, part.DividesByZero s l → e.DividesByZero s l)
    (hf : ∀ w system', part.strict? s = some w → s.SameButTrace system' →
      Built s e nodes (Assembly.lift (f (.literal node.location w)) ⟨system', nodes⟩)) :
    Built s e nodes (Assembly.lift (Build.attach node >>= f) ⟨system, nodes⟩) := by
  unfold Assembly.lift
  have htakes := Build.takes_attach h (hsame.serves hfold node)
  rcases htakes with ⟨hw, s₂, hsame₂, hx⟩ | ⟨hl, s₂, hsame₂, hx⟩
  · rw [EStateM.bind_of_ok hx]
    exact hf _ s₂ hw (hsame.trans hsame₂)
  · rw [EStateM.bind_of_error hx]
    exact .error (hsame.trans hsame₂) (hzero _ hl)

/-- A part of the expression is built before the whole. -/
theorem built_bind {x : Assembly Node} {f : Node → Assembly Node} {w : Workshop}
    (h : Built s part nodes (x w)) (hzero : ∀ l, part.DividesByZero s l → e.DividesByZero s l)
    (hf : ∀ node system, s.SameButTrace system → part.Carries s node →
      Built s e nodes (f node ⟨system, nodes⟩)) :
    Built s e nodes ((x >>= f) w) := by
  cases hx : x w with
  | ok node w' =>
    rw [hx] at h
    rw [EStateM.bind_of_ok hx]
    cases h with
    | ok hsame hcarries => exact hf node _ hsame hcarries
  | error err w' =>
    rw [hx] at h
    rw [EStateM.bind_of_error hx]
    cases h with
    | error hsame hl => exact .error hsame (hzero _ hl)

/-- The name of a constant is looked up. -/
theorem built_resolve {f : Variable → Build Node} {name : String} {v : Variable}
    (h : s.env.lookup name = some v) (hsame : s.SameButTrace system) (l : Location)
    (hf : Built s e nodes (Assembly.lift (f v) ⟨system, nodes⟩)) :
    Built s e nodes (Assembly.lift (Build.resolve l name >>= f) ⟨system, nodes⟩) := by
  obtain ⟨trace, rfl⟩ := hsame
  have hresolve : Build.resolve l name { s with machine := s.machine.withTrace trace } =
      .ok v { s with machine := s.machine.withTrace trace } := by
    rw [Build.resolve, Build.orFail_of_some]
    rw [h]
    rfl
  unfold Assembly.lift at hf ⊢
  rw [EStateM.bind_of_ok hresolve]
  exact hf

theorem built_literalOf {w : Word} (hw : e.strict? s = some w) (hsame : s.SameButTrace system)
    (l : Location) : Built s e nodes (Assembly.lift (Build.literalOf l (.ok w)) ⟨system, nodes⟩) :=
  built_create hsame ⟨.literal l w, .value hw rfl⟩

/-- **Building a constant expression.**  It ends with a node that carries the expression, or at a
division by zero in it. -/
theorem Constant.built (he : e.Constant s.env) (hfold : s.env.foldConstants = true)
    (hsame : s.SameButTrace system) : Built s e nodes (e.build ⟨system, nodes⟩) := by
  induction he generalizing system with
  | literal l w => exact built_literalOf rfl hsame l
  | integer l htext =>
    rw [Source.build, Build.integer, htext]
    exact built_literalOf (by rw [strict?, htext]; rfl) hsame l
  | float l htext =>
    rw [Source.build, Build.float, htext]
    exact built_literalOf (by rw [strict?, htext]; rfl) hsame l
  | var l hlookup hconst =>
    refine built_resolve hlookup hsame l (built_create hsame ⟨.var l hconst, .value ?_ rfl⟩)
    rw [strict?, hlookup]
    rfl
  | indexed l hlookup hconst _ ih =>
    refine built_bind (ih hsame) (fun _ => .offset) fun node system hsame hcarries =>
      built_resolve hlookup hsame l (built_attach hcarries hfold hsame (fun _ => .offset)
        fun w system hw hsame => built_create hsame ⟨.indexed l _ w hconst, .value ?_ rfl⟩)
    simp [strict?, hlookup, hw]
  | unary l op _ ih =>
    refine built_bind (ih hsame) (fun _ => .unary) fun node system hsame hcarries =>
      built_attach hcarries hfold hsame (fun _ => .unary) fun w system hw hsame =>
        built_create hsame ⟨.unary l op _ w, .value ?_ rfl⟩
    simp [strict?, hw]
  | narrow l width _ ih =>
    refine built_bind (ih hsame) (fun _ => .narrow) fun node system hsame hcarries =>
      built_attach hcarries hfold hsame (fun _ => .narrow) fun w system hw hsame =>
        built_create hsame ⟨.narrow l width _ w, .value ?_ rfl⟩
    simp [strict?, hw]
  | @binary l op left right _ _ ihleft ihright =>
    refine built_bind (ihleft hsame) (fun _ => .left) fun a system hsame hleft =>
      built_bind (ihright hsame) (fun _ => .right) fun b system hsame hright =>
        built_attach hleft hfold hsame (fun _ => .left) fun x system hx hsame =>
          built_attach hright hfold hsame (fun _ => .right) fun y system hy hsame =>
            built_create hsame ⟨.binary l op _ _ x y, ?_⟩
    cases hvalue : op.value? x y with
    | some w =>
      refine .value (w := w) (by simp [strict?, hx, hy, hvalue]) ?_
      rw [Node.constantValue_binary_literal, hvalue]
    | none =>
      obtain ⟨hop, rfl⟩ := (op.value?_eq_none_iff x y).mp hvalue
      refine .zero (.here hop hx hy) ⟨_, op.isZeroDivision_zeroDivisor l, ?_⟩
      rw [Node.constantValue_binary_literal, hvalue]

end Source

end PeekPoke
