import PeekPoke.Script.Node
set_option autoImplicit false

/-!
# Nodes of one shape

Two nodes have one shape (`Node.Alike R`) when they are the same construct with the same fields and
their children are related by `R`.  This is what two trees have to share so that the rules of
execution treat them in the same way.
-/

/-! ## Options -/

namespace Option.Rel

variable {α β : Type} {R R' : α → β → Prop} {a : Option α} {b : Option β}

theorem imp (h : ∀ a b, R a b → R' a b) (hr : Option.Rel R a b) : Option.Rel R' a b := by
  cases hr with
  | none => exact .none
  | some hab => exact .some (h _ _ hab)

theorem swap (hr : Option.Rel R a b) : Option.Rel (fun b a => R a b) b a := by
  cases hr with
  | none => exact .none
  | some hab => exact .some hab

/-- Related options are both empty or have related members. -/
theorem inv (hr : Option.Rel R a b) :
    (a = Option.none ∧ b = Option.none) ∨
      ∃ x y, a = Option.some x ∧ b = Option.some y ∧ R x y := by
  cases hr with
  | none => exact Or.inl ⟨rfl, rfl⟩
  | some hab => exact Or.inr ⟨_, _, rfl, rfl, hab⟩

theorem map {γ δ : Type} {S : γ → δ → Prop} {f : α → γ} {g : β → δ}
    (h : ∀ x y, R x y → S (f x) (g y)) (hr : Option.Rel R a b) :
    Option.Rel S (a.map f) (b.map g) := by
  cases hr with
  | none => exact .none
  | some hab => exact .some (h _ _ hab)

theorem refl_of_mem {R : α → α → Prop} {a : Option α} (h : ∀ x ∈ a.toList, R x x) :
    Option.Rel R a a := by
  cases a with
  | none => exact .none
  | some a => exact .some (h a (List.mem_singleton_self a))

theorem of_refl {R : α → α → Prop} (h : ∀ a, R a a) (a : Option α) : Option.Rel R a a :=
  refl_of_mem fun x _ => h x

end Option.Rel

namespace PeekPoke

/-! ## Lists -/

/-- Lists of one length whose members are related pairwise. -/
inductive Matching {α β : Type} (R : α → β → Prop) : List α → List β → Prop where
  | nil : Matching R [] []
  | cons {a : α} {b : β} {as : List α} {bs : List β} :
      R a b → Matching R as bs → Matching R (a :: as) (b :: bs)

namespace Matching

variable {α β : Type} {R R' : α → β → Prop} {as : List α} {bs : List β}

theorem imp (h : ∀ a b, R a b → R' a b) (hm : Matching R as bs) : Matching R' as bs := by
  induction hm with
  | nil => exact .nil
  | cons hab _ ih => exact .cons (h _ _ hab) ih

theorem swap (hm : Matching R as bs) : Matching (fun b a => R a b) bs as := by
  induction hm with
  | nil => exact .nil
  | cons hab _ ih => exact .cons hab ih

theorem refl_of_mem {R : α → α → Prop} {as : List α} (h : ∀ a ∈ as, R a a) : Matching R as as := by
  induction as with
  | nil => exact .nil
  | cons a _ ih =>
    exact .cons (h a List.mem_cons_self) (ih fun b hb => h b (List.mem_cons_of_mem a hb))

theorem length_eq (hm : Matching R as bs) : as.length = bs.length := by
  induction hm with
  | nil => rfl
  | cons _ _ ih => rw [List.length_cons, List.length_cons, ih]

end Matching

/-- The expression of a part of a print statement. -/
def PrintPart.expr? {α : Type} : PrintPart α → Option α
  | value expr _ _ => some expr
  | text _ => none

/-- Parts of print statements that differ in their expressions only. -/
inductive PrintPart.Alike {α β : Type} (R : α → β → Prop) : PrintPart α → PrintPart β → Prop where
  | value {a : α} {b : β} (style : Style) (width : Width) :
      R a b → Alike R (.value a style width) (.value b style width)
  | text (text : String) : Alike R (.text text) (.text text)

namespace PrintPart.Alike

variable {α β : Type} {R R' : α → β → Prop} {p : PrintPart α} {q : PrintPart β}

theorem imp (h : ∀ a b, R a b → R' a b) (hp : Alike R p q) : Alike R' p q := by
  cases hp with
  | value style width hab => exact .value style width (h _ _ hab)
  | text text => exact .text text

theorem swap (hp : Alike R p q) : Alike (fun b a => R a b) q p := by
  cases hp with
  | value style width hab => exact .value style width hab
  | text text => exact .text text

theorem refl_of_expr? {R : α → α → Prop} {p : PrintPart α} (h : ∀ a, p.expr? = some a → R a a) :
    Alike R p p := by
  cases p with
  | value expr style width => exact .value style width (h expr rfl)
  | text text => exact .text text

end PrintPart.Alike

/-! ## Nodes -/

namespace Node

/-- Nodes that are the same construct with the same fields, and whose children are related. -/
inductive Alike (R : Node → Node → Prop) : Node → Node → Prop where
  | literal (l : Location) (w : Word) : Alike R (.literal l w) (.literal l w)
  | directive (l : Location) : Alike R (.directive l) (.directive l)
  | block (l : Location) {statements statements' : List Node} :
      Matching R statements statements' → Alike R (.block l statements) (.block l statements')
  | jump (l : Location) (j : Jump) : Alike R (.jump l j) (.jump l j)
  | assign (l : Location) (target : Variable) {value value' : Node} :
      R value value' → Alike R (.assign l target value) (.assign l target value')
  | static (l : Location) (cell : Nat) (target : Variable) {value value' : Node} :
      R value value' → Alike R (.static l cell target value) (.static l cell target value')
  | var (l : Location) (source : Variable) : Alike R (.var l source) (.var l source)
  | indexed (l : Location) (source : Variable) {offset offset' : Node} :
      R offset offset' → Alike R (.indexed l source offset) (.indexed l source offset')
  | unary (l : Location) (op : UnaryOp) {operand operand' : Node} :
      R operand operand' → Alike R (.unary l op operand) (.unary l op operand')
  | binary (l : Location) (op : BinaryOp) {left left' right right' : Node} :
      R left left' → R right right' →
      Alike R (.binary l op left right) (.binary l op left' right')
  | narrow (l : Location) (width : Width) {operand operand' : Node} :
      R operand operand' → Alike R (.narrow l width operand) (.narrow l width operand')
  | cond (l : Location) {condition condition' thenBranch thenBranch' : Node}
      {elseBranch elseBranch' : Option Node} :
      R condition condition' → R thenBranch thenBranch' → Option.Rel R elseBranch elseBranch' →
      Alike R (.cond l condition thenBranch elseBranch) (.cond l condition' thenBranch' elseBranch')
  | whileLoop (l : Location) {condition condition' body body' : Node} :
      R condition condition' → R body body' →
      Alike R (.whileLoop l condition body) (.whileLoop l condition' body')
  /-- The start of the loop is an assignment, which is executed as such. -/
  | forLoop (l startLocation : Location) (counter : Variable)
      {start start' target target' body body' : Node} {step step' : Option Node} :
      R (.assign startLocation counter start) (.assign startLocation counter start') →
      R target target' → Option.Rel R step step' → R body body' →
      Alike R (.forLoop l startLocation counter start target step body)
        (.forLoop l startLocation counter start' target' step' body')
  | peek (l : Location) (width : Width) {address address' : Node} :
      R address address' → Alike R (.peek l address width) (.peek l address' width)
  | poke (l : Location) (width : Width) {address address' value value' : Node}
      {mask mask' : Option Node} :
      R address address' → R value value' → Option.Rel R mask mask' →
      Alike R (.poke l address value mask width) (.poke l address' value' mask' width)
  | print (l : Location) (trailing : String) {parts parts' : List (PrintPart Node)} :
      Matching (PrintPart.Alike R) parts parts' →
      Alike R (.print l parts trailing) (.print l parts' trailing)
  | sleep (l : Location) {micros micros' : Node} :
      R micros micros' → Alike R (.sleep l micros) (.sleep l micros')
  | call (l : Location) (name : String) (subroutine : Nat) {arguments arguments' : List Node} :
      Matching R arguments arguments' →
      Alike R (.call l name subroutine arguments) (.call l name subroutine arguments')
  | imported (l : Location) {root root' : Option Node} :
      Option.Rel R root root' → Alike R (.imported l root) (.imported l root')

/-- The nodes that executing a node can execute itself.  The start of a counting loop is executed as
the assignment it is. -/
def children : Node → List Node
  | .literal .. => []
  | .directive .. => []
  | .block _ statements => statements
  | .jump .. => []
  | .assign _ _ value => [value]
  | .static _ _ _ value => [value]
  | .var .. => []
  | .indexed _ _ offset => [offset]
  | .unary _ _ operand => [operand]
  | .binary _ _ left right => [left, right]
  | .narrow _ _ operand => [operand]
  | .cond _ condition thenBranch elseBranch => condition :: thenBranch :: elseBranch.toList
  | .whileLoop _ condition body => [condition, body]
  | .forLoop _ startLocation counter start target step body =>
    .assign startLocation counter start :: target :: body :: step.toList
  | .peek _ address _ => [address]
  | .poke _ address value mask _ => address :: value :: mask.toList
  | .print _ parts _ => parts.filterMap PrintPart.expr?
  | .sleep _ micros => [micros]
  | .call _ _ _ arguments => arguments
  | .imported _ root => root.toList

/-- The variable the construct itself gives values. -/
def target? : Node → Option Variable
  | .assign _ v _ => some v
  | .static _ _ v _ => some v
  | .forLoop _ _ v _ _ _ _ => some v
  | _ => none

/-- The variable the construct itself reads as an expression. -/
def source? : Node → Option Variable
  | .var _ v => some v
  | .indexed _ v _ => some v
  | _ => none

namespace Alike

variable {R R' : Node → Node → Prop} {node node' : Node}

theorem imp (h : ∀ a b, R a b → R' a b) (ha : Alike R node node') : Alike R' node node' := by
  cases ha with
  | literal l w => exact .literal l w
  | directive l => exact .directive l
  | block l hs => exact .block l (hs.imp h)
  | jump l j => exact .jump l j
  | assign l v hv => exact .assign l v (h _ _ hv)
  | static l cell v hv => exact .static l cell v (h _ _ hv)
  | var l v => exact .var l v
  | indexed l v ho => exact .indexed l v (h _ _ ho)
  | unary l op ho => exact .unary l op (h _ _ ho)
  | binary l op hl hr => exact .binary l op (h _ _ hl) (h _ _ hr)
  | narrow l width ho => exact .narrow l width (h _ _ ho)
  | cond l hc ht he => exact .cond l (h _ _ hc) (h _ _ ht) (he.imp h)
  | whileLoop l hc hb => exact .whileLoop l (h _ _ hc) (h _ _ hb)
  | forLoop l sl v hi ht hs hb =>
    exact .forLoop l sl v (h _ _ hi) (h _ _ ht) (hs.imp h) (h _ _ hb)
  | peek l width ha => exact .peek l width (h _ _ ha)
  | poke l width ha hv hm => exact .poke l width (h _ _ ha) (h _ _ hv) (hm.imp h)
  | print l trailing hp => exact .print l trailing (hp.imp fun _ _ => PrintPart.Alike.imp h)
  | sleep l hm => exact .sleep l (h _ _ hm)
  | call l name id ha => exact .call l name id (ha.imp h)
  | imported l hr => exact .imported l (hr.imp h)

theorem swap (ha : Alike R node node') : Alike (fun b a => R a b) node' node := by
  cases ha with
  | literal l w => exact .literal l w
  | directive l => exact .directive l
  | block l hs => exact .block l hs.swap
  | jump l j => exact .jump l j
  | assign l v hv => exact .assign l v hv
  | static l cell v hv => exact .static l cell v hv
  | var l v => exact .var l v
  | indexed l v ho => exact .indexed l v ho
  | unary l op ho => exact .unary l op ho
  | binary l op hl hr => exact .binary l op hl hr
  | narrow l width ho => exact .narrow l width ho
  | cond l hc ht he => exact .cond l hc ht he.swap
  | whileLoop l hc hb => exact .whileLoop l hc hb
  | forLoop l sl v hi ht hs hb => exact .forLoop l sl v hi ht hs.swap hb
  | peek l width ha => exact .peek l width ha
  | poke l width ha hv hm => exact .poke l width ha hv hm.swap
  | print l trailing hp => exact .print l trailing (hp.swap.imp fun _ _ => PrintPart.Alike.swap)
  | sleep l hm => exact .sleep l hm
  | call l name id ha => exact .call l name id ha.swap
  | imported l hr => exact .imported l hr.swap

/-- Every node has the shape of itself, if its children are related to themselves. -/
theorem refl_of_children {node : Node} (h : ∀ child ∈ node.children, R child child) :
    Alike R node node := by
  cases node with
  | literal l w => exact .literal l w
  | directive l => exact .directive l
  | block l statements => exact .block l (.refl_of_mem h)
  | jump l j => exact .jump l j
  | assign l v value => exact .assign l v (h value (by simp [children]))
  | static l cell v value => exact .static l cell v (h value (by simp [children]))
  | var l v => exact .var l v
  | indexed l v offset => exact .indexed l v (h offset (by simp [children]))
  | unary l op operand => exact .unary l op (h operand (by simp [children]))
  | binary l op left right =>
    exact .binary l op (h left (by simp [children])) (h right (by simp [children]))
  | narrow l width operand => exact .narrow l width (h operand (by simp [children]))
  | cond l condition thenBranch elseBranch =>
    refine .cond l (h _ (by simp [children])) (h _ (by simp [children])) (.refl_of_mem fun x hx => ?_)
    exact h x (by simp_all [children])
  | whileLoop l condition body =>
    exact .whileLoop l (h _ (by simp [children])) (h _ (by simp [children]))
  | forLoop l sl v start target step body =>
    refine .forLoop l sl v (h _ (by simp [children])) (h _ (by simp [children]))
      (.refl_of_mem fun x hx => ?_) (h _ (by simp [children]))
    exact h x (by simp_all [children])
  | peek l address width => exact .peek l width (h _ (by simp [children]))
  | poke l address value mask width =>
    refine .poke l width (h _ (by simp [children])) (h _ (by simp [children]))
      (.refl_of_mem fun x hx => ?_)
    exact h x (by simp_all [children])
  | print l parts trailing =>
    refine .print l trailing (.refl_of_mem fun part hpart => .refl_of_expr? fun a ha => ?_)
    exact h a (List.mem_filterMap.mpr ⟨part, hpart, ha⟩)
  | sleep l micros => exact .sleep l (h _ (by simp [children]))
  | call l name id arguments => exact .call l name id (.refl_of_mem h)
  | imported l root => exact .imported l (.refl_of_mem h)

theorem refl (h : ∀ a, R a a) (node : Node) : Alike R node node :=
  refl_of_children fun child _ => h child

theorem location_eq (ha : Alike R node node') : node'.location = node.location := by
  cases ha <;> rfl

theorem kind_eq (ha : Alike R node node') : node'.kind = node.kind := by
  cases ha <;> rfl

theorem target?_eq (ha : Alike R node node') : node'.target? = node.target? := by
  cases ha <;> rfl

end Alike

end Node

end PeekPoke
