import PeekPoke.Script.Constant
set_option autoImplicit false

/-!
# Folded nodes

A node and its folded form are the same tree, except that the folded form may have a literal where
the plain one has a constant part (`Folds`).  That the literal is right depends on the values of
constants, so the relation is stated under a `Fixture`: which variables are fixed, and which ones a
script may write.  Folding keeps a node constant or not (`Folds.isConstant_eq`) and keeps the value
of a constant node in all stores that agree with the fixture (`Folds.constantValue_eq`).
-/

namespace PeekPoke

/-! ## Fixtures -/

/-- What stays fixed while scripts run: variables with their values, the variables that may be
written, which never share a slot with a fixed one, and a bound on the height of what was folded. -/
structure Fixture where
  fixed : Variable → Word → Prop
  writable : Variable → Prop
  bound : Nat
  global : ∀ {v : Variable} {w : Word}, fixed v w → v.scope = .global
  apart : ∀ {v v' : Variable} {w : Word}, fixed v w → writable v' → v'.scope = .global →
    v.slot ≠ v'.slot

namespace Fixture

/-- The stores give every fixed variable its value. -/
def Holds (c : Fixture) (s : Stores) : Prop := ∀ v w, c.fixed v w → s.get v = w

/-- The second fixture fixes more, allows more and has a larger bound. -/
structure Within (c c' : Fixture) : Prop where
  fixed : ∀ v w, c.fixed v w → c'.fixed v w
  writable : ∀ v, c.writable v → c'.writable v
  bound : c.bound ≤ c'.bound

theorem Within.refl (c : Fixture) : c.Within c := ⟨fun _ _ h => h, fun _ h => h, Nat.le_refl _⟩

theorem Within.trans {a b c : Fixture} (hab : a.Within b) (hbc : b.Within c) : a.Within c where
  fixed v w h := hbc.fixed v w (hab.fixed v w h)
  writable v h := hbc.writable v (hab.writable v h)
  bound := Nat.le_trans hab.bound hbc.bound

theorem Within.holds {c c' : Fixture} (h : c.Within c') {s : Stores} (hs : c'.Holds s) :
    c.Holds s := fun v w hv => hs v w (h.fixed v w hv)

variable {c : Fixture} {s : Stores}

/-- Fixed variables are global, so only the global frame matters. -/
theorem Holds.of_global_eq (h : c.Holds s) {s' : Stores}
    (heq : s'.global = s.global) : c.Holds s' := by
  intro v w hv
  have hvalue := h v w hv
  unfold Stores.get at hvalue ⊢
  rw [c.global hv] at hvalue ⊢
  dsimp only at hvalue ⊢
  rw [heq]
  exact hvalue

/-- Writing a variable that may be written changes no fixed one. -/
theorem Holds.set (h : c.Holds s) {v : Variable} (hv : c.writable v) (x : Word) :
    c.Holds (s.set v x) := by
  intro v' w hfixed
  rw [s.get_set_of_ne (c.global hfixed) (c.apart hfixed hv) x]
  exact h v' w hfixed

end Fixture

/-! ## The relation -/

/-- One level of folding: the same construct with related children, or a literal for a constant.
The first node is the plain one. -/
inductive FoldStep (c : Fixture) (R : Node → Node → Prop) : Node → Node → Prop where
  | alike {u f : Node} :
      Node.Alike R u f → (∀ v, u.target? = some v → c.writable v) →
      (∀ v, u.source? = some v → v.isConstant = true → ∃ w, c.fixed v w) → FoldStep c R u f
  | literal {u : Node} {w : Word} :
      u.isConstant = true → u.height ≤ c.bound →
      (∀ s, c.Holds s → u.constantValue s.get = .ok w) →
      FoldStep c R u (.literal u.location w)

/-- The second node is the first one with some of its constant parts replaced by literals.  This is
the largest relation that is closed under `FoldStep`, since nodes are given level by level and a
fixture may grow afterwards. -/
def Folds (c : Fixture) (u f : Node) : Prop :=
  ∃ R : Node → Node → Prop, (∀ a b, R a b → FoldStep c R a b) ∧ R u f

namespace FoldStep

variable {c c' : Fixture} {R R' : Node → Node → Prop} {u f : Node}

theorem imp (hR : ∀ a b, R a b → R' a b) (h : FoldStep c R u f) : FoldStep c R' u f := by
  cases h with
  | alike ha ht hs => exact .alike (ha.imp hR) ht hs
  | literal hu hb hv => exact .literal hu hb hv

theorem mono (hc : c.Within c') (h : FoldStep c R u f) : FoldStep c' R u f := by
  cases h with
  | alike ha ht hs =>
    refine .alike ha (fun v hv => hc.writable v (ht v hv)) fun v hv hconst => ?_
    obtain ⟨w, hw⟩ := hs v hv hconst
    exact ⟨w, hc.fixed v w hw⟩
  | literal hu hb hv =>
    exact .literal hu (Nat.le_trans hb hc.bound) fun s hs => hv s (hc.holds hs)

end FoldStep

namespace Folds

variable {c c' : Fixture} {u f : Node}

theorem step (h : Folds c u f) : FoldStep c (Folds c) u f := by
  obtain ⟨R, hclosed, huf⟩ := h
  exact (hclosed u f huf).imp fun a b hab => ⟨R, hclosed, hab⟩

theorem of_step (h : FoldStep c (Folds c) u f) : Folds c u f :=
  ⟨FoldStep c (Folds c), fun _ _ hab => hab.imp fun _ _ => step, h⟩

theorem mono (hc : c.Within c') (h : Folds c u f) : Folds c' u f := by
  obtain ⟨R, hclosed, huf⟩ := h
  exact ⟨R, fun a b hab => (hclosed a b hab).mono hc, huf⟩

theorem location_eq (h : Folds c u f) : f.location = u.location := by
  cases h.step with
  | alike ha _ _ => exact ha.location_eq
  | literal _ _ _ => rfl

/-- A literal stands for a constant node only, so it is enough to compare nodes of one shape. -/
theorem isConstant_eq_of_alike (h : Folds c u f)
    (halike : Node.Alike (Folds c) u f → f.isConstant = u.isConstant) :
    f.isConstant = u.isConstant := by
  cases h.step with
  | alike ha _ _ => exact halike ha
  | literal hu _ _ =>
    rw [hu]
    rfl

/-- Folding makes no node constant that was not, and keeps every constant one constant. -/
theorem isConstant_eq (h : Folds c u f) : f.isConstant = u.isConstant := by
  -- The induction follows the constructors a constant node can be made of.
  induction u using Node.isConstant.induct generalizing f with
  | case1 l w =>
    refine h.isConstant_eq_of_alike fun ha => ?_
    cases ha
    rfl
  | case2 l v =>
    refine h.isConstant_eq_of_alike fun ha => ?_
    cases ha
    rfl
  | case3 l v offset ih =>
    refine h.isConstant_eq_of_alike fun ha => ?_
    cases ha with
    | indexed _ _ ho => rw [Node.isConstant, Node.isConstant, ih ho]
  | case4 l op operand ih =>
    refine h.isConstant_eq_of_alike fun ha => ?_
    cases ha with
    | unary _ _ ho => rw [Node.isConstant, Node.isConstant, ih ho]
  | case5 l op left right ihl ihr =>
    refine h.isConstant_eq_of_alike fun ha => ?_
    cases ha with
    | binary _ _ hl hr => rw [Node.isConstant, Node.isConstant, ihl hl, ihr hr]
  | case6 l width operand ih =>
    refine h.isConstant_eq_of_alike fun ha => ?_
    cases ha with
    | narrow _ _ ho => rw [Node.isConstant, Node.isConstant, ih ho]
  | case7 u hliteral hvar hindexed hunary hbinary hnarrow =>
    refine h.isConstant_eq_of_alike fun ha => ?_
    cases ha with
    | literal l w => exact (hliteral l w rfl).elim
    | var l v => exact (hvar l v rfl).elim
    | indexed l v _ => exact (hindexed l v _ rfl).elim
    | unary l op _ => exact (hunary l op _ rfl).elim
    | binary l op _ _ => exact (hbinary l op _ _ rfl).elim
    | narrow l width _ => exact (hnarrow l width _ rfl).elim
    | _ => rfl

/-- A literal has the value of what it stands for, so it is enough to compare nodes of one shape,
whose own variable is fixed if it is a constant. -/
theorem constantValue_eq_of_alike (h : Folds c u f) {s s' : Stores} (hs : c.Holds s)
    (hs' : c.Holds s')
    (halike : Node.Alike (Folds c) u f →
      (∀ v, u.source? = some v → v.isConstant = true → s'.get v = s.get v) →
      f.constantValue s'.get = u.constantValue s.get) :
    f.constantValue s'.get = u.constantValue s.get := by
  cases h.step with
  | alike ha _ hsource =>
    refine halike ha fun v hv hconst => ?_
    obtain ⟨w, hw⟩ := hsource v hv hconst
    rw [hs v w hw, hs' v w hw]
  | literal _ _ hvalue =>
    rw [hvalue s hs]
    rfl

/-- A constant node and its folded form have one value, in all stores that agree with the
fixture. -/
theorem constantValue_eq (h : Folds c u f) (hu : u.isConstant = true) {s s' : Stores}
    (hs : c.Holds s) (hs' : c.Holds s') : f.constantValue s'.get = u.constantValue s.get := by
  induction u using Node.isConstant.induct generalizing f with
  | case1 l w =>
    refine h.constantValue_eq_of_alike hs hs' fun ha _ => ?_
    cases ha
    rfl
  | case2 l v =>
    refine h.constantValue_eq_of_alike hs hs' fun ha hsource => ?_
    cases ha
    rw [Node.constantValue, Node.constantValue, hsource v rfl hu]
  | case3 l v offset ih =>
    refine h.constantValue_eq_of_alike hs hs' fun ha hsource => ?_
    rw [Node.isConstant, Bool.and_eq_true] at hu
    cases ha with
    | indexed _ _ ho => rw [Node.constantValue, Node.constantValue, ih ho hu.2, hsource v rfl hu.1]
  | case4 l op operand ih =>
    refine h.constantValue_eq_of_alike hs hs' fun ha _ => ?_
    cases ha with
    | unary _ _ ho => rw [Node.constantValue, Node.constantValue, ih ho hu]
  | case5 l op left right ihl ihr =>
    refine h.constantValue_eq_of_alike hs hs' fun ha _ => ?_
    rw [Node.isConstant, Bool.and_eq_true] at hu
    cases ha with
    | binary _ _ hl hr =>
      rw [Node.constantValue, Node.constantValue, ihl hl hu.1]
      simp only [ihr hr hu.2]
  | case6 l width operand ih =>
    refine h.constantValue_eq_of_alike hs hs' fun ha _ => ?_
    cases ha with
    | narrow _ _ ho => rw [Node.constantValue, Node.constantValue, ih ho hu]
  | case7 u hliteral hvar hindexed hunary hbinary hnarrow =>
    cases u with
    | literal l w => exact (hliteral l w rfl).elim
    | var l v => exact (hvar l v rfl).elim
    | indexed l v offset => exact (hindexed l v offset rfl).elim
    | unary l op operand => exact (hunary l op operand rfl).elim
    | binary l op left right => exact (hbinary l op left right rfl).elim
    | narrow l width operand => exact (hnarrow l width operand rfl).elim
    | _ => cases hu

end Folds

end PeekPoke
