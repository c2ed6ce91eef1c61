import PeekPoke.Proofs.Transition
set_option autoImplicit false

/-!
# Balanced frames

Every scope keeps its values in a stack of frames (`Stores.stack`): the global scope in one frame,
a subroutine in one frame for each activation.  Main statement: every execution that finishes, be it
with a value, with a signal or with a failure, leaves every stack as high as it was and every frame
below the top as it was (`exec_frames_balanced`).

The argument is about the two ways in which the rules touch a stack.  Giving a variable a value
changes only the top frame of its scope, and the frame of an activation is taken away after the
activation, whatever happened in between.
-/

namespace PeekPoke

/-! ## The stack of a scope -/

/-- The frames of a scope, outermost first. -/
def Stores.stack (s : Stores) : Scope → Frames
  | .global => #[s.global]
  | .subroutine id => s.frames id

namespace Frames

@[simp] theorem size_set (frames : Frames) (slot : Nat) (w : Word) :
    (frames.set slot w).size = frames.size := by
  simp [Frames.set]

/-- Giving a slot a value changes the innermost frame only. -/
@[simp] theorem pop_set (frames : Frames) (slot : Nat) (w : Word) :
    (frames.set slot w).pop = frames.pop := by
  apply Array.ext
  · simp
  · intro i hi hi'
    have hne : frames.size - 1 ≠ i := by
      simp only [Array.size_pop] at hi'
      omega
    simp [Frames.set, Array.getElem_modify, hne]

end Frames

namespace Stores

theorem stack_set_self (s : Stores) (v : Variable) (w : Word) :
    (s.set v w).stack v.scope = (s.stack v.scope).set v.slot w := by
  cases hv : v.scope with
  | global =>
    have htop : Frames.set #[s.global] v.slot w = #[Frame.set s.global v.slot w] := rfl
    simp [Stores.set, stack, hv, htop]
  | subroutine id => simp [Stores.set, stack, hv]

theorem stack_set_of_ne (s : Stores) (v : Variable) (w : Word) {scope : Scope}
    (h : scope ≠ v.scope) : (s.set v w).stack scope = s.stack scope := by
  cases hv : v.scope with
  | global =>
    cases scope with
    | global => exact absurd hv.symm h
    | subroutine id => simp [Stores.set, stack, hv, frames]
  | subroutine id =>
    cases scope with
    | global => simp [Stores.set, stack, hv]
    | subroutine other =>
      have hne : other ≠ id := by
        rintro rfl
        exact h hv.symm
      simp [Stores.set, stack, hv, frames_modifyFrames_of_ne _ hne]

theorem stack_modifyFrames_self (s : Stores) (id : Nat) (f : Frames → Frames) :
    (s.modifyFrames id f).stack (.subroutine id) = f (s.stack (.subroutine id)) :=
  frames_modifyFrames_self s id f

theorem stack_modifyFrames_of_ne (s : Stores) {id : Nat} (f : Frames → Frames) {scope : Scope}
    (h : scope ≠ .subroutine id) : (s.modifyFrames id f).stack scope = s.stack scope := by
  cases scope with
  | global => rfl
  | subroutine other =>
    have hne : other ≠ id := fun hid => h (by rw [hid])
    exact frames_modifyFrames_of_ne s hne f

/-! ## Balance -/

/-- Every stack is as high as it was, and below the top it is as it was. -/
structure Balanced (before after : Stores) : Prop where
  size : ∀ scope, (after.stack scope).size = (before.stack scope).size
  pop : ∀ scope, (after.stack scope).pop = (before.stack scope).pop

namespace Balanced

variable {a b c : Stores}

theorem refl (s : Stores) : Balanced s s := ⟨fun _ => rfl, fun _ => rfl⟩

theorem trans (hab : Balanced a b) (hbc : Balanced b c) : Balanced a c :=
  ⟨fun scope => (hbc.size scope).trans (hab.size scope),
    fun scope => (hbc.pop scope).trans (hab.pop scope)⟩

/-- Giving a variable a value is balanced. -/
theorem set (s : Stores) (v : Variable) (w : Word) : Balanced s (s.set v w) := by
  constructor
  · intro scope
    by_cases h : scope = v.scope
    · rw [h, stack_set_self, Frames.size_set]
    · rw [stack_set_of_ne s v w h]
  · intro scope
    by_cases h : scope = v.scope
    · rw [h, stack_set_self, Frames.pop_set]
    · rw [stack_set_of_ne s v w h]

/-- What is balanced inside an activation gives back, once the activation is over, the very frames
there were before it. -/
theorem stack_pop_of_push {s s' : Stores} {id : Nat} (h : Balanced (s.push id) s') :
    (s'.pop id).stack (.subroutine id) = s.stack (.subroutine id) := by
  calc (s'.pop id).stack (.subroutine id)
      = (s'.stack (.subroutine id)).pop := stack_modifyFrames_self s' id Array.pop
    _ = ((s.push id).stack (.subroutine id)).pop := h.pop (.subroutine id)
    _ = ((s.stack (.subroutine id)).push #[]).pop := by
        rw [Stores.push, stack_modifyFrames_self]
    _ = s.stack (.subroutine id) := Array.pop_push

/-- An activation whose inside is balanced is balanced. -/
theorem activation {s s' : Stores} {id : Nat} (h : Balanced (s.push id) s') :
    Balanced s (s'.pop id) := by
  have hother : ∀ scope, scope ≠ .subroutine id →
      (s'.pop id).stack scope = s'.stack scope ∧ (s.push id).stack scope = s.stack scope :=
    fun scope hne => ⟨stack_modifyFrames_of_ne s' _ hne, stack_modifyFrames_of_ne s _ hne⟩
  constructor
  · intro scope
    by_cases hid : scope = .subroutine id
    · rw [hid, h.stack_pop_of_push]
    · obtain ⟨hpop, hpush⟩ := hother scope hid
      rw [hpop, h.size scope, hpush]
  · intro scope
    by_cases hid : scope = .subroutine id
    · rw [hid, h.stack_pop_of_push]
    · obtain ⟨hpop, hpush⟩ := hother scope hid
      rw [hpop, h.pop scope, hpush]

/-- The frames below the top of a stack, one by one. -/
theorem getElem?_eq (h : Balanced a b) (scope : Scope) {i : Nat}
    (hi : i + 1 < (a.stack scope).size) : (b.stack scope)[i]? = (a.stack scope)[i]? := by
  have hsize := h.size scope
  have hpop : (b.stack scope).pop[i]? = (a.stack scope).pop[i]? := by rw [h.pop scope]
  rw [Array.getElem?_pop, Array.getElem?_pop, if_pos (by omega), if_pos (by omega)] at hpop
  exact hpop

end Balanced

end Stores

/-! ## Execution -/

@[simp] theorem stores_enterFrame (id : Nat) (m : Machine) :
    (enterFrame id m).stores = m.stores.push id := by
  obtain ⟨trace, h⟩ := enterFrame_eq id m
  rw [h]

@[simp] theorem stores_leaveFrame (id : Nat) (m : Machine) :
    (leaveFrame id m).stores = m.stores.pop id := by
  obtain ⟨trace, h⟩ := leaveFrame_eq id m
  rw [h]

/-- No effect but a write touches the values of variables. -/
theorem Effect.stores_apply {α : Type} (e : Effect α) (m : Machine) :
    (e.apply m).2.stores = m.stores ∨ ∃ v w, (e.apply m).2.stores = m.stores.set v w := by
  cases e with
  | write v w => exact Or.inr ⟨v, w, rfl⟩
  | _ => exact Or.inl rfl

theorem Stores.balanced_transition : Transition fun m m' => m.stores.Balanced m'.stores where
  refl m := .refl m.stores
  trans := .trans
  effect e m := by
    rcases e.stores_apply m with h | ⟨v, w, h⟩
    · rw [h]
      exact .refl m.stores
    · rw [h]
      exact .set m.stores v w
  bracket b m m' h := by
    cases b with
    | call name => exact h
    | frame id =>
      simp only [Bracket.enter, Bracket.leave, stores_enterFrame, stores_leaveFrame] at h ⊢
      exact h.activation

/-- **Balance.**  An execution that finishes, however it ends, leaves every stack of frames as high
as it was and every frame below the top as it was; so no activation stays behind, and the global
scope keeps its one frame. -/
theorem exec_frames_balanced {env : Environment} {fuel : Nat} {node : Node} {m m' : Machine}
    {r : Except Unwind Word} (h : exec env fuel node m = some (r, m')) :
    (∀ scope, (m'.stores.stack scope).size = (m.stores.stack scope).size ∧
      ∀ i, i + 1 < (m.stores.stack scope).size →
        (m'.stores.stack scope)[i]? = (m.stores.stack scope)[i]?) ∧
    (∀ id, m'.stores.depth id = m.stores.depth id) ∧
    (m'.stores.stack .global).size = 1 := by
  have hbalanced : m.stores.Balanced m'.stores := Stores.balanced_transition.exec h
  refine ⟨fun scope => ⟨hbalanced.size scope, fun i hi => hbalanced.getElem?_eq scope hi⟩, ?_, rfl⟩
  intro id
  exact hbalanced.size (.subroutine id)

/-- A subroutine that calls itself as often as its argument says and then divides by zero. -/
def countdown : Subroutine :=
  let l := Location.unknown
  let n : Variable := ⟨"n", .parameter, .subroutine 0, 0⟩
  let again : Node := .call l "down" 0 [.binary l .sub (.var l n) (.literal l 1)]
  let failure : Node := .binary l .div (.literal l 1) (.var l n)
  { name := "down"
    parameters := [n]
    result := none
    slots := 1
    body := some (.block l [.cond l (.var l n) again (some failure)]) }

/-- An environment with that subroutine. -/
def countdownEnv : Environment := { subroutines := #[countdown], registered := [("down", 0)] }

/-- A failure four activations deep, with two activations in progress at the start. -/
theorem countdown_frames_balanced :
    ∃ m', exec countdownEnv 30 (.call .unknown "down" 0 [.literal .unknown 3])
        { stores := { locals := #[#[#[5], #[6, 7]]] } } =
          some (.error (.failure ⟨.divisionByZero, .unknown⟩), m') ∧
      m'.stores.depth 0 = 2 ∧ (m'.stores.stack (.subroutine 0))[0]? = some #[5] := by
  obtain ⟨m', h⟩ : ∃ m', exec countdownEnv 30 (.call .unknown "down" 0 [.literal .unknown 3])
      { stores := { locals := #[#[#[5], #[6, 7]]] } } =
        some (.error (.failure ⟨.divisionByZero, .unknown⟩), m') := ⟨_, rfl⟩
  obtain ⟨hscopes, hdepth, _⟩ := exec_frames_balanced h
  exact ⟨m', h, hdepth 0, (hscopes (.subroutine 0)).2 0 (by decide)⟩

end PeekPoke
