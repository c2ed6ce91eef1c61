import PeekPoke.Word
import PeekPoke.Text.Digits
import PeekPoke.Text.Quoted
set_option autoImplicit false

/-!
# Variables and their values

A variable is a name bound to a slot.  Slots are numbered within a scope: the global one, or the one
of a subroutine.  Values are kept apart from the names, in `Stores`: one frame for the global scope,
and for each subroutine a stack with one frame for each activation, of which only the innermost can
be read or written.  A slot that was never written reads zero, and outside every activation of its
subroutine a variable reads zero and takes no value.
-/

namespace PeekPoke

/-- Where the slot of a variable is. -/
inductive Scope where
  | global
  | subroutine (id : Nat)
  deriving DecidableEq, Repr, Inhabited

/-- What a name is bound as. -/
inductive VariableKind where
  /-- A plain variable. -/
  | plain
  /-- Initialised once, assignable afterwards. -/
  | static
  /-- A constant, fixed when the script is loaded. -/
  | constant
  /-- A parameter of a subroutine. -/
  | parameter
  /-- The variable a subroutine returns. -/
  | result
  deriving DecidableEq, Repr, Inhabited

/-- The kind as it is shown. -/
def VariableKind.text : VariableKind → String
  | plain => "Var"
  | static => "Static"
  | constant => "Def"
  | parameter => "Param"
  | result => "Retval"

/-- A name bound to a slot. -/
structure Variable where
  name : String
  kind : VariableKind
  scope : Scope
  slot : Nat
  deriving DecidableEq, Repr, Inhabited

namespace Variable

/-- Whether the variable is a constant. -/
def isConstant (v : Variable) : Bool := v.kind == .constant

/-- A one-line description: the name, the kind and the slot. -/
def describe (v : Variable) : String :=
  "Variable \x7b name: " ++ Text.quoted v.name ++ ", kind: " ++ v.kind.text ++ ", slot: "
    ++ Text.decimal v.slot ++ " \x7d"

end Variable

/-! ## Rows with a default -/

namespace Row

variable {α : Type}

/-- The row, filled with the default so that it has a position. -/
def reach (d : α) (row : Array α) (n : Nat) : Array α :=
  if n < row.size then row else row ++ Array.replicate (n + 1 - row.size) d

/-- Changes the entry at a position; a row that is too short is filled with the default. -/
@[inline] def modify (d : α) (row : Array α) (n : Nat) (f : α → α) : Array α :=
  (reach d row n).modify n f

theorem lt_size_reach (d : α) (row : Array α) (n : Nat) : n < (reach d row n).size := by
  unfold reach
  split
  · assumption
  · simp only [Array.size_append, Array.size_replicate]
    omega

@[simp] theorem getD_reach (d : α) (row : Array α) (n k : Nat) :
    (reach d row n).getD k d = row.getD k d := by
  unfold reach
  split
  · rfl
  · simp only [Array.getD_eq_getD_getElem?, Array.getElem?_append, Array.getElem?_replicate]
    split
    · rfl
    · rename_i h
      rw [Array.getElem?_eq_none (Nat.le_of_not_lt h)]
      split <;> rfl

@[simp] theorem getD_modify_self (d : α) (row : Array α) (n : Nat) (f : α → α) :
    (modify d row n f).getD n d = f (row.getD n d) := by
  have h := lt_size_reach d row n
  rw [← getD_reach d row n n, modify]
  simp [Array.getD_eq_getD_getElem?, Array.getElem?_modify, Array.getElem?_eq_getElem h]

theorem getD_modify_of_ne (d : α) (row : Array α) {n k : Nat} (h : k ≠ n) (f : α → α) :
    (modify d row n f).getD k d = row.getD k d := by
  rw [← getD_reach d row n k, modify]
  simp [Array.getD_eq_getD_getElem?, Array.getElem?_modify, Ne.symm h]

end Row

/-! ## Frames and stores -/

/-- The values of the slots of one activation. -/
abbrev Frame := Array Word

/-- Gives a slot of a frame a value. -/
def Frame.set (frame : Frame) (slot : Nat) (w : Word) : Frame :=
  Row.modify 0 frame slot fun _ => w

/-- The frames of the activations of a subroutine, outermost first. -/
abbrev Frames := Array Frame

/-- Gives a slot of the innermost frame a value, if there is a frame. -/
def Frames.set (frames : Frames) (slot : Nat) (w : Word) : Frames :=
  frames.modify (frames.size - 1) (Frame.set · slot w)

/-- The value of a slot of the innermost frame; zero if there is none. -/
def Frames.get (frames : Frames) (slot : Nat) : Word :=
  match frames.back? with
  | none => 0
  | some frame => frame.getD slot 0

theorem Frames.get_set_of_ne (frames : Frames) {slot other : Nat} (h : other ≠ slot) (w : Word) :
    Frames.get (Frames.set frames slot w) other = Frames.get frames other := by
  unfold Frames.get Frames.set
  simp only [Array.back?_eq_getElem?, Array.size_modify, Array.getElem?_modify, if_true]
  cases frames[frames.size - 1]? with
  | none => rfl
  | some frame => exact Row.getD_modify_of_ne 0 frame h _

/-- The values of all variables. -/
structure Stores where
  global : Frame := #[]
  /-- The frames of each subroutine. -/
  locals : Array Frames := #[]
  deriving DecidableEq, Repr, Inhabited

namespace Stores

/-- The frames of a subroutine. -/
def frames (s : Stores) (id : Nat) : Frames := s.locals.getD id #[]

/-- Changes the frames of a subroutine. -/
@[inline] def modifyFrames (s : Stores) (id : Nat) (f : Frames → Frames) : Stores :=
  { s with locals := Row.modify #[] s.locals id f }

/-- How many activations of a subroutine are in progress. -/
def depth (s : Stores) (id : Nat) : Nat := (s.frames id).size

/-- Starts an activation: a frame in which every slot reads zero. -/
def push (s : Stores) (id : Nat) : Stores := s.modifyFrames id (·.push #[])

/-- Ends the innermost activation. -/
def pop (s : Stores) (id : Nat) : Stores := s.modifyFrames id Array.pop

/-- The value of a variable. -/
def get (s : Stores) (v : Variable) : Word :=
  match v.scope with
  | .global => s.global.getD v.slot 0
  | .subroutine id => Frames.get (s.frames id) v.slot

/-- Gives a variable a value. -/
def set (s : Stores) (v : Variable) (w : Word) : Stores :=
  match v.scope with
  | .global => { s with global := Frame.set s.global v.slot w }
  | .subroutine id => s.modifyFrames id (Frames.set · v.slot w)

@[simp] theorem frames_modifyFrames_self (s : Stores) (id : Nat) (f : Frames → Frames) :
    (s.modifyFrames id f).frames id = f (s.frames id) :=
  Row.getD_modify_self #[] s.locals id f

theorem frames_modifyFrames_of_ne (s : Stores) {id other : Nat} (h : other ≠ id)
    (f : Frames → Frames) : (s.modifyFrames id f).frames other = s.frames other :=
  Row.getD_modify_of_ne #[] s.locals h f

@[simp] theorem global_modifyFrames (s : Stores) (id : Nat) (f : Frames → Frames) :
    (s.modifyFrames id f).global = s.global := rfl

/-- Giving a variable a value changes no variable in another slot. -/
theorem get_set_of_apart (s : Stores) {v other : Variable}
    (h : other.scope = v.scope → other.slot ≠ v.slot) (w : Word) :
    (s.set v w).get other = s.get other := by
  unfold get set
  cases hv : v.scope with
  | global =>
    cases hother : other.scope with
    | global => exact Row.getD_modify_of_ne 0 s.global (h (hother.trans hv.symm)) _
    | subroutine id => rfl
  | subroutine id =>
    cases hother : other.scope with
    | global => rfl
    | subroutine id' =>
      dsimp only
      by_cases hid : id' = id
      · subst hid
        rw [frames_modifyFrames_self, Frames.get_set_of_ne _ (h (hother.trans hv.symm))]
      · rw [frames_modifyFrames_of_ne s hid]

/-- Giving a variable a value changes no global variable in another slot. -/
theorem get_set_of_ne (s : Stores) {v other : Variable} (hother : other.scope = .global)
    (h : v.scope = .global → other.slot ≠ v.slot) (w : Word) :
    (s.set v w).get other = s.get other :=
  s.get_set_of_apart (fun hscope => h (hscope ▸ hother)) w

/-- A global variable reads what it was given last. -/
theorem get_set_self (s : Stores) {v : Variable} (h : v.scope = .global) (w : Word) :
    (s.set v w).get v = w := by
  unfold get set
  rw [h]
  exact Row.getD_modify_self 0 s.global v.slot _

/-- Ending the activation just started gives back every frame there was. -/
@[simp] theorem frames_pop_push (s : Stores) (id : Nat) :
    ((s.push id).pop id).frames = s.frames := by
  funext other
  by_cases h : other = id
  · subst h; simp [push, pop]
  · simp [push, pop, frames_modifyFrames_of_ne _ h]

end Stores

end PeekPoke
