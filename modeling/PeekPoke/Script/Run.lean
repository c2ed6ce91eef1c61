import PeekPoke.Script.Effects
set_option autoImplicit false

/-!
# Computations as functions

The plain meaning of a computation: it takes a machine and either does not finish within the steps
it was given (`none`) or ends with a value or an `Unwind`, and in both cases with the machine it
leaves behind: what was done before an unwinding stays done.
-/

namespace PeekPoke

/-- How a computation ends: not at all, or with a value or an unwinding and a machine. -/
abbrev Ending (α : Type) : Type := Option (Except Unwind α × Machine)

/-- A computation that changes a machine and may unwind. -/
def Run (α : Type) : Type := Machine → Ending α

namespace Run

variable {α β : Type}

/-- Ends with a value and changes nothing. -/
@[inline] protected def pure (a : α) : Run α := fun m => some (.ok a, m)

/-- Goes on with the value of the first computation, unless that one unwinds. -/
@[inline] protected def bind (x : Run α) (f : α → Run β) : Run β := fun m =>
  match x m with
  | none => none
  | some (.ok a, m') => f a m'
  | some (.error u, m') => some (.error u, m')

instance : Monad Run where
  pure := Run.pure
  bind := Run.bind

theorem bind_apply (x : Run α) (f : α → Run β) (m : Machine) :
    (x >>= f) m =
      match x m with
      | none => none
      | some (.ok a, m') => f a m'
      | some (.error u, m') => some (.error u, m') := rfl

theorem bind_of_ok {x : Run α} {m m' : Machine} {a : α} (h : x m = some (.ok a, m'))
    (f : α → Run β) : (x >>= f) m = f a m' := by
  rw [bind_apply, h]

theorem bind_of_error {x : Run α} {m m' : Machine} {u : Unwind} (h : x m = some (.error u, m'))
    (f : α → Run β) : (x >>= f) m = some (.error u, m') := by
  rw [bind_apply, h]

theorem id_map (x : Run α) : id <$> x = x := by
  funext m
  show (x >>= fun a => pure (id a)) m = x m
  rw [bind_apply]
  rcases x m with _ | ⟨_ | _, _⟩ <;> rfl

theorem bind_assoc {γ : Type} (x : Run α) (f : α → Run β) (g : β → Run γ) :
    x >>= f >>= g = x >>= fun a => f a >>= g := by
  funext m
  simp only [bind_apply]
  rcases x m with _ | ⟨_ | _, _⟩ <;> rfl

instance : LawfulMonad Run := LawfulMonad.mk' Run id_map (fun _ _ => rfl) bind_assoc

instance : MonadScript Run where
  unfinished := fun _ => none
  raise u := fun m => some (.error u, m)
  act f := fun m => some (.ok (f m).1, (f m).2)
  ending x settle := fun m => (x m).map fun (r, m') => settle r m'

theorem act_apply (f : Machine → α × Machine) (m : Machine) :
    (MonadScript.act f : Run α) m = some (.ok (f m).1, (f m).2) := rfl

theorem ending_apply (x : Run α)
    (settle : Except Unwind α → Machine → Except Unwind β × Machine) (m : Machine) :
    (MonadScript.ending x settle : Run β) m = (x m).map fun (r, m') => settle r m' := rfl

theorem bracket_apply (enter leave : Machine → Machine) (x : Run α) (m : Machine) :
    (MonadScript.bracket enter leave x : Run α) m =
      (x (enter m)).map fun (r, m') => (r, leave m') := rfl

end Run

end PeekPoke
