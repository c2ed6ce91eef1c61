import PeekPoke.Script.Fuel
set_option autoImplicit false

/-!
# Journals

Some statements are about what happens during an execution and not only about how it ends.  A
`Journal` is a computation that also writes down entries, oldest first; what was written stays
written when the computation unwinds or does not finish.  The rules of execution are written for
every `MonadScript`, so they can be carried out with a journal, and the ending is then the same as
without one (`Journal.faithful`).
-/

namespace PeekPoke

/-- A computation that also writes down entries, oldest first. -/
def Journal (ε α : Type) : Type := Machine → List ε × Ending α

namespace Journal

variable {ε α β : Type}

instance : MonadScript (Journal ε) where
  pure a := fun m => ([], some (.ok a, m))
  bind x f := fun m =>
    match x m with
    | (log, none) => (log, none)
    | (log, some (.ok a, m')) => (log ++ (f a m').1, (f a m').2)
    | (log, some (.error u, m')) => (log, some (.error u, m'))
  unfinished := fun _ => ([], none)
  raise u := fun m => ([], some (.error u, m))
  act f := fun m => ([], some (.ok (f m).1, (f m).2))
  ending x settle := fun m => ((x m).1, (x m).2.map fun (r, m') => settle r m')

/-- Writes down an entry. -/
def note (entry : ε) : Journal ε Unit := fun m => ([entry], some (.ok (), m))

/-- Carries out a computation that writes nothing down. -/
def silently (x : Run α) : Journal ε α := fun m => ([], x m)

/-- Replaces what a computation wrote down by one entry, made of that and of how it ended. -/
def gather (entry : List ε → Ending α → ε) (x : Journal ε α) : Journal ε α :=
  fun m => ([entry (x m).1 (x m).2], (x m).2)

/-! ## Applying a journal to a machine -/

theorem bind_apply (x : Journal ε α) (f : α → Journal ε β) (m : Machine) :
    (x >>= f) m =
      match x m with
      | (log, none) => (log, none)
      | (log, some (.ok a, m')) => (log ++ (f a m').1, (f a m').2)
      | (log, some (.error u, m')) => (log, some (.error u, m')) := rfl

theorem bind_of_none {x : Journal ε α} {m : Machine} {log : List ε} (h : x m = (log, none))
    (f : α → Journal ε β) : (x >>= f) m = (log, none) := by
  rw [bind_apply, h]

theorem bind_of_ok {x : Journal ε α} {m m' : Machine} {log : List ε} {a : α}
    (h : x m = (log, some (.ok a, m'))) (f : α → Journal ε β) :
    (x >>= f) m = (log ++ (f a m').1, (f a m').2) := by
  rw [bind_apply, h]

theorem bind_of_error {x : Journal ε α} {m m' : Machine} {log : List ε} {u : Unwind}
    (h : x m = (log, some (.error u, m'))) (f : α → Journal ε β) :
    (x >>= f) m = (log, some (.error u, m')) := by
  rw [bind_apply, h]

/-! ## Journals and endings -/

/-- The journal ends as the computation does. -/
def EndsAs (y : Journal ε α) (x : Run α) : Prop := ∀ m, (y m).2 = x m

namespace EndsAs

theorem bind {y : Journal ε α} {x : Run α} {g : α → Journal ε β} {f : α → Run β} (h : EndsAs y x)
    (hf : ∀ a, EndsAs (g a) (f a)) : EndsAs (y >>= g) (x >>= f) := by
  intro m
  have hm := h m
  rw [Run.bind_apply, ← hm]
  rcases hy : y m with ⟨log, _ | ⟨_ | a, m'⟩⟩
  · rw [bind_of_none hy]
  · rw [bind_of_error hy]
  · rw [bind_of_ok hy]
    exact hf a m'

theorem ending {y : Journal ε α} {x : Run α} (h : EndsAs y x)
    (settle : Except Unwind α → Machine → Except Unwind β × Machine) :
    EndsAs (MonadScript.ending y settle : Journal ε β) (MonadScript.ending x settle) := by
  intro m
  rw [Run.ending_apply, ← h m]
  rfl

theorem gather {y : Journal ε α} {x : Run α} (h : EndsAs y x)
    (entry : List ε → Ending α → ε) : EndsAs (y.gather entry) x := h

end EndsAs

/-- Journals against the computations they write about. -/
def faithful : Simulation (Journal ε) Run where
  allows _ := True
  rel := EndsAs
  pure _ := fun _ => rfl
  bind := EndsAs.bind
  unfinished := fun _ => rfl
  raise _ := fun _ => rfl
  effect _ _ := fun _ => rfl
  bracket _ h := EndsAs.bind (fun _ => rfl) fun _ => h.ending _
  settle _ h := h.ending _

theorem faithful_lax : (faithful (ε := ε)).Lax := fun _ _ => trivial

end Journal

end PeekPoke
