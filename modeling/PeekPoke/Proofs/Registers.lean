import PeekPoke.Proofs.Accesses
import PeekPoke.Proofs.Bytes
import PeekPoke.Proofs.Counting
set_option autoImplicit false

/-!
# What register accesses of a script do

A peek or a poke evaluates its operands and then makes its accesses through one window.  Whether an
access faulted is asked of the window afterwards, and a window answers for the last access made
through it.

Main statements: a register access fails with a bus error exactly if a byte of its range is faulty,
whatever happened before through whichever windows (`Node.answered`); a poke with a mask changes
exactly the bits of the mask, and only clears them if a byte of the range is faulty
(`Node.maskedPoke_updates`).

The accesses are carried out in `exec_peek`, `exec_poke` and `exec_maskedPoke`; the rest is about the
memory and about what the operands leave as it is.
-/

namespace PeekPoke

open MonadScript

/-! ## Ranges -/

/-- The address is one of the bytes of a register, counted without wrapping around. -/
def Width.Spans (s : Width) (a c : Word) : Prop := a.toNat ≤ c.toNat ∧ c.toNat < a.toNat + s.bytes

instance (s : Width) (a c : Word) : Decidable (s.Spans a c) := inferInstanceAs (Decidable (_ ∧ _))

/-- An access that does not reach past the address space touches the bytes of its range. -/
theorem Access.covers_iff_spans {x : Access}
    (h : x.address.toNat + x.width.bytes ≤ UInt64.size) (c : Word) :
    x.Covers c ↔ x.width.Spans x.address c := by
  rw [x.covers_iff, Access.index, UInt64.toNat_sub]
  have hc := c.toNat_lt
  have ha := x.address.toNat_lt
  have small := x.width.bytes_le_eight
  unfold Width.Spans UInt64.size at *
  omega

namespace Memory

/-- A byte of the range is faulty. -/
def FaultIn (m : Memory) (s : Width) (a : Word) : Prop :=
  ∃ c, s.Spans a c ∧ m.faults.contains c = true

theorem faulty_iff (m : Memory) (a : Word) (n : Nat) :
    m.faulty a n = true ↔ ∃ i < n, m.faults.contains (a + UInt64.ofNat i) = true := by
  induction n generalizing a with
  | zero => simp [faulty]
  | succ n ih =>
    simp only [faulty, Bool.or_eq_true, ih, Nat.lt_succ_iff_lt_or_eq]
    constructor
    · rintro (first | ⟨i, hi, later⟩)
      · exact ⟨0, by omega, by simpa using first⟩
      · exact ⟨i + 1, by omega, by rwa [add_ofNat_succ]⟩
    · rintro ⟨i, hi, found⟩
      cases i with
      | zero => exact Or.inl (by simpa using found)
      | succ i => exact Or.inr ⟨i, by omega, by rwa [add_ofNat_succ] at found⟩

/-- An access faults exactly if it touches a faulty address. -/
theorem faults?_iff (m : Memory) (x : Access) :
    m.faults? x = true ↔ ∃ c, x.Covers c ∧ m.faults.contains c = true := by
  rw [faults?, faulty_iff]
  constructor
  · rintro ⟨i, hi, found⟩
    exact ⟨_, ⟨i, hi, rfl⟩, found⟩
  · rintro ⟨_, ⟨i, hi, rfl⟩, found⟩
    exact ⟨i, hi, found⟩

theorem faults?_iff_faultIn (m : Memory) {x : Access}
    (h : x.address.toNat + x.width.bytes ≤ UInt64.size) :
    m.faults? x = true ↔ m.FaultIn x.width x.address := by
  rw [m.faults?_iff]
  simp only [Access.covers_iff_spans h, FaultIn]

/-- Faults do not depend on what is done to a register. -/
theorem faults?_congr {m m' : Memory} (h : m'.faults = m.faults) (kind kind' : AccessKind)
    (a : Word) (s : Width) : m'.faults? ⟨kind, a, s⟩ = m.faults? ⟨kind', a, s⟩ := by
  apply Bool.eq_iff_iff.2
  simp only [faults?_iff, Access.Covers, h]

end Memory

/-- An access to a simulated memory moves no fault. -/
theorem Bus.Simulated.faults_perform {b : Bus} (h : b.Simulated) (k : Nat) (x : Access)
    (kind : AccessKind) :
    (b.perform k x).2.faults k ⟨kind, x.address, x.width⟩ = b.memory.faults? x := by
  rw [(h.perform k x).faults_eq, h.memory_perform]
  exact Memory.faults?_congr (b.memory.faults_after x) kind x.kind x.address x.width

/-- A register in a mapped range does not reach past the address space. -/
theorem Bus.Sound.fits {b : Bus} (h : b.Sound) {a : Word} {s : Width}
    (mapped : (b.find? a s).isSome = true) : a.toNat + s.bytes ≤ UInt64.size := by
  obtain ⟨k, hk⟩ := Option.isSome_iff_exists.1 mapped
  rw [b.find?_eq_earliest?] at hk
  obtain ⟨window, hwindow, hcontains, -⟩ := earliest?_eq_some hk
  have inside := ((window.contains_iff a s).1 hcontains).2
  have registered := (h window (List.mem_of_getElem? hwindow)).2
  omega

/-! ## What an execution leaves as it is -/

/-- The mapping table is the same, and a simulated memory is still one and has the same faults. -/
structure Machine.SameDevices (m m' : Machine) : Prop where
  table : m'.bus.table = m.bus.table
  simulated : m.bus.Simulated → m'.bus.Simulated
  faults : m.bus.Simulated → m'.bus.memory.faults = m.bus.memory.faults

/-- No part of an execution maps a range or moves a fault. -/
theorem Machine.SameDevices.transition : Transition Machine.SameDevices where
  refl _ := ⟨rfl, id, fun _ => rfl⟩
  trans h h' := ⟨h'.table.trans h.table, fun hm => h'.simulated (h.simulated hm),
    fun hm => (h'.faults (h.simulated hm)).trans (h.faults hm)⟩
  effect e m := by
    refine ⟨e.table_apply m, fun hm => ?_, fun hm => ?_⟩
    · cases e with
      | access window a => exact hm.perform window a
      | _ => exact hm
    · cases e with
      | access window a =>
        have after := congrArg Memory.faults (hm.memory_perform window a)
        exact after.trans (m.bus.memory.faults_after a)
      | _ => rfl
  bracket b m m' h := by
    have inside := b.bus_enter m
    refine ⟨?_, fun hm => ?_, fun hm => ?_⟩
    · rw [b.bus_leave, h.table, inside]
    · rw [b.bus_leave]
      exact h.simulated (inside ▸ hm)
    · rw [b.bus_leave, h.faults (inside ▸ hm), inside]

theorem Machine.SameDevices.find? {m m' : Machine} (h : m.SameDevices m') :
    m'.bus.find? = m.bus.find? := by
  funext a s
  rw [Bus.find?_eq_earliest?, Bus.find?_eq_earliest?, h.table]

/-! ## Accesses and windows -/

/-- How a node at `l` ends whose access faults. -/
def Node.busError (l : Location) (a : Word) (s : Width) : Except Unwind Word :=
  .error (.failure ⟨.busError a s, l⟩)

section

variable {env : Environment} {fuel : Nat} {m ready : Machine} {k : Nat}

/-- The window that was found is one of the bus. -/
theorem Bus.lt_length_of_find? {b : Bus} {a : Word} {s : Width} (h : b.find? a s = some k) :
    k < b.windows.length :=
  (List.findIdx?_eq_some_iff_getElem.1 h).1

theorem findWindow_apply (l : Location) {a : Word} {s : Width} (h : m.bus.find? a s = some k) :
    (findWindow l a s : Run Nat) m = some (.ok k, m) := by
  have looked := Run.act_apply (fun m => (m.bus.find? a s, m)) m
  rw [findWindow, look, Run.bind_of_ok looked, h]
  rfl

/-- An access through a mapped window takes effect, and it fails exactly if it faults: the window is
asked right after it. -/
theorem access_bind (l : Location) (hk : k < m.bus.windows.length) (x : Access)
    (f : Word → Run Word) :
    (access l k x >>= f) m =
      if m.bus.faults k x then some (Node.busError l x.address x.width, (m.access k x).2)
      else f (m.access k x).1 (m.access k x).2 := by
  have done := Run.act_apply (·.access k x) m
  have asked := Run.act_apply (fun m => (m.bus.failed k, m)) (m.access k x).2
  have failed : (m.access k x).2.bus.failed k = m.bus.faults k x := m.bus.failed_perform hk x
  rw [access, bind_assoc, Run.bind_of_ok done, bind_assoc, look, Run.bind_of_ok asked, failed]
  cases m.bus.faults k x <;> rfl

/-! ## Operands -/

theorem evalAll_nil_eq_ok {eval : Node → Run Word} {values : List Word}
    (h : evalAll eval [] m = some (.ok values, ready)) : values = [] ∧ ready = m := by
  cases h
  exact ⟨rfl, rfl⟩

theorem evalAll_cons_eq_ok {eval : Node → Run Word} {expr : Node} {rest : List Node}
    {values : List Word} (h : evalAll eval (expr :: rest) m = some (.ok values, ready)) :
    ∃ w ws middle, values = w :: ws ∧ eval expr m = some (.ok w, middle) ∧
      evalAll eval rest middle = some (.ok ws, ready) := by
  obtain ⟨w, middle, first, h⟩ := Run.bind_eq_ok h
  obtain ⟨ws, last, others, h⟩ := Run.bind_eq_ok h
  cases h
  exact ⟨w, ws, middle, rfl, first, others⟩

theorem evalAll_length {eval : Node → Run Word} {exprs : List Node} {values : List Word}
    (h : evalAll eval exprs m = some (.ok values, ready)) : values.length = exprs.length := by
  induction exprs generalizing values m with
  | nil =>
    obtain ⟨rfl, -⟩ := evalAll_nil_eq_ok h
    rfl
  | cons expr rest ih =>
    obtain ⟨w, ws, middle, rfl, -, h⟩ := evalAll_cons_eq_ok h
    rw [List.length_cons, List.length_cons, ih h]

/-- The operands of the node, evaluated from left to right, have these values and leave this machine
behind. -/
def Node.Evaluated (env : Environment) (fuel : Nat) (node : Node) (m : Machine)
    (values : List Word) (ready : Machine) : Prop :=
  evalAll (exec env fuel) node.children (m.emit (.execute node.kind node.location)) =
    some (.ok values, ready)

/-- Evaluating operands maps nothing and moves no fault. -/
theorem Node.Evaluated.sameDevices {node : Node} {values : List Word}
    (h : node.Evaluated env fuel m values ready) : m.SameDevices ready := by
  have same := Machine.SameDevices.transition.evalAll h
  exact ⟨same.table, same.simulated, same.faults⟩

end

/-! ## Peeks and pokes -/

section

variable {env : Environment} {fuel : Nat} {l : Location} {address value mask : Node} {s : Width}
  {m ready : Machine} {a v bits : Word} {k : Nat}

/-- A peek reads once. -/
theorem exec_peek (h : (Node.peek l address s).Evaluated env fuel m [a] ready)
    (found : m.bus.find? a s = some k) :
    exec env (fuel + 1) (.peek l address s) m =
      let read : Access := ⟨.read, a, s⟩
      if ready.bus.faults k read then some (Node.busError l a s, (ready.access k read).2)
      else some (.ok (s.truncate (ready.access k read).1), (ready.access k read).2) := by
  have later : ready.bus.find? a s = some k := by rw [h.sameDevices.find?, found]
  obtain ⟨a, _, m₁, ⟨⟩, evaluated, nothing⟩ := evalAll_cons_eq_ok h
  obtain ⟨-, rfl⟩ := evalAll_nil_eq_ok nothing
  show (Node.peek l address s).step env fuel (exec env fuel) _ = _
  rw [Node.step, Run.bind_of_ok evaluated, Run.bind_of_ok (findWindow_apply l later),
    access_bind l (Bus.lt_length_of_find? later)]
  rfl

/-- On a simulated memory it reads what the memory has there. -/
theorem exec_peek_simulated (h : (Node.peek l address s).Evaluated env fuel m [a] ready)
    (found : m.bus.find? a s = some k) (simulated : ready.bus.Simulated) :
    exec env (fuel + 1) (.peek l address s) m =
      let read : Access := ⟨.read, a, s⟩
      if ready.bus.memory.faults? read then some (Node.busError l a s, (ready.access k read).2)
      else some (.ok (s.truncate (ready.bus.memory.read a s)), (ready.access k read).2) := by
  have word : (ready.access k ⟨.read, a, s⟩).1 = ready.bus.memory.read a s :=
    simulated.word_perform k ⟨.read, a, s⟩
  have hexec := exec_peek h found
  dsimp only at hexec ⊢
  rwa [simulated.faults_eq, word] at hexec

/-- A poke without a mask writes once. -/
theorem exec_poke (h : (Node.poke l address value none s).Evaluated env fuel m [a, v] ready)
    (found : m.bus.find? a s = some k) :
    exec env (fuel + 1) (.poke l address value none s) m =
      let write : Access := ⟨.write (s.truncate v), a, s⟩
      if ready.bus.faults k write then some (Node.busError l a s, (ready.access k write).2)
      else some (.ok 0, (ready.access k write).2) := by
  have later : ready.bus.find? a s = some k := by rw [h.sameDevices.find?, found]
  obtain ⟨a, _, m₁, ⟨⟩, evaluated, h⟩ := evalAll_cons_eq_ok h
  obtain ⟨v, _, m₂, ⟨⟩, evaluated', nothing⟩ := evalAll_cons_eq_ok h
  obtain ⟨-, rfl⟩ := evalAll_nil_eq_ok nothing
  show (Node.poke l address value none s).step env fuel (exec env fuel) _ = _
  rw [Node.step, Run.bind_of_ok evaluated, Run.bind_of_ok evaluated',
    Run.bind_of_ok (findWindow_apply l later)]
  exact access_bind l (Bus.lt_length_of_find? later) _ _

/-- A poke with a mask clears bits and then sets bits, unless clearing them faulted; it fails if one
of the two accesses faults.  The window is looked for before the mask is evaluated, which leaves the
mapping table as it is. -/
theorem exec_maskedPoke
    (h : (Node.poke l address value (some mask) s).Evaluated env fuel m [a, v, bits] ready)
    (found : m.bus.find? a s = some k) :
    exec env (fuel + 1) (.poke l address value (some mask) s) m =
      let clear : Access := ⟨.clearBits (s.truncate bits), a, s⟩
      let set : Access := ⟨.setBits (s.truncate v &&& s.truncate bits), a, s⟩
      let cleared := (ready.access k clear).2
      if ready.bus.faults k clear then some (Node.busError l a s, cleared)
      else if cleared.bus.faults k set then some (Node.busError l a s, (cleared.access k set).2)
      else some (.ok 0, (cleared.access k set).2) := by
  have later : ready.bus.find? a s = some k := by rw [h.sameDevices.find?, found]
  obtain ⟨a, _, m₁, ⟨⟩, evaluated, h⟩ := evalAll_cons_eq_ok h
  obtain ⟨v, _, m₂, ⟨⟩, evaluated', h⟩ := evalAll_cons_eq_ok h
  obtain ⟨bits, _, m₃, ⟨⟩, evaluated'', nothing⟩ := evalAll_cons_eq_ok h
  obtain ⟨-, rfl⟩ := evalAll_nil_eq_ok nothing
  have before : m₂.bus.find? a s = some k := by
    rw [← (Machine.SameDevices.transition.exec evaluated'').find?, later]
  have mapped : k < ready.bus.windows.length := Bus.lt_length_of_find? later
  show (Node.poke l address value (some mask) s).step env fuel (exec env fuel) _ = _
  rw [Node.step, Run.bind_of_ok evaluated, Run.bind_of_ok evaluated',
    Run.bind_of_ok (findWindow_apply l before)]
  refine (Run.bind_of_ok evaluated'' _).trans ((access_bind l mapped _ _).trans ?_)
  refine ite_congr rfl (fun _ => rfl) fun _ => ?_
  have mapped' : k < (ready.access k ⟨.clearBits (s.truncate bits), a, s⟩).2.bus.windows.length := by
    simpa [Machine.access, Machine.meet, Bus.perform] using mapped
  exact access_bind l mapped' _ _

/-- On a simulated memory setting bits does not fault where clearing bits did not. -/
theorem exec_maskedPoke_simulated
    (h : (Node.poke l address value (some mask) s).Evaluated env fuel m [a, v, bits] ready)
    (found : m.bus.find? a s = some k) (simulated : ready.bus.Simulated) :
    exec env (fuel + 1) (.poke l address value (some mask) s) m =
      let clear : Access := ⟨.clearBits (s.truncate bits), a, s⟩
      let set : Access := ⟨.setBits (s.truncate v &&& s.truncate bits), a, s⟩
      let cleared := (ready.access k clear).2
      if ready.bus.memory.faults? clear then some (Node.busError l a s, cleared)
      else some (.ok 0, (cleared.access k set).2) := by
  refine (exec_maskedPoke h found).trans ?_
  dsimp only
  rw [simulated.faults_eq k]
  refine ite_congr rfl (fun _ => rfl) fun sound => if_neg ?_
  have still := simulated.faults_perform k ⟨.clearBits (s.truncate bits), a, s⟩
    (.setBits (s.truncate v &&& s.truncate bits))
  exact still ▸ sound

end

/-! ## Histories of faults -/

namespace Bench

/-- Whether an address is faulty after some actions, of which the last is listed first: it is if a
fault was injected there since faults were last cleared.  Accesses do not count. -/
def isFaulty (c : Word) : List Action → Bool
  | [] => false
  | .command (.injectFault a) :: earlier => a == c || isFaulty c earlier
  | .command .clearFaults :: _ => false
  | _ :: earlier => isFaulty c earlier

/-- What an action can do to the bus. -/
inductive Turns (b : Bus) (x : Action) : Bus → Prop where
  | same : Turns b x b
  | perform (window : Nat) (a : Access) : Turns b x (b.perform window a).2
  /-- Bytes change beside the windows of the bus. -/
  | memory {f : Memory → Memory} : (f b.memory).faults = b.memory.faults →
      Turns b x (b.withMemory f)
  | addWindow {w : Window} : w.Registered → Turns b x (b.addWindow w)
  | inject {a : Word} : x = .command (.injectFault a) →
      Turns b x (b.withMemory (·.injectFault a))
  | clear : x = .command .clearFaults → Turns b x (b.withMemory Memory.clearFaults)

theorem turns_act (b : Bench) (x : Action) : Turns b.bus x (b.act x).bus := by
  cases x with
  | held window a => exact .perform window a
  | through w a => exact .memory (b.bus.memory.faults_after a)
  | command c =>
    cases c with
    | map start length device =>
      simp only [act, step]
      cases reply : b.bus.request start length device with
      | mapped w => exact .addWindow (Bus.registered_of_request reply)
      | _ => exact .same
    | access kind address width =>
      simp only [act, step]
      split
      · exact .same
      · cases kind with
        | none => exact .same
        | some kind => exact .perform _ _
    | accessOpened key kind address width =>
      simp only [act, step]
      split
      · exact .same
      · cases kind with
        | none => exact .same
        | some kind => exact .memory (b.bus.memory.faults_after _)
    | find address width =>
      simp only [act, step]
      split <;> exact .same
    | contains key address width =>
      simp only [act, step]
      split <;> exact .same
    | writeMemory address width w => exact .memory (b.bus.memory.faults_write address width w)
    | injectFault a => exact .inject rfl
    | clearFaults => exact .clear rfl
    | _ => exact .same

/-- Only injecting and clearing faults changes which addresses are faulty. -/
theorem faults_act {b : Bench} (simulated : b.bus.Simulated) {x : Action}
    (inject : ∀ a, x ≠ .command (.injectFault a))
    (clear : x ≠ .command .clearFaults) :
    (b.act x).bus.memory.faults = b.bus.memory.faults := by
  have turned := b.turns_act x
  generalize (b.act x).bus = bus at turned ⊢
  cases turned with
  | same => rfl
  | perform window a => rw [simulated.memory_perform, Memory.faults_after]
  | memory same => rw [simulated.memory_withMemory, same]
  | addWindow => rfl
  | inject h => exact absurd h (inject _)
  | clear h => exact absurd h clear

/-- The faulty addresses are those of the history. -/
theorem contains_faults_after (xs : List Action) (c : Word) :
    (after xs).bus.memory.faults.contains c = isFaulty c xs := by
  fun_induction isFaulty c xs with
  | case1 => simp [after, Bus.memory, Port.memory]
  | case2 a earlier ih =>
    have injected := (simulated_after earlier).memory_withMemory (·.injectFault a)
    have found : (after (.command (.injectFault a) :: earlier)).bus.memory.faults.contains c =
        ((after earlier).bus.memory.injectFault a).faults.contains c :=
      congrArg (·.faults.contains c) injected
    rw [found, ← ih]
    apply Bool.eq_iff_iff.2
    simp [Memory.injectFault]
  | case3 earlier =>
    have cleared := (simulated_after earlier).memory_withMemory Memory.clearFaults
    have found : (after (.command .clearFaults :: earlier)).bus.memory.faults.contains c =
        (after earlier).bus.memory.clearFaults.faults.contains c :=
      congrArg (·.faults.contains c) cleared
    rw [found]
    simp [Memory.clearFaults]
  | case4 x earlier inject clear ih =>
    rw [← ih, after, faults_act (simulated_after earlier) (fun a => inject a) clear]

/-- However the windows were mapped, none of them reaches past the address space. -/
theorem sound_after (xs : List Action) : (after xs).bus.Sound := by
  induction xs with
  | nil => exact fun _ none => absurd none List.not_mem_nil
  | cons x earlier ih =>
    have turned := (after earlier).turns_act x
    rw [after]
    generalize ((after earlier).act x).bus = bus at turned ⊢
    cases turned with
    | perform window a => exact ih.of_table (Bus.table_perform _ window a)
    | addWindow registered => exact ih.addWindow registered
    | same | memory | inject | clear => exact ih

end Bench

/-- The windows of the machine, with their fault states, and the memory behind them are those of a
bench after some actions, of which the last is listed first. -/
structure Machine.Follows (m : Machine) (xs : List Bench.Action) : Prop where
  windows : m.bus.windows = (Bench.after xs).bus.windows
  port : m.bus.port = (Bench.after xs).bus.port

namespace Machine.Follows

variable {m m' : Machine} {xs : List Bench.Action}

theorem of_bus (h : m.Follows xs) (same : m'.bus = m.bus) : m'.Follows xs :=
  ⟨same ▸ h.windows, same ▸ h.port⟩

theorem memory (h : m.Follows xs) : m.bus.memory = (Bench.after xs).bus.memory :=
  congrArg Port.memory h.port

theorem simulated (h : m.Follows xs) : m.bus.Simulated := by
  have past := Bench.simulated_after xs
  unfold Bus.Simulated at past ⊢
  rw [h.port, h.memory, past]

theorem access (h : m.Follows xs) (k : Nat) (a : Access) :
    ((m.access k a).2).Follows (.held k a :: xs) := by
  constructor <;> simp only [Machine.access, Machine.meet, Bus.perform, Bench.after, Bench.act,
    h.windows, h.port]

/-- The history goes on with accesses only. -/
def Longer (m m' : Machine) : Prop :=
  ∃ ys : List Bench.Action, (∀ y ∈ ys, ∃ k a, y = .held k a) ∧
    ∀ xs, m.Follows xs → m'.Follows (ys ++ xs)

theorem Longer.of_bus (same : m'.bus = m.bus) : Longer m m' :=
  ⟨[], fun _ hy => absurd hy List.not_mem_nil, fun _ h => h.of_bus same⟩

/-- Whatever a script does adds accesses to the history of its devices. -/
theorem longer : Transition Longer where
  refl _ := .of_bus rfl
  trans := by
    rintro m₁ m₂ m₃ ⟨ys, accesses, h⟩ ⟨zs, accesses', h'⟩
    refine ⟨zs ++ ys, fun y hy => ?_, fun xs start => ?_⟩
    · rcases List.mem_append.1 hy with hy | hy
      · exact accesses' y hy
      · exact accesses y hy
    · rw [List.append_assoc]
      exact h' _ (h xs start)
  effect e m := by
    cases e with
    | access window a =>
      refine ⟨[.held window a], fun y hy => ⟨window, a, List.mem_singleton.1 hy⟩, fun xs h => ?_⟩
      exact h.access window a
    | _ => exact .of_bus rfl
  bracket := by
    rintro b m m' ⟨ys, accesses, h⟩
    exact ⟨ys, accesses, fun xs start => (h xs (start.of_bus (b.bus_enter m))).of_bus (b.bus_leave m')⟩

end Machine.Follows

/-! ## Bus errors -/

/-- The width of the register that a peek or a poke accesses. -/
def Node.register? : Node → Option Width
  | .peek _ _ s => some s
  | .poke _ _ _ _ s => some s
  | _ => none

/-- A register access whose operands are known fails if its accesses fault, and ends with a value
otherwise. -/
theorem Node.exec_register {env : Environment} {fuel : Nat} {node : Node} {m ready : Machine}
    {s : Width} {a : Word} {rest : List Word} (hs : node.register? = some s)
    (simulated : m.bus.Simulated) (mapped : (m.bus.find? a s).isSome = true)
    (h : node.Evaluated env fuel m (a :: rest) ready) :
    ∃ kind w failed passed, exec env (fuel + 1) node m =
      if ready.bus.memory.faults? ⟨kind, a, s⟩ then some (Node.busError node.location a s, failed)
      else some (.ok w, passed) := by
  obtain ⟨k, found⟩ := Option.isSome_iff_exists.1 mapped
  have later := h.sameDevices.simulated simulated
  have count := evalAll_length h
  cases node with
  | peek l address width =>
    obtain rfl := Option.some.inj hs
    obtain rfl := List.length_eq_zero_iff.1 (Nat.succ.inj count)
    exact ⟨_, _, _, _, exec_peek_simulated h found later⟩
  | poke l address value mask width =>
    obtain rfl := Option.some.inj hs
    cases mask with
    | none =>
      obtain ⟨v, rfl⟩ := List.length_eq_one_iff.1 (Nat.succ.inj count)
      have hexec := exec_poke h found
      dsimp only at hexec
      rw [later.faults_eq] at hexec
      exact ⟨_, _, _, _, hexec⟩
    | some mask =>
      obtain ⟨v, bits, rfl⟩ := List.length_eq_two.1 (Nat.succ.inj count)
      exact ⟨_, _, _, _, exec_maskedPoke_simulated h found later⟩
  | _ => cases hs

/-- Operands leave the faulty bytes as the history of the devices made them: those where a fault was
injected since faults were last cleared. -/
theorem Node.Evaluated.faultIn_iff {env : Environment} {fuel : Nat} {node : Node} {m ready : Machine}
    {values : List Word} {xs : List Bench.Action} (h : node.Evaluated env fuel m values ready)
    (start : m.Follows xs) (s : Width) (a : Word) :
    ready.bus.memory.FaultIn s a ↔ ∃ c, s.Spans a c ∧ Bench.isFaulty c xs = true := by
  simp only [Memory.FaultIn, h.sameDevices.faults start.simulated, start.memory,
    Bench.contains_faults_after]

/-- How a register access ended, whose address was `a`: by the faults of the machine its operands left
behind. -/
structure Node.Answered (node : Node) (s : Width) (a : Word) (m ready : Machine)
    (r : Except Unwind Word) (last : Machine) : Prop where
  /-- It failed, at its own location, exactly if a byte of its range is faulty. -/
  busError_iff : r = Node.busError node.location a s ↔ ready.bus.memory.FaultIn s a
  /-- If no byte is, it ended with a value. -/
  value : ¬ ready.bus.memory.FaultIn s a → ∃ w, r = .ok w
  /-- After any history of the devices, with however many windows and whatever faulted before, the
  faulty bytes are those where a fault was injected since faults were last cleared. -/
  faultIn_iff : ∀ xs, m.Follows xs →
    (ready.bus.memory.FaultIn s a ↔ ∃ c, s.Spans a c ∧ Bench.isFaulty c xs = true)
  /-- The history goes on with the accesses of the execution. -/
  continues : ∀ xs, m.Follows xs → ∃ ys, last.Follows (ys ++ xs) ∧ ∀ y ∈ ys, ∃ k x, y = .held k x

/-- Bus errors are neither stale nor missed: whatever state the windows are in, a register access
answers for its own range. -/
theorem Node.answered {env : Environment} {fuel : Nat} {node : Node} {m ready : Machine}
    {s : Width} {a : Word} {rest : List Word} (sound : m.bus.Sound)
    (simulated : m.bus.Simulated) (hs : node.register? = some s)
    (mapped : (m.bus.find? a s).isSome = true)
    (h : node.Evaluated env fuel m (a :: rest) ready) :
    ∃ r last, exec env (fuel + 1) node m = some (r, last) ∧ node.Answered s a m ready r last := by
  obtain ⟨kind, w, failed, passed, hexec⟩ := Node.exec_register hs simulated mapped h
  have faults : ready.bus.memory.faults? ⟨kind, a, s⟩ = true ↔ ready.bus.memory.FaultIn s a :=
    ready.bus.memory.faults?_iff_faultIn (sound.fits mapped)
  have history := fun xs (start : m.Follows xs) => h.faultIn_iff start s a
  have continues : ∀ {r last}, exec env (fuel + 1) node m = some (r, last) → ∀ xs, m.Follows xs →
      ∃ ys, last.Follows (ys ++ xs) ∧ ∀ y ∈ ys, ∃ k x, y = .held k x := by
    intro r last hexec xs start
    obtain ⟨ys, accesses, longer⟩ := Machine.Follows.longer.exec hexec
    exact ⟨ys, longer xs start, accesses⟩
  by_cases faulty : ready.bus.memory.FaultIn s a
  · rw [if_pos (faults.2 faulty)] at hexec
    exact ⟨_, failed, hexec, ⟨fun _ => faulty, fun _ => rfl⟩, fun fine => absurd faulty fine, history,
      continues hexec⟩
  · rw [if_neg (mt faults.1 faulty)] at hexec
    have ok : Except.ok w ≠ Node.busError node.location a s := fun failed => by cases failed
    exact ⟨_, passed, hexec, ⟨fun failed => absurd failed ok, fun found => absurd found faulty⟩,
      fun _ => ⟨w, rfl⟩, history, continues hexec⟩

/-- A history in which two overlapping windows were mapped and a byte of both became faulty.  The last
access through the second window faulted, a later one through the first did not. -/
def Bench.unsettled : List Bench.Action :=
  [.command (.access (some .read) 0x1000 .w8), .held 1 ⟨.read, 0x100b, .w8⟩,
    .command (.injectFault 0x100b), .command (.map 0x1008 0x10 "dev"),
    .command (.map 0x1000 0x10 "dev")]

/-- A machine with that history. -/
def Machine.unsettled : Machine := { bus := (Bench.after Bench.unsettled).bus }

/-- A poke to the faulty byte through the first window, whose mask is read through the same window
without a fault. -/
def Node.pokeOverFault : Node :=
  let l := Location.unknown
  .poke l (.literal l 0x1008) (.literal l 0x12345678) (some (.peek l (.literal l 0x1002) .w8)) .w32

/-- A peek through the second window, whose last access faulted, beside the faulty byte. -/
def Node.peekBesideFault : Node :=
  let l := Location.unknown
  .peek l (.literal l 0x100c) .w64

theorem Node.answered_unsettled :
    (∃ ready r last, exec {} 3 Node.pokeOverFault Machine.unsettled = some (r, last) ∧
      Node.pokeOverFault.Answered .w32 0x1008 Machine.unsettled ready r last ∧
      r = Node.busError Node.pokeOverFault.location 0x1008 .w32) ∧
    ∃ ready r last, exec {} 3 Node.peekBesideFault Machine.unsettled = some (r, last) ∧
      Node.peekBesideFault.Answered .w64 0x100c Machine.unsettled ready r last ∧
      r ≠ Node.busError Node.peekBesideFault.location 0x100c .w64 := by
  have follows : Machine.unsettled.Follows Bench.unsettled := ⟨rfl, rfl⟩
  have sound : Machine.unsettled.bus.Sound := Bench.sound_after _
  constructor
  · obtain ⟨ready, operands⟩ : ∃ ready, Node.pokeOverFault.Evaluated {} 2 Machine.unsettled
        [0x1008, 0x12345678, 0] ready := ⟨_, rfl⟩
    obtain ⟨r, last, hexec, answered⟩ :=
      Node.answered sound follows.simulated (s := .w32) rfl rfl operands
    refine ⟨ready, r, last, hexec, answered, ?_⟩
    exact answered.busError_iff.2 ((answered.faultIn_iff _ follows).2 ⟨0x100b, by decide, by decide⟩)
  · obtain ⟨ready, operands⟩ : ∃ ready, Node.peekBesideFault.Evaluated {} 2 Machine.unsettled
        [0x100c] ready := ⟨_, rfl⟩
    obtain ⟨r, last, hexec, answered⟩ :=
      Node.answered sound follows.simulated (s := .w64) rfl rfl operands
    refine ⟨ready, r, last, hexec, answered, fun failed => ?_⟩
    obtain ⟨c, within, faulty⟩ := (answered.faultIn_iff _ follows).1 (answered.busError_iff.1 failed)
    obtain rfl : 0x100b = c := by simpa [Bench.unsettled, Bench.isFaulty] using faulty
    exact absurd within (by decide)

/-! ## Masked updates -/

namespace Width

theorem truncate_or (s : Width) (v w : Word) :
    s.truncate (v ||| w) = s.truncate v ||| s.truncate w := by
  apply UInt64.toNat_inj.1
  simp only [truncate, UInt64.toNat_and, UInt64.toNat_or, Nat.and_or_distrib_right]

/-- Within a width, only the bits of the width are cleared. -/
theorem truncate_and_not_truncate (s : Width) (old bits : Word) :
    s.truncate (old &&& ~~~s.truncate bits) = s.truncate (old &&& ~~~bits) := by
  apply UInt64.toBitVec_inj.1
  ext i hi
  simp only [truncate, UInt64.toBitVec_and, UInt64.toBitVec_not, BitVec.getElem_and,
    BitVec.getElem_not]
  cases s.mask.toBitVec[i] <;> simp

end Width

namespace Memory

variable (m : Memory) (a v bits : Word) (s : Width)

/-- The memory after the clearing of the bits of a mask. -/
def cleared : Memory := m.after ⟨.clearBits (s.truncate bits), a, s⟩

/-- The memory after the clearing of the bits of a mask and the setting of those that a value has. -/
def updated : Memory :=
  (m.cleared a bits s).after ⟨.setBits (s.truncate v &&& s.truncate bits), a, s⟩

theorem read_cleared : (m.cleared a bits s).read a s = s.truncate (m.read a s &&& ~~~bits) := by
  rw [← s.truncate_and_not_truncate]
  exact m.read_after ⟨.clearBits (s.truncate bits), a, s⟩

/-- Bits of the mask come from the value, the others stay. -/
theorem read_updated :
    (m.updated a v bits s).read a s =
      s.truncate ((m.read a s &&& ~~~bits) ||| (v &&& bits)) := by
  have set := (m.cleared a bits s).read_after ⟨.setBits (s.truncate v &&& s.truncate bits), a, s⟩
  calc (m.updated a v bits s).read a s
      = s.truncate ((m.cleared a bits s).read a s ||| s.truncate v &&& s.truncate bits) := set
    _ = s.truncate (s.truncate (m.read a s &&& ~~~bits) ||| s.truncate (v &&& bits)) := by
      rw [m.read_cleared, s.truncate_and]
    _ = s.truncate ((m.read a s &&& ~~~bits) ||| (v &&& bits)) := by
      rw [← s.truncate_or, s.truncate_truncate]

variable {a s}

theorem byte_cleared {c : Word} (fits : a.toNat + s.bytes ≤ UInt64.size) (h : ¬ s.Spans a c) :
    (m.cleared a bits s).byte c = m.byte c := by
  have outside : ¬ Access.Covers ⟨.clearBits (s.truncate bits), a, s⟩ c :=
    mt (Access.covers_iff_spans fits c).1 h
  rw [cleared, byte_after, if_neg outside]

theorem byte_updated {c : Word} (fits : a.toNat + s.bytes ≤ UInt64.size) (h : ¬ s.Spans a c) :
    (m.updated a v bits s).byte c = m.byte c := by
  have outside : ¬ Access.Covers ⟨.setBits (s.truncate v &&& s.truncate bits), a, s⟩ c :=
    mt (Access.covers_iff_spans fits c).1 h
  rw [updated, byte_after, if_neg outside, m.byte_cleared bits fits h]

end Memory

namespace Bus.Simulated

variable {b : Bus}

theorem memory_cleared (h : b.Simulated) (k : Nat) (a bits : Word) (s : Width) :
    (b.perform k ⟨.clearBits (s.truncate bits), a, s⟩).2.memory = b.memory.cleared a bits s :=
  h.memory_perform k ⟨.clearBits (s.truncate bits), a, s⟩

theorem memory_updated (h : b.Simulated) (k : Nat) (a v bits : Word) (s : Width) :
    ((b.perform k ⟨.clearBits (s.truncate bits), a, s⟩).2.perform k
      ⟨.setBits (s.truncate v &&& s.truncate bits), a, s⟩).2.memory =
        b.memory.updated a v bits s := by
  rw [(h.perform k _).memory_perform, h.memory_cleared, Memory.updated]

end Bus.Simulated

/-- How a poke with a mask ended that found the window `k`, with the address `a`, the value `v` and the
mask `bits`, by the machine its operands left behind. -/
structure Node.MaskedUpdate (l : Location) (s : Width) (a v bits : Word) (k : Nat) (ready : Machine)
    (r : Except Unwind Word) (last : Machine) : Prop where
  /-- If no byte of the register is faulty, it ends with a value, and exactly the bits of the mask have
  come from the value. -/
  passed : ¬ ready.bus.memory.FaultIn s a → r = .ok 0 ∧
    last.bus.memory.read a s =
      s.truncate ((ready.bus.memory.read a s &&& ~~~bits) ||| (v &&& bits)) ∧
    last.traffic = .access k ⟨.setBits (s.truncate v &&& s.truncate bits), a, s⟩ ::
      .access k ⟨.clearBits (s.truncate bits), a, s⟩ :: ready.traffic
  /-- A peek at the same register that comes next shows what has become of it, however its address is
  computed, if that pokes nothing. -/
  readBack : ¬ ready.bus.memory.FaultIn s a → ∀ env fuel l' address start,
    (Node.peek l' address s).Evaluated env fuel last [a] start →
    start.bus.memory = last.bus.memory → ∃ after, exec env (fuel + 1) (.peek l' address s) last =
      some (.ok (s.truncate ((ready.bus.memory.read a s &&& ~~~bits) ||| (v &&& bits))), after)
  /-- If a byte of the register is faulty, it fails, the bits of the mask are cleared, and no bits are
  set. -/
  failed : ready.bus.memory.FaultIn s a → r = Node.busError l a s ∧
    last.bus.memory.read a s = s.truncate (ready.bus.memory.read a s &&& ~~~bits) ∧
    last.traffic = .access k ⟨.clearBits (s.truncate bits), a, s⟩ :: ready.traffic
  /-- All other bytes stay. -/
  outside : ∀ c, ¬ s.Spans a c → last.bus.memory.byte c = ready.bus.memory.byte c

/-- A poke with a mask to a mapped register of a simulated memory changes exactly the bits of the
mask. -/
theorem Node.maskedPoke_updates {env : Environment} {fuel : Nat} {l : Location}
    {address value mask : Node} {s : Width} {m ready : Machine} {a v bits : Word} {k : Nat}
    (sound : m.bus.Sound) (simulated : m.bus.Simulated) (found : m.bus.find? a s = some k)
    (h : (Node.poke l address value (some mask) s).Evaluated env fuel m [a, v, bits] ready) :
    ∃ r last, exec env (fuel + 1) (.poke l address value (some mask) s) m = some (r, last) ∧
      Node.MaskedUpdate l s a v bits k ready r last := by
  have fits := sound.fits (Option.isSome_of_eq_some found)
  have faults : ∀ (memory : Memory) kind, memory.faults? ⟨kind, a, s⟩ = true ↔ memory.FaultIn s a :=
    fun memory kind => memory.faults?_iff_faultIn fits
  have ready' := h.sameDevices.simulated simulated
  have hexec := exec_maskedPoke_simulated h found ready'
  by_cases faulty : ready.bus.memory.FaultIn s a
  · have cleared := ready'.memory_cleared k a bits s
    have hexec := hexec.trans (if_pos ((faults _ _).2 faulty))
    exact ⟨_, _, hexec, fun fine => absurd faulty fine, fun fine => absurd faulty fine,
      fun _ => ⟨rfl, cleared ▸ ready.bus.memory.read_cleared a bits s, rfl⟩,
      fun c outside => cleared ▸ ready.bus.memory.byte_cleared bits fits outside⟩
  have updated := ready'.memory_updated k a v bits s
  have shown := ready.bus.memory.read_updated a v bits s
  have hexec := hexec.trans (if_neg (mt (faults _ _).1 faulty))
  refine ⟨_, _, hexec, fun _ => ⟨rfl, updated ▸ shown, rfl⟩, ?_, fun found => absurd found faulty,
    fun c outside => updated ▸ ready.bus.memory.byte_updated v bits fits outside⟩
  intro _ env' fuel' l' address' start hstart same
  have devices := Machine.SameDevices.transition.exec hexec
  have last' := devices.simulated simulated
  have still : ¬ start.bus.memory.FaultIn s a := by
    rw [Memory.FaultIn, hstart.sameDevices.faults last', devices.faults simulated,
      ← h.sameDevices.faults simulated]
    exact faulty
  have hpeek := (exec_peek_simulated hstart (devices.find? ▸ found)
    (hstart.sameDevices.simulated last')).trans (if_neg (mt (faults _ _).1 still))
  have found' : start.bus.memory.read a s = (ready.bus.memory.updated a v bits s).read a s :=
    congrArg (Memory.read · a s) (same.trans updated)
  rw [found', shown, s.truncate_truncate] at hpeek
  exact ⟨_, hpeek⟩

/-- A poke of three bits to an unaligned register that holds `0x12fe`; value and mask are wider than
the register. -/
def Node.pokeField : Node :=
  let l := Location.unknown
  .poke l (.literal l 0x1001) (.literal l 0xfffffffffff50) (some (.literal l 0xabc00070)) .w16

/-- A machine in which the register of the poke was written and a byte further on is faulty. -/
def Machine.written : Machine :=
  { bus := (Bench.after (.command (.writeMemory 0x1001 .w16 0x12fe) :: Bench.unsettled)).bus }

theorem Node.maskedPoke_updates_written :
    (∃ ready r last, exec {} 2 Node.pokeField Machine.written = some (r, last) ∧
      Node.MaskedUpdate Node.pokeField.location .w16 0x1001 0xfffffffffff50 0xabc00070 0 ready r last ∧
      last.bus.memory.read 0x1001 .w16 = 0x12de) ∧
    ∃ ready r last, exec {} 3 Node.pokeOverFault Machine.written = some (r, last) ∧
      Node.MaskedUpdate Node.pokeOverFault.location .w32 0x1008 0x12345678 0x12 0 ready r last ∧
      r = Node.busError Node.pokeOverFault.location 0x1008 .w32 := by
  have sound : Machine.written.bus.Sound := Bench.sound_after _
  have follows : Machine.written.Follows
      (.command (.writeMemory 0x1001 .w16 0x12fe) :: Bench.unsettled) := ⟨rfl, rfl⟩
  constructor
  · obtain ⟨ready, operands, old⟩ : ∃ ready, Node.pokeField.Evaluated {} 1 Machine.written
        [0x1001, 0xfffffffffff50, 0xabc00070] ready ∧
        ready.bus.memory.read 0x1001 .w16 = 0x12fe := ⟨_, rfl, by rfl⟩
    obtain ⟨r, last, hexec, updated⟩ :=
      Node.maskedPoke_updates (k := 0) sound follows.simulated (by rfl) operands
    refine ⟨ready, r, last, hexec, updated, ?_⟩
    have fine : ¬ ready.bus.memory.FaultIn .w16 0x1001 := by
      rw [operands.faultIn_iff follows]
      rintro ⟨c, within, faulty⟩
      obtain rfl : 0x100b = c := by simpa [Bench.unsettled, Bench.isFaulty] using faulty
      exact absurd within (by decide)
    rw [(updated.passed fine).2.1, old]
    rfl
  · obtain ⟨ready, operands⟩ : ∃ ready, Node.pokeOverFault.Evaluated {} 2 Machine.written
        [0x1008, 0x12345678, 0x12] ready := ⟨_, rfl⟩
    obtain ⟨r, last, hexec, updated⟩ :=
      Node.maskedPoke_updates (k := 0) sound follows.simulated (by rfl) operands
    refine ⟨ready, r, last, hexec, updated, (updated.failed ?_).1⟩
    exact (operands.faultIn_iff follows .w32 0x1008).2 ⟨0x100b, by decide, by decide⟩

end PeekPoke
