import PeekPoke.Proofs.Activity
import PeekPoke.Proofs.Worlds
set_option autoImplicit false

/-!
# Register accesses

What the devices see of an execution.  `Node.issues` says which events a node causes itself, by the
values of its operands: one read for a peek, one write for a poke, and for a poke with a mask one
clearing of bits and then, unless that faulted, one setting of bits; nothing where no window contains
the access, and nothing for any other node.  Main statement: in every world that can be reached,
every execution of every node does exactly this at every node it executes, through the earliest
window that contains the access, and leaves the mapping table as it is (`World.Reached.orderly`).
-/

namespace PeekPoke

open MonadScript Activity

/-! ## The mapping table -/

/-- The windows in the order of their mapping, apart from their fault states. -/
def Bus.table (b : Bus) : List Window := b.windows.map (·.latch false)

/-- The position of the earliest window of a table that contains an access. -/
def earliest? (table : List Window) (a : Word) (s : Width) : Option Nat :=
  table.findIdx? (·.contains a s)

/-- An access goes to the earliest window of the table that contains it. -/
theorem Bus.find?_eq_earliest? (b : Bus) (a : Word) (s : Width) :
    b.find? a s = earliest? b.table a s := by
  simp [Bus.find?, earliest?, Bus.table, List.findIdx?_map, Function.comp_def]

theorem Bus.length_table (b : Bus) : b.table.length = b.windows.length := by
  simp [Bus.table]

@[simp] theorem Bus.table_perform (b : Bus) (window : Nat) (a : Access) :
    (b.perform window a).2.table = b.table := by
  refine List.ext_getElem? fun i => ?_
  simp only [Bus.table, Bus.perform, List.getElem?_map, List.getElem?_modify]
  split
  · simp [Function.comp_def, Window.latch]
  · simp

theorem Effect.table_apply {α : Type} (e : Effect α) (m : Machine) :
    (e.apply m).2.bus.table = m.bus.table := by
  cases e with
  | access window a => exact m.bus.table_perform window a
  | _ => rfl

theorem Bracket.bus_enter (b : Bracket) (m : Machine) : (b.enter m).bus = m.bus := by
  obtain ⟨stores, trace, h⟩ := b.enter_eq m
  rw [h]

theorem Bracket.bus_leave (b : Bracket) (m : Machine) : (b.leave m).bus = m.bus := by
  obtain ⟨stores, trace, h⟩ := b.leave_eq m
  rw [h]

/-- No execution changes the mapping table. -/
theorem observe_table (env : Environment) (fuel : Nat) (node : Node) (table : List Window) :
    (observe env fuel node).Abides (Throughout fun m => m.bus.table = table) := by
  have hinvariant : Invariant fun m => m.bus.table = table :=
    ⟨fun _ _ hm => hm, fun b m hm => by rw [b.bus_enter, hm], fun b m hm => by rw [b.bus_leave, hm]⟩
  exact hinvariant.observe (env.confines_all fun e m hm => (e.table_apply m).trans hm) fuel trivial

theorem table_of_observe {env : Environment} {fuel : Nat} {node : Node} {m m' : Machine}
    {log : List Activity} {r : Except Unwind Word}
    (h : observe env fuel node m = (log, some (r, m'))) : m'.bus.table = m.bus.table := by
  have hthroughout := observe_table env fuel node m.bus.table m
  rw [h] at hthroughout
  exact (hthroughout rfl).2 m' rfl

/-- The position of the earliest window belongs to a window that contains the access, and no window
before it does. -/
theorem earliest?_eq_some {table : List Window} {a : Word} {s : Width} {k : Nat}
    (h : earliest? table a s = some k) :
    ∃ window, table[k]? = some window ∧ window.contains a s = true ∧
      ∀ j < k, ∀ other, table[j]? = some other → other.contains a s = false := by
  obtain ⟨hk, hcontains, hbefore⟩ := List.findIdx?_eq_some_iff_getElem.mp h
  refine ⟨table[k], List.getElem?_eq_getElem hk, hcontains, fun j hj other hother => ?_⟩
  have hlt : j < table.length := Nat.lt_trans hj hk
  rw [List.getElem?_eq_getElem hlt] at hother
  cases hother
  simpa using hbefore j hj

/-! ## Traffic -/

/-- What the devices see of an effect. -/
def Effect.event? {α : Type} : Effect α → Option BusEvent
  | access window a => some (.access window a)
  | _ => none

theorem Effect.traffic_apply {α : Type} (e : Effect α) (m : Machine) :
    (e.apply m).2.traffic = e.event?.toList ++ m.traffic := by
  cases e <;> rfl

theorem Effect.seen_apply {α : Type} (e : Effect α) (m : Machine) :
    m.seen (e.apply m).2 = e.event?.toList := by
  rw [Machine.seen, e.traffic_apply]
  cases e <;> simp [Effect.event?]

/-- What the devices saw is what is recorded, after what they had seen before. -/
theorem observe_traffic (env : Environment) (fuel : Nat) (node : Node) :
    (observe env fuel node).Abides fun m log left =>
      ∀ m', left = some m' → m'.traffic = (allEvents log).reverse ++ m.traffic := by
  have hcontract : Contract (fun _ => True) fun m log left =>
      ∀ m', left = some m' → m'.traffic = (allEvents log).reverse ++ m.traffic := by
    refine ⟨?_, ?_, ?_, ?_, ?_⟩
    · rintro m m' ⟨⟩
      simp
    · rintro m m' ⟨⟩
    · intro m m' log log' left hfirst hsecond last hlast
      rw [hsecond last hlast, hfirst m' rfl]
      simp
    · rintro α e - m m' ⟨⟩
      rw [e.traffic_apply, e.seen_apply]
      cases e.event? <;> simp
    · intro b m log left hinside m' hm'
      obtain ⟨middle, hmiddle, rfl⟩ := Option.map_eq_some_iff.mp hm'
      simpa using hinside middle hmiddle
  refine hcontract.observe (env.confines_all fun _ => trivial) (fun _ => trivial) ?_ fuel trivial
  intro fuel node m inner ending _ _ hinner
  simpa using hinner

/-! ## What a node issues -/

/-- How many accesses a node makes that ends with a value. -/
def Node.accesses : Node → Nat
  | .peek .. => 1
  | .poke _ _ _ none _ => 1
  | .poke _ _ _ (some _) _ => 2
  | _ => 0

/-- The events that a node causes itself, by the values of its operands and the machines they left
behind. -/
def Node.issues (table : List Window) : Node → List (Word × Machine) → List BusEvent
  | .peek _ _ width, [(address, _)] =>
    (earliest? table address width).toList.map (.access · ⟨.read, address, width⟩)
  | .poke _ _ _ none width, [(address, _), (value, _)] =>
    (earliest? table address width).toList.map
      (.access · ⟨.write (width.truncate value), address, width⟩)
  | .poke _ _ _ (some _) width, [(address, _), (value, _), (mask, m)] =>
    match earliest? table address width with
    | none => []
    | some window =>
      let clear : Access := ⟨.clearBits (width.truncate mask), address, width⟩
      let set : Access := ⟨.setBits (width.truncate (value &&& mask)), address, width⟩
      .access window clear ::
        if m.bus.faults window clear then [] else [.access window set]
  | _, _ => []

/-- The execution of a node, as it is recorded, follows the rules of access. -/
structure Node.Lawful (table : List Window) (node : Node) (inner : List Activity)
    (ending : Ending Word) : Prop where
  /-- The node causes the events that belong to the values of its operands. -/
  issued : own inner = node.issues table (results inner)
  /-- A node that makes accesses executes its operands once and in order. -/
  operands : 0 < node.accesses → parts inner <+: node.children
  /-- If it ends with a value, it has made all of its accesses. -/
  complete : ∀ w m, ending = some (.ok w, m) → (own inner).length = node.accesses
  /-- If it fails because nothing is mapped, it has made none. -/
  unmapped : ∀ a s l m, ending = some (.error (.failure ⟨.noMapping a s, l⟩), m) → own inner = []

/-- Every event of a node is an access through the earliest window that contains it. -/
theorem Node.earliest?_of_mem_issues {table : List Window} {node : Node}
    {values : List (Word × Machine)} {e : BusEvent} (h : e ∈ node.issues table values) :
    ∃ k a, e = .access k a ∧ earliest? table a.address a.width = some k := by
  unfold Node.issues at h
  split at h
  · obtain ⟨k, hk, rfl⟩ := List.mem_map.mp h
    exact ⟨k, _, rfl, Option.mem_toList.mp hk⟩
  · obtain ⟨k, hk, rfl⟩ := List.mem_map.mp h
    exact ⟨k, _, rfl, Option.mem_toList.mp hk⟩
  · split at h
    · simp at h
    · rename_i k hk
      rcases List.mem_cons.mp h with rfl | h
      · exact ⟨k, _, rfl, hk⟩
      · split at h
        · simp at h
        · obtain rfl := List.mem_singleton.mp h
          exact ⟨k, _, rfl, hk⟩
  · simp at h

/-! ## Nodes that make no accesses -/

theorem Node.Causes.event?_eq_none {node : Node} {α : Type} {e : Effect α} (h : node.Causes e)
    (hn : node.accesses = 0) : e.event? = none := by
  cases h with
  | peekAccess => cases hn
  | @pokeAccess _ _ _ mask => cases mask <;> cases hn
  | _ => rfl

/-- Only peeks and pokes cause events. -/
theorem own_inside_of_accesses_eq_zero (env : Environment) (fuel : Nat) {node : Node}
    (hn : node.accesses = 0) (m : Machine) : own (inside env fuel node m).1 = [] := by
  have hcontract : Contract (fun e => e.event? = none) fun _ log _ => own log = [] := by
    refine ⟨fun _ => rfl, fun _ => rfl, ?_, ?_, ?_⟩
    · intro m m' log log' left hfirst hsecond
      simp [hfirst, hsecond]
    · intro α e he m
      simp [e.seen_apply, he]
    · exact fun _ _ _ _ hinside => hinside
  have heval : ∀ child, (observe env fuel child).Abides fun _ log _ => own log = [] := by
    intro child m
    cases fuel <;> rfl
  have hemit : Observed.Abides (fun _ log _ => own log = [])
      (emit (.execute node.kind node.location)) :=
    hcontract.effect (e := .report (.execute node.kind node.location)) rfl
  exact hcontract.abides_bind hemit
    (fun _ => hcontract.abides_step (fun _ => ⟨heval _, fun _ _ _ => rfl, fun _ _ => rfl⟩) fuel
      (fun he => he.event?_eq_none hn) fun child _ => heval child) m

theorem Node.lawful_of_accesses_eq_zero {env : Environment} {fuel : Nat} {node : Node}
    (hn : node.accesses = 0) {m : Machine} {inner : List Activity} {ending : Ending Word}
    (h : inside env fuel node m = (inner, ending)) (table : List Window) :
    node.Lawful table inner ending := by
  have hown : own inner = [] := by
    have hinside := own_inside_of_accesses_eq_zero env fuel hn m
    rwa [h] at hinside
  have hissues : node.issues table (results inner) = [] := by
    unfold Node.issues
    split <;> simp_all [Node.accesses]
  exact ⟨by rw [hown, hissues], fun hpos => absurd hn (Nat.ne_of_gt hpos),
    fun _ _ _ => by rw [hown, hn]; rfl, fun _ _ _ _ _ => hown⟩

/-! ## Operands, windows and accesses, one after the other -/

/-- What is recorded of an operand that ended without a value. -/
structure Interrupted (operand : Node) (log : List Activity) (ending : Ending Word) : Prop where
  own : own log = []
  results : results log = []
  parts : parts log <+: [operand]
  ending : ∀ w m, ending ≠ some (.ok w, m)

/-- An operand ends the whole without a value, or what follows goes on with its value. -/
theorem operand_cases (env : Environment) (fuel : Nat) (operand : Node) (f : Word → Observed Word)
    (m : Machine) :
    (∃ log ending, (observe env fuel operand >>= f) m = (log, ending) ∧
      Interrupted operand log ending) ∨
    ∃ x a m', (observe env fuel operand >>= f) m = (x :: (f a m').1, (f a m').2) ∧
      own [x] = [] ∧ parts [x] = [operand] ∧ results [x] = [(a, m')] ∧
      m'.bus.table = m.bus.table := by
  cases fuel with
  | zero =>
    have hnone : observe env 0 operand m = ([], none) := rfl
    exact Or.inl ⟨[], none, Observed.bind_of_none hnone f, rfl, rfl, List.nil_prefix, by simp⟩
  | succ fuel =>
    have hrecord := observe_record env fuel operand m
    rcases hoperand : exec env (fuel + 1) operand m with _ | ⟨u | a, m'⟩
    · rw [hoperand] at hrecord
      exact Or.inl ⟨_, _, Observed.bind_of_none hrecord f, rfl, rfl, List.prefix_rfl, by simp⟩
    · rw [hoperand] at hrecord
      exact Or.inl ⟨_, _, Observed.bind_of_error hrecord f, rfl, rfl, List.prefix_rfl, by simp⟩
    · rw [hoperand] at hrecord
      exact Or.inr ⟨_, a, m', Observed.bind_of_ok hrecord f, rfl, rfl, rfl, table_of_observe hrecord⟩

/-- Nothing is mapped and the whole fails, or what follows goes on with the earliest window; no event
is caused. -/
theorem window_cases (l : Location) (a : Word) (s : Width) (f : Nat → Observed Word) (m : Machine) :
    (earliest? m.bus.table a s = none ∧
      (findWindow l a s >>= f) m = ([], some (.error (.failure ⟨.noMapping a s, l⟩), m))) ∨
    ∃ k, earliest? m.bus.table a s = some k ∧ (findWindow l a s >>= f) m = f k m := by
  have hlook := Observed.look_apply (fun m => m.bus.find? a s) m
  rw [m.bus.find?_eq_earliest?] at hlook
  cases hk : earliest? m.bus.table a s with
  | none =>
    rw [hk] at hlook
    have hfind : (findWindow l a s : Observed Nat) m =
        ([], some (.error (.failure ⟨.noMapping a s, l⟩), m)) := by
      rw [findWindow, Observed.bind_of_ok hlook]
      rfl
    exact Or.inl ⟨rfl, Observed.bind_of_error hfind f⟩
  | some k =>
    rw [hk] at hlook
    have hfind : (findWindow l a s : Observed Nat) m = ([], some (.ok k, m)) := by
      rw [findWindow, Observed.bind_of_ok hlook]
      rfl
    exact Or.inr ⟨k, rfl, by simp [Observed.bind_of_ok hfind]⟩

/-- An access through a window of the table is one event; the whole fails if it faults, and what
follows goes on otherwise. -/
theorem access_cases (l : Location) {k : Nat} {m : Machine}
    (hk : k < m.bus.table.length) (a : Access) (f : Word → Observed Word) :
    (m.bus.faults k a = true ∧ ∃ m', (access l k a >>= f) m =
      ([.event (.access k a)], some (.error (.failure ⟨.busError a.address a.width, l⟩), m'))) ∨
    m.bus.faults k a = false ∧ ∃ w m', m'.bus.table = m.bus.table ∧
      (access l k a >>= f) m = (.event (.access k a) :: (f w m').1, (f w m').2) := by
  have hact : (act (·.access k a) : Observed Word) m =
      ([.event (.access k a)],
        some (.ok (m.access k a).1, (m.access k a).2)) := by
    have hseen : m.seen (m.access k a).2 = [.access k a] :=
      (Effect.access k a).seen_apply m
    rw [Observed.act_apply, hseen, List.map_singleton]
  have hfailed : (m.access k a).2.bus.failed k = m.bus.faults k a :=
    m.bus.failed_perform (m.bus.length_table ▸ hk) a
  have hlook := Observed.look_apply (·.bus.failed k) (m.access k a).2
  rw [hfailed] at hlook
  cases hfaults : m.bus.faults k a with
  | true =>
    rw [hfaults] at hlook
    have haccess : (access l k a : Observed Word) m = ([.event (.access k a)],
        some (.error (.failure ⟨.busError a.address a.width, l⟩), (m.access k a).2)) := by
      rw [access, Observed.bind_of_ok hact, Observed.bind_of_ok hlook]
      rfl
    exact Or.inl ⟨rfl, _, Observed.bind_of_error haccess f⟩
  | false =>
    rw [hfaults] at hlook
    have haccess : (access l k a : Observed Word) m = ([.event (.access k a)],
        some (.ok (m.access k a).1, (m.access k a).2)) := by
      rw [access, Observed.bind_of_ok hact, Observed.bind_of_ok hlook]
      rfl
    exact Or.inr ⟨rfl, _, _, (Effect.access k a).table_apply m,
      Observed.bind_of_ok haccess f⟩

theorem lt_length_of_earliest? {table : List Window} {a : Word} {s : Width} {k : Nat}
    (h : earliest? table a s = some k) : k < table.length :=
  (List.findIdx?_eq_some_iff_getElem.mp h).1

/-! ## Peeks and pokes -/

/-- A node whose operand ends it has issued nothing. -/
theorem Interrupted.lawful {table : List Window} {node operand : Node} {log : List Activity}
    {ending : Ending Word} (h : Interrupted operand log ending) (before : List Activity)
    (hown : Activity.own before = [])
    (hissues : node.issues table (Activity.results before) = [])
    (hparts : Activity.parts before ++ [operand] <+: node.children) :
    node.Lawful table (before ++ log) ending := by
  have hquiet : Activity.own (before ++ log) = [] := by simp [hown, h.own]
  refine ⟨?_, fun _ => ?_, fun w m hok => absurd hok (h.ending w m), fun _ _ _ _ _ => hquiet⟩
  · rw [hquiet, results_append, h.results, List.append_nil, hissues]
  · rw [parts_append]
    exact ((List.prefix_append_right_inj _).mpr h.parts).trans hparts

/-- A node that has evaluated its operands and then causes the events that belong to their values. -/
theorem Node.Lawful.of_operands {table : List Window} {node : Node} {operands : List Activity}
    {ending : Ending Word} (hown : own operands = []) (hparts : parts operands <+: node.children)
    {events : List BusEvent} (hissues : node.issues table (results operands) = events)
    (hcomplete : ∀ w m, ending = some (.ok w, m) → events.length = node.accesses)
    (hunmapped : ∀ a s l m, ending = some (.error (.failure ⟨.noMapping a s, l⟩), m) →
      events = []) : node.Lawful table (operands ++ events.map .event) ending where
  issued := by simp [hown, hissues]
  operands _ := by simpa using hparts
  complete w m hok := by simpa [hown] using hcomplete w m hok
  unmapped a s l m hfail := by simpa [hown] using hunmapped a s l m hfail

section

variable {env : Environment} {fuel : Nat} {l : Location} {address value : Node} {width : Width}
  {m : Machine} {inner : List Activity} {ending : Ending Word}

/-- A node that makes one access once its operands are evaluated. -/
theorem Node.lawful_of_access {node : Node} {table : List Window} (operands : List Activity)
    (hown : own operands = []) (hparts : parts operands <+: node.children)
    (htable : m.bus.table = table) {a : Access} (haccesses : node.accesses = 1)
    (hissues : node.issues table (results operands) =
      (earliest? table a.address a.width).toList.map (.access · a))
    (result : Word → Word) {log : List Activity}
    (h : (do
      let k ← findWindow l a.address a.width
      let w ← access l k a
      return result w : Observed Word) m = (log, ending)) :
    node.Lawful table (operands ++ log) ending := by
  subst htable
  rcases window_cases l a.address a.width _ m with ⟨hk, hrun⟩ | ⟨k, hk, hrun⟩
  · rw [hrun] at h
    cases h
    rw [hk] at hissues
    exact .of_operands hown hparts hissues (by simp) fun _ _ _ _ _ => rfl
  rw [hrun] at h
  rw [hk] at hissues
  rcases access_cases l (lt_length_of_earliest? hk) a _ with
    ⟨-, last, hrun⟩ | ⟨-, w, last, -, hrun⟩
  · rw [hrun] at h
    cases h
    exact .of_operands hown hparts hissues (by simp) (by simp)
  · rw [hrun] at h
    cases h
    exact .of_operands hown hparts hissues (fun _ _ _ => haccesses.symm) fun _ _ _ _ h => by cases h

theorem Node.lawful_peek (h : inside env fuel (.peek l address width) m = (inner, ending)) :
    (Node.peek l address width).Lawful m.bus.table inner ending := by
  unfold inside at h
  rw [Observed.bind_of_ok (Observed.emit_apply _ m)] at h
  simp only [Node.step] at h
  rcases operand_cases env fuel address _ _ with
    ⟨log, last, hrun, hstuck⟩ | ⟨x, a, m₁, hrun, hown, hparts, hresults, htable⟩
  · rw [hrun] at h
    cases h
    exact hstuck.lawful [] rfl rfl (by simp [parts, children])
  · rw [hrun] at h
    cases h
    exact lawful_of_access [x] (a := ⟨.read, a, width⟩) hown (by simp [hparts, children]) htable rfl
      (by simp [hresults, issues]) _ rfl

/-- A node that makes two accesses through one window once its operands are evaluated, the second one
unless the first one faulted. -/
theorem Node.lawful_of_two_accesses {node : Node} {table : List Window} (operands : List Activity)
    (hown : own operands = []) (hparts : parts operands <+: node.children)
    (htable : m.bus.table = table) {k : Nat} (hk : k < table.length) {first second : Access}
    (haccesses : node.accesses = 2)
    (hissues : node.issues table (results operands) =
      .access k first :: if m.bus.faults k first then [] else [.access k second])
    {log : List Activity}
    (h : (do
      let _ ← access l k first
      let _ ← access l k second
      return 0 : Observed Word) m = (log, ending)) :
    node.Lawful table (operands ++ log) ending := by
  subst htable
  rcases access_cases l hk first _ with
    ⟨hfaults, last, hrun⟩ | ⟨hfaults, w, m₁, htable₁, hrun⟩
  · rw [hrun] at h
    cases h
    rw [hfaults] at hissues
    exact .of_operands hown hparts hissues (by simp) (by simp)
  rw [hrun] at h
  rw [hfaults] at hissues
  rcases access_cases l (htable₁ ▸ hk) second _ with
    ⟨-, last, hrun⟩ | ⟨-, w', last, -, hrun⟩
  · rw [hrun] at h
    cases h
    exact .of_operands hown hparts hissues (by simp) (by simp)
  · rw [hrun] at h
    cases h
    exact .of_operands hown hparts hissues (fun _ _ _ => haccesses.symm) fun _ _ _ _ h => by cases h

/-- A poke with a mask, once its address and its value are known.  The window is looked for before the
mask is evaluated, which leaves the table as it is. -/
theorem Node.lawful_of_mask {mask : Node} {table : List Window} (before : List Activity)
    (hown : own before = []) (hparts : parts before = [address, value]) {a v : Word} {m₁ : Machine}
    (hresults : results before = [(a, m₁), (v, m)]) (htable : m.bus.table = table)
    {log : List Activity}
    (h : (do
      let k ← findWindow l a width
      let mask ← observe env fuel mask
      let _ ← access l k ⟨.clearBits (width.truncate mask), a, width⟩
      let _ ← access l k ⟨.setBits (width.truncate v &&& width.truncate mask), a, width⟩
      return 0 : Observed Word) m = (log, ending)) :
    (Node.poke l address value (some mask) width).Lawful table (before ++ log) ending := by
  have hfew : (Node.poke l address value (some mask) width).issues table (results before) = [] := by
    simp [hresults, issues]
  rcases window_cases l a width _ m with ⟨hk, hrun⟩ | ⟨k, hk, hrun⟩
  · rw [hrun] at h
    cases h
    exact .of_operands hown (by simp [hparts, children]) hfew (by simp) fun _ _ _ _ _ => rfl
  rw [htable] at hk
  rw [hrun] at h
  rcases operand_cases env fuel mask _ m with
    ⟨log, last, hrun, hstuck⟩ | ⟨y, bits, m₃, hrun, hyown, hyparts, hyresults, htable₃⟩
  · rw [hrun] at h
    cases h
    exact hstuck.lawful before hown hfew (by simp [hparts, children])
  rw [hrun] at h
  cases h
  have hissues : (Node.poke l address value (some mask) width).issues table
      (results (before ++ [y])) = .access k ⟨.clearBits (width.truncate bits), a, width⟩ ::
        if m₃.bus.faults k ⟨.clearBits (width.truncate bits), a, width⟩ then []
        else [.access k ⟨.setBits (width.truncate v &&& width.truncate bits), a, width⟩] := by
    rw [results_append, hresults, hyresults, List.cons_append, List.cons_append, List.nil_append,
      issues, hk, Width.truncate_and]
  rw [List.append_cons]
  exact lawful_of_two_accesses (before ++ [y]) (by simp [hown, hyown])
    (by simp [hparts, hyparts, children]) (htable₃.trans htable) (lt_length_of_earliest? hk) rfl
    hissues rfl

theorem Node.lawful_poke {mask : Option Node}
    (h : inside env fuel (.poke l address value mask width) m = (inner, ending)) :
    (Node.poke l address value mask width).Lawful m.bus.table inner ending := by
  unfold inside at h
  rw [Observed.bind_of_ok (Observed.emit_apply _ m)] at h
  simp only [Node.step] at h
  rcases operand_cases env fuel address _ _ with
    ⟨log, last, hrun, hstuck⟩ | ⟨x, a, m₁, hrun, hxown, hxparts, hxresults, htable⟩
  · rw [hrun] at h
    cases h
    exact hstuck.lawful [] rfl (by cases mask <;> rfl) (by simp [parts, children])
  have htable₁ : m₁.bus.table = m.bus.table := htable
  rw [hrun] at h
  rcases operand_cases env fuel value _ m₁ with
    ⟨log, last, hrun, hstuck⟩ | ⟨y, v, m₂, hrun, hyown, hyparts, hyresults, htable'⟩
  · rw [hrun] at h
    cases h
    have hfew : (Node.poke l address value mask width).issues m.bus.table (results [x]) = [] := by
      cases mask <;> simp [hxresults, issues]
    exact hstuck.lawful [x] hxown hfew (by simp [hxparts, children])
  have htable₂ : m₂.bus.table = m.bus.table := htable'.trans htable₁
  have hown : own ([x] ++ [y]) = [] := by rw [own_append, hxown, hyown, List.append_nil]
  have hparts : parts ([x] ++ [y]) = [address, value] := by
    rw [parts_append, hxparts, hyparts, List.singleton_append]
  have hresults : results ([x] ++ [y]) = [(a, m₁), (v, m₂)] := by
    rw [results_append, hxresults, hyresults, List.singleton_append]
  rw [hrun] at h
  cases mask with
  | none =>
    cases h
    have hprefix : parts ([x] ++ [y]) <+: (Node.poke l address value none width).children := by
      rw [hparts]
      exact List.prefix_rfl
    exact lawful_of_access ([x] ++ [y]) (a := ⟨.write (width.truncate v), a, width⟩) hown hprefix
      htable₂ rfl (by rw [hresults, issues]) _ rfl
  | some mask =>
    cases h
    exact lawful_of_mask ([x] ++ [y]) hown hparts hresults htable₂ rfl

theorem Node.lawful_of_inside {node : Node} (h : inside env fuel node m = (inner, ending)) :
    node.Lawful m.bus.table inner ending := by
  cases node with
  | peek => exact lawful_peek h
  | poke => exact lawful_poke h
  | _ => exact lawful_of_accesses_eq_zero rfl h _

end

/-! ## Registered windows -/

/-- The window has addresses and does not reach past the address space. -/
def Window.Registered (w : Window) : Prop :=
  0 < w.length.toNat ∧ w.base.toNat + w.length.toNat < UInt64.size

theorem Bus.registered_of_request {b : Bus} {start length : Word} {device : String} {w : Window}
    (h : b.request start length device = .mapped w) : w.Registered := by
  unfold Bus.request at h
  split at h
  · cases h
  split at h
  · cases h
  split at h
  · cases h
  split at h
  · cases h
  rename_i hnonempty hfits _ _
  cases h
  have hpos : length.toNat ≠ 0 := fun hzero => hnonempty (UInt64.toNat_inj.mp hzero)
  exact ⟨Nat.pos_of_ne_zero hpos, Nat.lt_of_not_le hfits⟩

/-- Every window of the bus has addresses and does not reach past the address space. -/
def Bus.Sound (b : Bus) : Prop := ∀ w ∈ b.table, w.Registered

theorem Bus.Sound.of_table {b b' : Bus} (h : b.Sound) (htable : b'.table = b.table) : b'.Sound := by
  unfold Bus.Sound
  rwa [htable]

theorem Bus.Sound.addWindow {b : Bus} (h : b.Sound) {w : Window} (hw : w.Registered) :
    (b.addWindow w).Sound := by
  intro other hother
  simp only [Bus.table, Bus.addWindow, List.map_append, List.map_singleton, List.mem_append,
    List.mem_singleton] at hother
  rcases hother with hother | rfl
  · exact h other hother
  · exact hw

namespace System

variable {s s' : System}

theorem sound_of_trace (h : s.machine.bus.Sound)
    (hmachine : ∃ trace, s'.machine = s.machine.withTrace trace) : s'.machine.bus.Sound := by
  obtain ⟨trace, hmachine⟩ := hmachine
  rw [hmachine]
  exact h

theorem sound_noteRequest (h : s.machine.bus.Sound) (start length : Word) (device : String) :
    (s.noteRequest start length device).machine.bus.Sound := by
  unfold noteRequest
  split
  · exact h
  · exact h

theorem sound_map (h : s.machine.bus.Sound) {start length : Word} {device : String}
    (hmap : s.map start length device = .ok s') : s'.machine.bus.Sound := by
  unfold map at hmap
  dsimp only at hmap
  split at hmap
  · cases hmap
  · cases hmap
  · cases hmap
    exact h
  · rename_i w hmapped
    cases hmap
    rw [hmapped]
    exact h.addWindow (Bus.registered_of_request hmapped)

theorem Move.sound (h : Move s s') (hs : s.machine.bus.Sound) : s'.machine.bus.Sound := by
  cases h with
  | trace => exact hs
  | plain h => exact sound_of_trace hs (assignable?_eq_some h).2
  | static h => exact sound_of_trace hs (newStatic?_eq_some h).2
  | cell => exact hs
  | constant w h =>
    have hmade := sound_of_trace hs (newConstant?_eq_some h).2
    exact hmade
  | request => exact sound_noteRequest hs _ _ _
  | map h => exact sound_map hs h
  | begin => exact hs

theorem Moves.sound (h : Moves s s') (hs : s.machine.bus.Sound) : s'.machine.bus.Sound := by
  induction h with
  | refl => exact hs
  | tail _ hmove ih => exact hmove.sound ih

end System

namespace World

variable {w w' : World}

theorem Step.sound (h : w.Step w') (hw : w.machine.bus.Sound) : w'.machine.bus.Sound := by
  cases h with
  | construct hx =>
    have hmoves : System.Moves w.system (stateAfter _) := hx.leads w.system
    unfold World.machine
    rw [after_system]
    exact hmoves.sound hw
  | move hmove => exact hmove.sound hw
  | newConstant hmade => exact System.sound_of_trace hw (System.newConstant?_eq_some hmade).2
  | finish _ hfinish =>
    obtain ⟨-, -, _, rfl⟩ := System.finish?_eq_some hfinish
    exact hw
  | drop hdrop =>
    obtain rfl := System.drop?_eq_some hdrop
    exact hw
  | @execute node fuel r m _ hexec =>
    have hobserve : (observe w.env fuel node w.machine).2 = some (r, m) := by
      rw [observe_endsAs, hexec]
    exact hw.of_table (table_of_observe (Prod.ext rfl hobserve))
  | @outside m _ hwindows =>
    have htable : m.bus.table = w.machine.bus.table := by rw [Bus.table, hwindows, Bus.table]
    exact hw.of_table htable
  | obtain | assign | finishFails | abandon | hold | release => exact hw

theorem Reached.sound (h : w.Reached) : w.machine.bus.Sound :=
  h.induction (fun _ _ _ _ _ _ hnone => absurd hnone List.not_mem_nil) fun hw hstep => hstep.sound hw

end World

/-! ## Executions -/

/-- The event is an access that lies in the address space, through a window of the table that contains
all of its bytes; no window before it does. -/
def BusEvent.Contained (table : List Window) (e : BusEvent) : Prop :=
  ∃ k a, e = .access k a ∧ (∃ window, table[k]? = some window ∧
      window.base.toNat ≤ a.address.toNat ∧
      a.address.toNat + a.width.bytes ≤ window.base.toNat + window.length.toNat ∧
      window.base.toNat + window.length.toNat < UInt64.size) ∧
    ∀ j < k, ∀ other, table[j]? = some other →
      ¬ (other.base.toNat ≤ a.address.toNat ∧
        a.address.toNat + a.width.bytes ≤ other.base.toNat + other.length.toNat)

theorem BusEvent.contained_of_mem_issues {b : Bus} (hb : b.Sound) {node : Node}
    {values : List (Word × Machine)} {e : BusEvent} (h : e ∈ node.issues b.table values) :
    e.Contained b.table := by
  obtain ⟨k, a, rfl, hk⟩ := Node.earliest?_of_mem_issues h
  obtain ⟨window, hwindow, hcontains, hbefore⟩ := earliest?_eq_some hk
  obtain ⟨hlow, hhigh⟩ := (window.contains_iff a.address a.width).mp hcontains
  have hregistered : window.Registered := hb window (List.mem_of_getElem? hwindow)
  refine ⟨k, a, rfl, ⟨window, hwindow, hlow, hhigh, hregistered.2⟩, fun j hj other hother hin => ?_⟩
  have hcovers := (other.contains_iff a.address a.width).mpr hin
  rw [hbefore j hj other hother] at hcovers
  cases hcovers

/-- An execution of a node, together with its record, respects the rules of access. -/
structure Orderly (env : Environment) (fuel : Nat) (root : Node) (m : Machine) : Prop where
  /-- The record is one of the execution. -/
  faithful : (observe env fuel root m).2 = exec env fuel root m
  /-- The devices see exactly the events of the record. -/
  traffic : ∀ r m', exec env fuel root m = some (r, m') →
    m'.traffic = (allEvents (observe env fuel root m).1).reverse ++ m.traffic
  /-- The mapping table stays as it is. -/
  table : ∀ r m', exec env fuel root m = some (r, m') → m'.bus.table = m.bus.table
  /-- Every event was caused by one of the nodes that were executed. -/
  caused : ∀ e ∈ allEvents (observe env fuel root m).1, ∃ node start inner ending,
    Occurs (.execution node start inner ending) (observe env fuel root m).1 ∧ e ∈ own inner
  /-- Every node that was executed found the table as it was, caused the events that belong to the
  values of its operands, and each of them is an access to the earliest window that contains it. -/
  lawful : ∀ {node : Node} {start : Machine} {inner : List Activity} {ending : Ending Word},
    Occurs (.execution node start inner ending) (observe env fuel root m).1 →
    start.bus.table = m.bus.table ∧ node.Lawful m.bus.table inner ending ∧
      ∀ e ∈ own inner, e.Contained m.bus.table

/-- Every execution of every node, in every world that can be reached, respects the rules of
access. -/
theorem World.Reached.orderly {w : World} (h : w.Reached) (fuel : Nat) (root : Node) :
    Orderly w.env fuel root w.machine where
  faithful := observe_endsAs w.env fuel root w.machine
  traffic r m' hexec := by
    have htraffic := observe_traffic w.env fuel root w.machine
    rw [observe_endsAs w.env fuel root w.machine, hexec] at htraffic
    exact htraffic m' rfl
  table r m' hexec := by
    have hobserve : (observe w.env fuel root w.machine).2 = some (r, m') := by
      rw [observe_endsAs, hexec]
    exact table_of_observe (Prod.ext rfl hobserve)
  caused e he := by
    rcases caused_of_mem_allEvents _ he with howned | hcaused
    · cases fuel with
      | zero => cases howned
      | succ fuel => cases howned
    · exact hcaused
  lawful {node start inner ending} hoccurs := by
    have hstart : start.bus.table = w.machine.bus.table :=
      (observe_table w.env fuel root _ w.machine rfl).1 hoccurs
    obtain ⟨less, hinside⟩ := inside_of_occurs w.env fuel root w.machine hoccurs
    have hlawful : node.Lawful w.machine.bus.table inner ending :=
      hstart ▸ Node.lawful_of_inside hinside
    refine ⟨hstart, hlawful, fun e he => ?_⟩
    rw [hlawful.issued] at he
    exact BusEvent.contained_of_mem_issues h.sound he

/-- The world with a range that is mapped, if it can be. -/
def World.map (w : World) (start length : Word) (device : String) : World :=
  w.withSystem ((w.system.map start length device).toOption.getD w.system)

theorem World.steps_map (w : World) (start length : Word) (device : String) :
    w.Steps (w.map start length device) := by
  unfold World.map
  cases h : w.system.map start length device with
  | error e => exact .refl
  | ok s => exact .single (.move (.map h))

/-- A new session in which a range is mapped, and then another one that overlaps it. -/
def World.overlapping : World :=
  ((World.opened .w32 [] (.simulated {}) false false).map 0x1000 0x10 "dev").map 0x1008 0x10 "dev"

/-- A poke to a register that lies in both ranges, with a mask that is made of another register. -/
def maskedPoke : Node :=
  let l := Location.unknown
  let mask : Node := .binary l .bitOr (.peek l (.literal l 0x1010) .w32) (.literal l 0xff)
  .poke l (.literal l 0x1008) (.literal l 0x12345678) (some mask) .w32

/-- The mask is read through the second window, and the register is changed through the first. -/
theorem World.overlapping_orderly :
    overlapping.Reached ∧ Orderly overlapping.env 4 maskedPoke overlapping.machine ∧
      allEvents (observe overlapping.env 4 maskedPoke overlapping.machine).1 =
        [.access 1 ⟨.read, 0x1010, .w32⟩, .access 0 ⟨.clearBits 0xff, 0x1008, .w32⟩,
          .access 0 ⟨.setBits 0x78, 0x1008, .w32⟩] := by
  have hreached : overlapping.Reached :=
    ⟨.w32, [], .simulated {}, false, false, (steps_map _ _ _ _).trans (steps_map _ _ _ _)⟩
  exact ⟨hreached, hreached.orderly 4 maskedPoke, by rfl⟩

end PeekPoke
