import PeekPoke.Proofs.Activity
import PeekPoke.Proofs.Failures
import PeekPoke.Proofs.Transition
set_option autoImplicit false

/-!
# Print statements

What a print statement does, from its items to the output.  Output only grows
(`Transition.printing`), so the text that an execution prints can be told from the sinks before and after
it.  Main statement: every print statement that was built evaluates its expressions from left to right
and, if all of them have values, prints its text in one piece; if one of them unwinds, so does the
statement, at once and without a text of its own (`Build.printsAtOnce`).

More fuel changes nothing about an execution that ends, or about its record (`Executed.observe_eq`).  So
the statement has no fuel in it: it says which executions of a print statement there are by the
executions of its expressions (`executed_print_iff`).
-/

namespace PeekPoke

open MonadScript

/-! ## Records and fuel -/

/-- Wherever `x` finishes, `y` does the same. -/
def Observed.Refines {α : Type} (x y : Observed α) : Prop := ∀ m, (x m).2 = none ∨ x m = y m

namespace Observed.Refines

variable {α β : Type} {x y : Observed α}

theorem refl (x : Observed α) : x.Refines x := fun _ => Or.inr rfl

theorem eq_of_end (h : x.Refines y) {m : Machine} {log : List Activity}
    {ending : Except Unwind α × Machine} (hx : x m = (log, some ending)) :
    y m = (log, some ending) := by
  rcases h m with hnone | hsame
  · rw [hx] at hnone
    cases hnone
  · rw [← hsame, hx]

theorem bind {f g : α → Observed β} (hx : x.Refines y) (hf : ∀ a, (f a).Refines (g a)) :
    (x >>= f).Refines (y >>= g) := by
  intro m
  rcases hxm : x m with ⟨log, _ | ⟨u | a, m'⟩⟩
  · exact Or.inl (by rw [Observed.bind_of_none hxm])
  · have hy := hx.eq_of_end hxm
    exact Or.inr (by rw [Observed.bind_of_error hxm, Observed.bind_of_error hy])
  · have hy := hx.eq_of_end hxm
    rw [Observed.bind_of_ok hxm, Observed.bind_of_ok hy]
    rcases hf a m' with h | h
    · exact Or.inl h
    · exact Or.inr (by rw [h])

theorem ending (h : x.Refines y)
    (settle : Except Unwind α → Machine → Except Unwind β × Machine) :
    Observed.Refines (MonadScript.ending x settle : Observed β) (MonadScript.ending y settle) := by
  intro m
  rw [Observed.ending_apply, Observed.ending_apply]
  rcases h m with h | h
  · exact Or.inl (by rw [h]; rfl)
  · exact Or.inr (by rw [h])

end Observed.Refines

/-- Refinement of records, as a simulation. -/
def Observed.refinement : Simulation Observed Observed where
  allows _ := True
  rel := Observed.Refines
  pure _ := Observed.Refines.refl _
  bind := Observed.Refines.bind
  unfinished := Observed.Refines.refl _
  raise _ := Observed.Refines.refl _
  effect _ _ := Observed.Refines.refl _
  bracket _ h := Observed.Refines.bind (Observed.Refines.refl _) fun _ => h.ending _
  settle _ h := h.ending _

theorem Observed.refinement_lax : Observed.refinement.Lax := fun _ _ => trivial

theorem observe_refines (env : Environment) {fuel fuel' : Nat} (h : fuel ≤ fuel') (node : Node) :
    (observe env fuel node).Refines (observe env fuel' node) := by
  induction fuel generalizing fuel' node with
  | zero => exact fun _ => Or.inl rfl
  | succ fuel ih =>
    cases fuel' with
    | zero => exact absurd h (Nat.not_succ_le_zero fuel)
    | succ fuel' =>
      have hle : fuel ≤ fuel' := Nat.le_of_succ_le_succ h
      have hinside : Observed.Refines (inside env fuel node) (inside env fuel' node) :=
        Observed.Refines.bind (Observed.Refines.refl _) fun _ =>
          Observed.refinement_lax.step_rel env (fun child => ih hle child)
            (Or.inr ⟨hle, fun _ _ => Or.inl rfl⟩) node
      intro m
      rw [observe_succ, observe_succ]
      rcases hinside m with h | h
      · exact Or.inl h
      · exact Or.inr (by unfold Observed.enclose; rw [h])

/-- The execution of a node ends, and this is what happens during it. -/
def Executed (env : Environment) (node : Node) (m : Machine) (inner : List Activity)
    (r : Except Unwind Word) (last : Machine) : Prop :=
  ∃ fuel, exec env fuel node m = some (r, last) ∧
    (observe env fuel node m).1 = [.execution node m inner (some (r, last))]

section

variable {env : Environment} {node : Node} {m last : Machine} {inner : List Activity}
  {r : Except Unwind Word}

/-- Some fuel is enough, and so is all above it. -/
theorem Executed.observe_eq (h : Executed env node m inner r last) :
    ∃ enough, ∀ fuel, enough ≤ fuel →
      observe env fuel node m = ([.execution node m inner (some (r, last))], some (r, last)) := by
  obtain ⟨enough, hexec, hrecord⟩ := h
  have hobserve : observe env enough node m =
      ([.execution node m inner (some (r, last))], some (r, last)) :=
    Prod.ext hrecord ((observe_endsAs env enough node m).trans hexec)
  exact ⟨enough, fun fuel hle => (observe_refines env hle node).eq_of_end hobserve⟩

/-- Whatever is recorded with an ending has a record of one execution. -/
theorem executed_of_observe {fuel : Nat} {log : List Activity}
    (h : observe env fuel node m = (log, some (r, last))) :
    ∃ inner, Executed env node m inner r last ∧ log = [.execution node m inner (some (r, last))] := by
  have hexec : exec env fuel node m = some (r, last) := by
    rw [← observe_endsAs env fuel node m, h]
  obtain ⟨inner, hrecord⟩ := observe_of_exec hexec
  rw [h] at hrecord
  exact ⟨inner, ⟨fuel, hexec, by rw [h, hrecord]⟩, hrecord⟩

theorem executed_iff :
    Executed env node m inner r last ↔ ∃ fuel, inside env fuel node m = (inner, some (r, last)) := by
  constructor
  · rintro ⟨fuel, hexec, hrecord⟩
    cases fuel with
    | zero => cases hexec
    | succ fuel =>
      have hend : (inside env fuel node m).2 = some (r, last) :=
        (observe_endsAs env (fuel + 1) node m).trans hexec
      rw [observe_record] at hrecord
      obtain ⟨-, -, hinner, -⟩ := Activity.execution.inj (List.singleton_inj.mp hrecord)
      exact ⟨fuel, Prod.ext hinner hend⟩
  · rintro ⟨fuel, hinside⟩
    have hobserve : observe env (fuel + 1) node m =
        ([.execution node m inner (some (r, last))], some (r, last)) := by
      rw [observe_succ, Observed.enclose, hinside]
    refine ⟨fuel + 1, ?_, ?_⟩
    · rw [← observe_endsAs env (fuel + 1) node m, hobserve]
    · rw [hobserve]

end

/-! ## Output -/

namespace Sink

theorem print_empty (s : Sink) : s.print "" = s := by
  cases s with
  | collect sofar => rw [print, String.append_empty]
  | discard => rfl

theorem print_print (s : Sink) (first second : String) :
    (s.print first).print second = s.print (first ++ second) := by
  cases s with
  | collect sofar => rw [print, print, print, String.append_assoc]
  | discard => rfl

end Sink

/-- Nothing that was printed is taken back: there is a text by which the output has grown. -/
theorem Transition.printing : Transition fun m m' => ∃ text, m'.sink = m.sink.print text where
  refl m := ⟨"", m.sink.print_empty.symm⟩
  trans := by
    rintro a b c ⟨first, hfirst⟩ ⟨second, hsecond⟩
    exact ⟨first ++ second, by rw [hsecond, hfirst, Sink.print_print]⟩
  effect e m := by
    cases e with
    | print text => exact ⟨text, rfl⟩
    | _ => exact ⟨"", m.sink.print_empty.symm⟩
  bracket b m m' h := by
    obtain ⟨stores, trace, henter⟩ := b.enter_eq m
    obtain ⟨stores', trace', hleave⟩ := b.leave_eq m'
    rw [henter] at h
    rw [hleave]
    exact h

/-- An execution that ends prints some text. -/
theorem Executed.grows {env : Environment} {node : Node} {m last : Machine} {inner : List Activity}
    {r : Except Unwind Word} (h : Executed env node m inner r last) :
    ∃ text, last.sink = m.sink.print text := by
  obtain ⟨fuel, hexec, -⟩ := h
  exact Transition.printing.exec hexec

/-! ## Expressions one after the other -/

/-- The evaluation of expressions ends like this: they are executed from left to right, each from the
machine that the one before it left behind, until one unwinds or there are none left.  `texts` is what
each of them prints itself. -/
inductive OperandsRun (env : Environment) :
    List Node → Machine → List Activity → List String → Except Unwind (List Word) → Machine → Prop where
  | done {m : Machine} : OperandsRun env [] m [] [] (.ok []) m
  | unwound {expr : Node} {rest : List Node} {m last : Machine} {inner : List Activity} {text : String}
      {u : Unwind} :
      Executed env expr m inner (.error u) last → last.sink = m.sink.print text →
      OperandsRun env (expr :: rest) m [.execution expr m inner (some (.error u, last))] [text]
        (.error u) last
  | next {expr : Node} {rest : List Node} {m next last : Machine} {inner log : List Activity}
      {text : String} {texts : List String} {w : Word} {r : Except Unwind (List Word)} :
      Executed env expr m inner (.ok w) next → next.sink = m.sink.print text →
      OperandsRun env rest next log texts r last →
      OperandsRun env (expr :: rest) m (.execution expr m inner (some (.ok w, next)) :: log)
        (text :: texts) (r.map (w :: ·)) last

/-- The output grows by what the expressions print themselves, in their order. -/
theorem OperandsRun.sink_eq {env : Environment} {exprs : List Node} {m last : Machine}
    {log : List Activity} {texts : List String} {r : Except Unwind (List Word)}
    (h : OperandsRun env exprs m log texts r last) : last.sink = m.sink.print (String.join texts) := by
  induction h with
  | done => exact (Sink.print_empty _).symm
  | unwound _ hsink => rw [hsink, String.join_cons, String.join_nil, String.append_empty]
  | next _ hsink _ ih => rw [ih, hsink, Sink.print_print, String.join_cons]

/-! ## The text of a print statement -/

/-- The texts of the parts of a print statement whose expressions have these values. -/
def PrintPart.texts : List (PrintPart Node) → List Word → List String
  | [], _ => []
  | .text fixed :: rest, ws => fixed :: texts rest ws
  | .value _ style width :: rest, w :: ws => style.render width w :: texts rest ws
  | .value _ _ _ :: _, [] => []

/-- The text after `sofar` when the expressions of the parts have these values. -/
def PrintPart.textAfter (sofar : String) (parts : List (PrintPart Node)) (ws : List Word) : String :=
  sofar ++ String.join (texts parts ws)

section

variable {env : Environment} {parts : List (PrintPart Node)} {m last : Machine}
  {log : List Activity} {texts : List String} {r' : Except Unwind (List Word)}

theorem PrintPart.textAfter_text (sofar fixed : String) (rest : List (PrintPart Node)) :
    textAfter sofar (.text fixed :: rest) = textAfter (sofar ++ fixed) rest := by
  funext ws
  rw [textAfter, textAfter, texts, String.join_cons, String.append_assoc]

theorem PrintPart.map_textAfter_value (sofar : String) (expr : Node) (style : Style) (width : Width)
    (rest : List (PrintPart Node)) (w : Word) (r' : Except Unwind (List Word)) :
    r'.map (textAfter (sofar ++ style.render width w) rest) =
      (r'.map (w :: ·)).map (textAfter sofar (.value expr style width :: rest)) := by
  cases r' with
  | error u => rfl
  | ok ws =>
    show Except.ok (textAfter _ rest ws) = Except.ok (textAfter sofar _ (w :: ws))
    rw [textAfter, textAfter, texts, String.join_cons, String.append_assoc]

/-- What the record of the parts says about the evaluation of the expressions. -/
theorem operandsRun_of_evalParts {fuel : Nat} {sofar : String} {r : Except Unwind String}
    (h : evalParts (observe env fuel) sofar parts m = (log, some (r, last))) :
    ∃ texts r', OperandsRun env (parts.filterMap PrintPart.expr?) m log texts r' last ∧
      r = r'.map (PrintPart.textAfter sofar parts) := by
  induction parts generalizing sofar m log r with
  | nil =>
    cases h
    exact ⟨[], .ok [], .done, congrArg Except.ok String.append_empty.symm⟩
  | cons part rest ih =>
    cases part with
    | text fixed =>
      rw [PrintPart.textAfter_text]
      exact ih h
    | value expr style width =>
      unfold evalParts at h
      rcases hexpr : observe env fuel expr m with ⟨log₁, _ | ⟨u | w, next⟩⟩
      · rw [Observed.bind_of_none hexpr] at h
        cases h
      · rw [Observed.bind_of_error hexpr] at h
        cases h
        obtain ⟨inner, hexecuted, rfl⟩ := executed_of_observe hexpr
        obtain ⟨text, hprinted⟩ := hexecuted.grows
        exact ⟨[text], .error u, .unwound hexecuted hprinted, rfl⟩
      · rw [Observed.bind_of_ok hexpr] at h
        obtain ⟨hlog, hrest⟩ := Prod.mk.inj h
        obtain ⟨inner, hexecuted, rfl⟩ := executed_of_observe hexpr
        obtain ⟨text, hprinted⟩ := hexecuted.grows
        obtain ⟨texts, r', heval, rfl⟩ := ih (Prod.ext rfl hrest)
        rw [← hlog]
        refine ⟨text :: texts, r'.map (w :: ·), .next hexecuted hprinted heval, ?_⟩
        exact PrintPart.map_textAfter_value ..

/-- If there is enough fuel for the expressions, there is for the parts. -/
theorem OperandsRun.evalParts_eq (h : OperandsRun env (parts.filterMap PrintPart.expr?) m log texts r' last)
    (sofar : String) :
    ∃ enough, ∀ fuel, enough ≤ fuel → evalParts (observe env fuel) sofar parts m =
      (log, some (r'.map (PrintPart.textAfter sofar parts), last)) := by
  induction parts generalizing sofar m log texts r' with
  | nil =>
    cases h
    exact ⟨0, fun _ _ => by
      rw [evalParts, Except.map, PrintPart.textAfter, PrintPart.texts, String.join_nil,
        String.append_empty]
      rfl⟩
  | cons part rest ih =>
    cases part with
    | text fixed =>
      rw [PrintPart.textAfter_text]
      exact ih h (sofar ++ fixed)
    | value expr style width =>
      cases h with
      | unwound hexecuted hprinted =>
        obtain ⟨enough, hobserve⟩ := hexecuted.observe_eq
        refine ⟨enough, fun fuel hle => ?_⟩
        unfold evalParts
        rw [Observed.bind_of_error (hobserve fuel hle)]
        rfl
      | @next _ _ _ next _ inner log texts text w r' hexecuted hprinted heval =>
        obtain ⟨enough, hobserve⟩ := hexecuted.observe_eq
        -- All expressions are executed with the same fuel, so it is the most that one of them needs.
        obtain ⟨enough', hrest⟩ := ih heval (sofar ++ style.render width w)
        refine ⟨max enough enough', fun fuel hle => ?_⟩
        unfold evalParts
        rw [Observed.bind_of_ok (hobserve fuel (by omega)), hrest fuel (by omega),
          PrintPart.map_textAfter_value]
        rfl

end

/-! ## Executions of print statements -/

/-- How a print statement ends that starts to evaluate its expressions in this machine. -/
inductive PrintRun (env : Environment) (parts : List (PrintPart Node)) (trailing : String)
    (m : Machine) : List Activity → Except Unwind Word → Machine → Prop where
  /-- All expressions have values.  The text of the statement is printed in one piece behind what the
  expressions printed themselves. -/
  | printed {log : List Activity} {texts : List String} {ws : List Word} {ready last : Machine} :
      OperandsRun env (parts.filterMap PrintPart.expr?) m log texts (.ok ws) ready →
      last = ready.print (String.join (PrintPart.texts parts ws) ++ trailing) →
      last.sink = m.sink.print
        (String.join texts ++ (String.join (PrintPart.texts parts ws) ++ trailing)) →
      PrintRun env parts trailing m log (.ok 0) last
  /-- An expression unwinds.  Only what the expressions up to this one did is done, and only what they
  printed themselves is printed. -/
  | unwound {log : List Activity} {texts : List String} {u : Unwind} {last : Machine} :
      OperandsRun env (parts.filterMap PrintPart.expr?) m log texts (.error u) last →
      last.sink = m.sink.print (String.join texts) →
      PrintRun env parts trailing m log (.error u) last

section

variable {env : Environment} {l : Location} {parts : List (PrintPart Node)} {trailing : String}
  {m last : Machine} {log : List Activity} {r : Except Unwind Word}

/-- What is done with the text of the parts, if there is one. -/
def printText (trailing : String) : Except Unwind String × Machine → Except Unwind Word × Machine
  | (.ok text, ready) => (.ok 0, ready.print (text ++ trailing))
  | (.error u, last) => (.error u, last)

theorem inside_print (env : Environment) (fuel : Nat) (l : Location) (parts : List (PrintPart Node))
    (trailing : String) (m : Machine) :
    inside env fuel (.print l parts trailing) m =
      ((evalParts (observe env fuel) "" parts (m.emit (.execute "print" l))).1,
        (evalParts (observe env fuel) "" parts (m.emit (.execute "print" l))).2.map
          (printText trailing)) := by
  rw [inside, Observed.bind_of_ok (Observed.emit_apply _ m), Node.step]
  show ([] ++ _, _) = _
  rcases hparts : evalParts (observe env fuel) "" parts (m.emit (.execute "print" l)) with
    ⟨log, _ | ⟨u | text, ready⟩⟩
  · exact Observed.bind_of_none hparts _
  · exact Observed.bind_of_error hparts _
  · refine (Observed.bind_of_ok hparts _).trans ?_
    have hprint : (change (·.print (text ++ trailing)) : Observed Unit) ready =
        ([], some (.ok (), ready.print (text ++ trailing))) := by
      have hquiet : ready.seen (ready.print (text ++ trailing)) = [] := Machine.seen_of_eq rfl
      show (act fun m => ((), m.print (text ++ trailing)) : Observed Unit) ready = _
      rw [Observed.act_apply, hquiet]
      rfl
    rw [Observed.bind_of_ok hprint]
    show (log ++ ([] ++ []), _) = _
    rw [List.append_nil, List.append_nil]
    rfl

/-- Which executions of a print statement there are. -/
theorem executed_print_iff :
    Executed env (.print l parts trailing) m log r last ↔
      PrintRun env parts trailing (m.emit (.execute "print" l)) log r last := by
  have htext : ∀ ws, PrintPart.textAfter "" parts ws = String.join (PrintPart.texts parts ws) :=
    fun ws => String.empty_append
  rw [executed_iff]
  simp only [inside_print]
  generalize m.emit (.execute "print" l) = start
  constructor
  · rintro ⟨fuel, hinside⟩
    rcases hparts : evalParts (observe env fuel) "" parts start with ⟨log', _ | ⟨r'', ready⟩⟩
    · rw [hparts] at hinside
      cases hinside
    · rw [hparts] at hinside
      obtain ⟨texts, r', heval, rfl⟩ := operandsRun_of_evalParts hparts
      cases r' with
      | error u =>
        cases hinside
        exact .unwound heval heval.sink_eq
      | ok ws =>
        cases hinside
        rw [htext]
        refine .printed heval rfl ?_
        rw [← Sink.print_print, ← heval.sink_eq]
        rfl
  · intro h
    cases h with
    | printed heval hlast hsink =>
      obtain ⟨fuel, hparts⟩ := heval.evalParts_eq ""
      refine ⟨fuel, ?_⟩
      rw [hparts fuel (Nat.le_refl fuel), hlast, ← htext]
      rfl
    | unwound heval hsink =>
      obtain ⟨fuel, hparts⟩ := heval.evalParts_eq ""
      refine ⟨fuel, ?_⟩
      rw [hparts fuel (Nat.le_refl fuel)]
      rfl

end

/-! ## Print statements that are built -/

/-- What an expression becomes as a part of a statement: it stays as it is, or it is constant and
becomes a literal of its value. -/
inductive System.Attaches (s : System) (expr : Node) : Node → Prop where
  | same : s.Attaches expr expr
  | folded {w : Word} : expr.isConstant = true → expr.constantValue s.get = .ok w →
      s.Attaches expr (.literal expr.location w)

/-- What an item of a print statement becomes.  A format without a width takes the default one, and
floats are printed at 64 bits only. -/
inductive PrintItem.Becomes (s : System) : PrintItem Node → PrintPart Node → Prop where
  | text (fixed : String) : Becomes s (.text fixed) (.text fixed)
  | value {expr child : Node} {style : Style} {width? : Option Width} {width : Width} :
      s.Attaches expr child → width = width?.getD s.env.defaultWidth →
      (style = .float → width = .w64) →
      Becomes s (.value expr ⟨style, width?⟩) (.value child style width)

namespace Build

variable {s s₁ s' : System}

theorem attaches_of_attach (hs : s.Intact s₁) {expr child : Node} (h : attach expr s₁ = .ok child s') :
    s.Attaches expr child := by
  have hget : s₁.get = s.get := by
    obtain ⟨trace, asked, hmachine, -⟩ := hs.machine
    funext v
    rw [System.get, hmachine]
    rfl
  unfold attach at h
  rw [EStateM.get_bind] at h
  split at h
  · rename_i hfold
    obtain ⟨w, s₂, hevaluate, h⟩ := EStateM.bind_eq_ok h
    simp only [Bool.and_eq_true] at hfold
    obtain ⟨hvalue, -⟩ := evaluate_eq_ok hfold.1.2 hevaluate
    cases h
    exact .folded hfold.1.2 (hget ▸ hvalue)
  · cases h
    exact .same

/-- The parts are checked and attached one after the other, and nothing that matters to the later ones
changes meanwhile. -/
theorem becomes_of_printParts (hs : s.Intact s₁) {items : List (PrintItem Node)}
    {parts : List (PrintPart Node)} (h : printParts items s₁ = .ok parts s') :
    Matching (PrintItem.Becomes s) items parts := by
  induction items generalizing s₁ parts with
  | nil =>
    cases h
    exact .nil
  | cons item rest ih =>
    cases item with
    | text fixed =>
      obtain ⟨parts, s₂, hrest, h⟩ := EStateM.bind_eq_ok h
      cases h
      exact .cons (.text fixed) (ih hs hrest)
    | value expr format =>
      unfold printParts at h
      rw [EStateM.get_bind] at h
      split at h
      · rename_i hfits
        obtain ⟨child, s₂, hattach, h⟩ := EStateM.bind_eq_ok h
        obtain ⟨parts, s₃, hrest, h⟩ := EStateM.bind_eq_ok h
        cases h
        have hs₂ : s.Intact s₂ := by
          have hquiet := quiet_attach expr s₁
          rw [hattach] at hquiet
          exact hs.trans hquiet
        rw [hs.env] at hfits ⊢
        refine .cons (.value (attaches_of_attach hs hattach) rfl fun hfloat => ?_) (ih hs₂ hrest)
        simpa [PrintFormat.fits, hfloat] using hfits
      · cases h

/-- **Printing.**  A print statement that is built has the parts that its items become, in their order.
In whatever environment and from whatever machine it is executed, it evaluates its expressions from left
to right.  If all have values, its text, the texts of the parts in their order and the trailing text, is
printed in one piece behind what the expressions printed themselves; if one unwinds, the statement
unwinds at once, without executing the others and without a text of its own. -/
theorem printsAtOnce {l : Location} {items : List (PrintItem Node)} {trailing : Option String}
    {node : Node} (h : print l items trailing s = .ok node s') :
    ∃ parts, node = .print l parts (trailing.getD "\n") ∧
      Matching (PrintItem.Becomes s) items parts ∧
      ∀ (env : Environment) (m : Machine) (log : List Activity) (r : Except Unwind Word)
        (last : Machine),
        Executed env node m log r last ↔
          PrintRun env parts (trailing.getD "\n") (m.emit (.execute "print" l)) log r last := by
  obtain ⟨parts, s₁, hparts, hcreate⟩ := EStateM.bind_eq_ok h
  cases hcreate
  refine ⟨parts, rfl, becomes_of_printParts (.refl s) hparts, ?_⟩
  intro env m log r last
  exact executed_print_iff

/-- A statement with a text and a number. -/
theorem number_printsAtOnce :
    print default [.text "x = ", .value (.literal default 7) ⟨.hex, some .w16⟩] none {} =
        .ok (.print default [.text "x = ", .value (.literal default 7) .hex .w16] "\n") {} ∧
      ∃ log last, last.sink = .collect "x = 0x0007\n" ∧
        Executed {} (.print default [.text "x = ", .value (.literal default 7) .hex .w16] "\n") {} log
          (.ok 0) last := by
  have hbuilt : print default [.text "x = ", .value (.literal default 7) ⟨.hex, some .w16⟩] none {} =
      .ok (.print default [.text "x = ", .value (.literal default 7) .hex .w16] "\n") {} := rfl
  obtain ⟨parts, hnode, -, hruns⟩ := printsAtOnce hbuilt
  obtain ⟨-, rfl, -⟩ := Node.print.inj hnode
  have hseven : ∀ m : Machine, Executed {} (.literal default 7) m [] (.ok 7)
      (m.emit (.execute "constant" default)) := by
    intro m
    refine executed_iff.mpr ⟨0, ?_⟩
    rw [inside, Observed.bind_of_ok (Observed.emit_apply _ m)]
    rfl
  refine ⟨hbuilt, _, _, ?_, (hruns {} {} _ _ _).mpr
    (.printed (.next (hseven _) (Sink.print_empty _).symm .done) rfl ?_)⟩
  · decide
  · decide

end Build

end PeekPoke
