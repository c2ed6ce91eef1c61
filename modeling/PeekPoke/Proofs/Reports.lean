import PeekPoke.Error
set_option autoImplicit false

/-!
# The two reports of a diagnostic

A diagnostic is written by itself (`Diagnostic.text`) and for a terminal (`Diagnostic.render`), and the
two are written separately: one puts line breaks before the notes, the other one after the lines.  Main
statement: they agree.  What a terminal is sent without colours is each text and a line break; with
colours it is the same but for the colour around the severity and the code of each diagnostic; and the
report of a failure starts with the one line that tools read (`Diagnostic.reportsAgree`).
-/

namespace PeekPoke

namespace Diagnostic

/-! ## One diagnostic -/

/-- What is written after the severity and the code. -/
def rest (d : Diagnostic) : String :=
  d.notes.foldl (fun t note => t ++ "  = note: " ++ note ++ "\n") (": " ++ d.message ++ "\n")

/-- Notes are added at the end. -/
theorem foldl_notes (front t : String) (notes : List String) :
    notes.foldl (fun t note => t ++ "  = note: " ++ note ++ "\n") (front ++ t) =
      front ++ notes.foldl (fun t note => t ++ "  = note: " ++ note ++ "\n") t := by
  induction notes generalizing t with
  | nil => rfl
  | cons note notes ih =>
    rw [List.foldl_cons, List.foldl_cons, ← ih]
    simp only [String.append_assoc]

theorem render_false (d : Diagnostic) :
    d.render false = d.location.text ++ ": " ++ d.tag ++ d.rest := by
  rw [rest, ← foldl_notes]
  simp [render, String.append_assoc]

theorem render_true (d : Diagnostic) :
    d.render true =
      d.location.text ++ ": " ++ (d.severity.color ++ d.tag ++ colorReset) ++ d.rest := by
  rw [rest, ← foldl_notes]
  simp [render, String.append_assoc]

/-- A line break before each note is one after each line but the last. -/
theorem render_eq_text (d : Diagnostic) : d.render false = d.text ++ "\n" := by
  have hnotes : ∀ (line : String) (notes : List String),
      notes.foldl (fun t note => t ++ "  = note: " ++ note ++ "\n") (line ++ "\n") =
        notes.foldl (fun t note => t ++ "\n  = note: " ++ note) line ++ "\n" := by
    intro line notes
    induction notes generalizing line with
    | nil => rfl
    | cons note notes ih =>
      have hbreak : line ++ "\n" ++ "  = note: " = line ++ "\n  = note: " := by
        rw [String.append_assoc]
        rfl
      rw [List.foldl_cons, List.foldl_cons, ← ih, hbreak]
  exact hnotes _ d.notes

/-! ## Many diagnostics -/

/-- The second text is the first one with colours: in the line of each diagnostic the severity and the
code, which follow the location, are wrapped in the colour of the severity. -/
inductive Colored : List Diagnostic → String → String → Prop where
  | nil : Colored [] "" ""
  | cons {d : Diagnostic} {ds : List Diagnostic} {rest plain colored : String} :
      d.text ++ "\n" =
        d.location.text ++ ": " ++ (d.severity.text ++ "[" ++ d.code.text ++ "]") ++ rest →
      Colored ds plain colored →
      Colored (d :: ds) (d.text ++ "\n" ++ plain)
        (d.location.text ++ ": " ++
          (d.severity.color ++ (d.severity.text ++ "[" ++ d.code.text ++ "]") ++ colorReset) ++ rest ++
          colored)

theorem renderAll_eq (colored : Bool) (ds : List Diagnostic) :
    renderAll colored ds = String.join (ds.map (render colored)) := by
  rw [renderAll, String.join_eq_foldl, List.foldl_map]

theorem colored_renderAll (ds : List Diagnostic) :
    Colored ds (renderAll false ds) (renderAll true ds) := by
  rw [renderAll_eq, renderAll_eq]
  induction ds with
  | nil => exact .nil
  | cons d ds ih =>
    rw [List.map_cons, List.map_cons, String.join_cons, String.join_cons, render_eq_text, render_true]
    exact .cons (d.render_eq_text.symm.trans d.render_false) ih

/-! ## First lines -/

/-- A text up to its first line break. -/
def firstLine (text : String) : String := String.ofList (text.toList.takeWhile (· != '\n'))

theorem firstLine_append {line : String} (h : '\n' ∉ line.toList) (rest : String) :
    firstLine (line ++ ("\n" ++ rest)) = line := by
  have hkept : ∀ c ∈ line.toList, (c != '\n') = true := by
    intro c hc
    refine bne_iff_ne.mpr ?_
    rintro rfl
    exact h hc
  have hchars : (line ++ ("\n" ++ rest)).toList = line.toList ++ '\n' :: rest.toList := by
    rw [String.toList_append, String.toList_append]
    rfl
  rw [firstLine, hchars, List.takeWhile_append_of_pos hkept, List.takeWhile_cons_of_neg (by decide),
    List.append_nil, String.ofList_toList]

theorem lineBreak_notMem_decimal (n : Nat) : '\n' ∉ (Text.decimal n).toList := by
  rw [Text.decimal, String.toList_ofList]
  intro hmem
  have hdigit := Nat.isDigit_of_mem_toDigits (by decide) (by decide) hmem
  exact absurd hdigit (by decide)

/-- A location has line breaks only in the name of its file. -/
theorem lineBreak_notMem_location {l : Location} (h : '\n' ∉ l.file.toList) :
    '\n' ∉ l.text.toList := by
  have hline := lineBreak_notMem_decimal l.line
  have hcolumn := lineBreak_notMem_decimal l.column
  unfold Location.text
  dsimp only
  split <;> simp [h, hline, hcolumn]

/-- The line of a diagnostic, and what comes after it. -/
theorem render_eq_line (d : Diagnostic) :
    ∃ notes, d.render false =
      d.location.text ++ ": " ++ d.severity.text ++ "[" ++ d.code.text ++ "]: " ++ d.message ++
        ("\n" ++ notes) := by
  have hrest : d.rest = ": " ++ d.message ++ "\n" ++
      d.notes.foldl (fun t note => t ++ "  = note: " ++ note ++ "\n") "" := by
    rw [← foldl_notes, String.append_empty]
    rfl
  have hbracket : ∀ t, "]" ++ (": " ++ t) = "]: " ++ t := by
    intro t
    rw [← String.append_assoc]
    rfl
  refine ⟨d.notes.foldl (fun t note => t ++ "  = note: " ++ note ++ "\n") "", ?_⟩
  rw [render_false, hrest, tag]
  simp only [String.append_assoc, hbracket]

theorem firstLine_renderAll {d : Diagnostic} (hfile : '\n' ∉ d.location.file.toList)
    (hmessage : '\n' ∉ d.message.toList) (ds : List Diagnostic) :
    firstLine (renderAll false (d :: ds)) =
      d.location.text ++ ": " ++ d.severity.text ++ "[" ++ d.code.text ++ "]: " ++ d.message := by
  have hlocation := lineBreak_notMem_location hfile
  have hseverity : '\n' ∉ d.severity.text.toList := by cases d.severity <;> decide
  have hcode : '\n' ∉ d.code.text.toList := by cases d.code <;> decide
  obtain ⟨notes, hrender⟩ := d.render_eq_line
  have hbreak : ∀ line more : String,
      line ++ ("\n" ++ notes) ++ more = line ++ ("\n" ++ (notes ++ more)) := by
    intro line more
    rw [String.append_assoc, String.append_assoc]
  rw [renderAll_eq, List.map_cons, String.join_cons, hrender, hbreak]
  refine firstLine_append ?_ _
  simp [hlocation, hseverity, hcode, hmessage]

/-- **Reports.**  Without colours a terminal is sent the text of each diagnostic and a line break after
it; with colours it is sent the same, but for the colour around the severity and the code that follow
each location.  The report of every failure starts with one line: the location, the severity and the
code, and what is said of the cause, if neither the name of the file nor that has a line break. -/
theorem reportsAgree :
    (∀ ds, renderAll false ds = String.join (ds.map fun d => d.text ++ "\n")) ∧
    (∀ ds, Colored ds (renderAll false ds) (renderAll true ds)) ∧
    (∀ e : BuildError, '\n' ∉ e.location.file.toList → '\n' ∉ e.cause.message.toList →
      firstLine (renderAll false [e.diagnostic]) =
        e.location.text ++ ": error[" ++ e.cause.code.text ++ "]: " ++ e.cause.message) ∧
    ∀ e : RunError, '\n' ∉ e.location.file.toList → '\n' ∉ e.cause.message.toList →
      firstLine (renderAll false [e.diagnostic]) =
        e.location.text ++ ": error[" ++ e.cause.code.text ++ "]: " ++ e.cause.message := by
  have herror : ∀ t : String, t ++ ": " ++ Severity.error.text ++ "[" = t ++ ": error[" := by
    intro t
    rw [String.append_assoc, String.append_assoc]
    rfl
  refine ⟨?_, colored_renderAll, ?_, ?_⟩
  · intro ds
    rw [renderAll_eq]
    exact congrArg String.join (List.map_congr_left fun d _ => d.render_eq_text)
  · intro e hfile hmessage
    rw [← herror]
    exact firstLine_renderAll (d := e.diagnostic) hfile hmessage []
  · intro e hfile hmessage
    rw [← herror]
    exact firstLine_renderAll (d := e.diagnostic) hfile hmessage []

/-- A failure at a register and one in a constant expression, which has a note. -/
theorem failures_reportAgree :
    renderAll false [(⟨.noMapping 0x1000 .w32, ⟨"gpio.mp", 4, 2⟩⟩ : RunError).diagnostic,
        (⟨.constantDivisionByZero, ⟨"", 1, 5⟩⟩ : BuildError).diagnostic] =
      "gpio.mp:4:2: error[E2003]: no mapping for 4 bytes at 0x1000\n" ++
        "1:5: error[E1005]: division by zero in constant expression\n" ++
        "  = note: the expression is evaluated when the script is loaded\n" ∧
    firstLine (renderAll false [(⟨.noMapping 0x1000 .w32, ⟨"gpio.mp", 4, 2⟩⟩ : RunError).diagnostic]) =
      "gpio.mp:4:2: error[E2003]: no mapping for 4 bytes at 0x1000" ∧
    firstLine (renderAll false [(⟨.constantDivisionByZero, ⟨"", 1, 5⟩⟩ : BuildError).diagnostic]) =
      "1:5: error[E1005]: division by zero in constant expression" := by
  obtain ⟨-, -, hbuild, hrun⟩ := reportsAgree
  refine ⟨by decide +kernel, (hrun _ (by decide) (by decide +kernel)).trans (by decide +kernel),
    (hbuild _ (by decide) (by decide)).trans (by decide +kernel)⟩

end Diagnostic

end PeekPoke
