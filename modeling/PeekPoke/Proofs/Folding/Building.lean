import PeekPoke.Proofs.Folding.Twin
set_option autoImplicit false

/-!
# Building twins

Whenever a step of building succeeds with folding, it succeeds without, and it leads from twins to
twins (`Tracks`).  This is shown for every constructor of nodes, from its parts: the two sides
differ only where a child is attached, which without folding stays as it is and with folding may
become a literal (`Build.tracks_attach`).
-/

namespace PeekPoke

/-! ## Steps side by side -/

section

variable {ε σ α β α' β' : Type}

/-- Wherever the second step succeeds, the first one does, in related states and with related
results, and the states that are left are related, all under a fixture that only grows. -/
def Tracks (T : Fixture → σ → σ → Prop) (c : Fixture) (A : Fixture → α → β → Prop)
    (y : EStateM ε σ α) (x : EStateM ε σ β) : Prop :=
  ∀ c₁ p s b s', c.Within c₁ → T c₁ p s → x s = .ok b s' →
    ∃ a p', y p = .ok a p' ∧ Later T A c₁ p' s' a b

namespace Tracks

variable {T : Fixture → σ → σ → Prop} {c : Fixture} {A : Fixture → α → β → Prop}
  {B : Fixture → α' → β' → Prop}

theorem pure {a : α} {b : β} (h : ∀ c', c.Within c' → A c' a b) :
    Tracks T c A (Pure.pure a : EStateM ε σ α) (Pure.pure b) := by
  intro c₁ p s b' s' hc hT hx
  cases hx
  exact ⟨a, p, rfl, c₁, .refl c₁, hT, h c₁ hc⟩

theorem bind {y : EStateM ε σ α} {x : EStateM ε σ β} {g : α → EStateM ε σ α'}
    {f : β → EStateM ε σ β'} (hx : Tracks T c A y x)
    (hf : ∀ c' a b, c.Within c' → A c' a b → Tracks T c' B (g a) (f b)) :
    Tracks T c B (y >>= g) (x >>= f) := by
  intro c₁ p s b' s' hc hT hxf
  obtain ⟨b, middle, hxs, hfb⟩ := EStateM.bind_eq_ok hxf
  obtain ⟨a, pmiddle, hy, c₂, hc₂, hT₂, hA⟩ := hx c₁ p s b middle hc hT hxs
  obtain ⟨a', p', hg, c₃, hc₃, hT₃, hB⟩ :=
    hf c₂ a b (hc.trans hc₂) hA c₂ pmiddle middle b' s' (.refl c₂) hT₂ hfb
  exact ⟨a', p', (EStateM.bind_of_ok hy g).trans hg, c₃, hc₂.trans hc₃, hT₃, hB⟩

/-- Looking at the states: what is seen there is related. -/
theorem get_bind {g : σ → EStateM ε σ α} {f : σ → EStateM ε σ β}
    (h : ∀ c' p s, c.Within c' → T c' p s → Tracks T c' A (g p) (f s)) :
    Tracks T c A (get >>= g) (get >>= f) :=
  fun c₁ p s b s' hc hT hx => h c₁ p s hc hT c₁ p s b s' (.refl c₁) hT hx

/-- A step that does not succeed with folding is of no interest. -/
theorem of_error {y : EStateM ε σ α} {x : EStateM ε σ β} (h : ∀ s b s', x s ≠ .ok b s') :
    Tracks T c A y x := fun _ _ s b s' _ _ hx => absurd hx (h s b s')

end Tracks

end

namespace Build

variable {c : Fixture} {u f : Node}

/-! ## Trace, names and constants -/

theorem tracks_emit (e e' : TraceEvent) : Tracks Twin c Unsaid (emit e) (emit e') := by
  intro c₁ p s b s' hc hT hx
  cases hx
  exact ⟨(), _, rfl, c₁, .refl c₁, hT.withTrace _ _, trivial⟩

theorem tracks_create (h : Folds c u f) : Tracks Twin c Folds (create u) (create f) :=
  Tracks.bind (tracks_emit _ _) fun _ _ _ hc _ => Tracks.pure fun _ hc' => h.mono (hc.trans hc')

theorem tracks_fail {α β : Type} {A : Fixture → α → β → Prop} (y : Build α) (cause : BuildCause)
    (location : Location) : Tracks Twin c A y (fail cause location) :=
  Tracks.of_error fun _ _ _ h => by cases h

/-- A step that goes on in the system that was made. -/
theorem tracks_orFail {α β : Type} {A : Fixture → α → β → Prop}
    {made : System → Option (α × System)} {made' : System → Option (β × System)}
    (cause : BuildCause) (location : Location)
    (h : ∀ c₁ p s b s', Twin c₁ p s → made' s = some (b, s') →
      ∃ a p', made p = some (a, p') ∧ Later Twin A c₁ p' s' a b) :
    Tracks Twin c A (orFail made cause location) (orFail made' cause location) := by
  intro c₁ p s b s' _ hT hx
  cases hmade : made' s with
  | none =>
    rw [orFail_of_none hmade] at hx
    cases hx
  | some result =>
    obtain ⟨b', s''⟩ := result
    rw [orFail_of_some hmade] at hx
    cases hx
    obtain ⟨a, p', hp, hlater⟩ := h c₁ p s b s' hT hmade
    exact ⟨a, p', orFail_of_some hp cause location, hlater⟩

theorem tracks_resolve (location : Location) (name : String) :
    Tracks Twin c Resolved (resolve location name) (resolve location name) := by
  refine tracks_orFail _ _ fun c₁ p s v s' hT hv => ?_
  obtain ⟨_, hlookup, hfound⟩ := Option.map_eq_some_iff.mp hv
  cases hfound
  cases hT with
  | intro tidy bound subs t hs =>
    refine ⟨v, _, ?_, _, .refl _, .intro tidy bound subs t hs, rfl, fun hconst => ?_⟩
    · show (s.env.lookup name).map _ = _
      rw [hlookup]
      rfl
    · exact ⟨s.get v, tidy.global_of_lookup hlookup hconst, hconst, rfl⟩

theorem tracks_assignable? (location : Location) (name : String) :
    Tracks Twin c Assigned (orFail (·.assignable? name) (.namingConflict name) location)
      (orFail (·.assignable? name) (.namingConflict name) location) :=
  tracks_orFail _ _ fun _ _ _ _ _ hT hv => hT.assignable? hv

theorem tracks_newStatic? (location : Location) (name : String) :
    Tracks Twin c Assigned (orFail (·.newStatic? name) (.namingConflict name) location)
      (orFail (·.newStatic? name) (.namingConflict name) location) :=
  tracks_orFail _ _ fun _ _ _ _ _ hT hv => hT.newStatic? hv

theorem tracks_newConstant (location : Location) (name : String) (w : Word) :
    Tracks Twin c Unsaid (newConstant location name w) (newConstant location name w) := by
  intro c₁ p s b s' _ hT hx
  obtain ⟨v, middle, hmade, hassign⟩ := EStateM.bind_eq_ok hx
  cases hassign
  cases hv : s.newConstant? name with
  | none =>
    rw [orFail_of_none hv] at hmade
    cases hmade
  | some made =>
    rw [orFail_of_some hv] at hmade
    cases hmade
    obtain ⟨p', hp, c₂, hc₂, hT₂⟩ := hT.newConstant? hv w
    exact ⟨(), _, EStateM.bind_of_ok (orFail_of_some hp _ _) _, c₂, hc₂, hT₂, trivial⟩

theorem tracks_newStaticCell :
    Tracks Twin c Equal
      (modifyGet fun s => (s.env.newStaticCell.1, { s with env := s.env.newStaticCell.2 }) :
        Build Nat)
      (modifyGet fun s => (s.env.newStaticCell.1, { s with env := s.env.newStaticCell.2 })) := by
  intro c₁ p s b s' _ hT hx
  cases hx
  cases hT with
  | intro tidy bound subs t hs =>
    have hgrows := (System.Move.cell s).grows tidy
    exact ⟨_, _, rfl, _, hgrows.within tidy bound, Twin.grow hgrows t hs, rfl⟩

/-! ## Constants -/

/-- Both sides know the value of a constant. -/
theorem tracks_requireConstant (h : Folds c u f) :
    Tracks Twin c Equal (requireConstant u) (requireConstant f) := by
  intro c₁ p s w s' hc hT hx
  unfold requireConstant at hx ⊢
  cases hf : f.isConstant with
  | false =>
    rw [hf] at hx
    cases hx
  | true =>
    have hu : u.isConstant = true := h.isConstant_eq.symm.trans hf
    rw [hf] at hx
    rw [hu]
    obtain ⟨hvalue, trace, rfl⟩ := evaluate_eq_ok hf hx
    obtain ⟨trace', hplain⟩ := evaluate_of_isConstant hu p
    have hsame : u.constantValue p.machine.stores.get = .ok w := by
      have hstores : p.machine.stores = s.machine.stores := by
        cases hT
        rfl
      rw [hstores, ← (h.mono hc).constantValue_eq hu hT.holds hT.holds, hvalue]
    rw [hsame] at hplain
    exact ⟨w, _, hplain, c₁, .refl c₁, hT.withTrace trace' trace, rfl⟩

/-- Attaching a child: without folding it stays as it is, with folding it may become a literal. -/
theorem tracks_attach (h : Folds c u f) : Tracks Twin c Folds (attach u) (attach f) := by
  intro c₁ p s b s' hc hT hx
  have hplain : attach u p = .ok u p := by
    cases hT
    rfl
  have hfold : attach f s =
      (if s.env.foldConstants && f.isConstant && f.literal?.isNone then do
        let w ← evaluate f
        emit (.folded w f.location)
        literal f.location w
      else
        return f : Build Node) s := rfl
  rw [hfold] at hx
  split at hx
  · rename_i hcond
    have hf : f.isConstant = true := by
      simp only [Bool.and_eq_true] at hcond
      exact hcond.1.2
    have hu : u.isConstant = true := h.isConstant_eq.symm.trans hf
    obtain ⟨w, middle, heval, hrest⟩ := EStateM.bind_eq_ok hx
    obtain ⟨hvalue, trace, rfl⟩ := evaluate_eq_ok hf heval
    cases hrest
    -- The literal is right wherever the constants have the values they have now.
    obtain ⟨c₂, hc₂, hT₂, hheight⟩ := hT.raise u.height
    have hholds : c₂.Holds s.machine.stores := hT₂.holds
    have hfolds : Folds c₂ u f := h.mono (hc.trans hc₂)
    have hliteral : Folds c₂ u (.literal f.location w) := by
      rw [h.location_eq]
      refine .of_step (.literal hu hheight fun stores hstores => ?_)
      rw [← hfolds.constantValue_eq hu hstores hholds, hvalue]
    exact ⟨u, p, hplain, c₂, hc₂, hT₂.withTrace p.machine.trace _, hliteral⟩
  · cases hx
    exact ⟨u, p, hplain, c₁, .refl c₁, hT, h.mono hc⟩

theorem tracks_attachAll {us fs : List Node} (h : Matching (Folds c) us fs) :
    Tracks Twin c (fun c => Matching (Folds c)) (attachAll us) (attachAll fs) := by
  suffices hall : ∀ c', c.Within c' →
      Tracks Twin c' (fun c => Matching (Folds c)) (attachAll us) (attachAll fs) from
    hall c (.refl c)
  induction h with
  | nil => exact fun c' _ => Tracks.pure fun _ _ => .nil
  | cons hfirst _ ih =>
    intro c' hc
    refine Tracks.bind (tracks_attach (hfirst.mono hc)) fun c₁ a b hc₁ hab => ?_
    refine Tracks.bind (ih c₁ (hc.trans hc₁)) fun c₂ as bs hc₂ habs => ?_
    exact Tracks.pure fun c₃ hc₃ =>
      .cons (hab.mono (hc₂.trans hc₃)) (habs.imp fun _ _ => Folds.mono hc₃)

theorem tracks_attachOption {u f : Option Node} (h : Option.Rel (Folds c) u f) :
    Tracks Twin c (fun c => Option.Rel (Folds c)) (attachOption u) (attachOption f) := by
  cases h with
  | none => exact Tracks.pure fun _ _ => .none
  | some h =>
    exact Tracks.bind (tracks_attach h) fun c₁ a b _ hab =>
      Tracks.pure fun c₂ hc₂ => .some (hab.mono hc₂)

/-! ## Leaves -/

/-- A new node of one shape that neither assigns nor reads a variable itself. -/
theorem tracks_createAlike (ha : Node.Alike (Folds c) u f) (ht : u.target? = none)
    (hs : u.source? = none) : Tracks Twin c Folds (create u) (create f) := by
  refine tracks_create (.of_step (.alike ha (fun v hv => ?_) fun v hv => ?_))
  · rw [ht] at hv
    cases hv
  · rw [hs] at hv
    cases hv

theorem tracks_literal (l : Location) (w : Word) :
    Tracks Twin c Folds (literal l w) (literal l w) :=
  tracks_createAlike (.literal l w) rfl rfl

theorem tracks_literalOf (l : Location) (r : Except Numeral.LiteralError Word) :
    Tracks Twin c Folds (literalOf l r) (literalOf l r) := by
  cases r with
  | ok w => exact tracks_literal l w
  | error e => exact tracks_fail _ _ _

theorem tracks_jump (l : Location) (j : Jump) : Tracks Twin c Folds (jump l j) (jump l j) :=
  tracks_createAlike (.jump l j) rfl rfl

/-! ## Statements -/

theorem tracks_block (l : Location) {us fs : List Node} (h : Matching (Folds c) us fs) :
    Tracks Twin c Folds (block l us) (block l fs) :=
  Tracks.bind (tracks_attachAll h) fun _ _ _ _ hs => tracks_createAlike (.block l hs) rfl rfl

/-- A new node that assigns a variable, after its value was attached. -/
theorem tracks_createAssigning {v : Variable} (hv : c.writable v)
    (ha : Node.Alike (Folds c) u f) (ht : u.target? = some v) (hs : u.source? = none) :
    Tracks Twin c Folds (create u) (create f) := by
  refine tracks_create (.of_step (.alike ha (fun v' hv' => ?_) fun v' hv' => ?_))
  · rw [ht] at hv'
    cases hv'
    exact hv
  · rw [hs] at hv'
    cases hv'

theorem tracks_assign (l : Location) (name : String) (h : Folds c u f) :
    Tracks Twin c Folds (assign l name u) (assign l name f) := by
  refine Tracks.bind (tracks_attach h) fun c₁ a b _ hab => ?_
  refine Tracks.bind (tracks_assignable? l name) fun c₂ v v' hc₂ hv => ?_
  obtain ⟨rfl, hw⟩ := hv
  exact tracks_createAssigning hw (.assign l v (hab.mono hc₂)) rfl rfl

theorem tracks_static (l : Location) (name : String) (h : Folds c u f) :
    Tracks Twin c Folds (static l name u) (static l name f) := by
  refine Tracks.bind (tracks_attach h) fun c₁ a b _ hab => ?_
  refine Tracks.bind (tracks_newStatic? l name) fun c₂ v v' hc₂ hv => ?_
  obtain ⟨rfl, hw⟩ := hv
  refine Tracks.bind tracks_newStaticCell fun c₃ cell cell' hc₃ hcell => ?_
  cases hcell
  exact tracks_createAssigning (hc₃.writable v hw)
    (.static l cell v (hab.mono (hc₂.trans hc₃))) rfl rfl

/-- What is left of a definition of constants or of a mapping. -/
theorem tracks_directive (l : Location) :
    Tracks Twin c Folds (create (.directive l)) (create (.directive l)) :=
  tracks_createAlike (.directive l) rfl rfl

theorem tracks_define (l : Location) (name : String) (h : Folds c u f) :
    Tracks Twin c Folds (define l name u) (define l name f) := by
  refine Tracks.bind (tracks_requireConstant h) fun c₁ w w' _ hw => ?_
  cases hw
  exact Tracks.bind (tracks_newConstant l name w) fun _ _ _ _ _ =>
    Tracks.bind (tracks_emit _ _) fun _ _ _ _ _ => tracks_directive l

theorem tracks_defineMembers (l : Location) (name base : String) (baseValue : Word)
    (members : List String) :
    Tracks Twin c Unsaid (defineMembers l name base baseValue members)
      (defineMembers l name base baseValue members) := by
  induction members generalizing c with
  | nil => exact Tracks.pure fun _ _ => trivial
  | cons member rest ih =>
    refine Tracks.get_bind fun c₁ p s _ hT => ?_
    have hget : p.get = s.get := by
      cases hT
      rfl
    rw [hT.lookup_eq, hget]
    cases s.env.lookup (memberName base member) with
    | none => exact tracks_fail _ _ _
    | some source =>
      exact Tracks.bind (tracks_newConstant _ _ _) fun _ _ _ _ _ => ih

theorem tracks_defineFrom (l : Location) (name base : String) (h : Folds c u f) :
    Tracks Twin c Folds (defineFrom l name u base) (defineFrom l name f base) := by
  refine Tracks.bind (tracks_requireConstant h) fun c₁ w w' _ hw => ?_
  cases hw
  refine Tracks.bind (tracks_newConstant l name w) fun c₂ _ _ _ _ => ?_
  refine Tracks.get_bind fun c₃ p s _ hT => ?_
  have hget : p.get = s.get := by
    cases hT
    rfl
  have hmembers : p.env.members base = s.env.members base := by
    cases hT
    rfl
  rw [hT.lookup_eq, hget, hmembers]
  cases s.env.lookup base with
  | none => exact tracks_fail _ _ _
  | some source =>
    dsimp only
    split
    · exact Tracks.bind (tracks_defineMembers _ _ _ _ _) fun _ _ _ _ _ =>
        Tracks.bind (tracks_emit _ _) fun _ _ _ _ _ => tracks_directive l
    · exact tracks_fail _ _ _

/-- Carrying out a request for a mapping whose range is known. -/
theorem tracks_mapRange (l : Location) (start length : Word) (device : String) :
    let step : Build Node := do
      match (← get).map start length device with
      | .ok s =>
        set s
        create (.directive l)
      | .error e => fail (.mappingFailure start length device e.message) l
    Tracks Twin c Folds step step := by
  intro step c₁ p s b s' _ hT hx
  have hstep : ∀ s : System, step s =
      (match s.map start length device with
      | .ok s => (do set s; create (.directive l) : Build Node)
      | .error e => fail (.mappingFailure start length device e.message) l) s := fun _ => rfl
  rw [hstep] at hx
  cases hmap : s.map start length device with
  | error e =>
    rw [hmap] at hx
    cases hx
  | ok mapped =>
    rw [hmap] at hx
    obtain ⟨p₁, hp, c₂, hc₂, hT₂⟩ := hT.map hmap
    obtain ⟨a, p', hcreate, c₃, hc₃, hlater⟩ :=
      tracks_directive l c₂ p₁ mapped b s' (.refl c₂) hT₂ hx
    refine ⟨a, p', ?_, c₃, hc₂.trans hc₃, hlater⟩
    rw [hstep, hp]
    exact hcreate

theorem tracks_map (l : Location) {start start' length length' : Node}
    (hstart : Folds c start start') (hlength : Folds c length length') (device : Option String) :
    Tracks Twin c Folds (map l start length device) (map l start' length' device) := by
  refine Tracks.bind (tracks_requireConstant hstart) fun c₁ first first' hc₁ hfirst => ?_
  cases hfirst
  refine Tracks.bind (tracks_requireConstant (hlength.mono hc₁)) fun c₂ size size' _ hsize => ?_
  cases hsize
  have hnote : Tracks Twin c₂ Unsaid
      (modify (·.noteRequest first size (device.getD defaultDevice)) : Build Unit)
      (modify (·.noteRequest first size (device.getD defaultDevice))) := by
    intro c₃ p s b s' _ hT hx
    cases hx
    obtain ⟨c₄, hc₄, hT₄⟩ := hT.noteRequest first size (device.getD defaultDevice)
    exact ⟨(), _, rfl, c₄, hc₄, hT₄, trivial⟩
  exact Tracks.bind hnote fun _ _ _ _ _ => tracks_mapRange l first size _

theorem tracks_cond (l : Location) {condition condition' thenBranch thenBranch' : Node}
    {elseBranch elseBranch' : Option Node} (hc : Folds c condition condition')
    (ht : Folds c thenBranch thenBranch') (he : Option.Rel (Folds c) elseBranch elseBranch') :
    Tracks Twin c Folds (cond l condition thenBranch elseBranch)
      (cond l condition' thenBranch' elseBranch') := by
  refine Tracks.bind (tracks_attach hc) fun c₁ a a' hc₁ ha => ?_
  refine Tracks.bind (tracks_attach (ht.mono hc₁)) fun c₂ b b' hc₂ hb => ?_
  refine Tracks.bind (tracks_attachOption (he.imp fun _ _ => Folds.mono (hc₁.trans hc₂)))
    fun c₃ e e' hc₃ he => ?_
  exact tracks_createAlike (.cond l (ha.mono (hc₂.trans hc₃)) (hb.mono hc₃) he) rfl rfl

theorem tracks_whileLoop (l : Location) {condition condition' body body' : Node}
    (hc : Folds c condition condition') (hb : Folds c body body') :
    Tracks Twin c Folds (whileLoop l condition body) (whileLoop l condition' body') := by
  refine Tracks.bind (tracks_attach hc) fun c₁ a a' hc₁ ha => ?_
  refine Tracks.bind (tracks_attach (hb.mono hc₁)) fun c₂ b b' hc₂ hb => ?_
  exact tracks_createAlike (.whileLoop l (ha.mono hc₂) hb) rfl rfl

/-- The start of a counting loop is an assignment on both sides or on neither. -/
theorem tracks_forLoop (l : Location) {start start' target target' body body' : Node}
    {step step' : Option Node} (hi : Folds c start start') (ht : Folds c target target')
    (hs : Option.Rel (Folds c) step step') (hb : Folds c body body') :
    Tracks Twin c Folds (forLoop l start target step body)
      (forLoop l start' target' step' body') := by
  unfold forLoop
  cases start' with
  | assign sl v first' =>
    cases hi.step with
    | alike ha hw hsource =>
      cases ha with
      | @assign _ _ first _ hfirst =>
        refine Tracks.bind (tracks_attach ht) fun c₁ a a' hc₁ hta => ?_
        refine Tracks.bind (tracks_attachOption (hs.imp fun _ _ => Folds.mono hc₁))
          fun c₂ b b' hc₂ hst => ?_
        refine Tracks.bind (tracks_attach (hb.mono (hc₁.trans hc₂))) fun c₃ d d' hc₃ hbody => ?_
        have hwithin : c.Within c₃ := hc₁.trans (hc₂.trans hc₃)
        refine tracks_createAssigning (hwithin.writable v (hw v rfl)) ?_ rfl rfl
        exact .forLoop l sl v (hi.mono hwithin) (hta.mono (hc₂.trans hc₃))
          (hst.imp fun _ _ => Folds.mono hc₃) hbody
  | _ => exact tracks_fail _ _ _

/-- Print items that differ by folding only. -/
inductive ItemFolds (c : Fixture) : PrintItem Node → PrintItem Node → Prop where
  | value {u f : Node} (format : PrintFormat) :
      Folds c u f → ItemFolds c (.value u format) (.value f format)
  | text (text : String) : ItemFolds c (.text text) (.text text)

theorem ItemFolds.mono {c' : Fixture} (hc : c.Within c') {i i' : PrintItem Node}
    (h : ItemFolds c i i') : ItemFolds c' i i' := by
  cases h with
  | value format h => exact .value format (h.mono hc)
  | text text => exact .text text

theorem tracks_printParts {items items' : List (PrintItem Node)}
    (h : Matching (ItemFolds c) items items') :
    Tracks Twin c (fun c => Matching (PrintPart.Alike (Folds c))) (printParts items)
      (printParts items') := by
  suffices hall : ∀ c', c.Within c' →
      Tracks Twin c' (fun c => Matching (PrintPart.Alike (Folds c))) (printParts items)
        (printParts items') from hall c (.refl c)
  have hmono : ∀ {c' c'' : Fixture}, c'.Within c'' → ∀ {ps ps' : List (PrintPart Node)},
      Matching (PrintPart.Alike (Folds c')) ps ps' →
        Matching (PrintPart.Alike (Folds c'')) ps ps' :=
    fun hc _ _ hm => hm.imp fun _ _ => PrintPart.Alike.imp fun _ _ => Folds.mono hc
  induction h with
  | nil => exact fun c' _ => Tracks.pure fun _ _ => .nil
  | cons hitem _ ih =>
    intro c' hc
    cases hitem with
    | text text =>
      refine Tracks.bind (ih c' hc) fun c₁ ps ps' _ hps => ?_
      exact Tracks.pure fun c₂ hc₂ => .cons (.text text) (hmono hc₂ hps)
    | value format h =>
      refine Tracks.get_bind fun c₁ p s hc₁ hT => ?_
      have hwidth : p.env.defaultWidth = s.env.defaultWidth := by
        cases hT
        rfl
      dsimp only
      rw [hwidth]
      split
      · refine Tracks.bind (tracks_attach (h.mono (hc.trans hc₁))) fun c₂ a b hc₂ hab => ?_
        refine Tracks.bind (ih c₂ (hc.trans (hc₁.trans hc₂))) fun c₃ ps ps' hc₃ hps => ?_
        exact Tracks.pure fun c₄ hc₄ =>
          .cons (.value _ _ (hab.mono (hc₃.trans hc₄))) (hmono hc₄ hps)
      · exact tracks_fail _ _ _

theorem tracks_print (l : Location) {items items' : List (PrintItem Node)}
    (h : Matching (ItemFolds c) items items') (trailing : Option String) :
    Tracks Twin c Folds (print l items trailing) (print l items' trailing) :=
  Tracks.bind (tracks_printParts h) fun _ _ _ _ hps =>
    tracks_createAlike (.print l (trailing.getD "\n") hps) rfl rfl

theorem tracks_sleep (l : Location) (h : Folds c u f) :
    Tracks Twin c Folds (sleep l u) (sleep l f) :=
  Tracks.bind (tracks_attach h) fun _ _ _ _ hab => tracks_createAlike (.sleep l hab) rfl rfl

theorem tracks_imported (l : Location) {root root' : Option Node}
    (h : Option.Rel (Folds c) root root') :
    Tracks Twin c Folds (imported l root) (imported l root') :=
  tracks_createAlike (.imported l h) rfl rfl

/-! ## Expressions -/

/-- A new node that reads a variable. -/
theorem tracks_createReading {v : Variable} (hv : v.isConstant = true → ∃ w, c.fixed v w)
    (ha : Node.Alike (Folds c) u f) (ht : u.target? = none) (hs : u.source? = some v) :
    Tracks Twin c Folds (create u) (create f) := by
  refine tracks_create (.of_step (.alike ha (fun v' hv' => ?_) fun v' hv' => ?_))
  · rw [ht] at hv'
    cases hv'
  · rw [hs] at hv'
    cases hv'
    exact hv

theorem tracks_var (l : Location) (name : String) :
    Tracks Twin c Folds (var l name) (var l name) := by
  refine Tracks.bind (tracks_resolve l name) fun c₁ v v' _ hv => ?_
  obtain ⟨rfl, hfixed⟩ := hv
  exact tracks_createReading hfixed (.var l v) rfl rfl

theorem tracks_indexed (l : Location) (name : String) (h : Folds c u f) :
    Tracks Twin c Folds (indexed l name u) (indexed l name f) := by
  refine Tracks.bind (tracks_resolve l name) fun c₁ v v' hc₁ hv => ?_
  obtain ⟨rfl, hfixed⟩ := hv
  refine Tracks.bind (tracks_attach (h.mono hc₁)) fun c₂ a b hc₂ hab => ?_
  refine tracks_createReading (fun hconst => ?_) (.indexed l v hab) rfl rfl
  obtain ⟨w, hw⟩ := hfixed hconst
  exact ⟨w, hc₂.fixed v w hw⟩

theorem tracks_unary (l : Location) (op : UnaryOp) (h : Folds c u f) :
    Tracks Twin c Folds (unary l op u) (unary l op f) :=
  Tracks.bind (tracks_attach h) fun _ _ _ _ hab => tracks_createAlike (.unary l op hab) rfl rfl

theorem tracks_binary (l : Location) (op : BinaryOp) {left left' right right' : Node}
    (hl : Folds c left left') (hr : Folds c right right') :
    Tracks Twin c Folds (binary l op left right) (binary l op left' right') := by
  refine Tracks.bind (tracks_attach hl) fun c₁ a a' hc₁ ha => ?_
  refine Tracks.bind (tracks_attach (hr.mono hc₁)) fun c₂ b b' hc₂ hb => ?_
  exact tracks_createAlike (.binary l op (ha.mono hc₂) hb) rfl rfl

theorem tracks_narrow (l : Location) (width : Width) (h : Folds c u f) :
    Tracks Twin c Folds (narrow l width u) (narrow l width f) :=
  Tracks.bind (tracks_attach h) fun _ _ _ _ hab => tracks_createAlike (.narrow l width hab) rfl rfl

theorem tracks_peek (l : Location) (width : Width) (h : Folds c u f) :
    Tracks Twin c Folds (peek l u width) (peek l f width) :=
  Tracks.bind (tracks_attach h) fun _ _ _ _ hab => tracks_createAlike (.peek l width hab) rfl rfl

theorem tracks_poke (l : Location) (width : Width) {address address' value value' : Node}
    {mask mask' : Option Node} (ha : Folds c address address') (hv : Folds c value value')
    (hm : Option.Rel (Folds c) mask mask') :
    Tracks Twin c Folds (poke l address value mask width) (poke l address' value' mask' width) := by
  refine Tracks.bind (tracks_attach ha) fun c₁ a a' hc₁ ha => ?_
  refine Tracks.bind (tracks_attach (hv.mono hc₁)) fun c₂ b b' hc₂ hb => ?_
  refine Tracks.bind (tracks_attachOption (hm.imp fun _ _ => Folds.mono (hc₁.trans hc₂)))
    fun c₃ e e' hc₃ he => ?_
  exact tracks_createAlike (.poke l width (ha.mono (hc₂.trans hc₃)) (hb.mono hc₃) he) rfl rfl

theorem tracks_call (l : Location) (name : String) {us fs : List Node}
    (h : Matching (Folds c) us fs) : Tracks Twin c Folds (call l name us) (call l name fs) := by
  refine Tracks.get_bind fun c₁ p s hc₁ hT => ?_
  have harity : ∀ id : Nat, (p.env.subroutines[id]?).elim 0 Subroutine.arity =
      (s.env.subroutines[id]?).elim 0 Subroutine.arity := by
    cases hT with
    | intro tidy bound subs t hs => exact Environment.arity_plain hs
  dsimp only
  rw [hT.subroutineId?_eq, h.length_eq]
  cases s.env.subroutineId? name with
  | none => exact tracks_fail _ _ _
  | some id =>
    dsimp only
    rw [harity]
    split
    · exact Tracks.bind (tracks_attachAll (h.imp fun _ _ => Folds.mono hc₁)) fun _ _ _ _ hs =>
        tracks_createAlike (.call l name id hs) rfl rfl
    · exact tracks_fail _ _ _

/-! ## Subroutines -/

theorem tracks_beginSubroutine (l : Location) (name : String) (parameters : List String)
    (result : Option String) :
    Tracks Twin c Unsaid (beginSubroutine l name parameters result)
      (beginSubroutine l name parameters result) := by
  refine Tracks.get_bind fun c₁ p s _ hT => ?_
  have hpending : p.env.pending = s.env.pending := by
    cases hT
    rfl
  rw [hpending]
  split
  · exact tracks_fail _ _ _
  · cases Environment.repeated? [] (parameters ++ result.toList) with
    | some twice => exact tracks_fail _ _ _
    | none =>
      have hbegin : Tracks Twin c₁ Unsaid
          (modify fun s : System => { s with env := s.env.begin name parameters result } :
            Build Unit)
          (modify fun s : System => { s with env := s.env.begin name parameters result }) := by
        intro c₂ p s b s' _ hT hx
        cases hx
        obtain ⟨c₃, hc₃, hT₃⟩ := hT.begin name parameters result
        exact ⟨(), _, rfl, c₃, hc₃, hT₃, trivial⟩
      exact Tracks.bind hbegin fun _ _ _ _ _ => tracks_emit _ _

end Build

end PeekPoke
