import PeekPoke.Proofs.Worlds
set_option autoImplicit false

/-!
# Histories of a session

A command of a session is made of steps that an embedder can take: building a source calls one
constructor after the other, and a definition is opened, built and closed.  Main statement: every
history of a session in which the embedder sets no constant leads to a world that can be reached, with
the system of the session and at least the nodes that are stored in it (`Session.steps_reached`).
-/

namespace PeekPoke

open World

/-! ## Building sources -/

/-- The world has the system of a workshop and the nodes that are stored in it. -/
structure World.Mirrors (w : World) (shop : Workshop) : Prop where
  system : w.system = shop.system
  nodes : ∀ key node, shop.node? key = some node → node ∈ w.nodes

namespace World.Mirrors

variable {w : World} {shop : Workshop}

theorem withSystem (h : w.Mirrors shop) (system : System) :
    (w.withSystem system).Mirrors { shop with system } := ⟨rfl, h.nodes⟩

theorem remove (h : w.Mirrors shop) (key : String) : w.Mirrors (shop.remove key) := by
  refine ⟨h.system, fun other node hnode => h.nodes other node ?_⟩
  simp only [Workshop.node?, Workshop.remove, Std.TreeMap.getElem?_erase] at hnode
  split at hnode
  · cases hnode
  · exact hnode

theorem store (h : w.Mirrors shop) {node : Node} (hnode : node ∈ w.nodes) (key : String) :
    w.Mirrors (shop.store key node) := by
  refine ⟨h.system, fun other found hfound => ?_⟩
  simp only [Workshop.node?, Workshop.store, Std.TreeMap.getElem?_insert] at hfound
  split at hfound
  · cases hfound
    exact hnode
  · exact h.nodes other found hfound

end World.Mirrors

namespace Assembly

variable {α β : Type} {w : World} {shop : Workshop}

/-- The step of building is made of steps of an embedder, which lead to a world that mirrors the
workshop that is left and in which the result is as described. -/
def Realised (w : World) (shop : Workshop) (x : Assembly α) (A : World → α → Prop) : Prop :=
  ∃ w', w.Steps w' ∧ w'.Mirrors (stateAfter (x shop)) ∧ ∀ a shop', x shop = .ok a shop' → A w' a

theorem realised_pure {A : World → α → Prop} {a : α} (h : w.Mirrors shop) (ha : A w a) :
    Realised w shop (pure a) A := by
  refine ⟨w, .refl, h, fun a' shop' hx => ?_⟩
  cases hx
  exact ha

theorem realised_bind {A : World → α → Prop} {B : World → β → Prop} {x : Assembly α}
    {f : α → Assembly β} (hx : Realised w shop x A)
    (hf : ∀ {w' a shop'}, w.Steps w' → w'.Mirrors shop' → A w' a → Realised w' shop' (f a) B) :
    Realised w shop (x >>= f) B := by
  obtain ⟨w', hsteps, hmirrors, hresult⟩ := hx
  unfold Realised
  cases hxs : x shop with
  | error e shop' =>
    rw [hxs] at hmirrors
    rw [EStateM.bind_of_error hxs]
    exact ⟨w', hsteps, hmirrors, fun _ _ h => by cases h⟩
  | ok a shop' =>
    rw [hxs] at hmirrors
    rw [EStateM.bind_of_ok hxs]
    obtain ⟨w'', hmore, hlast⟩ := hf hsteps hmirrors (hresult a shop' hxs)
    exact ⟨w'', hsteps.trans hmore, hlast⟩

/-- A call of a constructor is one step. -/
theorem realised_lift (h : w.Mirrors shop) {x : Build Node} (hx : Construction w.nodes x) :
    Realised w shop (lift x) fun w' node => node ∈ w'.nodes := by
  have hstep : w.Step (w.after (x w.system)) := .construct hx
  refine ⟨_, .single hstep, ?_⟩
  unfold lift
  rw [h.system]
  cases x shop.system with
  | error e s => exact ⟨h.withSystem s, fun _ _ hok => by cases hok⟩
  | ok node s =>
    refine ⟨⟨rfl, fun key found hfound => List.mem_cons_of_mem node (h.nodes key found hfound)⟩, ?_⟩
    intro a shop' hok
    cases hok
    exact List.mem_cons_self

theorem realised_take (h : w.Mirrors shop) (key : String) :
    Realised w shop (take key) fun w' node => node ∈ w'.nodes := by
  refine ⟨w, .refl, ?_⟩
  cases hnode : shop.node? key with
  | none =>
    rw [take_of_none hnode]
    exact ⟨h, fun _ _ hok => by cases hok⟩
  | some node =>
    rw [take_of_some hnode]
    refine ⟨h.remove key, fun a shop' hok => ?_⟩
    cases hok
    exact h.nodes key node hnode

end Assembly

open Assembly in
mutual

/-- Building a source calls constructors with nodes that were built before. -/
theorem Source.build_realised {w : World} {shop : Workshop} (h : w.Mirrors shop) :
    (source : Source) → Realised w shop source.build fun w' node => node ∈ w'.nodes
  | .literal _ _ => realised_lift h (.literal _ _)
  | .integer _ _ => realised_lift h (.integer _ _)
  | .float _ _ => realised_lift h (.float _ _)
  | .jump _ _ => realised_lift h (.jump _ _)
  | .block _ statements =>
    realised_bind (buildAll_realised h statements) fun _ h₁ hs => realised_lift h₁ (.block _ hs)
  | .assign _ _ value =>
    realised_bind (value.build_realised h) fun _ h₁ hv => realised_lift h₁ (.assign _ _ hv)
  | .static _ _ value =>
    realised_bind (value.build_realised h) fun _ h₁ hv => realised_lift h₁ (.static _ _ hv)
  | .define _ _ value =>
    realised_bind (value.build_realised h) fun _ h₁ hv => realised_lift h₁ (.define _ _ hv)
  | .defineFrom _ _ value _ =>
    realised_bind (value.build_realised h) fun _ h₁ hv => realised_lift h₁ (.defineFrom _ _ _ hv)
  | .map _ start length _ =>
    realised_bind (start.build_realised h) fun _ h₁ hs =>
      realised_bind (length.build_realised h₁) fun s₂ h₂ hl =>
        realised_lift h₂ (.map _ _ (s₂.nodes hs) hl)
  | .cond _ condition thenBranch elseBranch =>
    realised_bind (condition.build_realised h) fun _ h₁ hc =>
      realised_bind (thenBranch.build_realised h₁) fun s₂ h₂ ht =>
        realised_bind (buildOption_realised h₂ elseBranch) fun s₃ h₃ he =>
          realised_lift h₃ (.cond _ (s₃.nodes (s₂.nodes hc)) (s₃.nodes ht) he)
  | .whileLoop _ condition body =>
    realised_bind (condition.build_realised h) fun _ h₁ hc =>
      realised_bind (body.build_realised h₁) fun s₂ h₂ hb =>
        realised_lift h₂ (.whileLoop _ (s₂.nodes hc) hb)
  | .forLoop _ start target step body =>
    realised_bind (start.build_realised h) fun _ h₁ hs =>
      realised_bind (target.build_realised h₁) fun s₂ h₂ ht =>
        realised_bind (buildOption_realised h₂ step) fun s₃ h₃ hst =>
          realised_bind (body.build_realised h₃) fun s₄ h₄ hb =>
            realised_lift h₄ (.forLoop _ (s₄.nodes (s₃.nodes (s₂.nodes hs)))
              (s₄.nodes (s₃.nodes ht)) (fun n hn => s₄.nodes (hst n hn)) hb)
  | .print _ items _ =>
    realised_bind (buildItems_realised h items) fun _ h₁ hi => realised_lift h₁ (.print _ _ hi)
  | .sleep _ micros =>
    realised_bind (micros.build_realised h) fun _ h₁ hm => realised_lift h₁ (.sleep _ hm)
  | .imported _ root =>
    realised_bind (buildOption_realised h root) fun _ h₁ hr => realised_lift h₁ (.imported _ hr)
  | .var _ _ => realised_lift h (.var _ _)
  | .indexed _ _ offset =>
    realised_bind (offset.build_realised h) fun _ h₁ ho => realised_lift h₁ (.indexed _ _ ho)
  | .unary _ _ operand =>
    realised_bind (operand.build_realised h) fun _ h₁ ho => realised_lift h₁ (.unary _ _ ho)
  | .binary _ _ left right =>
    realised_bind (left.build_realised h) fun _ h₁ hl =>
      realised_bind (right.build_realised h₁) fun s₂ h₂ hr =>
        realised_lift h₂ (.binary _ _ (s₂.nodes hl) hr)
  | .narrow _ _ operand =>
    realised_bind (operand.build_realised h) fun _ h₁ ho => realised_lift h₁ (.narrow _ _ ho)
  | .peek _ address _ =>
    realised_bind (address.build_realised h) fun _ h₁ ha => realised_lift h₁ (.peek _ _ ha)
  | .poke _ address value mask _ =>
    realised_bind (address.build_realised h) fun _ h₁ ha =>
      realised_bind (value.build_realised h₁) fun s₂ h₂ hv =>
        realised_bind (buildOption_realised h₂ mask) fun s₃ h₃ hm =>
          realised_lift h₃ (.poke _ _ (s₃.nodes (s₂.nodes ha)) (s₃.nodes hv) hm)
  | .call _ _ arguments =>
    realised_bind (buildAll_realised h arguments) fun _ h₁ ha => realised_lift h₁ (.call _ _ ha)
  | .stored key => realised_take h key

theorem buildAll_realised {w : World} {shop : Workshop} (h : w.Mirrors shop) :
    (sources : List Source) → Realised w shop (buildAll sources) fun w' nodes =>
      ∀ n ∈ nodes, n ∈ w'.nodes
  | [] => realised_pure h (by simp)
  | source :: rest =>
    realised_bind (source.build_realised h) fun _ h₁ hn =>
      realised_bind (buildAll_realised h₁ rest) fun s₂ h₂ hr =>
        realised_pure h₂ (List.forall_mem_cons.mpr ⟨s₂.nodes hn, hr⟩)

theorem buildOption_realised {w : World} {shop : Workshop} (h : w.Mirrors shop) :
    (source : Option Source) → Realised w shop (buildOption source) fun w' node =>
      ∀ n ∈ node.toList, n ∈ w'.nodes
  | none => realised_pure h (by simp)
  | some source =>
    realised_bind (source.build_realised h) fun _ h₁ hn => realised_pure h₁ (by simpa using hn)

theorem buildItem_realised {w : World} {shop : Workshop} (h : w.Mirrors shop) :
    (item : PrintItem Source) → Realised w shop (buildItem item) fun w' item =>
      ∀ n, item.expr? = some n → n ∈ w'.nodes
  | .text _ => realised_pure h (by simp [PrintItem.expr?])
  | .value expr _ =>
    realised_bind (expr.build_realised h) fun _ h₁ hn =>
      realised_pure h₁ (by simpa [PrintItem.expr?] using hn)

theorem buildItems_realised {w : World} {shop : Workshop} (h : w.Mirrors shop) :
    (items : List (PrintItem Source)) → Realised w shop (buildItems items) fun w' items =>
      ∀ n ∈ items.filterMap PrintItem.expr?, n ∈ w'.nodes
  | [] => realised_pure h (by simp)
  | item :: rest =>
    realised_bind (buildItem_realised h item) fun _ h₁ hi =>
      realised_bind (buildItems_realised h₁ rest) fun s₂ h₂ hr => realised_pure h₂ (by
        intro n hn
        obtain ⟨found, hfound, hexpr⟩ := List.mem_filterMap.mp hn
        rcases List.mem_cons.mp hfound with rfl | hfound
        · exact s₂.nodes (hi n hexpr)
        · exact hr n (List.mem_filterMap.mpr ⟨found, hfound, hexpr⟩))

end

/-! ## Commands -/

/-- Moves of building are steps of an embedder. -/
theorem World.steps_of_moves {w : World} {system : System} (h : System.Moves w.system system) :
    w.Steps (w.withSystem system) := by
  induction h with
  | refl => exact .refl
  | @tail a b _ hmove ih => exact ih.tail (.move (w := w.withSystem a) hmove)

namespace Session

variable {w : World} {s : Session}

/-- Whether a command sets no constant on behalf of the embedder. -/
def spares (s : Session) : Command → Bool
  | .assign name _ => (s.env.lookup name).all (!·.isConstant)
  | _ => true

/-- Whether the commands of a history set no constant on behalf of the embedder. -/
def sparesAll (s : Session) : List Command → Bool
  | [] => true
  | c :: rest => s.spares c && (s.report c).2.sparesAll rest

/-- The embedder can take the world to one that mirrors the session. -/
def Follows (w : World) (s : Session) : Prop := ∃ w', w.Steps w' ∧ w'.Mirrors s.workshop

theorem follows_self (h : w.Mirrors s.workshop) : Follows w s := ⟨w, .refl, h⟩

/-- One step that changes the system. -/
theorem follows_step (h : w.Mirrors s.workshop) {system : System}
    (hstep : w.Step (w.withSystem system)) : Follows w (s.withSystem system) :=
  ⟨_, .single hstep, h.withSystem system⟩

/-- One step that changes the environment. -/
theorem follows_env (h : w.Mirrors s.workshop) {f : Environment → Environment}
    (hstep : w.Step (w.withEnv (f w.env))) : Follows w (s.withEnv (f s.env)) := by
  unfold World.withEnv World.env at hstep
  rw [h.system] at hstep
  exact follows_step h hstep

theorem follows_moves (h : w.Mirrors s.workshop) {system : System}
    (hmoves : System.Moves s.workshop.system system) : Follows w (s.withSystem system) := by
  rw [← h.system] at hmoves
  exact ⟨_, steps_of_moves hmoves, h.withSystem system⟩

/-- A change of the machine that concerns neither values nor mappings. -/
theorem follows_machine (h : w.Mirrors s.workshop) {m : Machine}
    (hstores : m.stores = s.machine.stores) (hwindows : m.bus.windows = s.machine.bus.windows) :
    Follows w (s.withMachine m) := by
  have hmachine : w.machine = s.machine := congrArg System.machine h.system
  have hstep : w.Step (w.withMachine m) := .outside (by rw [hmachine, hstores])
    (by rw [hmachine, hwindows])
  refine ⟨_, .single hstep, ?_, h.nodes⟩
  show { w.system with machine := m } = { s.workshop.system with machine := m }
  rw [h.system]

/-- Two changes of a session, one after the other. -/
theorem Follows.trans {s' : Session} (h : Follows w s)
    (h' : ∀ {w'}, w'.Mirrors s.workshop → Follows w' s') : Follows w s' := by
  obtain ⟨w', hsteps, hmirrors⟩ := h
  obtain ⟨last, hmore, hlast⟩ := h' hmirrors
  exact ⟨last, hsteps.trans hmore, hlast⟩

theorem follows_answerBinding (h : w.Mirrors s.workshop) {made : Option (Variable × System)}
    (hmade : ∀ v system, made = some (v, system) → w.Step (w.withSystem system)) :
    Follows w (s.answerBinding made).2 := by
  cases made with
  | none => exact follows_self h
  | some made => exact follows_step h (hmade made.1 made.2 rfl)

theorem follows_build (h : w.Mirrors s.workshop) (key : String) (source : Source) :
    Follows w (s.build key source).2 := by
  obtain ⟨w', hsteps, hmirrors, hnode⟩ := source.build_realised h
  unfold build
  cases hb : source.build s.workshop with
  | error e shop =>
    rw [hb] at hmirrors
    exact ⟨w', hsteps, hmirrors⟩
  | ok node shop =>
    rw [hb] at hmirrors
    exact ⟨w', hsteps, hmirrors.store (hnode node shop hb) key⟩

/-- Executing a stored node. -/
theorem follows_exec (h : w.Mirrors s.workshop) {key : String} {node : Node}
    (hnode : s.workshop.node? key = some node) {r : Except Unwind Word} {m : Machine}
    (hexec : node.execute s.env s.machine = some (r, m)) : Follows w (s.withMachine m) := by
  have henv : w.env = s.env := congrArg System.env h.system
  have hmachine : w.machine = s.machine := congrArg System.machine h.system
  rw [Node.execute_eq, ← henv, ← hmachine] at hexec
  have hstep : w.Step (w.withMachine m) := .execute (h.nodes key node hnode) hexec
  refine ⟨_, .single hstep, ?_, h.nodes⟩
  show { w.system with machine := m } = { s.workshop.system with machine := m }
  rw [h.system]

theorem follows_execute (h : w.Mirrors s.workshop) (key : String) :
    Follows w (s.execute key).2 := by
  unfold execute
  cases hnode : s.workshop.node? key with
  | none => exact follows_self h
  | some node =>
    dsimp only
    cases hexec : node.execute s.env s.machine with
    | none => exact follows_self h
    | some ending => exact follows_exec h hnode hexec

/-- A run is an execution with reports to the trace around it. -/
theorem follows_run (h : w.Mirrors s.workshop) (key : String) : Follows w (s.run key).2 := by
  unfold run
  cases hnode : s.workshop.node? key with
  | none => exact follows_self h
  | some root =>
    dsimp only
    have hentered : Follows w (s.withMachine (s.machine.emit (.runEntered root.location))) :=
      follows_machine h rfl rfl
    unfold Node.run
    cases hexec : root.execute s.env (s.machine.emit (.runEntered root.location)) with
    | none => exact follows_self h
    | some ending =>
      refine hentered.trans fun h₁ => ?_
      exact (follows_exec h₁ hnode hexec).trans fun h₂ => follows_machine h₂ rfl rfl

/-! ### Subroutines -/

theorem follows_openDefinition (h : w.Mirrors s.workshop) (header : Header) :
    Follows w (s.openDefinition header).2 := by
  have hmoves := Build.made_beginSubroutine header.location header.name header.parameters
    header.result s.workshop.system
  unfold openDefinition
  cases hb : Build.beginSubroutine header.location header.name header.parameters header.result
      s.workshop.system with
  | ok _ system =>
    rw [hb] at hmoves
    exact follows_moves h hmoves
  | error e system =>
    rw [hb] at hmoves
    exact follows_moves h hmoves

theorem follows_closeDefinition (h : w.Mirrors s.workshop) (name : String) {body : Node}
    (hbody : body ∈ w.nodes) : Follows w (s.closeDefinition name body).2 := by
  unfold closeDefinition
  cases hf : s.workshop.system.finish? name body with
  | none =>
    rw [← h.system] at hf
    exact follows_env (f := Environment.abandon) h (.finishFails hf)
  | some finished =>
    rw [← h.system] at hf
    exact follows_step h (.finish hbody hf)

theorem follows_abandon (h : w.Mirrors s.workshop) (name : String) :
    Follows w (s.withSystem (s.workshop.system.abandon name)) := by
  have hstep : w.Step (w.withSystem (w.system.abandon name)) := .abandon name
  rw [h.system] at hstep
  exact follows_step h hstep

theorem follows_define (h : w.Mirrors s.workshop) (header : Header) (body : Source) :
    Follows w (s.define header body).2 := by
  have hopen := follows_openDefinition h header
  unfold define
  rcases ho : s.openDefinition header with ⟨_ | _, opened⟩
  · rw [ho] at hopen
    exact hopen
  · rw [ho] at hopen
    refine hopen.trans fun {w₁} h₁ => ?_
    obtain ⟨w₂, hsteps, hmirrors, hnode⟩ := body.build_realised h₁
    dsimp only
    cases hb : body.build opened.workshop with
    | ok node shop =>
      rw [hb] at hmirrors
      obtain ⟨last, hmore, hlast⟩ := follows_closeDefinition (s := { workshop := shop })
        hmirrors header.name (hnode node shop hb)
      exact ⟨last, hsteps.trans hmore, hlast⟩
    | error e shop =>
      rw [hb] at hmirrors
      have hbuilt : Follows w₁ { workshop := shop } := ⟨w₂, hsteps, hmirrors⟩
      exact hbuilt.trans fun h₂ => follows_abandon h₂ header.name

theorem follows_beginDefinition (h : w.Mirrors s.workshop) (header : Header) :
    Follows w (s.beginDefinition header).2 := by
  have hopen := follows_openDefinition h header
  unfold beginDefinition
  rcases ho : s.openDefinition header with ⟨_ | _, opened⟩
  · rw [ho] at hopen
    exact hopen
  · rw [ho] at hopen
    exact hopen

theorem follows_endDefinition (h : w.Mirrors s.workshop) (key name : String) :
    Follows w (s.endDefinition key name).2 := by
  unfold endDefinition
  cases hnode : s.workshop.node? key with
  | none => exact follows_self h
  | some body =>
    exact follows_closeDefinition (s := { workshop := s.workshop.remove key }) (h.remove key) name
      (h.nodes key body hnode)

/-! ### Histories -/

theorem follows_assign (h : w.Mirrors s.workshop) {name : String} {v : Variable}
    (hlookup : s.env.lookup name = some v) (hc : v.isConstant = false) (value : Word) :
    Follows w (s.withSystem (s.workshop.system.assign v value)) := by
  have henv : w.env = s.env := congrArg System.env h.system
  have hhas : w.env.Has v := .of_lookup (henv ▸ hlookup)
  have hobtain : w.Step { w with obtained := v :: w.obtained } := .obtain hhas
  have hassign := Step.assign (w := { w with obtained := v :: w.obtained }) value
    List.mem_cons_self hc
  refine ⟨_, (Relation.ReflTransGen.single hobtain).tail hassign, ?_, h.nodes⟩
  show w.system.assign v value = s.workshop.system.assign v value
  rw [h.system]

theorem follows_map (h : w.Mirrors s.workshop) (start length : Word) (device : String) :
    Follows w (s.step (.map start length device)).2 := by
  have hrequest : System.Moves s.workshop.system
      (s.workshop.system.noteRequest start length device) := .single (.request _ _ _ _)
  unfold step
  dsimp only
  split
  · rename_i hmap
    exact follows_moves h (hrequest.tail (.map hmap))
  · exact follows_moves h hrequest

theorem follows_bind (h : w.Mirrors s.workshop) (binding : Binding) (name : String) :
    Follows w (s.step (.bind binding name)).2 := by
  cases binding with
  | plain =>
    refine follows_answerBinding h fun v system hmade => ?_
    rw [← h.system] at hmade
    exact .move (.plain hmade)
  | static =>
    refine follows_answerBinding h fun v system hmade => ?_
    rw [← h.system] at hmade
    exact .move (.static hmade)
  | constant =>
    refine follows_answerBinding h fun v system hmade => ?_
    rw [← h.system] at hmade
    exact .newConstant hmade

/-- A command that sets no constant is made of steps of an embedder. -/
theorem follows_command (h : w.Mirrors s.workshop) {c : Command} (hc : s.spares c = true) :
    Follows w (s.step c).2 := by
  cases c with
  | build key source => exact follows_build h key source
  | run key => exact follows_run h key
  | execute key => exact follows_execute h key
  | bind binding name => exact follows_bind h binding name
  | define header body => exact follows_define h header body
  | beginDefinition header => exact follows_beginDefinition h header
  | endDefinition key name => exact follows_endDefinition h key name
  | abortDefinition name => exact follows_abandon h name
  | map start length device => exact follows_map h start length device
  | assign name value =>
    unfold step
    dsimp only
    cases hlookup : s.env.lookup name with
    | none => exact follows_self h
    | some v =>
      have hnot : v.isConstant = false := by simpa [spares, hlookup] using hc
      exact follows_assign h hlookup hnot value
  | drop name =>
    unfold step
    dsimp only
    cases hdrop : s.workshop.system.drop? name with
    | none => exact follows_self h
    | some system =>
      rw [← h.system] at hdrop
      exact follows_step h (.drop hdrop)
  | hold name key =>
    unfold step
    dsimp only
    cases s.env.subroutineId? name with
    | none => exact follows_self h
    | some id =>
      exact follows_env (f := (·.hold key id)) h (.hold key id)
  | release key => exact follows_env (f := (·.release key)) h (.release key)
  | lookup name | subroutine name | find address width =>
    unfold step
    dsimp only
    split
    · exact follows_self h
    · exact follows_self h
  | writeMemory | injectFault | clearFaults | supervise | requestStop | resetStop | nap =>
    exact follows_machine h rfl rfl
  | values | members | readMemory | stopState | defaultWidth => exact follows_self h

/-- Every history of a session in which the embedder sets no constant is made of steps of an
embedder. -/
theorem follows_steps (h : w.Mirrors s.workshop) {commands : List Command}
    (hspares : s.sparesAll commands = true) : Follows w (s.steps commands).2 := by
  induction commands generalizing w s with
  | nil => exact follows_self h
  | cons c rest ih =>
    simp only [sparesAll, Bool.and_eq_true] at hspares
    have hreport : Follows w (s.report c).2 :=
      (follows_command h hspares.1).trans fun h' => follows_machine h' rfl rfl
    exact hreport.trans fun h' => ih h' hspares.2

/-- A new world mirrors a session that has just been opened. -/
theorem mirrors_start (defaultWidth : Width) (denied : List String) (port : Port)
    (silent trace : Bool) :
    (World.opened defaultWidth denied port silent trace).Mirrors
      (start defaultWidth denied port silent trace).workshop := by
  refine ⟨rfl, fun key node hnode => ?_⟩
  simp [Workshop.node?, start] at hnode

/-- Every history of a session in which the embedder sets no constant leads to a world that can be
reached, with the system of the session and the nodes that are stored in it. -/
theorem steps_reached (defaultWidth : Width) (denied : List String) (port : Port)
    (silent trace : Bool) {commands : List Command}
    (hspares : (start defaultWidth denied port silent trace).sparesAll commands = true) :
    ∃ w : World, w.Reached ∧
      w.Mirrors ((start defaultWidth denied port silent trace).steps commands).2.workshop := by
  obtain ⟨w, hsteps, hmirrors⟩ :=
    follows_steps (mirrors_start defaultWidth denied port silent trace) hspares
  exact ⟨w, ⟨defaultWidth, denied, port, silent, trace, hsteps⟩, hmirrors⟩

end Session

end PeekPoke
