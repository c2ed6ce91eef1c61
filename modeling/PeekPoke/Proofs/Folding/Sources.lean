import PeekPoke.Proofs.Folding.Building
set_option autoImplicit false

/-!
# Building sources side by side

Two workshops go side by side if their systems are twins and the nodes kept under each key are a
node and its folded form (`Shops`).  Main statement: if a source can be built with folding, it can
be built without, and the results are a node and its folded form (`Source.build_tracks`).
-/

namespace PeekPoke

/-- A workshop in which nodes are folded and, first, one in which they are not. -/
structure Shops (c : Fixture) (p s : Workshop) : Prop where
  system : Twin c p.system s.system
  nodes : ∀ key : String, Option.Rel (Folds c) (p.node? key) (s.node? key)

namespace Shops

variable {c c' : Fixture} {p s : Workshop} {u f : Node}

/-- The nodes stay as they are while the systems change. -/
theorem withSystem (h : Shops c p s) (hc : c.Within c') {psystem ssystem : System}
    (hT : Twin c' psystem ssystem) :
    Shops c' { p with system := psystem } { s with system := ssystem } where
  system := hT
  nodes key := (h.nodes key).imp fun _ _ => Folds.mono hc

theorem remove (h : Shops c p s) (key : String) : Shops c (p.remove key) (s.remove key) where
  system := h.system
  nodes other := by
    unfold Workshop.node? Workshop.remove
    rw [Std.TreeMap.getElem?_erase, Std.TreeMap.getElem?_erase]
    split
    · exact .none
    · exact h.nodes other

theorem store (h : Shops c p s) (hfolds : Folds c u f) (key : String) :
    Shops c (p.store key u) (s.store key f) where
  system := h.system
  nodes other := by
    unfold Workshop.node? Workshop.store
    rw [Std.TreeMap.getElem?_insert, Std.TreeMap.getElem?_insert]
    split
    · exact .some hfolds
    · exact h.nodes other

end Shops

namespace Assembly

variable {c : Fixture}

theorem tracks_lift {α β : Type} {A : Fixture → α → β → Prop} {y : Build α} {x : Build β}
    (h : Tracks Twin c A y x) : Tracks Shops c A (lift y) (lift x) := by
  intro c₁ p s b s' hc hS hx
  unfold lift at hx
  cases hxs : x s.system with
  | error e system =>
    rw [hxs] at hx
    cases hx
  | ok b' system =>
    rw [hxs] at hx
    cases hx
    obtain ⟨a, psystem, hy, c₂, hc₂, hT, hA⟩ := h c₁ p.system s.system b system hc hS.system hxs
    refine ⟨a, { p with system := psystem }, ?_, c₂, hc₂, hS.withSystem hc₂ hT, hA⟩
    unfold lift
    rw [hy]

theorem tracks_take (key : String) : Tracks Shops c Folds (take key) (take key) := by
  intro c₁ p s b s' _ hS hx
  have hnodes := hS.nodes key
  cases hs : s.node? key with
  | none =>
    rw [take_of_none hs] at hx
    cases hx
  | some f =>
    rw [take_of_some hs] at hx
    rw [hs] at hnodes
    cases hx
    cases hp : p.node? key with
    | none =>
      rw [hp] at hnodes
      cases hnodes
    | some u =>
      rw [hp] at hnodes
      cases hnodes with
      | some hfolds =>
        exact ⟨u, p.remove key, take_of_some hp, c₁, .refl c₁, hS.remove key, hfolds⟩

end Assembly

/-! ## Sources -/

open Assembly (tracks_lift tracks_take) in
mutual

/-- **Building.**  If a source can be built with folding, it can be built without, and the results
are a node and its folded form. -/
theorem Source.build_tracks : (source : Source) → (c : Fixture) →
    Tracks Shops c Folds source.build source.build
  | .literal l w, _ => tracks_lift (Build.tracks_literal l w)
  | .integer l text, _ => tracks_lift (Build.tracks_literalOf l (Numeral.integer text))
  | .float l text, _ => tracks_lift (Build.tracks_literalOf l (Numeral.float text))
  | .jump l j, _ => tracks_lift (Build.tracks_jump l j)
  | .block l statements, c =>
    Tracks.bind (buildAll_tracks statements c) fun _ _ _ _ h => tracks_lift (Build.tracks_block l h)
  | .assign l name value, c =>
    Tracks.bind (value.build_tracks c) fun _ _ _ _ h => tracks_lift (Build.tracks_assign l name h)
  | .static l name value, c =>
    Tracks.bind (value.build_tracks c) fun _ _ _ _ h => tracks_lift (Build.tracks_static l name h)
  | .define l name value, c =>
    Tracks.bind (value.build_tracks c) fun _ _ _ _ h => tracks_lift (Build.tracks_define l name h)
  | .defineFrom l name value base, c =>
    Tracks.bind (value.build_tracks c) fun _ _ _ _ h =>
      tracks_lift (Build.tracks_defineFrom l name base h)
  | .map l start length device, c =>
    Tracks.bind (start.build_tracks c) fun c₁ _ _ _ hs =>
      Tracks.bind (length.build_tracks c₁) fun _ _ _ hc₂ hl =>
        tracks_lift (Build.tracks_map l (hs.mono hc₂) hl device)
  | .cond l condition thenBranch elseBranch, c =>
    Tracks.bind (condition.build_tracks c) fun c₁ _ _ _ hc =>
      Tracks.bind (thenBranch.build_tracks c₁) fun c₂ _ _ hc₂ ht =>
        Tracks.bind (buildOption_tracks elseBranch c₂) fun _ _ _ hc₃ he =>
          tracks_lift (Build.tracks_cond l (hc.mono (hc₂.trans hc₃)) (ht.mono hc₃) he)
  | .whileLoop l condition body, c =>
    Tracks.bind (condition.build_tracks c) fun c₁ _ _ _ hc =>
      Tracks.bind (body.build_tracks c₁) fun _ _ _ hc₂ hb =>
        tracks_lift (Build.tracks_whileLoop l (hc.mono hc₂) hb)
  | .forLoop l start target step body, c =>
    Tracks.bind (start.build_tracks c) fun c₁ _ _ _ hi =>
      Tracks.bind (target.build_tracks c₁) fun c₂ _ _ hc₂ ht =>
        Tracks.bind (buildOption_tracks step c₂) fun c₃ _ _ hc₃ hs =>
          Tracks.bind (body.build_tracks c₃) fun _ _ _ hc₄ hb =>
            tracks_lift (Build.tracks_forLoop l (hi.mono (hc₂.trans (hc₃.trans hc₄)))
              (ht.mono (hc₃.trans hc₄)) (hs.imp fun _ _ => Folds.mono hc₄) hb)
  | .print l items trailing, c =>
    Tracks.bind (buildItems_tracks items c) fun _ _ _ _ h =>
      tracks_lift (Build.tracks_print l h trailing)
  | .sleep l micros, c =>
    Tracks.bind (micros.build_tracks c) fun _ _ _ _ h => tracks_lift (Build.tracks_sleep l h)
  | .imported l root, c =>
    Tracks.bind (buildOption_tracks root c) fun _ _ _ _ h => tracks_lift (Build.tracks_imported l h)
  | .var l name, _ => tracks_lift (Build.tracks_var l name)
  | .indexed l name offset, c =>
    Tracks.bind (offset.build_tracks c) fun _ _ _ _ h =>
      tracks_lift (Build.tracks_indexed l name h)
  | .unary l op operand, c =>
    Tracks.bind (operand.build_tracks c) fun _ _ _ _ h => tracks_lift (Build.tracks_unary l op h)
  | .binary l op left right, c =>
    Tracks.bind (left.build_tracks c) fun c₁ _ _ _ hl =>
      Tracks.bind (right.build_tracks c₁) fun _ _ _ hc₂ hr =>
        tracks_lift (Build.tracks_binary l op (hl.mono hc₂) hr)
  | .narrow l width operand, c =>
    Tracks.bind (operand.build_tracks c) fun _ _ _ _ h =>
      tracks_lift (Build.tracks_narrow l width h)
  | .peek l address width, c =>
    Tracks.bind (address.build_tracks c) fun _ _ _ _ h => tracks_lift (Build.tracks_peek l width h)
  | .poke l address value mask width, c =>
    Tracks.bind (address.build_tracks c) fun c₁ _ _ _ ha =>
      Tracks.bind (value.build_tracks c₁) fun c₂ _ _ hc₂ hv =>
        Tracks.bind (buildOption_tracks mask c₂) fun _ _ _ hc₃ hm =>
          tracks_lift (Build.tracks_poke l width (ha.mono (hc₂.trans hc₃)) (hv.mono hc₃) hm)
  | .call l name arguments, c =>
    Tracks.bind (buildAll_tracks arguments c) fun _ _ _ _ h =>
      tracks_lift (Build.tracks_call l name h)
  | .stored key, _ => tracks_take key

theorem buildAll_tracks : (sources : List Source) → (c : Fixture) →
    Tracks Shops c (fun c => Matching (Folds c)) (buildAll sources) (buildAll sources)
  | [], _ => Tracks.pure fun _ _ => .nil
  | source :: rest, c =>
    Tracks.bind (source.build_tracks c) fun c₁ _ _ _ h =>
      Tracks.bind (buildAll_tracks rest c₁) fun _ _ _ hc₂ hs =>
        Tracks.pure fun _ hc₃ =>
          .cons (h.mono (hc₂.trans hc₃)) (hs.imp fun _ _ => Folds.mono hc₃)

theorem buildOption_tracks : (source : Option Source) → (c : Fixture) →
    Tracks Shops c (fun c => Option.Rel (Folds c)) (buildOption source) (buildOption source)
  | none, _ => Tracks.pure fun _ _ => .none
  | some source, c =>
    Tracks.bind (source.build_tracks c) fun _ _ _ _ h =>
      Tracks.pure fun _ hc₂ => .some (h.mono hc₂)

theorem buildItem_tracks : (item : PrintItem Source) → (c : Fixture) →
    Tracks Shops c Build.ItemFolds (buildItem item) (buildItem item)
  | .text text, _ => Tracks.pure fun _ _ => .text text
  | .value expr format, c =>
    Tracks.bind (expr.build_tracks c) fun _ _ _ _ h =>
      Tracks.pure fun _ hc₂ => .value format (h.mono hc₂)

theorem buildItems_tracks : (items : List (PrintItem Source)) → (c : Fixture) →
    Tracks Shops c (fun c => Matching (Build.ItemFolds c)) (buildItems items) (buildItems items)
  | [], _ => Tracks.pure fun _ _ => .nil
  | item :: rest, c =>
    Tracks.bind (buildItem_tracks item c) fun c₁ _ _ _ h =>
      Tracks.bind (buildItems_tracks rest c₁) fun _ _ _ hc₂ hs =>
        Tracks.pure fun _ hc₃ =>
          .cons (h.mono (hc₂.trans hc₃)) (hs.imp fun _ _ => Build.ItemFolds.mono hc₃)

end

end PeekPoke
