import PeekPoke.Proofs.Moves
set_option autoImplicit false

/-!
# What the mapping table means

A table is filled by requests for ranges.  Each of them is refused, finds its range covered by a
window of the same device, or adds a window, and which devices deny what they are asked for may
change from request to request (`MapRequest`).  Main statement: after every sequence of requests an
access finds a window exactly if a single accepted range contains it, and goes through the same
window from then on; refused requests leave the windows as they are, a device is asked exactly for
ranges that are usable and not covered, and no window lies in an earlier one of its device
(`Bus.mapsExactly`).

The argument is an invariant of the windows and the accepted requests (`Bus.Represents`): every
window is the range of an accepted request, and every accepted range lies in a window.
-/

namespace PeekPoke

/-! ## Requests -/

/-- A request for a range of a device, and the devices that deny what they are asked for when it is
made. -/
structure MapRequest where
  start : Word
  length : Word
  device : String
  denied : List String := []
  deriving DecidableEq, Repr, Inhabited

namespace MapRequest

/-- The bytes of an access lie in the range, all of them and without wrapping around. -/
def Contains (r : MapRequest) (a : Word) (s : Width) : Prop :=
  r.start.toNat ≤ a.toNat ∧ a.toNat + s.bytes ≤ r.start.toNat + r.length.toNat

/-- The range has addresses and does not reach past the address space. -/
def Usable (r : MapRequest) : Prop :=
  r.length ≠ 0 ∧ r.start.toNat + r.length.toNat < UInt64.size

end MapRequest

/-- The error that is returned for a reply. -/
def MapReply.error? : MapReply → Option MapError
  | rejected e => some e
  | denied e => some e
  | _ => none

/-- A system returns the error of the reply to its request. -/
theorem System.map_eq_error_iff (s : System) (start length : Word) (device : String)
    (e : MapError) :
    s.map start length device = .error e ↔
      (s.machine.bus.request start length device).error? = some e := by
  unfold System.map
  dsimp only
  cases s.machine.bus.request start length device <;> simp [MapReply.error?]

namespace Bus

/-- The reply to a request. -/
def reply (b : Bus) (r : MapRequest) : MapReply :=
  { b with denied := r.denied }.request r.start r.length r.device

/-- The bus after a request. -/
def register (b : Bus) (r : MapRequest) : Bus := b.afterRequest (b.reply r)

/-- The bus after requests, one after the other. -/
def registerAll (b : Bus) (requests : List MapRequest) : Bus := requests.foldl register b

/-- The requests for which no error is returned. -/
def accepted (b : Bus) : List MapRequest → List MapRequest
  | [] => []
  | r :: rest =>
    if (b.reply r).error?.isNone then r :: (b.register r).accepted rest
    else (b.register r).accepted rest

variable {b : Bus} {r : MapRequest}

/-! ## One request -/

/-- A window of the device makes the whole range of the request accessible. -/
def Covered (b : Bus) (r : MapRequest) : Prop :=
  ∃ w ∈ b.windows, w.device = r.device ∧ w.base.toNat ≤ r.start.toNat ∧
    r.start.toNat + r.length.toNat ≤ w.base.toNat + w.length.toNat

theorem any_covers_iff (b : Bus) (r : MapRequest) :
    b.windows.any (·.covers r.start r.length r.device) = true ↔ b.Covered r := by
  simp only [List.any_eq_true, Window.covers_iff, Covered]

/-- What can come of a request. -/
theorem reply_cases (b : Bus) (r : MapRequest) :
    (¬ r.Usable ∧ ∃ e, b.reply r = .rejected e) ∨
    (r.Usable ∧ b.Covered r ∧ b.reply r = .covered) ∨
    (r.Usable ∧ ¬ b.Covered r ∧ ∃ e, b.reply r = .denied e) ∨
    (r.Usable ∧ ¬ b.Covered r ∧
      b.reply r = .mapped { base := r.start, length := r.length, device := r.device }) := by
  unfold reply request
  split
  · rename_i hempty
    exact Or.inl ⟨fun h => h.1 hempty, _, rfl⟩
  rename_i hnonempty
  split
  · rename_i hwraps
    refine Or.inl ⟨fun h => ?_, _, rfl⟩
    exact Nat.not_lt_of_le hwraps h.2
  rename_i hfits
  have husable : r.Usable := ⟨hnonempty, Nat.lt_of_not_le hfits⟩
  split
  · rename_i hcovered
    exact Or.inr (Or.inl ⟨husable, (any_covers_iff b r).mp hcovered, rfl⟩)
  rename_i hfree
  have hnot : ¬ b.Covered r := fun h => hfree ((any_covers_iff b r).mpr h)
  split
  · exact Or.inr (Or.inr (Or.inl ⟨husable, hnot, _, rfl⟩))
  · exact Or.inr (Or.inr (Or.inr ⟨husable, hnot, rfl⟩))

/-- A request that is refused adds no window, and one that is accepted finds its range covered or
adds the range. -/
theorem windows_register_cases (b : Bus) (r : MapRequest) :
    ((b.reply r).error?.isSome = true ∧ (b.register r).windows = b.windows) ∨
    ((b.reply r).error? = none ∧ b.Covered r ∧ (b.register r).windows = b.windows) ∨
    ((b.reply r).error? = none ∧ ¬ b.Covered r ∧ (b.register r).windows =
      b.windows ++ [{ base := r.start, length := r.length, device := r.device }]) := by
  unfold register
  rcases b.reply_cases r with ⟨-, e, h⟩ | ⟨-, hcovered, h⟩ | ⟨-, -, e, h⟩ | ⟨-, hnot, h⟩
  · exact Or.inl (by rw [h]; exact ⟨rfl, rfl⟩)
  · exact Or.inr (Or.inl (by rw [h]; exact ⟨rfl, hcovered, rfl⟩))
  · exact Or.inl (by rw [h]; exact ⟨rfl, rfl⟩)
  · exact Or.inr (Or.inr (by rw [h]; exact ⟨rfl, hnot, rfl⟩))

theorem windows_of_refused (h : (b.reply r).error?.isSome = true) :
    (b.register r).windows = b.windows := by
  rcases b.windows_register_cases r with ⟨-, hw⟩ | ⟨hnone, -⟩ | ⟨hnone, -⟩
  · exact hw
  · simp [hnone] at h
  · simp [hnone] at h

/-- A device is asked exactly for a usable range that none of its windows covers. -/
theorem isAsked_reply_iff (b : Bus) (r : MapRequest) :
    (b.reply r).isAsked = true ↔ r.Usable ∧ ¬ b.Covered r := by
  rcases b.reply_cases r with
    ⟨hnot, e, h⟩ | ⟨-, hcovered, h⟩ | ⟨husable, hnot, e, h⟩ | ⟨husable, hnot, h⟩
  · simp [h, MapReply.isAsked, hnot]
  · simp [h, MapReply.isAsked, hcovered]
  · simp [h, MapReply.isAsked, husable, hnot]
  · simp [h, MapReply.isAsked, husable, hnot]

/-! ## Windows and accepted requests -/

/-- Every window is the range of an accepted request, every accepted range lies in a window, and no
window lies in an earlier one of its device. -/
structure Represents (b : Bus) (accepted : List MapRequest) : Prop where
  sound : ∀ w ∈ b.windows, ∃ r ∈ accepted, w.base = r.start ∧ w.length = r.length
  complete : ∀ r ∈ accepted, b.Covered r
  apart : b.windows.Pairwise fun u v => u.device = v.device →
    ¬ (u.base.toNat ≤ v.base.toNat ∧
      v.base.toNat + v.length.toNat ≤ u.base.toNat + u.length.toNat)

variable {accepted : List MapRequest}

/-- Another accepted request that is covered by a window there is. -/
theorem Represents.of_covered (h : b.Represents accepted) (hr : b.Covered r) :
    b.Represents (accepted ++ [r]) where
  sound w hw := by
    obtain ⟨r', hr', hrange⟩ := h.sound w hw
    exact ⟨r', List.mem_append_left _ hr', hrange⟩
  complete r' hr' := by
    rcases List.mem_append.mp hr' with hr' | hr'
    · exact h.complete r' hr'
    · exact List.mem_singleton.mp hr' ▸ hr
  apart := h.apart

/-- Another accepted request for which there is a window of its own. -/
theorem Represents.addWindow (h : b.Represents accepted) (hr : ¬ b.Covered r) :
    (b.addWindow { base := r.start, length := r.length, device := r.device }).Represents
      (accepted ++ [r]) where
  sound w hw := by
    rcases List.mem_append.mp hw with hw | hw
    · obtain ⟨r', hr', hrange⟩ := h.sound w hw
      exact ⟨r', List.mem_append_left _ hr', hrange⟩
    · obtain rfl := List.mem_singleton.mp hw
      exact ⟨r, by simp, rfl, rfl⟩
  complete r' hr' := by
    rcases List.mem_append.mp hr' with hr' | hr'
    · obtain ⟨w, hw, hcovers⟩ := h.complete r' hr'
      exact ⟨w, List.mem_append_left _ hw, hcovers⟩
    · obtain rfl := List.mem_singleton.mp hr'
      exact ⟨_, List.mem_append_right _ (List.mem_singleton_self _), rfl, Nat.le_refl _,
        Nat.le_refl _⟩
  apart := by
    refine List.pairwise_append.mpr ⟨h.apart, List.pairwise_singleton _ _, ?_⟩
    intro u hu v hv hdevice hinside
    obtain rfl := List.mem_singleton.mp hv
    exact hr ⟨u, hu, hdevice, hinside⟩

theorem Represents.of_windows {b' : Bus} (h : b.Represents accepted)
    (hwindows : b'.windows = b.windows) : b'.Represents accepted := by
  refine ⟨?_, fun r hr => ?_, ?_⟩
  · rw [hwindows]
    exact h.sound
  · unfold Covered
    rw [hwindows]
    exact h.complete r hr
  · rw [hwindows]
    exact h.apart

/-- One request keeps the windows in step with the accepted requests. -/
theorem Represents.register (h : b.Represents accepted) (r : MapRequest) :
    (b.register r).Represents
      (if (b.reply r).error?.isNone then accepted ++ [r] else accepted) := by
  rcases b.windows_register_cases r with ⟨hsome, hw⟩ | ⟨hnone, hcovered, hw⟩ | ⟨hnone, hnot, hw⟩
  · rw [if_neg (by simp [Option.isSome_iff_ne_none.mp hsome])]
    exact h.of_windows hw
  · rw [if_pos (by simp [hnone])]
    exact (h.of_covered hcovered).of_windows hw
  · rw [if_pos (by simp [hnone])]
    exact (h.addWindow hnot).of_windows hw

/-- So do any number of requests. -/
theorem Represents.registerAll (h : b.Represents accepted) (requests : List MapRequest) :
    (b.registerAll requests).Represents (accepted ++ b.accepted requests) := by
  induction requests generalizing b accepted with
  | nil =>
    rw [Bus.accepted, List.append_nil]
    exact h
  | cons r rest ih =>
    have hrest := ih (h.register r)
    rw [Bus.accepted]
    split
    · rename_i hnone
      rw [if_pos hnone, List.append_assoc] at hrest
      exact hrest
    · rename_i hsome
      rw [if_neg hsome] at hrest
      exact hrest

/-! ## Lookup -/

/-- An access finds a window exactly if one contains it. -/
theorem isSome_find?_iff (b : Bus) (a : Word) (s : Width) :
    (b.find? a s).isSome = true ↔ ∃ w ∈ b.windows, w.base.toNat ≤ a.toNat ∧
      a.toNat + s.bytes ≤ w.base.toNat + w.length.toNat := by
  simp [find?, Window.contains_iff]

theorem Represents.isSome_find?_iff (h : b.Represents accepted) (a : Word) (s : Width) :
    (b.find? a s).isSome = true ↔ ∃ r ∈ accepted, r.Contains a s := by
  rw [b.isSome_find?_iff]
  constructor
  · rintro ⟨w, hw, hcontains⟩
    obtain ⟨r, hr, hbase, hlength⟩ := h.sound w hw
    rw [hbase, hlength] at hcontains
    exact ⟨r, hr, hcontains⟩
  · rintro ⟨r, hr, hlow, hhigh⟩
    obtain ⟨w, hw, -, hbase, hend⟩ := h.complete r hr
    exact ⟨w, hw, by omega, by omega⟩

/-- Windows are only ever added, behind those there are. -/
theorem windows_registerAll (b : Bus) (requests : List MapRequest) :
    b.windows <+: (b.registerAll requests).windows := by
  induction requests generalizing b with
  | nil => exact List.prefix_rfl
  | cons r rest ih =>
    have hfirst : b.windows <+: (b.register r).windows := by
      rcases b.windows_register_cases r with ⟨-, hw⟩ | ⟨-, -, hw⟩ | ⟨-, -, hw⟩
      · exact hw ▸ List.prefix_rfl
      · exact hw ▸ List.prefix_rfl
      · exact hw ▸ List.prefix_append _ _
    exact hfirst.trans (ih (b.register r))

/-- A window that was found is found again, whatever windows are added behind it. -/
theorem find?_of_prefix {b' : Bus} (h : b.windows <+: b'.windows) {a : Word} {s : Width} {k : Nat}
    (hk : b.find? a s = some k) :
    b'.find? a s = some k ∧ b'.windows[k]? = b.windows[k]? := by
  obtain ⟨more, hmore⟩ := h
  have hlt : k < b.windows.length := (List.findIdx?_eq_some_iff_getElem.mp hk).1
  unfold find? at hk ⊢
  rw [← hmore, List.findIdx?_append, hk, List.getElem?_append_left hlt]
  exact ⟨rfl, rfl⟩

/-! ## Tables -/

/-- What a table that was filled by requests does. -/
structure MapsExactly (b : Bus) (requests : List MapRequest) : Prop where
  /-- An access finds a window exactly if a single accepted range contains it. -/
  found : ∀ a s, ((b.registerAll requests).find? a s).isSome = true ↔
    ∃ r ∈ b.accepted requests, r.Contains a s
  /-- It finds the same window after any further requests. -/
  stable : ∀ {a : Word} {s : Width} {k : Nat} (more : List MapRequest),
    (b.registerAll requests).find? a s = some k →
      (b.registerAll (requests ++ more)).find? a s = some k ∧
      (b.registerAll (requests ++ more)).windows[k]? = (b.registerAll requests).windows[k]?
  /-- A request that is refused leaves the windows as they are. -/
  refused : ∀ r, ((b.registerAll requests).reply r).error?.isSome = true →
    (b.registerAll (requests ++ [r])).windows = (b.registerAll requests).windows
  /-- A device is asked exactly for ranges that have addresses, do not reach past the address space
  and are not covered by one of its windows. -/
  asked : ∀ r, ((b.registerAll requests).reply r).isAsked = true ↔
    r.Usable ∧ ¬ (b.registerAll requests).Covered r
  /-- No window lies in an earlier one of its device. -/
  apart : ∀ {i j : Nat} {u v : Window}, i < j → (b.registerAll requests).windows[i]? = some u →
    (b.registerAll requests).windows[j]? = some v → u.device = v.device →
    ¬ (u.base.toNat ≤ v.base.toNat ∧
      v.base.toNat + v.length.toNat ≤ u.base.toNat + u.length.toNat)

/-- **Mappings.**  A table means exactly the ranges that were accepted, whatever was asked for in
whatever order and whichever devices denied it. -/
theorem mapsExactly (port : Port) (requests : List MapRequest) :
    MapsExactly { port } requests := by
  have hempty : Represents { port } [] := ⟨by simp, by simp, List.Pairwise.nil⟩
  have hrepresents := hempty.registerAll requests
  refine ⟨fun a s => ?_, fun more hk => ?_, fun r hr => ?_, fun r => isAsked_reply_iff _ r,
    fun hij hu hv => ?_⟩
  · simpa using hrepresents.isSome_find?_iff a s
  · unfold registerAll
    rw [List.foldl_append]
    exact find?_of_prefix (windows_registerAll _ more) hk
  · unfold registerAll
    rw [List.foldl_append]
    exact windows_of_refused hr
  · obtain ⟨hi, rfl⟩ := List.getElem?_eq_some_iff.mp hu
    obtain ⟨hj, rfl⟩ := List.getElem?_eq_some_iff.mp hv
    exact List.pairwise_iff_getElem.mp hrepresents.apart _ _ hi hj hij

/-- Two ranges side by side are not one: an access across their border finds no window. -/
example :
    let table := Bus.registerAll {} [⟨0x1000, 4, "uart", []⟩, ⟨0x1004, 4, "uart", []⟩]
    table.find? 0x1002 .w32 = none ∧ table.find? 0x1004 .w32 = some 1 := by decide

end Bus

end PeekPoke
