import Mathlib.Data.List.Induction
import VersionSix.Vui

/-!
# Hover

`vui_send_event` makes a mouse move the entrance into an element, when
`vui.last_hover` is 0, or the exit from the element entered last. The flag
`is_hover` of a button is written by the handlers of these two events only. So
a hovered button is always the one in `vui.last_hover`, and an element is left
only after it was entered (`hover_consistent`).

Elements may be created between the events, and put into any lists, so a run is
any sequence of creations, changes of lists and mouse events. What is to hold
of the notifications is a property of the whole history: entrances and exits
alternate, and each exit is from the element entered last (`Entered`).

A move from one element to another is made an exit only, and the entrance comes
with the next move. The invariant therefore ties the flag to `last_hover` and
not to where the mouse is.
-/

namespace VersionSix.Vui

/-! ## Runs -/

inductive Mouse
  | move | down | up

def Mouse.type : Mouse → EventType
  | .move => .mouseMove
  | .down => .mouseDown
  | .up => .mouseUp

inductive Event
  | desktop (width height : UInt16)
  | window (x y width height : UInt16) (flags : UInt32)
  | button (x y width height : UInt16) (parent : Nat)
  | label (parent : Nat)
  | console (block : VuiCommon) (parent : Nat)
  | menu
  | menubar
  | addToParent (parent child : Nat)
  | mouse (event : Mouse) (x y : UInt16)

def step (s : Core) : Event → Option Core
  | .desktop width height => (vuiDesktopCreate s width height).map Prod.fst
  | .window x y width height flags => (vuiWindowCreate s x y width height flags).map Prod.fst
  | .button x y width height parent => (vuiButtonCreate s x y width height parent).map Prod.fst
  | .label parent => (vuiLabelCreate s parent).map Prod.fst
  | .console block parent => (vuiConsoleCreate s block parent).map Prod.fst
  | .menu => (vuiMenuCreate s).map Prod.fst
  | .menubar => (vuiMenubarCreate s).map Prod.fst
  | .addToParent parent child => vuiAddToParent s parent child
  | .mouse event x y => vuiExternalEventHandler s event.type x y

/-! ## What is to hold -/

/-- The record at `n` is a button under the mouse. -/
def Hovered (s : Core) (n : Nat) (b : VuiCommon) : Prop :=
  s.heap[n]? = some b ∧ b.type = .button ∧ b.isHover = true

/-- There is one such button at most, and `vui.last_hover` is its handle. -/
def HoverConsistent (s : Core) : Prop :=
  (∀ n n' b b', Hovered s n b → Hovered s n' b' → n = n') ∧
    ∀ n b, Hovered s n b → s.lastHover = b.handle

/-- `H` was entered and not left since. -/
def Entered (H : Nat) (h : List VuiEvent) : Prop :=
  ∃ h₁ h₂, h = h₁ ++ ⟨H, .mouseEnter⟩ :: h₂ ∧ ⟨H, .mouseExit⟩ ∉ h₂

/-- Whatever is left was entered before, and not left in between. -/
def ExitsFollowEnters (h : List VuiEvent) : Prop :=
  ∀ h₁ H h₂, h = h₁ ++ ⟨H, .mouseExit⟩ :: h₂ → Entered H h₁

theorem entered_concat (H : Nat) (h : List VuiEvent) : Entered H (h ++ [⟨H, .mouseEnter⟩]) :=
  ⟨h, [], rfl, List.not_mem_nil⟩

theorem Entered.concat {H : Nat} {h : List VuiEvent} (hentered : Entered H h) {e : VuiEvent}
    (he : e.type ≠ .mouseExit) : Entered H (h ++ [e]) := by
  obtain ⟨h₁, h₂, rfl, hnot⟩ := hentered
  refine ⟨h₁, h₂ ++ [e], by rw [List.append_assoc, List.cons_append], fun hmem => ?_⟩
  rcases List.mem_append.mp hmem with hmem | hmem
  · exact hnot hmem
  · obtain rfl := List.mem_singleton.mp hmem
    exact he rfl

theorem exitsFollowEnters_concat {h : List VuiEvent} (hexits : ExitsFollowEnters h) {e : VuiEvent}
    (he : e.type = .mouseExit → Entered e.H h) : ExitsFollowEnters (h ++ [e]) := by
  intro h₁ H h₂ heq
  cases h₂ using List.reverseRecOn with
  | nil =>
      obtain ⟨rfl, hlast⟩ := List.append_inj' heq rfl
      obtain rfl := List.head_eq_of_cons_eq hlast
      exact he rfl
  | append_singleton h₂ y =>
      rw [← List.cons_append, ← List.append_assoc] at heq
      exact hexits h₁ H h₂ (List.append_inj' heq rfl).1

/-! ## The invariant -/

def buttonOps : VuiOperations where
  defaultOnMouseDown := some .vuiButtonOnMouseDown
  defaultOnMouseUp := some .vuiButtonOnMouseUp
  defaultOnMouseEnter := some .vuiButtonOnMouseEnter
  defaultOnMouseExit := some .vuiButtonOnMouseExit
  defaultOnMouseMove := some .vuiButtonOnMouseMove

/-- Handles lead to records that know their handle, and buttons have the handlers of
buttons. -/
structure Registered (s : Core) : Prop where
  next : 1 ≤ s.handleNext
  used : ∀ H, s.handles H ≠ .null → H < s.handleNext
  handle : ∀ H n, H ≠ 0 → s.handles H = .block n → (s.heap[n]?).map VuiCommon.handle = some H
  ops : ∀ (n : Nat) (b : VuiCommon), s.heap[n]? = some b → b.type = .button → b.ops = buttonOps

structure Tracked (s : Core) : Prop where
  registered : Registered s
  hover : ∀ n b, Hovered s n b →
    s.lastHover = b.handle ∧ s.lastHover ≠ 0 ∧ s.handles s.lastHover = .block n
  entered : s.lastHover ≠ 0 → Entered s.lastHover s.notified
  exits : ExitsFollowEnters s.notified

theorem Tracked.consistent {s : Core} (h : Tracked s) : HoverConsistent s := by
  refine ⟨fun n n' b b' hb hb' => ?_, fun n b hb => (h.hover n b hb).1⟩
  have hn := (h.hover n b hb).2.2
  rw [(h.hover n' b' hb').2.2] at hn
  exact (Data.block.inj hn).symm

/-! ## Writing to a record -/

/-- The state after `f` was applied to the record at `data`, as far as blocks go. -/
structure Touched (s s' : Core) (data : Data) (f : VuiCommon → VuiCommon) : Prop where
  handles : s'.handles = s.handles
  handleNext : s'.handleNext = s.handleNext
  lastHover : s'.lastHover = s.lastHover
  notified : s'.notified = s.notified
  heap : ∀ n, s'.heap[n]? = (s.heap[n]?).map fun b => if data = .block n then f b else b

variable {s s' : Core} {data : Data} {f : VuiCommon → VuiCommon}

theorem modify_touched (h : s.modify f data = some s') : Touched s s' data f := by
  cases data with
  | null => cases h
  | mainMenubar =>
      obtain rfl := Option.some.inj h
      exact ⟨rfl, rfl, rfl, rfl, fun n => by simp⟩
  | block m =>
      obtain rfl := Option.some.inj h
      refine ⟨rfl, rfl, rfl, rfl, fun n => ?_⟩
      simp only [List.getElem?_modify, Data.block.injEq]
      rfl

/-- `f` leaves alone who an element is. -/
def KeepsIdentity (f : VuiCommon → VuiCommon) : Prop :=
  ∀ b, (f b).type = b.type ∧ (f b).handle = b.handle ∧ (f b).ops = b.ops

theorem Touched.cases (h : Touched s s' data f) {n : Nat} {b' : VuiCommon}
    (hb' : s'.heap[n]? = some b') : ∃ b, s.heap[n]? = some b ∧
      (data = .block n ∧ b' = f b ∨ data ≠ .block n ∧ b' = b) := by
  rw [h.heap n] at hb'
  obtain ⟨b, hb, hvalue⟩ := Option.map_eq_some_iff.mp hb'
  refine ⟨b, hb, ?_⟩
  by_cases hdata : data = .block n
  · rw [if_pos hdata] at hvalue
    exact .inl ⟨hdata, hvalue.symm⟩
  · rw [if_neg hdata] at hvalue
    exact .inr ⟨hdata, hvalue.symm⟩

theorem Registered.touched (h : Registered s) (ht : Touched s s' data f) (hf : KeepsIdentity f) :
    Registered s' := by
  refine ⟨ht.handleNext ▸ h.next, fun H hH => ?_, fun H n hH hn => ?_, fun n b' hb' htype => ?_⟩
  · rw [ht.handleNext]
    exact h.used H (ht.handles ▸ hH)
  · obtain ⟨b, hb, hhandle⟩ := Option.map_eq_some_iff.mp (h.handle H n hH (ht.handles ▸ hn))
    rw [ht.heap n, hb, Option.map_some, Option.map_some]
    split
    · rw [(hf b).2.1, hhandle]
    · rw [hhandle]
  · obtain ⟨b, hb, ⟨-, rfl⟩ | ⟨-, rfl⟩⟩ := ht.cases hb'
    · rw [(hf b).2.2]
      exact h.ops n b hb ((hf b).1 ▸ htype)
    · exact h.ops n _ hb htype

theorem Tracked.quiet (h : Tracked s) (hs' : s.modify f data = some s') (hf : KeepsIdentity f)
    (hhover : ∀ b, (f b).isHover = b.isHover) : Tracked s' := by
  have ht := modify_touched hs'
  refine ⟨h.registered.touched ht hf, fun n b' ⟨hb', htype, hflag⟩ => ?_, fun hne => ?_, ?_⟩
  · rw [ht.lastHover, ht.handles]
    obtain ⟨b, hb, ⟨-, rfl⟩ | ⟨-, rfl⟩⟩ := ht.cases hb'
    · rw [(hf b).2.1]
      exact h.hover n b ⟨hb, (hf b).1 ▸ htype, hhover b ▸ hflag⟩
    · exact h.hover n _ ⟨hb, htype, hflag⟩
  · rw [ht.lastHover, ht.notified]
    exact h.entered (ht.lastHover ▸ hne)
  · rw [ht.notified]
    exact h.exits

/-! ## Creating elements -/

theorem Tracked.dispatchers (h : Tracked s) (list : List Nat) :
    Tracked { s with dispatchers := list } :=
  ⟨⟨h.registered.next, h.registered.used, h.registered.handle, h.registered.ops⟩, h.hover,
    h.entered,
    h.exits⟩

theorem Tracked.addToParent (h : Tracked s) {parent child : Nat}
    (hs' : vuiAddToParent s parent child = some s') : Tracked s' := by
  obtain ⟨parentSt, -, hs'⟩ := Option.bind_eq_some_iff.mp hs'
  obtain ⟨childSt, -, hs'⟩ := Option.bind_eq_some_iff.mp hs'
  split at hs'
  · exact Option.some.inj hs' ▸ h
  split at hs'
  · exact Option.some.inj hs' ▸ h
  obtain ⟨c, -, hs'⟩ := Option.bind_eq_some_iff.mp hs'
  obtain ⟨s₁, hs₁, hs'⟩ := Option.bind_eq_some_iff.mp hs'
  obtain ⟨p, -, hs'⟩ := Option.bind_eq_some_iff.mp hs'
  have h₁ : Tracked s₁ := h.quiet hs₁ (fun _ => ⟨rfl, rfl, rfl⟩) fun _ => rfl
  exact h₁.quiet hs' (fun _ => ⟨rfl, rfl, rfl⟩) fun _ => rfl

theorem Tracked.cleanup (h : Tracked s) {H : Nat} (hs' : vuiCreateCleanup s H = some s') :
    Tracked s' := by
  obtain ⟨data, -, hs'⟩ := Option.bind_eq_some_iff.mp hs'
  split at hs'
  · exact Option.some.inj hs' ▸ h
  obtain ⟨s₁, hs₁, hs'⟩ := Option.bind_eq_some_iff.mp hs'
  obtain ⟨vc, -, hs'⟩ := Option.bind_eq_some_iff.mp hs'
  have h₁ : Tracked s₁ := h.quiet hs₁ (fun _ => ⟨rfl, rfl, rfl⟩) fun _ => rfl
  split at hs'
  · obtain ⟨list, -, rfl⟩ := Option.map_eq_some_iff.mp hs'
    exact h₁.dispatchers list
  · exact Option.some.inj hs' ▸ h₁

/-- `vui_allocate_handle` writes the entry of the handle it returns, which is a new one
or 0. -/
theorem allocate_spec (s : Core) (type : ElementType) :
    ∃ H handles dispatchers next, vuiAllocateHandle s type =
        (H, { s with handles := handles, dispatchers := dispatchers, handleNext := next }) ∧
      (∀ H' ≠ H, handles H' = s.handles H') ∧ s.handleNext ≤ next ∧
      (H = 0 ∨ H = s.handleNext) ∧ (1 ≤ s.handleNext → H < next) := by
  rw [vuiAllocateHandle]
  split
  · exact ⟨0, _, _, _, rfl, fun _ _ => rfl, Nat.le_refl _, .inl rfl, fun hnext => hnext⟩
  · exact ⟨_, _, _, _, rfl, fun H' hH' => Function.update_of_ne hH' .., Nat.le_succ _, .inr rfl,
      fun _ => Nat.lt_succ_self _⟩

theorem Tracked.place (h : Tracked s) {H next : Nat} {handles : Nat → Data} (data : Data)
    (dispatchers : List Nat) (menubar : VuiCommon) (blocks : List VuiCommon)
    (hold : ∀ H' ≠ H, handles H' = s.handles H') (hle : s.handleNext ≤ next)
    (hH : H = 0 ∨ H = s.handleNext) (hlt : 1 ≤ s.handleNext → H < next)
    (hdata : ∀ n, data = .block n → ((s.heap ++ blocks)[n]?).map VuiCommon.handle = some H)
    (hblocks : ∀ b ∈ blocks, b.type = .button → b.ops = buttonOps ∧ b.isHover = false) :
    Tracked { s with
      handles := Function.update handles H data
      dispatchers := dispatchers
      handleNext := next
      heap := s.heap ++ blocks
      mainMenubar := menubar } := by
  have hreg := h.registered
  -- a block of the new heap is an old one, or one of the new ones
  have hcases : ∀ (n : Nat) (b : VuiCommon), (s.heap ++ blocks)[n]? = some b → s.heap[n]? =
    some b ∨ b ∈ blocks := by
    intro n b hb
    rcases Nat.lt_or_ge n s.heap.length with hn | hn
    · exact .inl (List.getElem?_append_left hn ▸ hb)
    · rw [List.getElem?_append_right hn] at hb
      exact .inr (List.mem_of_getElem? hb)
  refine ⟨⟨Nat.le_trans hreg.next hle, fun H' hH' => ?_, fun H' n hne hn => ?_,
      fun n b hb htype => ?_⟩,
    fun n b ⟨hb, htype, hflag⟩ => ?_, h.entered, h.exits⟩
  · by_cases heq : H' = H
    · exact heq ▸ hlt hreg.next
    · have hused : s.handles H' ≠ .null := by
        rw [← hold H' heq, ← Function.update_of_ne (f := handles) heq data]
        exact hH'
      exact Nat.lt_of_lt_of_le (hreg.used H' hused) hle
  · have hn : Function.update handles H data H' = .block n := hn
    by_cases heq : H' = H
    · subst heq
      rw [Function.update_self] at hn
      exact hdata n hn
    · rw [Function.update_of_ne heq, hold H' heq] at hn
      have hhandle := hreg.handle H' n hne hn
      obtain ⟨b, hb, -⟩ := Option.map_eq_some_iff.mp hhandle
      change ((s.heap ++ blocks)[n]?).map _ = _
      rw [List.getElem?_append_left (List.getElem?_eq_some_iff.mp hb).1]
      exact hhandle
  · rcases hcases n b hb with hb | hb
    · exact hreg.ops n b hb htype
    · exact (hblocks b hb htype).1
  · rcases hcases n b hb with hb | hb
    · obtain ⟨hlast, hne, hblock⟩ := h.hover n b ⟨hb, htype, hflag⟩
      have hused : s.handles s.lastHover ≠ .null := by
        rw [hblock]
        exact Data.noConfusion
      refine ⟨hlast, hne, ?_⟩
      have hlastH : s.lastHover ≠ H := by
        rcases hH with rfl | rfl
        · exact hne
        · exact Nat.ne_of_lt (hreg.used _ hused)
      change Function.update handles H _ s.lastHover = _
      rw [Function.update_of_ne hlastH, hold _ hlastH, hblock]
    · have hclear := (hblocks b hb htype).2
      rw [hflag] at hclear
      cases hclear

theorem Tracked.create (h : Tracked s) {element : VuiCommon} {parent : Option Nat} {H : Nat}
    (helement : element.type = .button → element.ops = buttonOps ∧ element.isHover = false)
    (hs' : createElement s element parent = some (s', H)) : Tracked s' := by
  obtain ⟨H₀, handles, dispatchers, next, hallocate, hold, hle, hH, hlt⟩ :=
    allocate_spec s element.type
  rw [createElement, hallocate] at hs'
  have hplaced := h.place (.block s.heap.length) dispatchers s.mainMenubar
    [{ element with handle := H₀ }] hold hle hH hlt
    (fun n hn => by rw [← Data.block.inj hn, List.getElem?_concat_length]; rfl)
    fun b hb => by rw [List.mem_singleton.mp hb]; exact helement
  obtain ⟨s₁, hs₁, hs'⟩ := Option.bind_eq_some_iff.mp hs'
  obtain ⟨s₂, hs₂, heq⟩ := Option.map_eq_some_iff.mp hs'
  obtain rfl : s₂ = s' := congrArg Prod.fst heq
  have h₁ : Tracked s₁ := by
    cases parent with
    | none => exact Option.some.inj hs₁ ▸ hplaced
    | some parent => exact hplaced.addToParent hs₁
  exact h₁.cleanup hs₂

theorem Tracked.createMenubar (h : Tracked s) {H : Nat}
    (hs' : vuiMenubarCreate s = some (s', H)) : Tracked s' := by
  obtain ⟨H₀, handles, dispatchers, next, hallocate, hold, hle, hH, hlt⟩ :=
    allocate_spec s .menubar
  rw [vuiMenubarCreate, hallocate] at hs'
  have hplaced := h.place .mainMenubar dispatchers
    { menubarElement s.width with handle := H₀ } [] hold hle hH hlt
    (fun _ hn => Data.noConfusion hn) fun _ hb => absurd hb List.not_mem_nil
  rw [List.append_nil] at hplaced
  obtain ⟨s₂, hs₂, heq⟩ := Option.map_eq_some_iff.mp hs'
  obtain rfl : s₂ = s' := congrArg Prod.fst heq
  exact hplaced.cleanup hs₂

/-! ## Sending events -/

/-- The second half of `vui_send_event`. -/
def deliver (s : Core) (e : VuiEvent) : Option Core :=
  (s.element e.H).bind fun element =>
    let s := { s with notified := s.notified ++ [e] }
    match handlerToCall element.ops e.type with
    | none => some s
    | some handler => call s e handler

theorem vuiSendEvent_eq (s : Core) (e : VuiEvent) :
    vuiSendEvent s e = deliver (rewriteMove s e).2 (rewriteMove s e).1 := rfl

def hoverAfter : Option Handler → Bool → Bool
  | some .vuiButtonOnMouseEnter, _ => true
  | some .vuiButtonOnMouseExit, _ => false
  | _, flag => flag

variable {e : VuiEvent}

theorem touched_id (s : Core) (data : Data) : Touched s s data id :=
  ⟨rfl, rfl, rfl, rfl, fun n => by simp⟩

theorem handles_of_getHandleData {H : Nat} (h : vuiGetHandleData s H = some data) :
    s.handles H = data := by
  rw [vuiGetHandleData] at h
  split at h
  · exact Option.some.inj h
  · cases h

theorem call_touched {handler : Handler} (h : call s e handler = some s') :
    ∃ f, KeepsIdentity f ∧ (∀ b, (f b).isHover = hoverAfter (some handler) b.isHover) ∧
      Touched s s' (s.handles e.H) f := by
  obtain ⟨data, hdata, h⟩ := Option.bind_eq_some_iff.mp h
  rw [handles_of_getHandleData hdata]
  cases handler with
  | vuiButtonOnMouseMove =>
      obtain rfl := Option.some.inj h
      exact ⟨id, fun _ => ⟨rfl, rfl, rfl⟩, fun _ => rfl, touched_id s data⟩
  | vuiButtonOnMouseEnter =>
      exact ⟨fun b => { b with isHover := true }, fun _ => ⟨rfl, rfl, rfl⟩, fun _ => rfl,
        modify_touched h⟩
  | vuiButtonOnMouseExit =>
      exact ⟨fun b => { b with isHover := false, isActive := false },
        fun _ => ⟨rfl, rfl, rfl⟩, fun _ => rfl,
        modify_touched h⟩
  | vuiButtonOnMouseDown =>
      exact ⟨fun b => { b with isActive := true }, fun _ => ⟨rfl, rfl, rfl⟩, fun _ => rfl,
        modify_touched h⟩
  | vuiButtonOnMouseUp =>
      exact ⟨fun b => { b with isActive := false }, fun _ => ⟨rfl, rfl, rfl⟩, fun _ => rfl,
        modify_touched h⟩

theorem deliver_touched (h : deliver s e = some s') :
    ∃ element f, s.load (s.handles e.H) = some element ∧ KeepsIdentity f ∧
      (∀ b, (f b).isHover = hoverAfter (handlerToCall element.ops e.type) b.isHover) ∧
      Touched { s with notified := s.notified ++ [e] } s' (s.handles e.H) f := by
  obtain ⟨element, helement, h⟩ := Option.bind_eq_some_iff.mp h
  obtain ⟨data, hdata, hload⟩ := Option.bind_eq_some_iff.mp helement
  obtain rfl := handles_of_getHandleData hdata
  cases hhandler : handlerToCall element.ops e.type with
  | none =>
      simp only [hhandler, Option.some.injEq] at h
      obtain rfl := h
      exact ⟨element, id, hload, fun _ => ⟨rfl, rfl, rfl⟩, fun _ => by rw [hhandler]; rfl,
        touched_id _ _⟩
  | some handler =>
      simp only [hhandler] at h
      obtain ⟨f, hkeeps, hhover, htouched⟩ := call_touched h
      exact ⟨element, f, hload, hkeeps, fun b => by rw [hhandler]; exact hhover b, htouched⟩

/-- A button that is hovered after an event was hovered before it and is not the one
that was left, or it was entered. -/
theorem deliver_hover (hreg : Registered s) (hne : e.H ≠ 0) (h : deliver s e = some s') {n : Nat}
    {b' : VuiCommon} (hb' : Hovered s' n b') :
    (∃ b, Hovered s n b ∧ b'.handle = b.handle ∧
      ¬ (e.type = .mouseExit ∧ s.handles e.H = .block n)) ∨
    e.type = .mouseEnter ∧ s.handles e.H = .block n ∧ b'.handle = e.H := by
  obtain ⟨element, f, hload, hkeeps, hhover, htouched⟩ := deliver_touched h
  obtain ⟨hb', htype, hflag⟩ := hb'
  obtain ⟨b, hb, ⟨hdata, rfl⟩ | ⟨hdata, rfl⟩⟩ := htouched.cases hb'
  · rw [(hkeeps b).1] at htype
    -- the button is the element the event goes to
    rw [hdata] at hload
    obtain rfl := Option.some.inj (hb.symm.trans hload)
    rw [hhover b, hreg.ops n b hb htype] at hflag
    have hhandle : b.handle = e.H := by
      have hmap := hreg.handle e.H n hne hdata
      have hb : s.heap[n]? = some b := hb
      rw [hb] at hmap
      exact Option.some.inj hmap
    rw [(hkeeps b).2.1, hhandle]
    cases hevent : e.type with
    | mouseEnter => exact .inr ⟨rfl, hdata, rfl⟩
    | mouseExit =>
        rw [hevent] at hflag
        cases hflag
    | mouseMove =>
        rw [hevent] at hflag
        exact .inl ⟨b, ⟨hb, htype, hflag⟩, hhandle.symm, fun hexit => nomatch hexit.1⟩
    | mouseDown =>
        rw [hevent] at hflag
        exact .inl ⟨b, ⟨hb, htype, hflag⟩, hhandle.symm, fun hexit => nomatch hexit.1⟩
    | mouseUp =>
        rw [hevent] at hflag
        exact .inl ⟨b, ⟨hb, htype, hflag⟩, hhandle.symm, fun hexit => nomatch hexit.1⟩
  · exact .inl ⟨_, ⟨hb, htype, hflag⟩, rfl, fun hexit => hdata hexit.2⟩

theorem Registered.deliver (hreg : Registered s) (h : deliver s e = some s') :
    Registered s' ∧ s'.handles = s.handles ∧ s'.lastHover = s.lastHover ∧
      s'.notified = s.notified ++ [e] := by
  obtain ⟨element, f, -, hkeeps, -, htouched⟩ := deliver_touched h
  have hreg' : Registered { s with notified := s.notified ++ [e] } :=
    ⟨hreg.next, hreg.used, hreg.handle, hreg.ops⟩
  exact ⟨hreg'.touched htouched hkeeps, htouched.handles, htouched.lastHover, htouched.notified⟩

theorem Tracked.plain (h : Tracked s) (hne : e.H ≠ 0) (henter : e.type ≠ .mouseEnter)
    (hexit : e.type ≠ .mouseExit) (hs' : deliver s e = some s') : Tracked s' := by
  obtain ⟨hreg, hhandles, hlast, hnotified⟩ := h.registered.deliver hs'
  refine ⟨hreg, fun n b' hb' => ?_, fun hne => ?_, ?_⟩
  · rcases deliver_hover h.registered hne hs' hb' with ⟨b, hb, hhandle, -⟩ | ⟨hcase, -⟩
    · rw [hlast, hhandles, hhandle]
      exact h.hover n b hb
    · exact absurd hcase henter
  · rw [hlast, hnotified]
    exact (h.entered (hlast ▸ hne)).concat hexit
  · rw [hnotified]
    exact exitsFollowEnters_concat h.exits fun hcase => absurd hcase hexit

/-- With nothing entered no button is hovered, and the element is entered. -/
theorem Tracked.enter (h : Tracked s) (hnone : s.lastHover = 0) {H : Nat} (hne : H ≠ 0)
    (hs' : deliver { s with lastHover := H } ⟨H, .mouseEnter⟩ = some s') : Tracked s' := by
  have hreg₁ : Registered { s with lastHover := H } :=
    ⟨h.registered.next, h.registered.used, h.registered.handle, h.registered.ops⟩
  obtain ⟨hreg, hhandles, hlast, hnotified⟩ := hreg₁.deliver hs'
  refine ⟨hreg, fun n b' hb' => ?_, fun _ => ?_, ?_⟩
  · rcases deliver_hover hreg₁ hne hs' hb' with ⟨b, hb, -⟩ | ⟨-, hdata, hhandle⟩
    · exact absurd hnone (h.hover n b hb).2.1
    · rw [hlast, hhandles]
      exact ⟨hhandle.symm, hne, hdata⟩
  · rw [hlast, hnotified]
    exact entered_concat H _
  · rw [hnotified]
    exact exitsFollowEnters_concat h.exits fun hcase => nomatch hcase

/-- The element entered last is left: no button is hovered any more. -/
theorem Tracked.exit (h : Tracked s) (hsome : s.lastHover ≠ 0)
    (hs' : deliver { s with lastHover := 0 } ⟨s.lastHover, .mouseExit⟩ = some s') : Tracked s' := by
  have hreg₁ : Registered { s with lastHover := 0 } :=
    ⟨h.registered.next, h.registered.used, h.registered.handle, h.registered.ops⟩
  obtain ⟨hreg, hhandles, hlast, hnotified⟩ := hreg₁.deliver hs'
  refine ⟨hreg, fun n b' hb' => ?_, fun hne => absurd hlast hne, ?_⟩
  · rcases deliver_hover hreg₁ hsome hs' hb' with ⟨b, hb, -, hleft⟩ | ⟨hcase, -⟩
    · exact absurd ⟨rfl, (h.hover n b hb).2.2⟩ hleft
    · cases hcase
  · rw [hnotified]
    exact exitsFollowEnters_concat h.exits fun _ => h.entered hsome

theorem Tracked.send (h : Tracked s) (hne : e.H ≠ 0) (henter : e.type ≠ .mouseEnter)
    (hexit : e.type ≠ .mouseExit) (hs' : vuiSendEvent s e = some s') : Tracked s' := by
  rw [vuiSendEvent_eq, rewriteMove] at hs'
  by_cases hmove : e.type = .mouseMove
  · rw [if_pos hmove] at hs'
    by_cases hsome : s.lastHover ≠ 0
    · rw [if_pos hsome] at hs'
      by_cases hother : s.lastHover ≠ e.H
      · rw [if_pos hother] at hs'
        exact h.exit hsome hs'
      · rw [if_neg hother] at hs'
        exact h.plain hne henter hexit hs'
    · rw [if_neg hsome] at hs'
      exact h.enter (not_not.mp hsome) hne hs'
  · rw [if_neg hmove] at hs'
    exact h.plain hne henter hexit hs'

theorem Mouse.type_ne (m : Mouse) : m.type ≠ .mouseEnter ∧ m.type ≠ .mouseExit := by
  cases m <;> exact ⟨EventType.noConfusion, EventType.noConfusion⟩

theorem Tracked.mouse (h : Tracked s) {m : Mouse} {x y : UInt16}
    (hs' : vuiExternalEventHandler s m.type x y = some s') : Tracked s' := by
  obtain ⟨dispatcher, -, hs'⟩ := Option.bind_eq_some_iff.mp hs'
  by_cases hzero : dispatcher = 0
  · rw [if_pos hzero] at hs'
    exact Option.some.inj hs' ▸ h
  · rw [if_neg hzero] at hs'
    obtain ⟨vcDispatcher, -, hs'⟩ := Option.bind_eq_some_iff.mp hs'
    obtain ⟨handler, -, hs'⟩ := Option.bind_eq_some_iff.mp hs'
    by_cases hhandler : handler ≠ 0
    · rw [if_pos hhandler] at hs'
      exact h.send hhandler m.type_ne.1 m.type_ne.2 hs'
    · rw [if_neg hhandler] at hs'
      exact h.send hzero m.type_ne.1 m.type_ne.2 hs'

/-! ## Every run -/

theorem tracked_vuiInit (width : UInt16) : Tracked (vuiInit width) where
  registered :=
    { next := Nat.le_refl 1
      used := fun _ h => absurd rfl h
      handle := fun _ _ _ h => Data.noConfusion h
      ops := fun _ _ h => by cases h }
  hover := fun _ _ h => by cases h.1
  entered := fun h => absurd rfl h
  exits := fun h₁ _ _ h => by cases h₁ <;> cases h

theorem Tracked.step {event : Event} (h : Tracked s) (hs' : step s event = some s') :
    Tracked s' := by
  cases event with
  | addToParent parent child => exact h.addToParent hs'
  | mouse m x y => exact h.mouse hs'
  | desktop width height =>
      obtain ⟨⟨s₁, H⟩, hs₁, rfl⟩ := Option.map_eq_some_iff.mp hs'
      exact h.create (fun hbutton => ElementType.noConfusion hbutton) hs₁
  | window x y width height flags =>
      obtain ⟨⟨s₁, H⟩, hs₁, rfl⟩ := Option.map_eq_some_iff.mp hs'
      exact h.create (fun hbutton => ElementType.noConfusion hbutton) hs₁
  | button x y width height parent =>
      obtain ⟨⟨s₁, H⟩, hs₁, rfl⟩ := Option.map_eq_some_iff.mp hs'
      exact h.create (fun _ => ⟨rfl, rfl⟩) hs₁
  | label parent =>
      obtain ⟨⟨s₁, H⟩, hs₁, rfl⟩ := Option.map_eq_some_iff.mp hs'
      exact h.create (fun hbutton => ElementType.noConfusion hbutton) hs₁
  | console block parent =>
      obtain ⟨⟨s₁, H⟩, hs₁, rfl⟩ := Option.map_eq_some_iff.mp hs'
      exact h.create (fun hbutton => ElementType.noConfusion hbutton) hs₁
  | menu =>
      obtain ⟨⟨s₁, H⟩, hs₁, rfl⟩ := Option.map_eq_some_iff.mp hs'
      exact h.create (fun hbutton => ElementType.noConfusion hbutton) hs₁
  | menubar =>
      obtain ⟨⟨s₁, H⟩, hs₁, rfl⟩ := Option.map_eq_some_iff.mp hs'
      exact h.createMenubar hs₁

/-- **Hover state is consistent.** Whatever elements are created, and whatever the
mouse does, at most one button is hovered, it is the one in `vui.last_hover`, and
elements are left only after they were entered. -/
theorem hover_consistent {width : UInt16} {events : List Event}
    (h : Run.exec Vui.step (vuiInit width) events = some s) :
    HoverConsistent s ∧ ExitsFollowEnters s.notified := by
  have htracked : Tracked s :=
    Run.exec_invariant (I := Tracked) (P := fun _ _ => True) (fun _ _ _ hs _ => hs.step)
      (tracked_vuiInit width) (Run.along_true _ _) h
  exact ⟨htracked.consistent, htracked.exits⟩

/-- A window with a button; the mouse enters the button and goes on to the window. -/
theorem hover_consistent_button : ∃ s, Run.exec Vui.step (vuiInit 1024)
    [.window 0 0 100 100 0, .button 10 10 20 20 1, .mouse .move 15 15, .mouse .down 15 15,
      .mouse .move 60 60] = some s ∧ HoverConsistent s ∧ ExitsFollowEnters s.notified := by
  have hrun : (Run.exec Vui.step (vuiInit 1024)
      [.window 0 0 100 100 0, .button 10 10 20 20 1, .mouse .move 15 15, .mouse .down 15 15,
        .mouse .move 60 60]).isSome = true := rfl
  obtain ⟨s, hs⟩ := Option.isSome_iff_exists.mp hrun
  exact ⟨s, hs, hover_consistent hs⟩

end VersionSix.Vui
