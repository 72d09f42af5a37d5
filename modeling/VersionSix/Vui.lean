import VersionSix.Run

/-!
# The GUI: elements, dispatchers, mouse events

`kernel/vui/`: the table of handles and the records of the elements, the
functions that create elements, the list of dispatchers (desktops, windows and
menu bars, which mouse events are routed to first) and the way of a mouse event
to an element.

A record of its own is a block of the heap, addressed by its number; every menu
bar uses the one record `main_menubar`. Drawing is left out, and so are
handlers set by `vui_set_event_handler`, which has no caller.

The functions that create an element are alike in what they do to the table,
the heap and the list of the parent; `createElement` is that part, and each of
them keeps its own record. The notifications are a history: the code sends them
to handlers and forgets them. Loops over lists of handles end with the list,
and the sort is bounded by a number of passes that is shown to be enough.
-/

namespace VersionSix.Vui

/-! ## State -/

inductive ElementType
  | window | label | button | desktop | console | menubar | menu
  deriving DecidableEq

inductive EventType
  | mouseDown | mouseUp | mouseMove | mouseEnter | mouseExit
  deriving DecidableEq

structure VuiEvent where
  H : Nat
  type : EventType

/-- The functions of `button.c` that handle events. -/
inductive Handler
  | vuiButtonOnMouseDown | vuiButtonOnMouseUp | vuiButtonOnMouseEnter | vuiButtonOnMouseExit
  | vuiButtonOnMouseMove

structure VuiOperations where
  defaultOnMouseDown : Option Handler
  defaultOnMouseEnter : Option Handler
  defaultOnMouseExit : Option Handler
  defaultOnMouseMove : Option Handler
  defaultOnMouseUp : Option Handler

/-- `is_active` is a field of buttons only. A list of handles with nothing in it is
a single node with the handle 0. -/
structure VuiCommon where
  type : ElementType
  handle : Nat
  parent : Nat
  children : List Nat
  priority : Nat
  ops : VuiOperations
  width : UInt16
  height : UInt16
  absoluteX : UInt16
  absoluteY : UInt16
  isHover : Bool
  isActive : Bool

inductive Data
  | null
  | mainMenubar
  | block (n : Nat)
  deriving DecidableEq

/-- `vui_core` with the records. The notifications are the events sent so far, as
`vui_send_event` rewrote them; no function reads them. -/
structure Core where
  width : UInt16
  handles : Nat → Data
  dispatchers : List Nat
  handleNext : Nat
  lastHover : Nat
  heap : List VuiCommon
  mainMenubar : VuiCommon
  notified : List VuiEvent

/-- A record after `memset` and the assignment of its type. -/
def cleared (type : ElementType) : VuiCommon where
  type := type
  handle := 0
  parent := 0
  children := [0]
  priority := 0
  ops := ⟨none, none, none, none, none⟩
  width := 0
  height := 0
  absoluteX := 0
  absoluteY := 0
  isHover := false
  isActive := false

def vuiInit (width : UInt16) : Core where
  width := width
  handles := fun _ => .null
  dispatchers := [0]
  handleNext := 1
  lastHover := 0
  heap := []
  mainMenubar := cleared .menubar
  notified := []

/-! ## Handles and records -/

/-- A handle beyond the table reads past it. -/
def vuiGetHandleData (s : Core) (H : Nat) : Option Data :=
  if H < 512 then some (s.handles H) else none

def vuiSetHandleData (s : Core) (H : Nat) (data : Data) : Core :=
  { s with handles := Function.update s.handles H data }

def Core.load (s : Core) : Data → Option VuiCommon
  | .null => none
  | .mainMenubar => some s.mainMenubar
  | .block n => s.heap[n]?

def Core.modify (s : Core) (f : VuiCommon → VuiCommon) : Data → Option Core
  | .null => none
  | .mainMenubar => some { s with mainMenubar := f s.mainMenubar }
  | .block n => some { s with heap := s.heap.modify n f }

/-- The record of a handle, as the fields behind `vui_get_handle_data` are read. -/
def Core.element (s : Core) (H : Nat) : Option VuiCommon := (vuiGetHandleData s H).bind s.load

def vuiIsDispatcher : ElementType → Bool
  | .desktop | .window | .menubar => true
  | _ => false

/-- A new node follows the last one, unless that one is free. -/
def vuiHandleListAdd : List Nat → Nat → List Nat
  | [], _ => []
  | [H], handleToAdd => if H = 0 then [handleToAdd] else [H, handleToAdd]
  | H :: next :: rest, handleToAdd => H :: vuiHandleListAdd (next :: rest) handleToAdd

def vuiAllocateHandle (s : Core) (type : ElementType) : Nat × Core :=
  if 512 ≤ s.handleNext then (0, s)
  else
    (s.handleNext, { s with
      handles := Function.update s.handles s.handleNext .null
      dispatchers :=
        if vuiIsDispatcher type then vuiHandleListAdd s.dispatchers s.handleNext
        else s.dispatchers
      handleNext := s.handleNext + 1 })

def vuiAddToParent (s : Core) (parent child : Nat) : Option Core :=
  (vuiGetHandleData s parent).bind fun parentSt =>
    (vuiGetHandleData s child).bind fun childSt =>
      if parentSt = .null then some s
      else if childSt = .null then some s
      else
        (s.load childSt).bind fun c =>
          (s.modify (fun p => { p with children := vuiHandleListAdd p.children c.handle })
            parentSt).bind fun s =>
            (s.load parentSt).bind fun p =>
              s.modify (fun c => { c with parent := p.handle }) childSt

/-! ## Sorting -/

/-- The inner loop: the handle of `top` moves on while it has the greater
priority value. -/
def sortPass (s : Core) : Nat → List Nat → Option (List Nat × Bool)
  | top, [] => some ([top], false)
  | top, current :: rest =>
      (s.element top).bind fun topSt =>
        (s.element current).bind fun currentSt =>
          if currentSt.priority < topSt.priority then
            (sortPass s top rest).map fun r => (current :: r.1, true)
          else (sortPass s current rest).map fun r => (top :: r.1, r.2)

/-- The `do` loop with a bound for its passes; a list that needs more does not
return. -/
def sortPasses (s : Core) : Nat → List Nat → Option (List Nat)
  | 0, _ => none
  | _ + 1, [] => none
  | n + 1, top :: rest =>
      (sortPass s top rest).bind fun r => if r.2 then sortPasses s n r.1 else some r.1

def vuiSortListByPriority (s : Core) (list : List Nat) : Option (List Nat) :=
  match list with
  | [] => none
  | [_] => some list
  | top :: _ =>
      if top = 0 then some list else sortPasses s (list.length * list.length + 1) list

def vuiCreateCleanup (s : Core) (H : Nat) : Option Core :=
  (vuiGetHandleData s H).bind fun data =>
    if data = .null then some s
    else
      (s.modify (fun vc => { vc with children := [0] }) data).bind fun s =>
        (s.load data).bind fun vc =>
          if vuiIsDispatcher vc.type then
            (vuiSortListByPriority s s.dispatchers).map fun list => { s with dispatchers := list }
          else some s

/-! ## Elements -/

/-- What the functions that create an element in a record of its own have in
common: a handle, the record, its place in the list of the parent. -/
def createElement (s : Core) (element : VuiCommon) (parent : Option Nat) : Option (Core × Nat) :=
  let (H, s) := vuiAllocateHandle s element.type
  let s := vuiSetHandleData s H (.block s.heap.length)
  let s := { s with heap := s.heap ++ [{ element with handle := H }] }
  let added := match parent with
    | none => some s
    | some parent => vuiAddToParent s parent H
  added.bind fun s => (vuiCreateCleanup s H).map fun s => (s, H)

def desktopElement (width height : UInt16) : VuiCommon :=
  { cleared .desktop with priority := 0xFFFFFFFF, width := width, height := height }

def vuiDesktopCreate (s : Core) (width height : UInt16) : Option (Core × Nat) :=
  createElement s (desktopElement width height) none

/-- The border and the title bar count, as far as the flags leave them. -/
def windowElement (x y width height : UInt16) (flags : UInt32) : VuiCommon :=
  let border : UInt16 := if flags &&& 0x1 = 0 then 2 else 0
  let title : UInt16 := if flags &&& 0x2 = 0 then 20 else 0
  { cleared .window with
    absoluteX := x
    absoluteY := y
    width := width + border
    height := height + border + title }

def vuiWindowCreate (s : Core) (x y width height : UInt16) (flags : UInt32) : Option (Core × Nat) :=
  createElement s (windowElement x y width height flags) none

def buttonElement (x y width height : UInt16) : VuiCommon :=
  { cleared .button with
    absoluteX := x
    absoluteY := y
    width := width + 2
    height := height + 2
    ops :=
      { defaultOnMouseDown := some .vuiButtonOnMouseDown
        defaultOnMouseUp := some .vuiButtonOnMouseUp
        defaultOnMouseEnter := some .vuiButtonOnMouseEnter
        defaultOnMouseExit := some .vuiButtonOnMouseExit
        defaultOnMouseMove := some .vuiButtonOnMouseMove } }

def vuiButtonCreate (s : Core) (x y width height : UInt16) (parent : Nat) : Option (Core × Nat) :=
  createElement s (buttonElement x y width height) (some parent)

def vuiLabelCreate (s : Core) (parent : Nat) : Option (Core × Nat) :=
  createElement s (cleared .label) (some parent)

/-- The record of a console is not cleared: `block` is what the memory held. -/
def vuiConsoleCreate (s : Core) (block : VuiCommon) (parent : Nat) : Option (Core × Nat) :=
  createElement s { block with type := .console, parent := 0, children := [0] } (some parent)

def vuiMenuCreate (s : Core) : Option (Core × Nat) :=
  createElement s { cleared .menu with priority := 1 } none

def menubarElement (width : UInt16) : VuiCommon :=
  { cleared .menubar with priority := 0xFFFFFFFE, width := width, height := 25 }

def vuiMenubarCreate (s : Core) : Option (Core × Nat) :=
  let (H, s) := vuiAllocateHandle s .menubar
  let s := { s with mainMenubar := { menubarElement s.width with handle := H } }
  let s := vuiSetHandleData s H .mainMenubar
  (vuiCreateCleanup s H).map fun s => (s, H)

/-! ## Events -/

/-- The rectangle with its right and lower bounds; the sums are taken as `int`. -/
def VuiCommon.Contains (e : VuiCommon) (x y : UInt16) : Prop :=
  (e.absoluteX ≤ x ∧ x.toNat ≤ e.absoluteX.toNat + e.width.toNat) ∧
    (e.absoluteY ≤ y ∧ y.toNat ≤ e.absoluteY.toNat + e.height.toNat)

instance (e : VuiCommon) (x y : UInt16) : Decidable (e.Contains x y) :=
  inferInstanceAs (Decidable ((_ ∧ _) ∧ _))

def vuiFindHandlerForEvent (s : Core) (x y : UInt16) : List Nat → Option Nat
  | [] => some 0
  | top :: next =>
      if top = 0 then some 0
      else
        (s.element top).bind fun element =>
          if element.Contains x y then some element.handle else vuiFindHandlerForEvent s x y next

/-- A default handler; the call draws the button besides. -/
def call (s : Core) (e : VuiEvent) (handler : Handler) : Option Core :=
  (vuiGetHandleData s e.H).bind fun b =>
    match handler with
    | .vuiButtonOnMouseMove => some s
    | .vuiButtonOnMouseEnter => s.modify (fun b => { b with isHover := true }) b
    | .vuiButtonOnMouseExit => s.modify (fun b => { b with isHover := false, isActive := false }) b
    | .vuiButtonOnMouseDown => s.modify (fun b => { b with isActive := true }) b
    | .vuiButtonOnMouseUp => s.modify (fun b => { b with isActive := false }) b

def handlerToCall (ops : VuiOperations) : EventType → Option Handler
  | .mouseMove => ops.defaultOnMouseMove
  | .mouseExit => ops.defaultOnMouseExit
  | .mouseEnter => ops.defaultOnMouseEnter
  | .mouseDown => ops.defaultOnMouseDown
  | .mouseUp => ops.defaultOnMouseUp

/-- The first half of `vui_send_event`: a move is made an exit from the element that
was entered last or an entrance, unless it stays in that element. -/
def rewriteMove (s : Core) (e : VuiEvent) : VuiEvent × Core :=
  if e.type = .mouseMove then
    if s.lastHover ≠ 0 then
      if s.lastHover ≠ e.H then
        ({ H := s.lastHover, type := .mouseExit }, { s with lastHover := 0 })
      else (e, s)
    else ({ e with type := .mouseEnter }, { s with lastHover := e.H })
  else (e, s)

/-- `H` is `e->H` at every call. -/
def vuiSendEvent (s : Core) (e : VuiEvent) : Option Core :=
  let (e, s) := rewriteMove s e
  (s.element e.H).bind fun element =>
    let s := { s with notified := s.notified ++ [e] }
    match handlerToCall element.ops e.type with
    | none => some s
    | some handler => call s e handler

def vuiExternalEventHandler (s : Core) (type : EventType) (x y : UInt16) : Option Core :=
  (vuiFindHandlerForEvent s x y s.dispatchers).bind fun dispatcher =>
    if dispatcher = 0 then some s
    else
      (s.element dispatcher).bind fun vcDispatcher =>
        (vuiFindHandlerForEvent s x y vcDispatcher.children).bind fun handler =>
          if handler ≠ 0 then vuiSendEvent s { H := handler, type := type }
          else vuiSendEvent s { H := dispatcher, type := type }

end VersionSix.Vui
