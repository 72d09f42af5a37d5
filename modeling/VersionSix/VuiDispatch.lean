import VersionSix.Bubble
import VersionSix.Vui

/-!
# Dispatchers in the order of their priority

Every creation of a dispatcher adds its handle to the end of `vui.dispatchers`
and then sorts the list. The list is therefore at all times the stable sort of
the dispatchers created so far (`Made`), and the first of them under the mouse
is the one with the least priority value, the earliest of those
(`dispatchers_route`).

The sort is a bubble sort of the handles by the priority in their records
(`Bubble`), of a list in which only the last one is not in its place. Records
come up because priorities are read through them: a dispatcher keeps its record
when others are created, except that all menu bars write the same one.

What `vui_find_handler_for_event` returns is the handle in the record it finds.
With two menu bars that is the handle of the last one, whichever was meant
(`second_menubar_answers`).
-/

namespace VersionSix.Vui

/-! ## Creations -/

/-- A dispatcher with a record of its own, with whatever rectangle and priority, or
a menu bar. -/
inductive Creation
  | own (element : VuiCommon) (isDispatcher : vuiIsDispatcher element.type = true)
  | menubar

def create (s : Core) : Creation → Option (Core × Nat)
  | .own element _ => createElement s element none
  | .menubar => vuiMenubarCreate s

theorem create_desktop (s : Core) (width height : UInt16) :
    create s (.own (desktopElement width height) rfl) = vuiDesktopCreate s width height := rfl

theorem create_window (s : Core) (x y width height : UInt16) (flags : UInt32) :
    create s (.own (windowElement x y width height flags) rfl) =
      vuiWindowCreate s x y width height flags := rfl

def Creation.priority : Creation → Nat
  | .own element _ => element.priority
  | .menubar => 0xFFFFFFFE

/-- The rectangle of the dispatcher contains the point; `width` is that of the screen. -/
def Creation.Contains (width x y : UInt16) : Creation → Prop
  | .own element _ => element.Contains x y
  | .menubar => (menubarElement width).Contains x y

instance (width x y : UInt16) (c : Creation) : Decidable (c.Contains width x y) :=
  match c with
  | .own .. => inferInstanceAs (Decidable (VuiCommon.Contains ..))
  | .menubar => inferInstanceAs (Decidable (VuiCommon.Contains ..))

def created : List Creation → List Nat → List (Nat × Creation)
  | c :: creations, H :: handles =>
      if H = 0 then created creations handles else (H, c) :: created creations handles
  | _, _ => []

/-- What the last creation of a menu bar returned. -/
def menubarHandle : Nat → List Creation → List Nat → Nat
  | _, .menubar :: creations, H :: handles => menubarHandle H creations handles
  | last, .own .. :: creations, _ :: handles => menubarHandle last creations handles
  | last, _, _ => last

def recorded (last : Nat) (d : Nat × Creation) : Nat :=
  match d.2 with
  | .own .. => d.1
  | .menubar => last

/-- The nodes of a handle list with these handles. -/
def handleList : List Nat → List Nat
  | [] => [0]
  | H :: rest => H :: rest

/-- The list has the handles of all dispatchers, by priority, and with one priority in
the order of their creation. -/
def StableSorted (list : List Nat) (ds : List (Nat × Creation)) : Prop :=
  ∃ sorted : List (Nat × Creation), list = handleList (sorted.map Prod.fst) ∧ sorted.Perm ds ∧
    sorted.Pairwise (fun d d' => d.2.priority ≤ d'.2.priority) ∧
    ∀ k, sorted.filter (fun d => d.2.priority = k) = ds.filter (fun d => d.2.priority = k)

/-- `d` contains the point, and of those that do it has the least priority value and was
created first. -/
def Topmost (width x y : UInt16) (ds : List (Nat × Creation)) (d : Nat × Creation) : Prop :=
  Bubble.First (fun d => d.2.priority) (fun d => d.2.Contains width x y) ds d

/-! ## The functions on a list of handles -/

section Lists

variable {s : Core} {δ : Type} {handle key : δ → Nat}

theorem sortPass_map {a : δ} {l : List δ}
    (h : ∀ d ∈ a :: l, ∃ e, s.element (handle d) = some e ∧ e.priority = key d) :
    sortPass s (handle a) (l.map handle) =
      some ((Bubble.pass key a l).1.map handle, (Bubble.pass key a l).2) := by
  induction l generalizing a with
  | nil => rfl
  | cons b l ih =>
      obtain ⟨ea, hea, hka⟩ := h a (by simp)
      obtain ⟨eb, heb, hkb⟩ := h b (by simp)
      have ha := ih (a := a) fun d hd => h d (by
        rcases List.mem_cons.mp hd with rfl | hd
        · exact List.mem_cons_self
        · simp [hd])
      have hb := ih (a := b) fun d hd => h d (List.mem_cons_of_mem _ hd)
      rw [List.map_cons, sortPass, hea, Option.bind_some, heb, Option.bind_some, hka, hkb, ha, hb,
        Bubble.pass]
      split <;> rfl

theorem sortPasses_map {n : Nat} {a : δ} {l l' : List δ}
    (h : ∀ d ∈ a :: l, ∃ e, s.element (handle d) = some e ∧ e.priority = key d)
    (hsort : Bubble.sort key n (a :: l) = some l') :
    sortPasses s n ((a :: l).map handle) = some (l'.map handle) := by
  induction n generalizing a l with
  | zero => cases hsort
  | succ n ih =>
      rw [Bubble.sort] at hsort
      rw [List.map_cons, sortPasses, sortPass_map h, Option.bind_some]
      have hperm : (Bubble.pass key a l).1.Perm (a :: l) := Bubble.pass_perm a l
      by_cases hswapped : (Bubble.pass key a l).2 = true
      · rw [if_pos hswapped] at hsort ⊢
        cases hpass : (Bubble.pass key a l).1 with
        | nil => exact absurd (hpass ▸ hperm).nil_eq (by simp)
        | cons b m =>
            rw [hpass] at hsort hperm
            exact ih (fun d hd => h d (hperm.mem_iff.mp hd)) hsort
      · rw [if_neg hswapped] at hsort ⊢
        rw [Option.some.inj hsort]

theorem vuiSort_spec (handle key : δ → Nat) {l : List δ}
    (h : ∀ d ∈ l, ∃ e, s.element (handle d) = some e ∧ e.priority = key d)
    (hne : ∀ d ∈ l, handle d ≠ 0) :
    ∃ l' : List δ,
      vuiSortListByPriority s (handleList (l.map handle)) = some (handleList (l'.map handle)) ∧
      l'.Perm l ∧ l'.Pairwise (key · ≤ key ·) ∧
      ∀ k, l'.filter (key · = k) = l.filter (key · = k) := by
  match l with
  | [] => exact ⟨[], rfl, .refl _, .nil, fun _ => rfl⟩
  | [a] => exact ⟨[a], rfl, .refl _, List.pairwise_singleton .., fun _ => rfl⟩
  | a :: b :: l =>
      have hpasses : Bubble.inversions key (a :: b :: l) <
          (a :: b :: l).length * (a :: b :: l).length + 1 :=
        Nat.lt_succ_of_le (Bubble.inversions_le _)
      obtain ⟨l', hl', hperm, hsorted, hfilter⟩ := Bubble.sort_spec hpasses
      refine ⟨l', ?_, hperm, hsorted, hfilter⟩
      have hmap := sortPasses_map h hl'
      have hlist : vuiSortListByPriority s (handleList ((a :: b :: l).map handle)) =
          if handle a = 0 then some ((a :: b :: l).map handle)
          else sortPasses s (((a :: b :: l).map handle).length *
            ((a :: b :: l).map handle).length + 1) ((a :: b :: l).map handle) := rfl
      rw [hlist, if_neg (hne a (by simp)), List.length_map, hmap]
      cases l' with
      | nil => exact absurd hperm.nil_eq (by simp)
      | cons c l' => rfl

theorem vuiHandleListAdd_handleList {list : List Nat} (h : ∀ H ∈ list, H ≠ 0) (H : Nat) :
    vuiHandleListAdd (handleList list) H = handleList (list ++ [H]) := by
  induction list with
  | nil => rfl
  | cons a list ih =>
      cases list with
      | nil =>
          rw [handleList, vuiHandleListAdd, if_neg (h a (by simp))]
          rfl
      | cons b list =>
          have hb := ih fun H hH => h H (List.mem_cons_of_mem _ hH)
          rw [handleList] at hb
          rw [handleList, vuiHandleListAdd, hb]
          rfl

theorem vuiFindHandler_spec {x y : UInt16} {l : List δ} {element : δ → VuiCommon}
    (h : ∀ d ∈ l, s.element (handle d) = some (element d)) (hne : ∀ d ∈ l, handle d ≠ 0) :
    vuiFindHandlerForEvent s x y (handleList (l.map handle)) =
      some (((l.find? fun d => (element d).Contains x y).map
        fun d => (element d).handle).getD 0) := by
  induction l with
  | nil => rfl
  | cons a l ih =>
      have hl := ih (fun d hd => h d (List.mem_cons_of_mem _ hd))
        fun d hd => hne d (List.mem_cons_of_mem _ hd)
      have hrest : vuiFindHandlerForEvent s x y (l.map handle) =
          vuiFindHandlerForEvent s x y (handleList (l.map handle)) := by
        cases l with
        | nil => rfl
        | cons b l => rfl
      rw [List.map_cons, handleList, vuiFindHandlerForEvent, if_neg (hne a (by simp)),
        h a (by simp), Option.bind_some, hrest, hl]
      by_cases ha : (element a).Contains x y
      · rw [if_pos ha, List.find?_cons_of_pos (by simpa using ha)]
        rfl
      · rw [if_neg ha, List.find?_cons_of_neg (by simpa using ha)]

end Lists

/-! ## Where the records are -/

/-- The record of a dispatcher once it is created. -/
def record (width : UInt16) (last : Nat) (d : Nat × Creation) : VuiCommon :=
  match d.2 with
  | .own element _ => { element with handle := d.1, children := [0] }
  | .menubar => { menubarElement width with handle := last }

def Holds (s : Core) (last : Nat) (d : Nat × Creation) : Prop :=
  match d.2 with
  | .own .. => ∃ n, s.handles d.1 = .block n ∧ s.heap[n]? = some (record s.width last d)
  | .menubar => s.handles d.1 = .mainMenubar ∧ s.mainMenubar = record s.width last d

structure Placed (s : Core) (last : Nat) (ds : List (Nat × Creation)) : Prop where
  next : 1 ≤ s.handleNext ∧ s.handleNext ≤ 512
  handles : ∀ d ∈ ds, d.1 ≠ 0 ∧ d.1 < s.handleNext
  holds : ∀ d ∈ ds, Holds s last d

/-- The dispatchers have their records and are sorted. -/
structure Made (s : Core) (last : Nat) (ds : List (Nat × Creation)) : Prop where
  placed : Placed s last ds
  sorted : StableSorted s.dispatchers ds

/-- What a creation that returned `H` adds to the dispatchers. -/
def added (H : Nat) (c : Creation) : List (Nat × Creation) := if H = 0 then [] else [(H, c)]

variable {s s' : Core} {last last' : Nat} {ds : List (Nat × Creation)} {d : Nat × Creation}

theorem record_priority (width : UInt16) (last : Nat) (d : Nat × Creation) :
    (record width last d).priority = d.2.priority := by
  obtain ⟨H, c⟩ := d
  cases c <;> rfl

theorem record_contains (width x y : UInt16) (last : Nat) (d : Nat × Creation) :
    (record width last d).Contains x y ↔ d.2.Contains width x y := by
  obtain ⟨H, c⟩ := d
  cases c <;> exact Iff.rfl

theorem record_handle (width : UInt16) (last : Nat) (d : Nat × Creation) :
    (record width last d).handle = recorded last d := by
  obtain ⟨H, c⟩ := d
  cases c <;> rfl

theorem Placed.element (h : Placed s last ds) (hd : d ∈ ds) :
    s.element d.1 = some (record s.width last d) := by
  have hH : d.1 < 512 := (h.handles d hd).2.trans_le h.next.2
  have hholds := h.holds d hd
  rw [Core.element, vuiGetHandleData, if_pos hH, Option.bind_some]
  obtain ⟨H, c⟩ := d
  cases c with
  | own element isDispatcher =>
      obtain ⟨n, hdata, hblock⟩ := hholds
      rw [hdata, Core.load, hblock]
  | menubar =>
      obtain ⟨hdata, hmenubar⟩ := hholds
      rw [hdata, Core.load, hmenubar]

/-- A dispatcher keeps its record when blocks are added, and as long as `main_menubar`
is written as a menu bar. -/
theorem Holds.mono (h : Holds s last d) (hhandles : s'.handles d.1 = s.handles d.1)
    (hheap : ∃ blocks, s'.heap = s.heap ++ blocks) (hwidth : s'.width = s.width)
    (hmenubar : s'.mainMenubar = s.mainMenubar ∧ last' = last ∨
      s'.mainMenubar = { menubarElement s'.width with handle := last' }) : Holds s' last' d := by
  obtain ⟨H, c⟩ := d
  obtain ⟨blocks, hheap⟩ := hheap
  cases c with
  | own element isDispatcher =>
      obtain ⟨n, hdata, hblock⟩ := h
      have hn : n < s.heap.length := (List.getElem?_eq_some_iff.mp hblock).1
      refine ⟨n, hhandles.trans hdata, ?_⟩
      rw [hheap, List.getElem?_append_left hn, hblock]
      rfl
  | menubar =>
      obtain ⟨hdata, hrecord⟩ := h
      refine ⟨hhandles.trans hdata, ?_⟩
      rcases hmenubar with ⟨hkept, rfl⟩ | hnew
      · rw [hkept, hrecord, hwidth]
      · rw [hnew]
        rfl

/-- Sorting a list of the dispatchers in the order of their creation within each
priority. -/
theorem Placed.sort (h : Placed s last ds) {list : List (Nat × Creation)}
    (hlist : s.dispatchers = handleList (list.map Prod.fst)) (hperm : list.Perm ds)
    (hfilter : ∀ k, list.filter (fun d => d.2.priority = k) = ds.filter fun d => d.2.priority = k) :
    ∃ dispatchers, vuiSortListByPriority s s.dispatchers = some dispatchers ∧
      StableSorted dispatchers ds := by
  obtain ⟨list', hsort, hperm', hsorted, hfilter'⟩ :=
    vuiSort_spec Prod.fst (fun d => d.2.priority)
      (fun d hd => ⟨_, h.element (hperm.mem_iff.mp hd), record_priority ..⟩)
      fun d hd => (h.handles d (hperm.mem_iff.mp hd)).1
  exact ⟨_, hlist ▸ hsort, list', rfl, hperm'.trans hperm, hsorted,
    fun k => (hfilter' k).trans (hfilter k)⟩

/-! ## One creation -/

theorem Made.allocate (h : Made s last ds) {type : ElementType}
    (htype : vuiIsDispatcher type = true) (c : Creation) :
    ∃ H handles, ∃ list : List (Nat × Creation),
      vuiAllocateHandle s type = (H, { s with
        handles := handles
        dispatchers := handleList (list.map Prod.fst)
        handleNext := if H = 0 then s.handleNext else s.handleNext + 1 }) ∧
      (H = 0 ∨ H = s.handleNext ∧ H < 512) ∧
      (∀ H' < s.handleNext, handles H' = s.handles H') ∧
      list.Perm (ds ++ added H c) ∧
      ∀ k, list.filter (fun d => d.2.priority = k) =
        (ds ++ added H c).filter fun d => d.2.priority = k := by
  obtain ⟨list, hlist, hperm, -, hfilter⟩ := h.sorted
  have hnext := h.placed.next
  rw [vuiAllocateHandle]
  by_cases hfull : 512 ≤ s.handleNext
  · rw [if_pos hfull]
    refine ⟨0, s.handles, list, ?_, .inl rfl, fun _ _ => rfl, ?_, ?_⟩
    · rw [if_pos rfl, ← hlist]
    · rwa [added, if_pos rfl, List.append_nil]
    · rwa [added, if_pos rfl, List.append_nil]
  · rw [if_neg hfull]
    have hne : s.handleNext ≠ 0 := Nat.ne_of_gt hnext.1
    have hhandles : ∀ H ∈ list.map Prod.fst, H ≠ 0 := by
      intro H hH
      obtain ⟨d, hd, rfl⟩ := List.mem_map.mp hH
      exact (h.placed.handles d (hperm.mem_iff.mp hd)).1
    refine ⟨s.handleNext, Function.update s.handles s.handleNext .null,
      list ++ [(s.handleNext, c)], ?_, .inr ⟨rfl, Nat.lt_of_not_le hfull⟩, fun H' hH' => ?_, ?_,
      fun k => ?_⟩
    · rw [if_pos htype, if_neg hne, hlist, vuiHandleListAdd_handleList hhandles, List.map_append]
      rfl
    · exact Function.update_of_ne hH'.ne ..
    · rw [added, if_neg hne]
      exact hperm.append_right _
    · rw [added, if_neg hne, List.filter_append, List.filter_append, hfilter]

theorem cleanup_spec {H : Nat} {data : Data} {vc : VuiCommon} (hH : H < 512)
    (hdata : s.handles H = data)
    (hmodify : s.modify (fun vc => { vc with children := [0] }) data = some s')
    (hload : s'.load data = some vc) (htype : vuiIsDispatcher vc.type = true)
    (h : Placed s' last ds) {list : List (Nat × Creation)}
    (hlist : s'.dispatchers = handleList (list.map Prod.fst)) (hperm : list.Perm ds)
    (hfilter : ∀ k, list.filter (fun d => d.2.priority = k) = ds.filter fun d => d.2.priority = k) :
    ∃ dispatchers, vuiCreateCleanup s H = some { s' with dispatchers := dispatchers } ∧
      Made { s' with dispatchers := dispatchers } last ds := by
  obtain ⟨dispatchers, hsort, hsorted⟩ := h.sort hlist hperm hfilter
  have hnull : data ≠ .null := by
    rintro rfl
    cases hmodify
  refine ⟨dispatchers, ?_, ⟨h.next, h.handles, h.holds⟩, hsorted⟩
  rw [vuiCreateCleanup, vuiGetHandleData, if_pos hH, Option.bind_some, hdata, if_neg hnull, hmodify,
    Option.bind_some, hload, Option.bind_some, if_pos htype, hsort, Option.map_some]

theorem mem_added {H : Nat} {c : Creation} : d ∈ added H c ↔ H ≠ 0 ∧ d = (H, c) := by
  rw [added]
  split
  · next hH => simp [hH]
  · next hH => simp [hH]

theorem Placed.add (h : Placed s last ds) {H : Nat} {c : Creation}
    (hH : H = 0 ∨ H = s.handleNext ∧ H < 512)
    (hnext : s'.handleNext = if H = 0 then s.handleNext else s.handleNext + 1)
    (hold : ∀ d ∈ ds, Holds s' last' d) (hnew : H ≠ 0 → Holds s' last' (H, c)) :
    Placed s' last' (ds ++ added H c) := by
  obtain ⟨hpos, hmax⟩ := h.next
  have hle : s.handleNext ≤ s'.handleNext := by
    rw [hnext]
    split <;> omega
  refine ⟨⟨hpos.trans hle, ?_⟩, fun d hd => ?_, fun d hd => ?_⟩
  · rw [hnext]
    rcases hH with rfl | ⟨rfl, hlt⟩
    · exact hmax
    · split <;> omega
  · rcases List.mem_append.mp hd with hd | hd
    · exact ⟨(h.handles d hd).1, (h.handles d hd).2.trans_le hle⟩
    · obtain ⟨hne, rfl⟩ := mem_added.mp hd
      refine ⟨hne, ?_⟩
      rw [hnext, if_neg hne]
      exact Nat.lt_succ_of_le (hH.resolve_left hne).1.le
  · rcases List.mem_append.mp hd with hd | hd
    · exact hold d hd
    · obtain ⟨hne, rfl⟩ := mem_added.mp hd
      exact hnew hne

theorem Placed.ne_new (h : Placed s last ds) {H : Nat} (hH : H = 0 ∨ H = s.handleNext ∧ H < 512)
    (hd : d ∈ ds) : d.1 ≠ H := by
  obtain ⟨hne, hlt⟩ := h.handles d hd
  rcases hH with rfl | ⟨rfl, -⟩
  · exact hne
  · exact hlt.ne

theorem modify_last {α : Type} (l : List α) (a : α) (f : α → α) :
    (l ++ [a]).modify l.length f = l ++ [f a] := by
  induction l with
  | nil => rfl
  | cons b l ih =>
      rw [List.cons_append, List.length_cons, List.modify_succ_cons, ih, List.cons_append]

theorem Made.own (h : Made s last ds) (element : VuiCommon)
    (htype : vuiIsDispatcher element.type = true) :
    ∃ s' H, createElement s element none = some (s', H) ∧
      Made s' last (ds ++ added H (.own element htype)) ∧ s'.width = s.width := by
  obtain ⟨H, handles, list, hallocate, hH, hold, hperm, hfilter⟩ :=
    h.allocate htype (.own element htype)
  let s₂ : Core := { s with
    handles := Function.update handles H (.block s.heap.length)
    dispatchers := handleList (list.map Prod.fst)
    handleNext := if H = 0 then s.handleNext else s.handleNext + 1
    heap := s.heap ++ [{ element with handle := H, children := [0] }] }
  have hplaced : Placed s₂ last (ds ++ added H (.own element htype)) := by
    refine h.placed.add hH rfl (fun d hd => ?_) fun _ => ?_
    · refine (h.placed.holds d hd).mono ?_ ⟨_, rfl⟩ rfl (.inl ⟨rfl, rfl⟩)
      change Function.update handles H _ d.1 = _
      rw [Function.update_of_ne (h.placed.ne_new hH hd), hold _ (h.placed.handles d hd).2]
    · exact ⟨s.heap.length, Function.update_self .., List.getElem?_concat_length ..⟩
  have hload : s₂.load (.block s.heap.length) =
      some { element with handle := H, children := [0] } := List.getElem?_concat_length ..
  obtain ⟨dispatchers, hcleanup, hmade⟩ := cleanup_spec
    (s := { s₂ with heap := s.heap ++ [{ element with handle := H }] }) (H := H) (by omega)
      (Function.update_self ..) (by rw [Core.modify, modify_last])
    hload htype hplaced rfl hperm hfilter
  refine ⟨_, H, ?_, hmade, rfl⟩
  rw [createElement, hallocate]
  exact congrArg (Option.map fun s => (s, H)) hcleanup

theorem Made.menubar (h : Made s last ds) :
    ∃ s' H, vuiMenubarCreate s = some (s', H) ∧ Made s' H (ds ++ added H .menubar) ∧
      s'.width = s.width := by
  obtain ⟨H, handles, list, hallocate, hH, hold, hperm, hfilter⟩ :=
    h.allocate (show vuiIsDispatcher .menubar = true from rfl) .menubar
  let s₂ : Core := { s with
    handles := Function.update handles H .mainMenubar
    dispatchers := handleList (list.map Prod.fst)
    handleNext := if H = 0 then s.handleNext else s.handleNext + 1
    mainMenubar := { menubarElement s.width with handle := H } }
  have hplaced : Placed s₂ H (ds ++ added H .menubar) := by
    refine h.placed.add hH rfl (fun d hd => ?_) fun _ => ⟨Function.update_self .., rfl⟩
    refine (h.placed.holds d hd).mono ?_ ⟨[], (List.append_nil _).symm⟩ rfl (.inr rfl)
    change Function.update handles H _ d.1 = _
    rw [Function.update_of_ne (h.placed.ne_new hH hd), hold _ (h.placed.handles d hd).2]
  obtain ⟨dispatchers, hcleanup, hmade⟩ := cleanup_spec (s := s₂) (H := H) (by omega)
    (Function.update_self ..) rfl rfl rfl hplaced rfl hperm hfilter
  refine ⟨_, H, ?_, hmade, rfl⟩
  rw [vuiMenubarCreate, hallocate]
  exact congrArg (Option.map fun s => (s, H)) hcleanup

/-! ## Every sequence of creations -/

theorem made_vuiInit (width : UInt16) : Made (vuiInit width) 0 [] :=
  ⟨⟨⟨Nat.le_refl 1, Nat.le_of_ble_eq_true rfl⟩, fun _ h => absurd h List.not_mem_nil,
    fun _ h => absurd h List.not_mem_nil⟩, [], rfl, .refl _, .nil, fun _ => rfl⟩

theorem created_cons (c : Creation) (creations : List Creation) (H : Nat) (handles : List Nat) :
    created (c :: creations) (H :: handles) = added H c ++ created creations handles := by
  rw [created, added]
  split <;> rfl

theorem Made.run (h : Made s last ds) (creations : List Creation) :
    ∃ s' handles, Run.trace create s creations = some (s', handles) ∧
      Made s' (menubarHandle last creations handles) (ds ++ created creations handles) ∧
      s'.width = s.width := by
  induction creations generalizing s last ds with
  | nil =>
      have hds : ds ++ created [] [] = ds := List.append_nil ds
      exact ⟨s, [], rfl, hds.symm ▸ h, rfl⟩
  | cons c creations ih =>
      have hstep : ∃ s₁ H, create s c = some (s₁, H) ∧
          Made s₁ (menubarHandle last [c] [H]) (ds ++ added H c) ∧ s₁.width = s.width := by
        cases c with
        | own element htype => exact h.own element htype
        | menubar => exact h.menubar
      obtain ⟨s₁, H, hs₁, hmade, hwidth⟩ := hstep
      obtain ⟨s', handles, hs', hmade', hwidth'⟩ := ih hmade
      refine ⟨s', H :: handles, ?_, ?_, hwidth'.trans hwidth⟩
      · rw [Run.trace, hs₁, Option.bind_some, hs', Option.map_some]
      · rw [created_cons, ← List.append_assoc]
        cases c with
        | own element htype => exact hmade'
        | menubar => exact hmade'

theorem Made.find (h : Made s last ds) (x y : UInt16) :
    (∃ d, Topmost s.width x y ds d ∧
      vuiFindHandlerForEvent s x y s.dispatchers = some (recorded last d)) ∨
    ((∀ d ∈ ds, ¬ d.2.Contains s.width x y) ∧
      vuiFindHandlerForEvent s x y s.dispatchers = some 0) := by
  obtain ⟨list, hlist, hperm, hsorted, hfilter⟩ := h.sorted
  have hfind : vuiFindHandlerForEvent s x y (handleList (list.map Prod.fst)) =
      some (((list.find? fun d => (record s.width last d).Contains x y).map
        fun d => (record s.width last d).handle).getD 0) :=
    vuiFindHandler_spec (fun d hd => h.placed.element (hperm.mem_iff.mp hd))
      fun d hd => (h.placed.handles d (hperm.mem_iff.mp hd)).1
  rw [hlist, hfind]
  simp only [record_contains, record_handle]
  cases hfirst : list.find? fun d => d.2.Contains s.width x y with
  | none =>
      refine .inr ⟨fun d hd => ?_, rfl⟩
      simpa using List.find?_eq_none.mp hfirst d (hperm.mem_iff.mpr hd)
  | some d => exact .inl ⟨d, Bubble.first_of_stable hperm hsorted hfilter hfirst, rfl⟩

/-- **Events reach the top dispatcher.** After any creations of desktops,
windows and menu bars, whatever their rectangles and priorities,
`vui.dispatchers` is the stable sort of those that got a handle. A point is
routed to the topmost of those that contain it, by the handle in its record,
and to none if none does. -/
theorem dispatchers_route (width : UInt16) (creations : List Creation) :
    ∃ s handles, Run.trace create (vuiInit width) creations = some (s, handles) ∧
      StableSorted s.dispatchers (created creations handles) ∧
      ∀ x y, (∃ d, Topmost width x y (created creations handles) d ∧
          vuiFindHandlerForEvent s x y s.dispatchers =
            some (recorded (menubarHandle 0 creations handles) d)) ∨
        ((∀ d ∈ created creations handles, ¬ d.2.Contains width x y) ∧
          vuiFindHandlerForEvent s x y s.dispatchers = some 0) := by
  obtain ⟨s, handles, hs, hmade, hwidth⟩ := (made_vuiInit width).run creations
  rw [List.nil_append] at hmade
  have hw : s.width = width := hwidth
  exact ⟨s, handles, hs, hmade.sorted, fun x y => hw ▸ hmade.find x y⟩

/-- Of two menu bars the first one created is the topmost at their corner, but the
handle returned is the second one's. -/
theorem second_menubar_answers :
    ∃ s, Run.trace create (vuiInit 1024) [.menubar, .menubar] = some (s, [1, 2]) ∧
      Topmost 1024 0 0 (created [.menubar, .menubar] [1, 2]) (1, .menubar) ∧
      vuiFindHandlerForEvent s 0 0 s.dispatchers = some 2 ∧
      ¬ ∃ d, Topmost 1024 0 0 (created [.menubar, .menubar] [1, 2]) d ∧
        vuiFindHandlerForEvent s 0 0 s.dispatchers = some d.1 := by
  refine ⟨_, rfl, ⟨[], [(2, .menubar)], rfl, rfl, ?_, ?_⟩, rfl, ?_⟩
  · exact fun _ hb => absurd hb List.not_mem_nil
  · intro b hb _
    rw [List.mem_singleton.mp hb]
  · rintro ⟨⟨H, c⟩, ⟨l₁, l₂, heq, -, hbefore, -⟩, hfind⟩
    obtain rfl : 2 = H := Option.some.inj hfind
    -- the second dispatcher has the first one before it, with the same priority
    match l₁, heq with
    | [], heq => cases heq
    | [b], heq =>
        obtain ⟨hb, hrest⟩ := List.cons.inj heq
        obtain rfl : Creation.menubar = c := congrArg Prod.snd (List.cons.inj hrest).1
        have hlt := hbefore b (List.mem_singleton_self _) (hb ▸ rfl)
        rw [← hb] at hlt
        exact Nat.lt_irrefl _ hlt
    | b :: b' :: l₁, heq =>
        have hlength := congrArg List.length heq
        simp [created] at hlength

end VersionSix.Vui
