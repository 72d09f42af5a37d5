import Mathlib.Algebra.Group.Nat.Defs
import Mathlib.Logic.Function.Basic
import VersionSix.Run

/-!
# The console

`vui_console_put_char` keeps a cursor: row and column count from 1, and the
pixel position of the cell goes with them. A character is written where the
cursor is and moves it to the right, up to one behind the last column; the next
one is to wrap to a new line. Escape sequences are captured in a buffer of 25
bytes and read as three sets of at most four characters.

A step is `none` where the code writes outside the grid or outside one of the
buffers, or divides by zero. `console_in_grid_iff` says for which bytes this
does not happen and the cursor stays in the grid.

Drawing is left out: it reads the state and changes only what is drawn next
(`dirty`, `redraw_window`, the cursor that blinks).
-/

namespace VersionSix.Console

open Function (update)

def u16 (x : Nat) : Nat := x % 2 ^ 16
def u32 (x : Nat) : Nat := x % 2 ^ 32

theorem u16_eq {x : Nat} (h : x < 2 ^ 16) : u16 x = x := Nat.mod_eq_of_lt h

/-! ## The console -/

/-- What `vui_console_create` sets once and for all. -/
structure Geometry where
  textAreaX : Nat
  textAreaY : Nat
  charWidth : Nat
  charHeight : Nat
  numCols : Nat
  numRows : Nat
  tabSize : Nat
  charWidth_lt : charWidth < 2 ^ 16
  numCols_pos : 1 ≤ numCols
  numCols_lt : numCols < 2 ^ 16
  numRows_pos : 1 ≤ numRows
  numRows_lt : numRows < 2 ^ 16
  tabSize_lt : tabSize < 2 ^ 32
  textAreaX_lt : textAreaX < 2 ^ 16
  textAreaY_lt : textAreaY < 2 ^ 16

/-- What a `console_row` has of one column. -/
structure Cell where
  buff : UInt8
  colorFg : Nat
  colorBg : Nat
  colorSetFg : Bool
  colorSetBg : Bool

def blank : Cell := ⟨0, 0, 0, false, false⟩

/-- The rest of a `vui_console`. -/
structure State where
  rows : Nat → Nat → Cell
  currentRow : Nat
  currentCol : Nat
  currentPixelX : Nat
  currentPixelY : Nat
  fgColor : Nat
  bgColor : Nat
  overrideFg : Nat
  overrideBg : Nat
  useColorOverrideFg : Bool
  useColorOverrideBg : Bool
  capturingEscapeCode : Bool
  captureNum : Nat
  capturedEscape : Nat → UInt8

/-- A console after `vui_console_create`. The override colours are what was in
the memory. -/
def vuiConsoleCreate (g : Geometry) (overrideFg overrideBg : Nat) : State where
  rows _ _ := blank
  currentRow := 1
  currentCol := 1
  currentPixelX := g.textAreaX
  currentPixelY := g.textAreaY
  fgColor := 0x00eaeaea
  bgColor := 0x00232323
  overrideFg := overrideFg
  overrideBg := overrideBg
  useColorOverrideFg := false
  useColorOverrideBg := false
  capturingEscapeCode := false
  captureNum := 0
  capturedEscape _ := 0

/-! ## Escape sequences -/

/-- `sizeof(captured_escape)` -/
def captureSize : Nat := 25

/-- `sizeof(set_1)` -/
def setSize : Nat := 4

/-- The locals of `vui_console_process_escape` in its loop. -/
structure Sets where
  setNumber : Nat
  n : Nat
  set1 : Nat → UInt8
  set2 : Nat → UInt8
  set3 : Nat → UInt8

def noSets : Sets := ⟨0, 0, fun _ => 0, fun _ => 0, fun _ => 0⟩

/-- One turn of the loop. `n` starts again at a `;`, not at a `[`. -/
def readByte (t : Sets) (c : UInt8) : Option Sets :=
  if c = 91 then some { t with setNumber := 1 }
  else if c = 59 then some { t with setNumber := t.setNumber + 1, n := 0 }
  else match t.setNumber with
    | 1 => if t.n < setSize then some { t with set1 := update t.set1 t.n c, n := t.n + 1 } else none
    | 2 => if t.n < setSize then some { t with set2 := update t.set2 t.n c, n := t.n + 1 } else none
    | 3 => if t.n < setSize then some { t with set3 := update t.set3 t.n c, n := t.n + 1 } else none
    | _ => some t

def isDigit (c : UInt8) : Bool := 48 ≤ c && c ≤ 57

def isSpace (c : UInt8) : Bool := c = 32 || (9 ≤ c && c ≤ 13)

def digits (cs : List UInt8) : Int :=
  (cs.takeWhile isDigit).foldl (fun v c => 10 * v + (c.toNat - 48 : Nat)) 0

/-- `atoi` of the standard library. -/
def atoi (cs : List UInt8) : Int :=
  match cs.dropWhile isSpace with
  | 45 :: ds => -digits ds
  | 43 :: ds => digits ds
  | ds => digits ds

/-- `captured_fg` to `new_fg` -/
def foreground (code : Int) : Nat :=
  ([(30, 0x1E1E1E), (31, 0xCC0000), (32, 0x00CC00), (33, 0xAA5500), (34, 0x0000CC),
    (35, 0xAA00AA), (36, 0x00CCCC), (37, 0xAAAAAA), (90, 0x555555), (91, 0xFF5555),
    (92, 0x55FF55), (93, 0xFFFF55), (94, 0x5555FF), (95, 0xFF55FF), (96, 0x55FFFF),
    (97, 0xFFFFFF)].lookup code).getD 0

/-- `captured_bg` to `new_bg`, for the codes 40 to 47. -/
def background (code : Int) : Nat :=
  ([(40, 0x1E1E1E), (41, 0xCC0000), (42, 0x00CC00), (43, 0xAA5500), (44, 0x0000CC),
    (45, 0xAA00AA), (46, 0x00CCCC), (47, 0xFFFFFF)].lookup code).getD 0

/-- The codes 100 to 107 of `captured_bg` set `new_fg`. -/
def brightBackground (code : Int) : Option Nat :=
  [(100, 0x555555), (101, 0xFF5555), (102, 0x55FF55), (103, 0xFFFF55), (104, 0x5555FF),
    (105, 0xFF55FF), (106, 0x55FFFF), (107, 0xFFFFFF)].lookup code

def State.captured (s : State) : List UInt8 := (List.range s.captureNum).map s.capturedEscape

def setText (set : Nat → UInt8) : List UInt8 := (List.range setSize).map set

/-- `vui_console_process_escape`. A set of four characters has no end of its
own: `behind` is what comes after it on the stack. -/
def vuiConsoleProcessEscape (behind : List UInt8) (s : State) (c : UInt8) : Option State :=
  if s.captureNum < captureSize then
    if c = 109 then
      (s.captured.foldlM readByte noSets).map fun t =>
        let capturedFg := atoi (setText t.set2 ++ behind)
        let capturedBg := atoi (setText t.set3 ++ behind)
        let newFg := (brightBackground capturedBg).getD (foreground capturedFg)
        let newBg := background capturedBg
        { s with
          capturedEscape := update s.capturedEscape s.captureNum 0
          capturingEscapeCode := false
          overrideFg := newFg
          overrideBg := newBg
          useColorOverrideFg := newFg ≠ 0
          useColorOverrideBg := newBg ≠ 0
          captureNum := 0 }
    else
      some { s with
        capturedEscape := update s.capturedEscape s.captureNum c
        captureNum := s.captureNum + 1 }
  else none

/-! ## Characters -/

section Characters

variable (g : Geometry)

/-- `rows[row - 1].buff[col - 1]` and the colours there. -/
def setCell (s : State) (row col : Nat) (cell : Cell) : Option State :=
  if (1 ≤ row ∧ row ≤ g.numRows) ∧ 1 ≤ col ∧ col ≤ g.numCols then
    some { s with rows := update s.rows (row - 1) (update (s.rows (row - 1)) (col - 1) cell) }
  else none

/-- The columns of row `i` are copied or set. -/
def setRow (s : State) (i : Nat) (cells : Nat → Cell) : Option State :=
  if i < g.numRows then
    some { s with
      rows := update s.rows i fun j => if j < g.numCols then cells j else s.rows i j }
  else none

def vuiConsoleScrollUp (s : State) (setCurrentRowCol : Bool) : Option State := do
  let s ← (List.range (g.numRows - 1)).foldlM (fun s i => setRow g s i (s.rows (i + 1))) s
  let s ← setRow g s (g.numRows - 1) fun _ => blank
  if setCurrentRowCol then
    some { s with
      currentPixelX := g.textAreaX
      currentPixelY := u16 (g.textAreaY + (g.numRows - 1) * g.charHeight)
      currentCol := 1
      currentRow := g.numRows }
  else some s

def vuiConsoleDoNewLine (s : State) : Option State := do
  let s := { s with currentCol := 1 }
  let s ←
    if s.currentRow = g.numRows then vuiConsoleScrollUp g s true
    else some { s with
      currentRow := u16 (s.currentRow + 1)
      currentPixelY := u16 (s.currentPixelY + g.charHeight) }
  some { s with currentPixelX := g.textAreaX }

def vuiConsoleDoBackspace (s : State) : State :=
  { s with
    currentCol := u16 (s.currentCol + (2 ^ 16 - 1))
    currentPixelX := u16 (s.currentPixelX + (2 ^ 16 - g.charWidth)) }

/-- The `default` branch of `vui_console_put_char_at`. The cell is the one of
the call, also when a new line has moved the cursor. -/
def putDefault (behind : List UInt8) (s : State) (c : UInt8) (row col : Nat) : Option State :=
  if s.capturingEscapeCode then vuiConsoleProcessEscape behind s c
  else do
    let s ← if s.currentCol = g.numCols + 1 then vuiConsoleDoNewLine g s else some s
    let fg := if s.useColorOverrideFg then s.overrideFg else s.fgColor
    let bg := if s.useColorOverrideBg then s.overrideBg else s.bgColor
    let s ← setCell g s row col ⟨c, fg, bg, s.useColorOverrideFg, s.useColorOverrideBg⟩
    some { s with
      currentCol := u16 (s.currentCol + 1)
      currentPixelX := u16 (s.currentPixelX + g.charWidth) }

/-- `vui_console_put_char( con, ' ' )`, `n` times. A blank takes the default
branch. -/
def putSpaces (behind : List UInt8) : Nat → State → Option State
  | 0, s => some s
  | n + 1, s =>
      (putDefault g behind s 32 s.currentRow s.currentCol).bind (putSpaces behind n)

/-- The columns to the next stop, unless the tab starts in the first column. -/
def numSpaces (col : Nat) : Nat :=
  if col = 1 then g.tabSize
  else
    let numSpaces := u32 (col + (2 ^ 32 - 1)) % g.tabSize
    (Int.bmod (if numSpaces = 0 then g.tabSize else numSpaces : Nat) (2 ^ 32)).toNat

def vuiConsoleDoTab (behind : List UInt8) (s : State) : Option State :=
  if u32 (s.currentCol + g.tabSize) < g.numCols then
    if s.currentCol ≠ 1 ∧ g.tabSize = 0 then none
    else putSpaces g behind (numSpaces g s.currentCol) s
  else some s

def vuiConsolePutCharAt (behind : List UInt8) (s : State) (c : UInt8) (row col : Nat) :
    Option State :=
  if c = 27 then some { s with capturingEscapeCode := true, captureNum := 0 }
  else if c = 9 then vuiConsoleDoTab g behind s
  else if c = 10 then vuiConsoleDoNewLine g s
  else if c = 8 then some (vuiConsoleDoBackspace g s)
  else putDefault g behind s c row col

def vuiConsolePutChar (behind : List UInt8) (s : State) (c : UInt8) : Option State :=
  vuiConsolePutCharAt g behind s c s.currentRow s.currentCol

theorem putChar_space (behind : List UInt8) (s : State) :
    vuiConsolePutChar g behind s 32 = putDefault g behind s 32 s.currentRow s.currentCol := rfl

theorem putChar_newLine (behind : List UInt8) (s : State) :
    vuiConsolePutChar g behind s 10 = vuiConsoleDoNewLine g s := rfl

end Characters

/-! ## The grid -/

/-- The cursor is in the grid or one behind the last column, and the pixel
position is that of its cell, in the arithmetic of `uint16_t`. -/
structure InGrid (g : Geometry) (s : State) : Prop where
  row : 1 ≤ s.currentRow ∧ s.currentRow ≤ g.numRows
  col : 1 ≤ s.currentCol ∧ s.currentCol ≤ g.numCols + 1
  pixelX : s.currentPixelX = u16 (g.textAreaX + (s.currentCol - 1) * g.charWidth)
  pixelY : s.currentPixelY = u16 (g.textAreaY + (s.currentRow - 1) * g.charHeight)

theorem InGrid.pixels {g : Geometry} {s : State} (h : InGrid g s)
    (hx : g.textAreaX + g.numCols * g.charWidth < 2 ^ 16)
    (hy : g.textAreaY + g.numRows * g.charHeight < 2 ^ 16) :
    s.currentPixelX = g.textAreaX + (s.currentCol - 1) * g.charWidth ∧
      s.currentPixelY = g.textAreaY + (s.currentRow - 1) * g.charHeight := by
  have hcols : (s.currentCol - 1) * g.charWidth ≤ g.numCols * g.charWidth :=
    Nat.mul_le_mul_right _ (Nat.sub_le_of_le_add h.col.2)
  have hrows : (s.currentRow - 1) * g.charHeight ≤ g.numRows * g.charHeight :=
    Nat.mul_le_mul_right _ (Nat.le_trans (Nat.sub_le _ _) h.row.2)
  rw [h.pixelX, h.pixelY]
  exact ⟨u16_eq (by omega), u16_eq (by omega)⟩

/-- What a run keeps. -/
structure Kept (g : Geometry) (s : State) : Prop extends InGrid g s where
  col_lt : s.currentCol < 2 ^ 16
  captureNum : s.captureNum ≤ captureSize

/-- From set `k` on, with `n` characters since the last `;`, no set gets more
than four characters. -/
def SetsFit : Nat → Nat → List UInt8 → Prop
  | _, _, [] => True
  | k, n, c :: cs =>
      if c = 91 then SetsFit 1 n cs
      else if c = 59 then SetsFit (k + 1) 0 cs
      else if k = 1 ∨ k = 2 ∨ k = 3 then n < setSize ∧ SetsFit k (n + 1) cs
      else SetsFit k n cs

/-- There is room for `n` characters: in the buffer of escape sequences, or in
the row. -/
def Room (g : Geometry) (s : State) (n : Nat) : Prop :=
  if s.capturingEscapeCode then s.captureNum + n ≤ captureSize
  else s.currentCol + n ≤ g.numCols + 1 ∧ s.currentCol + n < 2 ^ 16

def StepOk (g : Geometry) (s : State) (c : UInt8) : Prop :=
  if c = 27 ∨ c = 10 then True
  else if c = 9 then
    u32 (s.currentCol + g.tabSize) < g.numCols →
      (s.currentCol ≠ 1 → g.tabSize ≠ 0) ∧ Room g s (numSpaces g s.currentCol)
  else if c = 8 then s.currentCol ≠ 1
  else Room g s 1 ∧ (s.capturingEscapeCode = true → c = 109 → SetsFit 0 0 s.captured)

/-! ## Escape sequences fit -/

theorem readByte_isSome (cs : List UInt8) (t : Sets) :
    (cs.foldlM readByte t).isSome ↔ SetsFit t.setNumber t.n cs := by
  induction cs generalizing t with
  | nil => exact iff_of_true rfl trivial
  | cons c cs ih =>
      obtain ⟨k, n, set1, set2, set3⟩ := t
      rw [List.foldlM_cons, SetsFit, readByte]
      dsimp only
      by_cases hopen : c = 91
      · rw [if_pos hopen, if_pos hopen]
        exact ih _
      rw [if_neg hopen, if_neg hopen]
      by_cases hsep : c = 59
      · rw [if_pos hsep, if_pos hsep]
        exact ih _
      rw [if_neg hsep, if_neg hsep]
      have hplace : ∀ t : Sets, t.setNumber = k → t.n = n + 1 →
          (((if n < setSize then some t else none) >>= fun t => cs.foldlM readByte t).isSome ↔
            n < setSize ∧ SetsFit k (n + 1) cs) := by
        intro t hk hn
        by_cases hroom : n < setSize
        · rw [if_pos hroom, and_iff_right hroom, ← hk, ← hn]
          exact ih t
        · rw [if_neg hroom]
          exact iff_of_false (by simp) fun h => hroom h.1
      by_cases hset : k = 1 ∨ k = 2 ∨ k = 3
      · rw [if_pos hset]
        rcases hset with rfl | rfl | rfl
        · exact hplace _ rfl rfl
        · exact hplace _ rfl rfl
        · exact hplace _ rfl rfl
      · rw [if_neg hset]
        split
        · exact absurd (.inl rfl) hset
        · exact absurd (.inr (.inl rfl)) hset
        · exact absurd (.inr (.inr rfl)) hset
        · exact ih _

theorem processEscape_kept {g : Geometry} {behind : List UInt8} {s : State} {c : UInt8}
    (hs : Kept g s) (hroom : s.captureNum < captureSize)
    (hfit : c = 109 → SetsFit 0 0 s.captured) :
    ∃ s', vuiConsoleProcessEscape behind s c = some s' ∧ Kept g s' ∧
      (c ≠ 109 → s'.capturingEscapeCode = s.capturingEscapeCode ∧
        s'.captureNum = s.captureNum + 1) := by
  rw [vuiConsoleProcessEscape, if_pos hroom]
  by_cases hm : c = 109
  · obtain ⟨t, ht⟩ :=
      Option.isSome_iff_exists.mp ((readByte_isSome s.captured noSets).mpr (hfit hm))
    rw [if_pos hm, ht]
    exact ⟨_, rfl, ⟨⟨hs.row, hs.col, hs.pixelX, hs.pixelY⟩, hs.col_lt, Nat.zero_le _⟩,
      fun hne => absurd hm hne⟩
  · rw [if_neg hm]
    exact ⟨_, rfl, ⟨⟨hs.row, hs.col, hs.pixelX, hs.pixelY⟩, hs.col_lt, hroom⟩,
      fun _ => ⟨rfl, rfl⟩⟩

/-! ## New lines -/

section Moves

variable {g : Geometry} {behind : List UInt8} {s s' : State}

theorem pixel_next {o w c : Nat} (hc : 1 ≤ c) :
    u16 (u16 (o + (c - 1) * w) + w) = u16 (o + (c + 1 - 1) * w) := by
  obtain ⟨k, rfl⟩ := Nat.exists_eq_add_of_le' hc
  unfold u16
  rw [Nat.mod_add_mod, Nat.add_sub_cancel, Nat.add_sub_cancel, Nat.succ_mul, Nat.add_assoc]

theorem pixel_back {o w c : Nat} (hc : 2 ≤ c) (hw : w < 2 ^ 16) :
    u16 (u16 (o + (c - 1) * w) + (2 ^ 16 - w)) = u16 (o + (c - 1 - 1) * w) := by
  obtain ⟨k, rfl⟩ := Nat.exists_eq_add_of_le' hc
  have hturn : o + (k + 2 - 1) * w + (2 ^ 16 - w) = o + (k + 2 - 1 - 1) * w + 2 ^ 16 := by
    rw [show k + 2 - 1 = k + 1 from rfl, Nat.add_sub_cancel, Nat.succ_mul]
    omega
  unfold u16
  rw [Nat.mod_add_mod, hturn, Nat.add_mod_right]

theorem copyRows_spec (s : State) {k : Nat} (hk : k < g.numRows) :
    ∃ rows, (List.range k).foldlM (fun s i => setRow g s i (s.rows (i + 1))) s =
        some { s with rows := rows } ∧
      (∀ i j, i < k → j < g.numCols → rows i j = s.rows (i + 1) j) ∧
      ∀ i, k ≤ i → rows i = s.rows i := by
  induction k with
  | zero => exact ⟨s.rows, rfl, fun i j hi => absurd hi (Nat.not_lt_zero i), fun _ _ => rfl⟩
  | succ k ih =>
      obtain ⟨rows, hrows, hcopied, hkept⟩ := ih (Nat.lt_of_succ_lt hk)
      rw [List.range_succ, List.foldlM_append, hrows]
      simp only [Option.bind_eq_bind, Option.bind_some, List.foldlM_cons, List.foldlM_nil, setRow,
        if_pos (Nat.lt_of_succ_lt hk), bind_pure]
      refine ⟨_, rfl, fun i j hi hj => ?_, fun i hi => ?_⟩
      · by_cases hik : i = k
        · subst hik
          rw [Function.update_self, if_pos hj, hkept _ (Nat.le_succ i)]
        · rw [Function.update_of_ne hik]
          exact hcopied i j (by omega) hj
      · rw [Function.update_of_ne (by omega)]
        exact hkept i (by omega)

theorem scrollUp_spec (s : State) : ∃ rows, vuiConsoleScrollUp g s true = some { s with
      rows := rows
      currentPixelX := g.textAreaX
      currentPixelY := u16 (g.textAreaY + (g.numRows - 1) * g.charHeight)
      currentCol := 1
      currentRow := g.numRows } ∧
    (∀ i j, i + 1 < g.numRows → j < g.numCols → rows i j = s.rows (i + 1) j) ∧
    ∀ j, j < g.numCols → rows (g.numRows - 1) j = blank := by
  have hpos := g.numRows_pos
  have hlast : g.numRows - 1 < g.numRows := by omega
  obtain ⟨rows, hrows, hcopied, -⟩ := copyRows_spec s hlast
  rw [vuiConsoleScrollUp, hrows]
  simp only [Option.bind_eq_bind, Option.bind_some, setRow, if_pos hlast, if_true]
  refine ⟨_, rfl, fun i j hi hj => ?_, fun j hj => ?_⟩
  · rw [Function.update_of_ne (by omega)]
    exact hcopied i j (by omega) hj
  · rw [Function.update_self, if_pos hj]

theorem newLine_kept (hs : Kept g s) :
    ∃ s', vuiConsoleDoNewLine g s = some s' ∧ Kept g s' := by
  have hcols := g.numCols_pos
  have hx : g.textAreaX = u16 (g.textAreaX + (1 - 1) * g.charWidth) := by
    rw [Nat.sub_self, Nat.zero_mul, Nat.add_zero]
    exact (u16_eq g.textAreaX_lt).symm
  unfold vuiConsoleDoNewLine
  by_cases hlast : s.currentRow = g.numRows
  · obtain ⟨rows, hscroll, -, -⟩ := scrollUp_spec (g := g) { s with currentCol := 1 }
    simp only [Option.bind_eq_bind, if_pos hlast, hscroll, Option.bind_some]
    exact ⟨_, rfl, ⟨⟨⟨g.numRows_pos, Nat.le_refl _⟩, ⟨Nat.le_refl _, by simp⟩, hx, rfl⟩, by simp,
      hs.captureNum⟩⟩
  · have hrow := hs.row
    have hlt := g.numRows_lt
    have hnext : u16 (s.currentRow + 1) = s.currentRow + 1 := u16_eq (by omega)
    simp only [Option.bind_eq_bind, if_neg hlast, Option.bind_some, hnext]
    refine ⟨_, rfl, ⟨⟨⟨by simp, by simp; omega⟩, ⟨Nat.le_refl _, by simp⟩, hx, ?_⟩, by simp,
      hs.captureNum⟩⟩
    dsimp only
    rw [hs.pixelY]
    exact pixel_next hrow.1

theorem backspace_kept (hs : Kept g s) (hcol : s.currentCol ≠ 1) :
    Kept g (vuiConsoleDoBackspace g s) := by
  have hlo := hs.col.1
  have hhi := hs.col.2
  have hlt := hs.col_lt
  have hback : u16 (s.currentCol + (2 ^ 16 - 1)) = s.currentCol - 1 := by
    unfold u16
    omega
  unfold vuiConsoleDoBackspace
  rw [hback]
  refine ⟨⟨hs.row, ⟨?_, ?_⟩, ?_, hs.pixelY⟩, ?_, hs.captureNum⟩ <;> dsimp only
  · omega
  · omega
  · rw [hs.pixelX]
    exact pixel_back (by omega) g.charWidth_lt
  · omega

/-! ## Characters -/

theorem putDefault_kept {c : UInt8} (hs : Kept g s) (hroom : Room g s 1)
    (hfit : s.capturingEscapeCode = true → c = 109 → SetsFit 0 0 s.captured) :
    ∃ s', putDefault g behind s c s.currentRow s.currentCol = some s' ∧ Kept g s' ∧
      (c ≠ 109 → s'.capturingEscapeCode = s.capturingEscapeCode ∧
        if s.capturingEscapeCode then s'.captureNum = s.captureNum + 1
        else s'.currentCol = s.currentCol + 1) := by
  unfold putDefault
  unfold Room at hroom
  by_cases hcapture : s.capturingEscapeCode = true
  · simp only [if_pos hcapture] at hroom ⊢
    exact processEscape_kept hs hroom (hfit hcapture)
  · simp only [if_neg hcapture] at hroom ⊢
    obtain ⟨hcol, hlt⟩ := hroom
    have hinside : (1 ≤ s.currentRow ∧ s.currentRow ≤ g.numRows) ∧
        1 ≤ s.currentCol ∧ s.currentCol ≤ g.numCols :=
      ⟨hs.row, hs.col.1, Nat.le_of_succ_le_succ hcol⟩
    have hnext : u16 (s.currentCol + 1) = s.currentCol + 1 := u16_eq hlt
    have hwrap : ¬ s.currentCol = g.numCols + 1 := by omega
    simp only [if_neg hwrap, Option.bind_eq_bind, Option.bind_some, setCell, if_pos hinside, hnext]
    refine ⟨_, rfl, ⟨⟨hs.row, ⟨by simp, hcol⟩, ?_, hs.pixelY⟩, hlt, hs.captureNum⟩,
      fun _ => ⟨rfl, rfl⟩⟩
    dsimp only
    rw [hs.pixelX]
    exact pixel_next hs.col.1

theorem putSpace_kept (behind : List UInt8) (hs : Kept g s) (hroom : Room g s 1) :
    ∃ s', putDefault g behind s 32 s.currentRow s.currentCol = some s' ∧ Kept g s' ∧
      s'.capturingEscapeCode = s.capturingEscapeCode ∧
      if s.capturingEscapeCode then s'.captureNum = s.captureNum + 1
      else s'.currentCol = s.currentCol + 1 := by
  have hblank : ¬ (32 : UInt8) = 109 := by decide
  obtain ⟨s', hs', hkept, hmoved⟩ := putDefault_kept hs hroom fun _ hm => absurd hm hblank
  exact ⟨s', hs', hkept, hmoved hblank⟩

theorem putSpaces_kept {n : Nat} (hs : Kept g s) (hroom : Room g s n) :
    ∃ s', putSpaces g behind n s = some s' ∧ Kept g s' ∧
      s'.capturingEscapeCode = s.capturingEscapeCode ∧
      if s.capturingEscapeCode then s'.captureNum = s.captureNum + n
      else s'.currentCol = s.currentCol + n := by
  induction n generalizing s with
  | zero => exact ⟨s, rfl, hs, rfl, by split <;> rfl⟩
  | succ n ih =>
      have hone : Room g s 1 := by
        unfold Room at hroom ⊢
        split_ifs at hroom ⊢ <;> omega
      obtain ⟨s₁, h₁, hs₁, hcapture, hmoved⟩ := putSpace_kept behind hs hone
      have hrest : Room g s₁ n := by
        unfold Room at hroom ⊢
        rw [hcapture]
        split_ifs at hroom hmoved ⊢ <;> omega
      obtain ⟨s₂, h₂, hs₂, hcapture₂, hmoved₂⟩ := ih hs₁ hrest
      refine ⟨s₂, ?_, hs₂, hcapture₂.trans hcapture, ?_⟩
      · rw [putSpaces, h₁, Option.bind_some, h₂]
      · rw [hcapture] at hmoved₂
        split_ifs at hmoved hmoved₂ ⊢ <;> omega

/-- **A safe byte** keeps the console in its grid. -/
theorem putChar_kept {c : UInt8} (hs : Kept g s) (hok : StepOk g s c) :
    ∃ s', vuiConsolePutChar g behind s c = some s' ∧ Kept g s' := by
  unfold vuiConsolePutChar vuiConsolePutCharAt
  unfold StepOk at hok
  by_cases hescape : c = 27
  · rw [if_pos hescape]
    exact ⟨_, rfl, ⟨hs.row, hs.col, hs.pixelX, hs.pixelY⟩, hs.col_lt, Nat.zero_le _⟩
  rw [if_neg hescape]
  by_cases htab : c = 9
  · subst htab
    rw [if_pos rfl]
    have hroom : u32 (s.currentCol + g.tabSize) < g.numCols →
        (s.currentCol ≠ 1 → g.tabSize ≠ 0) ∧ Room g s (numSpaces g s.currentCol) := hok
    unfold vuiConsoleDoTab
    split_ifs with hspace hzero
    · exact absurd hzero.2 ((hroom hspace).1 hzero.1)
    · obtain ⟨s', hs', hkept, -⟩ := putSpaces_kept hs (hroom hspace).2
      exact ⟨s', hs', hkept⟩
    · exact ⟨s, rfl, hs⟩
  rw [if_neg htab] at hok ⊢
  by_cases hline : c = 10
  · rw [if_pos hline]
    exact newLine_kept hs
  rw [if_neg hline]
  rw [if_neg (not_or.mpr ⟨hescape, hline⟩)] at hok
  by_cases hback : c = 8
  · rw [if_pos hback] at hok ⊢
    exact ⟨_, rfl, backspace_kept hs hok⟩
  · rw [if_neg hback] at hok ⊢
    obtain ⟨s', hs', hkept, -⟩ := putDefault_kept hs hok.1 hok.2
    exact ⟨s', hs', hkept⟩

/-! ## What is not safe -/

/-- A character that is put with no room for it, or sets that do not fit, leave
the grid: the cursor wraps around to column 0. -/
theorem putDefault_cases {c : UInt8} (hs : Kept g s)
    (h : putDefault g behind s c s.currentRow s.currentCol = some s') :
    (Room g s 1 ∧ (s.capturingEscapeCode = true → c = 109 → SetsFit 0 0 s.captured)) ∨
      (s'.capturingEscapeCode = false ∧ s'.currentCol = 0) := by
  unfold putDefault at h
  unfold Room
  by_cases hcapture : s.capturingEscapeCode = true
  · simp only [if_pos hcapture] at h ⊢
    rw [vuiConsoleProcessEscape] at h
    obtain ⟨hroom, h⟩ := Option.ite_none_right_eq_some.mp h
    refine .inl ⟨hroom, fun _ hm => ?_⟩
    rw [if_pos hm] at h
    obtain ⟨t, ht, -⟩ := Option.map_eq_some_iff.mp h
    exact (readByte_isSome s.captured noSets).mp (by rw [ht]; rfl)
  · simp only [if_neg hcapture, Option.bind_eq_bind] at h ⊢
    by_cases hwrap : s.currentCol = g.numCols + 1
    · rw [if_pos hwrap] at h
      obtain ⟨s₁, -, h⟩ := Option.bind_eq_some_iff.mp h
      obtain ⟨s₂, hcell, -⟩ := Option.bind_eq_some_iff.mp h
      obtain ⟨⟨-, -, hcol⟩, -⟩ := Option.ite_none_right_eq_some.mp hcell
      omega
    rw [if_neg hwrap, Option.bind_some] at h
    obtain ⟨s₁, hcell, h⟩ := Option.bind_eq_some_iff.mp h
    obtain ⟨⟨-, -, hcol⟩, hs₁⟩ := Option.ite_none_right_eq_some.mp hcell
    cases hs₁
    cases h
    have hlt := hs.col_lt
    by_cases hroom : s.currentCol + 1 < 2 ^ 16
    · exact .inl ⟨⟨by omega, hroom⟩, fun hyes => absurd hyes hcapture⟩
    · refine .inr ⟨by simpa using hcapture, ?_⟩
      dsimp only
      unfold u16
      omega

theorem putDefault_zero {c : UInt8} {row : Nat} (hcapture : s.capturingEscapeCode = false)
    (hcol : s.currentCol = 0) : putDefault g behind s c row s.currentCol = none := by
  have hpos := g.numCols_pos
  unfold putDefault
  rw [hcapture, hcol]
  simp [setCell]

theorem putSpaces_room {n : Nat} (hs : Kept g s) (h : putSpaces g behind n s = some s')
    (hin : InGrid g s') : Room g s n := by
  induction n generalizing s with
  | zero =>
      have hcol := hs.col.2
      have hlt := hs.col_lt
      have hnum := hs.captureNum
      unfold Room
      split_ifs <;> simp <;> omega
  | succ n ih =>
      rw [putSpaces] at h
      obtain ⟨s₁, h₁, hrest⟩ := Option.bind_eq_some_iff.mp h
      rcases putDefault_cases hs h₁ with ⟨hone, -⟩ | ⟨hcapture, hzero⟩
      · obtain ⟨s₂, h₂, hs₂, hcapture, hmoved⟩ := putSpace_kept behind hs hone
        obtain rfl := Option.some.inj (h₁.symm.trans h₂)
        have hroom := ih hs₂ hrest
        unfold Room at hroom ⊢
        rw [hcapture] at hroom
        split_ifs at hroom hmoved ⊢ <;> omega
      · cases n with
        | zero =>
            obtain rfl := Option.some.inj hrest
            have hcol := hin.col.1
            omega
        | succ n =>
            rw [putSpaces, putDefault_zero hcapture hzero] at hrest
            cases hrest

/-- **A byte that keeps the console in its grid** is safe. -/
theorem stepOk_of_inGrid {c : UInt8} (hs : Kept g s)
    (h : vuiConsolePutChar g behind s c = some s') (hin : InGrid g s') : StepOk g s c := by
  unfold vuiConsolePutChar vuiConsolePutCharAt at h
  unfold StepOk
  by_cases hfree : c = 27 ∨ c = 10
  · rw [if_pos hfree]
    trivial
  rw [if_neg hfree]
  rw [not_or] at hfree
  rw [if_neg hfree.1] at h
  by_cases htab : c = 9
  · rw [if_pos htab] at h ⊢
    intro hspace
    rw [vuiConsoleDoTab, if_pos hspace] at h
    obtain ⟨hzero, h⟩ := Option.ite_none_left_eq_some.mp h
    exact ⟨fun hcol ht => hzero ⟨hcol, ht⟩, putSpaces_room hs h hin⟩
  rw [if_neg htab, if_neg hfree.2] at h
  rw [if_neg htab]
  by_cases hback : c = 8
  · rw [if_pos hback] at h ⊢
    obtain rfl := Option.some.inj h
    intro hone
    have hcol := hin.col.1
    unfold vuiConsoleDoBackspace u16 at hcol
    dsimp only at hcol
    omega
  · rw [if_neg hback] at h ⊢
    rcases putDefault_cases hs h with hok | ⟨-, hzero⟩
    · exact hok
    · have hcol := hin.col.1
      omega

/-- **The grid.** In a run from a new console every state is reached and is in
the grid exactly if every byte is safe where it comes. What is safe depends on
the cursor and on what has been captured of an escape sequence: a new line
always is, a character needs a column that is left, or a place in the buffer of
the sequence. -/
theorem console_in_grid_iff (g : Geometry) (behind : List UInt8) (overrideFg overrideBg : Nat)
    (bytes : List UInt8) :
    (∀ bs, bs <+: bytes → ∃ s, Run.exec (vuiConsolePutChar g behind)
        (vuiConsoleCreate g overrideFg overrideBg) bs = some s ∧ InGrid g s) ↔
      Run.Along (vuiConsolePutChar g behind) (StepOk g)
        (vuiConsoleCreate g overrideFg overrideBg) bytes := by
  have hstart : Kept g (vuiConsoleCreate g overrideFg overrideBg) := by
    refine ⟨⟨⟨Nat.le_refl _, g.numRows_pos⟩, ⟨Nat.le_refl _, by simp [vuiConsoleCreate]⟩, ?_, ?_⟩,
      by simp [vuiConsoleCreate], by simp [vuiConsoleCreate]⟩
    · simpa [vuiConsoleCreate] using (u16_eq g.textAreaX_lt).symm
    · simpa [vuiConsoleCreate] using (u16_eq g.textAreaY_lt).symm
  exact Run.prefixes_iff_along (fun _ h => h.toInGrid) (fun _ _ hs hok => putChar_kept hs hok)
    (fun _ _ _ hs h hin => stepOk_of_inGrid hs h hin) hstart

def smallGeometry : Geometry where
  textAreaX := 5
  textAreaY := 5
  charWidth := 8
  charHeight := 16
  numCols := 2
  numRows := 2
  tabSize := 4
  charWidth_lt := by decide
  numCols_pos := by decide
  numCols_lt := by decide
  numRows_pos := by decide
  numRows_lt := by decide
  tabSize_lt := by decide
  textAreaX_lt := by decide
  textAreaY_lt := by decide

/-- A third character in the row is put behind the end of its buffer. -/
theorem third_column_overruns :
    (Run.exec (vuiConsolePutChar smallGeometry []) (vuiConsoleCreate smallGeometry 0 0)
        [97, 98]).map State.currentCol = some 3 ∧
      ¬ ∀ bs, bs <+: [97, 98, 99] → ∃ s, Run.exec (vuiConsolePutChar smallGeometry [])
        (vuiConsoleCreate smallGeometry 0 0) bs = some s ∧ InGrid smallGeometry s := by
  refine ⟨by decide, fun h => ?_⟩
  obtain ⟨s, hs, -⟩ := h _ (List.prefix_refl _)
  have hnone : (Run.exec (vuiConsolePutChar smallGeometry [])
      (vuiConsoleCreate smallGeometry 0 0) [97, 98, 99]).isNone = true := by decide
  rw [hs] at hnone
  cases hnone

end Moves

end VersionSix.Console
