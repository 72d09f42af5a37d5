import VersionSix.CopyLoop
import VersionSix.MousePointer

/-!
# Moving a rectangle

`vui_move_rect` copies a rectangle of `vui.buffer` to another place in it, row
by row from the top and each row from the left. Towards the top or the left no
turn reads a pixel that an earlier one has assigned, so the copy is the same as
one from a snapshot (`vuiMoveRect_copies`), and the pixels outside of the
target stay. `vui_console_scroll_up` uses it with rectangles that overlap
(`scrollPixels_line`).

The turns are in the order of the rows and columns (`Before`), and the index of
a pixel grows in that order as long as a row of the rectangle is not longer
than one of the buffer. The general fact about such loops is in `CopyLoop`:
what a turn reads was not assigned before.

The rows of `vui.buffer` are `vui.pitch / 4` pixels apart, which is the width
of the screen below 16384 (`rowPixels_eq`).
-/

namespace VersionSix.Draw

open CopyLoop Function Mouse

/-! ## Function -/

structure Rect where
  x : UInt32
  y : UInt32
  w : UInt32
  h : UInt32

/-- `vui.pitch / 4` -/
def rowPixels (v : Mouse.Vui) : Nat := v.pitch / 4

/-- `vui.buffer + x + ((y + i) * (vui.pitch / 4))`, as an index. -/
def rowIndex (v : Mouse.Vui) (x y i : UInt32) : Nat :=
  x.toNat + ((y + i) * UInt32.ofNat (rowPixels v)).toNat

/-- `for(; mem_size != 0; mem_size--) *mem_dest32++ = *mem_src32++;` -/
def copyRow : Nat → Nat → Nat → (Nat → UInt32) → Nat → UInt32
  | 0, _, _, buffer => buffer
  | memSize + 1, memDest32, memSrc32, buffer =>
      copyRow memSize (memDest32 + 1) (memSrc32 + 1) (update buffer memDest32 (buffer memSrc32))

/-- The rows from `i` on, of which `left` are left. -/
def copyRows (v : Mouse.Vui) (dest src : Rect) : Nat → Nat → (Nat → UInt32) → Nat → UInt32
  | 0, _, buffer => buffer
  | left + 1, i, buffer =>
      copyRows v dest src left (i + 1)
        (copyRow src.w.toNat (rowIndex v dest.x dest.y (UInt32.ofNat i))
          (rowIndex v src.x src.y (UInt32.ofNat i)) buffer)

/-- The size is that of the source; `dest_w` and `dest_h` are not read. -/
def vuiMoveRect (v : Mouse.Vui) (dest src : Rect) (buffer : Nat → UInt32) : Nat → UInt32 :=
  copyRows v dest src src.h.toNat 0 buffer

/-! ## Statement -/

/-- The index of the pixel in column `x` and row `y`. -/
def pixel (v : Mouse.Vui) (x y : Nat) : Nat := y * rowPixels v + x

structure Inside (v : Mouse.Vui) (r : Rect) : Prop where
  columns : r.x.toNat + r.w.toNat ≤ rowPixels v
  rows : r.y.toNat + r.h.toNat ≤ v.height

/-- The pixel in row `a.1` and column `a.2` of the rectangle. -/
def Rect.pixel (v : Mouse.Vui) (r : Rect) (a : Nat × Nat) : Nat :=
  Draw.pixel v (r.x.toNat + a.2) (r.y.toNat + a.1)

/-- `a` is a row and a column of the rectangle. -/
def Rect.Has (r : Rect) (a : Nat × Nat) : Prop := a.1 < r.h.toNat ∧ a.2 < r.w.toNat

/-! ## Pixels -/

variable {v : Mouse.Vui} {dest src r : Rect} {buffer : Nat → UInt32} {a b : Nat × Nat}

theorem rowPixels_lt (v : Mouse.Vui) : rowPixels v < 2 ^ 14 := by
  rw [rowPixels, pitch_div]
  exact Nat.mod_lt _ (by decide)

theorem rowPixels_eq (h : v.width < 2 ^ 14) : rowPixels v = v.width := by
  rw [rowPixels, pitch_div, Nat.mod_eq_of_lt h]

theorem pixel_lt_of_row {x y x' y' : Nat} (hx : x < rowPixels v) (hy : y < y') :
    pixel v x y < pixel v x' y' := by
  have hrow : (y + 1) * rowPixels v ≤ y' * rowPixels v := Nat.mul_le_mul_right _ hy
  rw [Nat.succ_mul] at hrow
  rw [pixel, pixel]
  omega

/-- In the order of the loops: by rows, and in a row by columns. -/
def Before (a b : Nat × Nat) : Prop := a.1 < b.1 ∨ a.1 = b.1 ∧ a.2 < b.2

/-- A later pixel of one rectangle against an earlier one of a rectangle that does not start
after it. -/
theorem rectPixel_lt (hin : Inside v dest) (ha : dest.Has a) (hab : Before a b)
    (horder : dest.y < src.y ∨ dest.y = src.y ∧ dest.x ≤ src.x) :
    dest.pixel v a < src.pixel v b := by
  have hcol := hin.columns
  rw [UInt32.lt_iff_toNat_lt, ← UInt32.toNat_inj, UInt32.le_iff_toNat_le] at horder
  obtain ⟨-, hw⟩ := ha
  by_cases hrow : dest.y.toNat + a.1 < src.y.toNat + b.1
  · exact pixel_lt_of_row (by omega) hrow
  · obtain ⟨hb, hx⟩ : dest.y.toNat + a.1 = src.y.toNat + b.1 ∧
        dest.x.toNat + a.2 < src.x.toNat + b.2 := by
      rcases hab with h | ⟨h, h'⟩ <;> omega
    rw [Rect.pixel, Rect.pixel, hb]
    exact Nat.add_lt_add_left hx _

theorem rectPixel_inj (hin : Inside v r) (ha : r.Has a) (hb : r.Has b)
    (h : r.pixel v a = r.pixel v b) : a = b := by
  have hself : r.y < r.y ∨ r.y = r.y ∧ r.x ≤ r.x := .inr ⟨rfl, UInt32.le_refl _⟩
  have hab : ¬ Before a b := fun hlt => Nat.ne_of_lt (rectPixel_lt hin ha hlt hself) h
  have hba : ¬ Before b a := fun hlt => Nat.ne_of_gt (rectPixel_lt hin hb hlt hself) h
  rw [Before] at hab hba
  exact Prod.ext (by omega) (by omega)

theorem rowIndex_add (hin : Inside v r) {i j : Nat} (hi : i < r.h.toNat) :
    rowIndex v r.x r.y (UInt32.ofNat i) + j = r.pixel v (i, j) := by
  have hp := rowPixels_lt v
  have hrows := hin.rows
  have hheight := v.height_lt
  have hsmall : (r.y.toNat + i) * rowPixels v < 2 ^ 16 * 2 ^ 14 :=
    Nat.mul_lt_mul'' (by omega) hp
  rw [rowIndex, UInt32.toNat_mul, UInt32.toNat_add, UInt32.toNat_ofNat', UInt32.toNat_ofNat',
    Nat.mod_eq_of_lt (show i < 2 ^ 32 by omega),
    Nat.mod_eq_of_lt (show rowPixels v < 2 ^ 32 by omega),
    Nat.mod_eq_of_lt (show r.y.toNat + i < 2 ^ 32 by omega), Nat.mod_eq_of_lt (by omega),
    Rect.pixel, pixel, Nat.add_comm r.x.toNat, Nat.add_assoc]

/-! ## The loops -/

/-- The turns of the loops, as rows and columns of the rectangles. -/
def turns (left i w : Nat) : List (Nat × Nat) :=
  (List.range' i left).flatMap fun i => (List.range w).map (Prod.mk i)

theorem mem_turns {left i w : Nat} :
    a ∈ turns left i w ↔ (i ≤ a.1 ∧ a.1 < i + left) ∧ a.2 < w := by
  simp only [turns, List.mem_flatMap, List.mem_map, List.mem_range, List.mem_range'_1]
  constructor
  · rintro ⟨i', hi', j, hj, rfl⟩
    exact ⟨hi', hj⟩
  · rintro ⟨hi, hj⟩
    exact ⟨a.1, hi, a.2, hj, rfl⟩

theorem turns_before (left i w : Nat) : (turns left i w).Pairwise Before := by
  refine List.pairwise_flatMap.mpr ⟨fun i' _ => ?_, ?_⟩
  · refine List.Pairwise.map _ (fun j j' hj => .inr ⟨rfl, hj⟩) List.pairwise_lt_range
  · refine List.Pairwise.imp (fun {i₁ i₂} hi x hx y hy => ?_) List.pairwise_lt_range'
    obtain ⟨j, -, rfl⟩ := List.mem_map.mp hx
    obtain ⟨j', -, rfl⟩ := List.mem_map.mp hy
    exact .inl hi

theorem copyRow_eq_moves (n d s : Nat) :
    copyRow n d s buffer = moves (d + ·) (s + ·) (List.range n) buffer := by
  induction n generalizing d s buffer with
  | zero => rfl
  | succ n ih =>
      rw [copyRow, ih, List.range_succ_eq_map]
      show _ = moves (d + ·) (s + ·) ((List.range n).map Nat.succ)
        (update buffer (d + 0) (buffer (s + 0)))
      rw [moves_map]
      have hnext (k : Nat) : ((k + 1) + ·) = (k + ·) ∘ Nat.succ := by
        funext j
        simp only [Function.comp_apply]
        omega
      rw [hnext, hnext]
      rfl

theorem copyRows_eq_moves (hdest : Inside v dest) (hsrc : Inside v src) (hh : dest.h = src.h)
    (left i : Nat) (hleft : i + left ≤ src.h.toNat) :
    copyRows v dest src left i buffer =
      moves (dest.pixel v) (src.pixel v) (turns left i src.w.toNat) buffer := by
  induction left generalizing i buffer with
  | zero => rfl
  | succ left ih =>
      have hturns : turns (left + 1) i src.w.toNat =
          (List.range src.w.toNat).map (Prod.mk i) ++ turns left (i + 1) src.w.toNat := by
        rw [turns, List.range'_succ, List.flatMap_cons, turns]
      rw [copyRows, ih (i + 1) (by omega), hturns, moves_append, moves_map, copyRow_eq_moves]
      congr 2
      · funext j
        exact rowIndex_add hdest (by rw [hh]; omega)
      · funext j
        exact rowIndex_add hsrc (by omega)

theorem mem_turns_iff (hw : dest.w = src.w) (hh : dest.h = src.h) :
    a ∈ turns src.h.toNat 0 src.w.toNat ↔ dest.Has a := by
  rw [mem_turns, Rect.Has, hw, hh]
  omega

/-! ## Main result -/

/-- No turn reads what an earlier one has assigned. -/
theorem vuiMoveRect_eq_copies (hw : dest.w = src.w) (hh : dest.h = src.h)
    (hdest : Inside v dest) (hsrc : Inside v src)
    (horder : dest.y < src.y ∨ dest.y = src.y ∧ dest.x ≤ src.x) :
    vuiMoveRect v dest src buffer =
      copies (dest.pixel v) (buffer ∘ src.pixel v) (turns src.h.toNat 0 src.w.toNat) buffer := by
  rw [vuiMoveRect, copyRows_eq_moves hdest hsrc hh _ _ (by omega)]
  refine moves_eq_copies (List.Pairwise.imp_of_mem (fun ha _ hab => ?_) (turns_before _ _ _))
  exact Nat.ne_of_lt (rectPixel_lt hdest ((mem_turns_iff hw hh).mp ha) hab horder)

theorem vuiMoveRect_dest (hw : dest.w = src.w) (hh : dest.h = src.h) (hdest : Inside v dest)
    (hsrc : Inside v src) (horder : dest.y < src.y ∨ dest.y = src.y ∧ dest.x ≤ src.x)
    (ha : dest.Has a) :
    vuiMoveRect v dest src buffer (dest.pixel v a) = buffer (src.pixel v a) := by
  rw [vuiMoveRect_eq_copies hw hh hdest hsrc horder]
  refine copies_agree ((mem_turns_iff hw hh).mpr ha) fun b hb heq => ?_
  rw [rectPixel_inj hdest ((mem_turns_iff hw hh).mp hb) ha heq]

/-- The rectangle at the target has the pixels that the source had before the
call, and no pixel outside of the target has changed, for rectangles that may
overlap if the target is not behind the source in the order of the rows. -/
theorem vuiMoveRect_copies (v : Mouse.Vui) (dest src : Rect) (buffer : Nat → UInt32)
    (hw : dest.w = src.w) (hh : dest.h = src.h) (hdest : Inside v dest) (hsrc : Inside v src)
    (horder : dest.y < src.y ∨ dest.y = src.y ∧ dest.x ≤ src.x) :
    (∀ a, dest.Has a → vuiMoveRect v dest src buffer (dest.pixel v a) = buffer (src.pixel v a)) ∧
      ∀ k, (∀ a, dest.Has a → k ≠ dest.pixel v a) → vuiMoveRect v dest src buffer k = buffer k := by
  refine ⟨fun a ha => vuiMoveRect_dest hw hh hdest hsrc horder ha, fun k hk => ?_⟩
  rw [vuiMoveRect_eq_copies hw hh hdest hsrc horder]
  exact copies_other fun a ha => (hk a ((mem_turns_iff hw hh).mp ha)).symm

/-- A text area of three lines of 16 pixels: its first two and its last two. -/
def upperLines : Rect := ⟨8, 24, 160, 32⟩

def lowerLines : Rect := ⟨8, 40, 160, 32⟩

def numbered : Nat → UInt32 := UInt32.ofNat

theorem lines_scroll :
    (∀ a, upperLines.Has a → vuiMoveRect vgaScreen upperLines lowerLines numbered
        (upperLines.pixel vgaScreen a) = numbered (lowerLines.pixel vgaScreen a)) ∧
      ∀ k, (∀ a, upperLines.Has a → k ≠ upperLines.pixel vgaScreen a) →
        vuiMoveRect vgaScreen upperLines lowerLines numbered k = numbered k :=
  vuiMoveRect_copies vgaScreen upperLines lowerLines numbered rfl rfl
    ⟨by decide, by decide⟩ ⟨by decide, by decide⟩ (.inl (by decide))

/-! ## Scrolling a console -/

/-- Where the text of a console is, and how high a line of it. -/
structure TextArea where
  textAreaX : UInt16
  textAreaY : UInt16
  textAreaWidth : UInt16
  textAreaHeight : UInt16
  charHeight : UInt16

namespace TextArea

/-- The lines that `vui_console_scroll_up` moves, `down` pixels below the first. -/
def scrolled (con : TextArea) (down : UInt16) : Rect where
  x := con.textAreaX.toUInt32
  y := con.textAreaY.toUInt32 + down.toUInt32
  w := con.textAreaWidth.toUInt32
  h := con.textAreaHeight.toUInt32 - con.charHeight.toUInt32

def scrollPixels (v : Mouse.Vui) (con : TextArea) (buffer : Nat → UInt32) : Nat → UInt32 :=
  vuiMoveRect v (con.scrolled 0) (con.scrolled con.charHeight) buffer

/-- The text area is inside the screen and has room for a line. -/
structure OnScreen (v : Mouse.Vui) (con : TextArea) : Prop where
  columns : con.textAreaX.toNat + con.textAreaWidth.toNat ≤ rowPixels v
  rows : con.textAreaY.toNat + con.textAreaHeight.toNat ≤ v.height
  line : con.charHeight ≤ con.textAreaHeight

variable {con : TextArea} {down : UInt16} {i j : Nat}

theorem scrolled_h (h : con.charHeight ≤ con.textAreaHeight) :
    (con.scrolled down).h.toNat = con.textAreaHeight.toNat - con.charHeight.toNat := by
  have hle : con.charHeight.toUInt32 ≤ con.textAreaHeight.toUInt32 := by
    rw [UInt32.le_iff_toNat_le, UInt16.toNat_toUInt32, UInt16.toNat_toUInt32]
    exact UInt16.le_iff_toNat_le.mp h
  rw [scrolled, UInt32.toNat_sub_of_le _ _ hle, UInt16.toNat_toUInt32, UInt16.toNat_toUInt32]

theorem scrolled_y : (con.scrolled down).y.toNat = con.textAreaY.toNat + down.toNat := by
  have hy := con.textAreaY.toNat_lt
  have hdown := down.toNat_lt
  rw [scrolled, UInt32.toNat_add, UInt16.toNat_toUInt32, UInt16.toNat_toUInt32]
  exact Nat.mod_eq_of_lt (by omega)

theorem OnScreen.inside (h : OnScreen v con) (hdown : down ≤ con.charHeight) :
    Inside v (con.scrolled down) := by
  have hrows := h.rows
  have hline := UInt16.le_iff_toNat_le.mp h.line
  have hdown' := UInt16.le_iff_toNat_le.mp hdown
  refine ⟨h.columns, ?_⟩
  rw [scrolled_y, scrolled_h h.line]
  omega

/-- Every line of the text area gets the pixels of the one below it. -/
theorem scrollPixels_line (h : OnScreen v con)
    (hi : i + con.charHeight.toNat < con.textAreaHeight.toNat)
    (hj : j < con.textAreaWidth.toNat) :
    scrollPixels v con buffer (pixel v (con.textAreaX.toNat + j) (con.textAreaY.toNat + i)) =
      buffer (pixel v (con.textAreaX.toNat + j)
        (con.textAreaY.toNat + con.charHeight.toNat + i)) := by
  have horder : (con.scrolled 0).y < (con.scrolled con.charHeight).y ∨
      (con.scrolled 0).y = (con.scrolled con.charHeight).y ∧
        (con.scrolled 0).x ≤ (con.scrolled con.charHeight).x := by
    rw [UInt32.lt_iff_toNat_lt, ← UInt32.toNat_inj, scrolled_y, scrolled_y, UInt16.toNat_zero]
    rcases Nat.eq_zero_or_pos con.charHeight.toNat with hzero | hpos
    · exact .inr ⟨by rw [hzero], UInt32.le_refl _⟩
    · exact .inl (Nat.add_lt_add_left hpos _)
  have hhas : (con.scrolled 0).Has (i, j) := by
    refine ⟨?_, hj⟩
    rw [scrolled_h h.line]
    omega
  have hdest : Inside v (con.scrolled 0) := h.inside (UInt16.le_iff_toNat_le.mpr (Nat.zero_le _))
  have hsrc : Inside v (con.scrolled con.charHeight) := h.inside (UInt16.le_refl _)
  have hmoved : scrollPixels v con buffer ((con.scrolled 0).pixel v (i, j)) =
      buffer ((con.scrolled con.charHeight).pixel v (i, j)) :=
    vuiMoveRect_dest rfl rfl hdest hsrc horder hhas
  rwa [Rect.pixel, Rect.pixel, scrolled_y, scrolled_y, UInt16.toNat_zero, Nat.add_zero] at hmoved

end TextArea

end VersionSix.Draw
