import VersionSix.Console
import VersionSix.TextLayout

/-!
# The text on a console

What the rows hold after characters and new lines from a cleared console. While
no piece between two new lines is longer than a row, they hold the last lines
of the text. The character behind a full row takes the new line it needs first
and then goes to the cell of the call, which is behind the row
(`console_text_iff`).

How a text is laid out in rows is in `TextLayout`, for any text and any width:
lines of a limited length, of which the last ones are shown. `Holds` connects
the two while the text comes in, with the complete lines, the line that has the
cursor, and a scroll by one row whenever the last line is closed.

A text with a line that is too long has a first character for which there is no
cell. Up to it everything is in place, and from then on it cannot be laid out
any more: what has been written behind the row is not in it.
-/

namespace VersionSix.Console

open Function (update)
open PathText TextLayout

def newline : UInt8 := 10

/-! ## Statement -/

/-- A stream of printable characters and new lines. -/
structure Text where
  chars : List UInt8
  plain : ∀ c ∈ chars, c = newline ∨ 32 ≤ c ∧ c ≤ 126

/-- Nothing is in the rows, and the cursor is in the first cell. -/
structure Cleared (g : Geometry) (s : State) : Prop where
  row : s.currentRow = 1
  col : s.currentCol = 1
  capture : s.capturingEscapeCode = false
  cells : ∀ i j, i < g.numRows → j < g.numCols → (s.rows i j).buff = 0

/-- The rows hold the last lines of the text. -/
def TextLaid (g : Geometry) (behind : List UInt8) (s : State) (text : Text) : Prop :=
  ∃ s', Run.exec (vuiConsolePutChar g behind) s text.chars = some s' ∧
    ∀ i j, i < g.numRows → j < g.numCols →
      (s'.rows i j).buff =
        (shownLine g.numRows (layout newline g.numCols [] text.chars) i).getD j 0

/-! ## Cells -/

variable {g : Geometry} {behind : List UInt8} {s s' : State} {c : UInt8}

def State.cell (s : State) (c : UInt8) : Cell :=
  let fg := if s.useColorOverrideFg then s.overrideFg else s.fgColor
  let bg := if s.useColorOverrideBg then s.overrideBg else s.bgColor
  ⟨c, fg, bg, s.useColorOverrideFg, s.useColorOverrideBg⟩

theorem putDefault_eq (behind : List UInt8) (c : UInt8) (hcapture : s.capturingEscapeCode = false)
    (hrow : 1 ≤ s.currentRow ∧ s.currentRow ≤ g.numRows)
    (hcol : 1 ≤ s.currentCol ∧ s.currentCol ≤ g.numCols) :
    putDefault g behind s c s.currentRow s.currentCol = some { s with
      rows := update s.rows (s.currentRow - 1)
        (update (s.rows (s.currentRow - 1)) (s.currentCol - 1) (s.cell c))
      currentCol := u16 (s.currentCol + 1)
      currentPixelX := u16 (s.currentPixelX + g.charWidth) } := by
  have hwrap : ¬ s.currentCol = g.numCols + 1 := by omega
  unfold putDefault
  rw [if_neg (by rw [hcapture]; decide)]
  simp only [if_neg hwrap, Option.bind_eq_bind, Option.bind_some, setCell,
    if_pos (And.intro hrow hcol)]
  rfl

theorem setCell_none {row col : Nat} {cell : Cell} (h : ¬ (1 ≤ col ∧ col ≤ g.numCols)) :
    setCell g s row col cell = none :=
  if_neg fun hin => h hin.2

/-- One without: its cell is behind the row, or before it where the column was counted
past its 16 bits. -/
theorem putDefault_full (hcapture : s.capturingEscapeCode = false)
    (hcol : s.currentCol = u16 (g.numCols + 1)) :
    putDefault g behind s c s.currentRow s.currentCol = none := by
  have hcols := g.numCols_lt
  have houtside : ¬ (1 ≤ s.currentCol ∧ s.currentCol ≤ g.numCols) := by
    rw [hcol]
    unfold u16
    omega
  unfold putDefault
  rw [if_neg (by rw [hcapture]; decide)]
  simp only [Option.bind_eq_bind]
  by_cases hwrap : s.currentCol = g.numCols + 1
  · rw [if_pos hwrap]
    cases vuiConsoleDoNewLine g s with
    | none => rfl
    | some s₁ =>
        simp only [Option.bind_some]
        rw [setCell_none houtside]
        rfl
  · rw [if_neg hwrap]
    simp only [Option.bind_some]
    rw [setCell_none houtside]
    rfl

/-! ## The text so far -/

/-- What the console has when the lines `closed` are complete and `cur` is the one with the
cursor. -/
structure Holds (g : Geometry) (closed : List (List UInt8)) (cur : List UInt8) (s : State) :
    Prop where
  row : s.currentRow = min (closed.length + 1) g.numRows
  col : s.currentCol = u16 (cur.length + 1)
  capture : s.capturingEscapeCode = false
  cells : ∀ i j, i < g.numRows → j < g.numCols →
    (s.rows i j).buff = (shownLine g.numRows (closed ++ [cur]) i).getD j 0

variable {closed : List (List UInt8)} {cur : List UInt8}

theorem Cleared.holds (h : Cleared g s) : Holds g [] [] s where
  row := by
    have hpos := g.numRows_pos
    rw [h.row]
    simp only [List.length_nil]
    omega
  col := h.col
  capture := h.capture
  cells i j hi hj := by
    rw [h.cells i j hi hj, shownLine_concat]
    split <;> simp

theorem newLine_holds (h : Holds g closed cur s) :
    ∃ s', vuiConsoleDoNewLine g s = some s' ∧ Holds g (closed ++ [cur]) [] s' := by
  have hpos := g.numRows_pos
  have hlt := g.numRows_lt
  have hrow := h.row
  unfold vuiConsoleDoNewLine
  by_cases hlast : s.currentRow = g.numRows
  · obtain ⟨rows, hscroll, hup, hblank⟩ := scrollUp_spec (g := g) { s with currentCol := 1 }
    simp only [Option.bind_eq_bind, if_pos hlast, hscroll, Option.bind_some]
    refine ⟨_, rfl, ?_, rfl, h.capture, fun i j hi hj => ?_⟩
    · rw [List.length_append, List.length_singleton]
      dsimp only
      omega
    · dsimp only
      by_cases hi' : i + 1 < g.numRows
      · rw [hup i j hi' hj, shownLine_scroll (by omega) hi']
        exact h.cells (i + 1) j hi' hj
      · obtain rfl : i = g.numRows - 1 := by omega
        rw [hblank j hj, shownLine_last _ hpos]
        · simp [blank]
        · rw [List.length_append, List.length_singleton]
          omega
  · have hnext : u16 (s.currentRow + 1) = s.currentRow + 1 := u16_eq (by omega)
    simp only [Option.bind_eq_bind, if_neg hlast, Option.bind_some, hnext]
    refine ⟨_, rfl, ?_, rfl, h.capture, fun i j hi hj => ?_⟩
    · rw [List.length_append, List.length_singleton]
      dsimp only
      omega
    · rw [shownLine_next (by omega)]
      exact h.cells i j hi hj

theorem putDefault_holds (behind : List UInt8) (c : UInt8) (h : Holds g closed cur s)
    (hroom : cur.length < g.numCols) :
    ∃ s', putDefault g behind s c s.currentRow s.currentCol = some s' ∧
      Holds g closed (cur ++ [c]) s' := by
  have hpos := g.numRows_pos
  have hcols := g.numCols_lt
  have hrow := h.row
  have hcol : s.currentCol = cur.length + 1 := by
    rw [h.col]
    exact u16_eq (by omega)
  rw [putDefault_eq behind c h.capture (by omega) (by omega)]
  refine ⟨_, rfl, hrow, ?_, h.capture, fun i j hi hj => ?_⟩
  · rw [List.length_append, List.length_singleton, hcol]
  · have hcell := h.cells i j hi hj
    rw [shownLine_concat] at hcell ⊢
    dsimp only
    by_cases hline : i = s.currentRow - 1
    · have hindex : closed.length + 1 - g.numRows + i = closed.length := by omega
      rw [if_pos hindex] at hcell ⊢
      subst hline
      rw [Function.update_self]
      by_cases hj' : j = s.currentCol - 1
      · rw [hj', Function.update_self, hcol, Nat.add_sub_cancel, getD_concat, if_pos rfl]
        rfl
      · rw [Function.update_of_ne hj', hcell, getD_concat, if_neg (by omega)]
    · have hindex : ¬ closed.length + 1 - g.numRows + i = closed.length := by omega
      rw [if_neg hindex] at hcell ⊢
      rw [Function.update_of_ne hline]
      exact hcell

/-! ## The run -/

theorem putChar_printable (behind : List UInt8) (s : State) (h : 32 ≤ c ∧ c ≤ 126) :
    vuiConsolePutChar g behind s c = putDefault g behind s c s.currentRow s.currentCol := by
  have hne : ∀ d : UInt8, d < 32 → c ≠ d := by
    rintro d hd rfl
    exact absurd (UInt8.lt_of_lt_of_le hd h.1) (UInt8.lt_irrefl _)
  unfold vuiConsolePutChar vuiConsolePutCharAt
  rw [if_neg (hne 27 (by decide)), if_neg (hne 9 (by decide)), if_neg (hne 10 (by decide)),
    if_neg (hne 8 (by decide))]

theorem printable_ne_newline (h : 32 ≤ c) : c ≠ newline := by
  rintro rfl
  exact absurd h (by decide)

/-- The induction is over the text; `cur` is the line with the cursor. -/
theorem exec_holds (behind : List UInt8) {chars : List UInt8}
    (hplain : ∀ c ∈ chars, c = newline ∨ 32 ≤ c ∧ c ≤ 126)
    (hs : Holds g closed cur s) (hfit : ∀ f ∈ fields newline cur chars, f.length ≤ g.numCols) :
    ∃ s' closed' cur', Run.exec (vuiConsolePutChar g behind) s chars = some s' ∧
      Holds g closed' cur' s' ∧ closed' ++ [cur'] = closed ++ fields newline cur chars := by
  induction chars generalizing closed cur s with
  | nil => exact ⟨s, closed, cur, rfl, hs, rfl⟩
  | cons c chars ih =>
      obtain ⟨hc, hplain'⟩ := List.forall_mem_cons.mp hplain
      rw [Run.exec]
      rcases hc with rfl | hc
      · rw [fields_sep] at hfit ⊢
        obtain ⟨s₁, h₁, hs₁⟩ := newLine_holds hs
        obtain ⟨s', closed', cur', h', hs', hlines⟩ :=
          ih hplain' hs₁ fun f hf => hfit f (List.mem_cons_of_mem _ hf)
        refine ⟨s', closed', cur', ?_, hs', ?_⟩
        · rw [newline, putChar_newLine, h₁, Option.bind_some, h']
        · rw [hlines, List.append_assoc, List.singleton_append]
      · rw [fields_of_ne (printable_ne_newline hc.1)] at hfit ⊢
        have hroom := cur_length_le _ _ hfit
        rw [List.length_append, List.length_singleton] at hroom
        obtain ⟨s₁, h₁, hs₁⟩ := putDefault_holds behind c hs hroom
        rw [putChar_printable behind s hc, h₁, Option.bind_some]
        exact ih hplain' hs₁ hfit

theorem exec_long {chars : List UInt8} (hplain : ∀ c ∈ chars, c = newline ∨ 32 ≤ c ∧ c ≤ 126)
    (hs : Holds g closed cur s) (hcur : cur.length ≤ g.numCols)
    (hlong : ¬ ∀ f ∈ fields newline cur chars, f.length ≤ g.numCols) :
    Run.exec (vuiConsolePutChar g behind) s chars = none := by
  induction chars generalizing closed cur s with
  | nil =>
      refine absurd (fun f hf => ?_) hlong
      rw [List.mem_singleton.mp hf]
      exact hcur
  | cons c chars ih =>
      obtain ⟨hc, hplain'⟩ := List.forall_mem_cons.mp hplain
      rw [Run.exec]
      rcases hc with rfl | hc
      · rw [fields_sep, List.forall_mem_cons] at hlong
        obtain ⟨s₁, h₁, hs₁⟩ := newLine_holds hs
        rw [newline, putChar_newLine, h₁, Option.bind_some]
        exact ih hplain' hs₁ (Nat.zero_le _) fun hrest => hlong ⟨hcur, hrest⟩
      · rw [fields_of_ne (printable_ne_newline hc.1)] at hlong
        rw [putChar_printable behind s hc]
        by_cases hroom : cur.length < g.numCols
        · obtain ⟨s₁, h₁, hs₁⟩ := putDefault_holds behind c hs hroom
          rw [h₁, Option.bind_some]
          refine ih hplain' hs₁ ?_ hlong
          rw [List.length_append, List.length_singleton]
          exact hroom
        · have hfull : cur.length = g.numCols := by omega
          rw [putDefault_full hs.capture (by rw [hs.col, hfull])]
          rfl

/-- **The text on a console.** From a cleared console, the rows hold the last
lines of the text exactly if no piece between two new lines is longer than a
row. A piece that fills its row may be followed by a new line, since the cursor
waits behind the last column; only a character there is misplaced. -/
theorem console_text_iff (g : Geometry) (behind : List UInt8) (s : State) (hs : Cleared g s)
    (text : Text) :
    TextLaid g behind s text ↔ ∀ f ∈ fields newline [] text.chars, f.length ≤ g.numCols := by
  constructor
  · rintro ⟨s', hrun, -⟩
    by_contra hlong
    rw [exec_long text.plain hs.holds (Nat.zero_le _) hlong] at hrun
    cases hrun
  · intro hfit
    obtain ⟨s', closed, cur, hrun, hs', hlines⟩ :=
      exec_holds behind text.plain hs.holds hfit
    refine ⟨s', hrun, fun i j hi hj => ?_⟩
    rw [layout_eq_fields hfit, hs'.cells i j hi hj, hlines, List.nil_append]

theorem created_cleared (g : Geometry) (overrideFg overrideBg : Nat) :
    Cleared g (vuiConsoleCreate g overrideFg overrideBg) where
  row := rfl
  col := rfl
  capture := rfl
  cells _ _ _ _ := rfl

/-- `ab`, a new line and `c`. -/
def fullRow : Text := ⟨[97, 98, 10, 99], by simp [newline]⟩

def longRow : Text := ⟨[97, 98, 99], by simp⟩

theorem fullRow_laid :
    TextLaid smallGeometry [] (vuiConsoleCreate smallGeometry 0 0) fullRow :=
  (console_text_iff smallGeometry [] _ (created_cleared _ 0 0) fullRow).mpr (by decide)

/-- The third character of a row of two is not put in the next row. -/
theorem longRow_not_laid :
    ¬ TextLaid smallGeometry [] (vuiConsoleCreate smallGeometry 0 0) longRow := by
  rintro ⟨s', hrun, -⟩
  rw [exec_long longRow.plain (created_cleared smallGeometry 0 0).holds (Nat.zero_le _)
    (by decide)] at hrun
  cases hrun

end VersionSix.Console
