import VersionSix.ConsoleText

/-!
# Tabs

A tab puts blanks through the general path for characters. Their number is the
remainder of the column, not what is missing to the next stop: the two are the
same at a stop and half way between two stops only (`tab_stop_iff`). Where the
remainder is 0 a full tab is put.

`TabStop` says what a tab is for: the cursor is at the next stop, there are
blanks in between, and nothing else has changed. The blanks are characters as
all others, so a tab near the end of a row wraps in the middle of them; the
statement is for the columns from which the next stop is in the same row.
-/

namespace VersionSix.Console

open Function (update)

variable {g : Geometry} {behind : List UInt8} {s s' : State}

/-! ## Statement -/

/-- The cursor moves to the next stop, with blanks in between and nothing else changed. -/
def TabStop (g : Geometry) (behind : List UInt8) (s : State) : Prop :=
  ∃ s', vuiConsolePutChar g behind s 9 = some s' ∧
    s.currentCol < s'.currentCol ∧ s'.currentCol ≤ s.currentCol + g.tabSize ∧
    g.tabSize ∣ s'.currentCol - 1 ∧ s'.currentRow = s.currentRow ∧
    ∀ i j, if i = s.currentRow - 1 ∧ s.currentCol - 1 ≤ j ∧ j < s'.currentCol - 1
      then (s'.rows i j).buff = 32 else s'.rows i j = s.rows i j

/-! ## Blanks -/

theorem putSpaces_spec (behind : List UInt8) {n : Nat} (hcapture : s.capturingEscapeCode = false)
    (hrow : 1 ≤ s.currentRow ∧ s.currentRow ≤ g.numRows) (hcol : 1 ≤ s.currentCol)
    (hroom : s.currentCol + n ≤ g.numCols) :
    ∃ s', putSpaces g behind n s = some s' ∧ s'.currentCol = s.currentCol + n ∧
      s'.currentRow = s.currentRow ∧
      ∀ i j, s'.rows i j =
        if i = s.currentRow - 1 ∧ s.currentCol - 1 ≤ j ∧ j < s.currentCol + n - 1
        then s.cell 32 else s.rows i j := by
  induction n generalizing s with
  | zero =>
      refine ⟨s, rfl, rfl, rfl, fun i j => ?_⟩
      rw [if_neg (by omega)]
  | succ n ih =>
      have hcols := g.numCols_lt
      have hnext : u16 (s.currentCol + 1) = s.currentCol + 1 := u16_eq (by omega)
      have hput := putDefault_eq behind 32 hcapture hrow ⟨hcol, by omega⟩
      rw [hnext] at hput
      obtain ⟨s', hs', hcol', hrow', hcells⟩ := ih (s := { s with
        rows := update s.rows (s.currentRow - 1)
          (update (s.rows (s.currentRow - 1)) (s.currentCol - 1) (s.cell 32))
        currentCol := s.currentCol + 1
        currentPixelX := u16 (s.currentPixelX + g.charWidth) }) hcapture hrow (by simp)
        (by dsimp only; omega)
      dsimp only at hcol' hrow' hcells
      refine ⟨s', ?_, by omega, hrow', fun i j => ?_⟩
      · rw [putSpaces, hput, Option.bind_some, hs']
      · rw [hcells i j]
        by_cases hi : i = s.currentRow - 1
        · subst hi
          rw [Function.update_self]
          by_cases hj : j = s.currentCol - 1
          · subst hj
            rw [Function.update_self, if_neg (by omega), if_pos (by omega)]
          · rw [Function.update_of_ne hj]
            by_cases hin : s.currentCol + 1 - 1 ≤ j ∧ j < s.currentCol + 1 + n - 1
            · rw [if_pos ⟨rfl, hin⟩, if_pos (by omega)]
              rfl
            · rw [if_neg (fun h => hin h.2), if_neg (by omega)]
        · rw [if_neg (fun h => hi h.1), if_neg (fun h => hi h.1), Function.update_of_ne hi]

theorem putSpaces_capturing {n : Nat} (hcapture : s.capturingEscapeCode = true)
    (h : putSpaces g behind n s = some s') : s'.currentCol = s.currentCol := by
  induction n generalizing s with
  | zero =>
      obtain rfl := Option.some.inj h
      rfl
  | succ n ih =>
      rw [putSpaces] at h
      obtain ⟨s₁, h₁, h⟩ := Option.bind_eq_some_iff.mp h
      rw [putDefault, if_pos hcapture, vuiConsoleProcessEscape] at h₁
      obtain ⟨-, h₁⟩ := Option.ite_none_right_eq_some.mp h₁
      rw [if_neg (by decide)] at h₁
      have hs₁ := Option.some.inj h₁
      have hcapture₁ : s₁.capturingEscapeCode = true := by rw [← hs₁, ← hcapture]
      have hcol₁ : s₁.currentCol = s.currentCol := by rw [← hs₁]
      exact (ih hcapture₁ h).trans hcol₁

theorem numSpaces_eq (hcol : 1 ≤ s.currentCol) (htab : 1 ≤ g.tabSize)
    (hroom : s.currentCol + g.tabSize < g.numCols) :
    numSpaces g s.currentCol =
      if (s.currentCol - 1) % g.tabSize = 0 then g.tabSize else (s.currentCol - 1) % g.tabSize := by
  have hcols := g.numCols_lt
  have hmod : (s.currentCol - 1) % g.tabSize < g.tabSize := Nat.mod_lt _ htab
  have hback : u32 (s.currentCol + (2 ^ 32 - 1)) = s.currentCol - 1 := by
    unfold u32
    omega
  unfold numSpaces
  by_cases hfirst : s.currentCol = 1
  · rw [if_pos hfirst, hfirst, Nat.sub_self, Nat.zero_mod, if_pos rfl]
  · rw [if_neg hfirst, hback]
    dsimp only
    split <;> rw [Int.bmod_def] <;> split <;> omega

/-! ## Main result -/

theorem dvd_two_mul_iff {t r : Nat} (hr : 0 < r) (hlt : r < t) : t ∣ 2 * r ↔ 2 * r = t := by
  constructor
  · rintro ⟨m, hm⟩
    rcases Nat.lt_trichotomy m 1 with h0 | rfl | h2
    · rw [Nat.lt_one_iff.mp h0, Nat.mul_zero] at hm
      omega
    · rw [hm, Nat.mul_one]
    · have hle : t * 2 ≤ t * m := Nat.mul_le_mul_left t h2
      omega
  · intro h
    exact ⟨1, h.trans (Nat.mul_one t).symm⟩

/-- Where the code goes there is a stop only from a stop and from half way. -/
theorem stop_iff (k t : Nat) (ht : 1 ≤ t) :
    t ∣ k + (if k % t = 0 then t else k % t) ↔ k % t = 0 ∨ 2 * (k % t) = t := by
  have hsplit : k + k % t = t * (k / t) + 2 * (k % t) := by
    have hk := Nat.div_add_mod k t
    omega
  have hlt : k % t < t := Nat.mod_lt k ht
  by_cases h0 : k % t = 0
  · rw [if_pos h0]
    exact iff_of_true (Nat.dvd_add (Nat.dvd_of_mod_eq_zero h0) (Nat.dvd_refl t)) (Or.inl h0)
  · rw [if_neg h0, hsplit, Nat.dvd_add_right (Nat.dvd_mul_right t _),
      dvd_two_mul_iff (Nat.pos_of_ne_zero h0) hlt]
    exact (or_iff_right h0).symm

/-- **Tabs.** The cursor moves to the next stop, with blanks up to it and
nothing else changed, exactly if it is at a stop or half way between two stops,
and no escape sequence is being captured. The number of blanks is the remainder
of the column, or a full tab where that is 0. -/
theorem tab_stop_iff (g : Geometry) (behind : List UInt8) (s : State) (hs : InGrid g s)
    (htab : 1 ≤ g.tabSize) (hroom : s.currentCol + g.tabSize < g.numCols) :
    TabStop g behind s ↔
      s.capturingEscapeCode = false ∧
        ((s.currentCol - 1) % g.tabSize = 0 ∨
          2 * ((s.currentCol - 1) % g.tabSize) = g.tabSize) := by
  have hcols := g.numCols_lt
  have hcol := hs.col.1
  have hnum := numSpaces_eq hcol htab hroom
  have hstop := stop_iff (s.currentCol - 1) g.tabSize htab
  rw [← hnum] at hstop
  have hmod : (s.currentCol - 1) % g.tabSize < g.tabSize := Nat.mod_lt _ htab
  have hbounds : 1 ≤ numSpaces g s.currentCol ∧ numSpaces g s.currentCol ≤ g.tabSize := by
    rw [hnum]
    split <;> omega
  have htabbed : vuiConsolePutChar g behind s 9 =
      putSpaces g behind (numSpaces g s.currentCol) s := by
    have hspace : u32 (s.currentCol + g.tabSize) < g.numCols := by
      unfold u32
      omega
    have hzero : ¬ (s.currentCol ≠ 1 ∧ g.tabSize = 0) := by omega
    show vuiConsoleDoTab g behind s = _
    rw [vuiConsoleDoTab, if_pos hspace, if_neg hzero]
  cases hcapture : s.capturingEscapeCode with
  | true =>
      refine iff_of_false ?_ (by simp)
      rintro ⟨s', hput, hmoved, -⟩
      rw [htabbed] at hput
      rw [putSpaces_capturing hcapture hput] at hmoved
      exact absurd hmoved (Nat.lt_irrefl _)
  | false =>
      obtain ⟨s₁, h₁, hcol₁, hrow₁, hcells⟩ := putSpaces_spec behind
        (n := numSpaces g s.currentCol) hcapture hs.row hcol (by omega)
      have hback : s₁.currentCol - 1 = s.currentCol - 1 + numSpaces g s.currentCol := by omega
      rw [← hstop, ← hback]
      constructor
      · rintro ⟨s', hput, -, -, hdvd, -⟩
        rw [htabbed, h₁] at hput
        obtain rfl := Option.some.inj hput
        exact ⟨rfl, hdvd⟩
      · rintro ⟨-, hdvd⟩
        refine ⟨s₁, htabbed.trans h₁, by omega, by omega, hdvd, hrow₁, fun i j => ?_⟩
        rw [hcells i j, hcol₁]
        split
        · rfl
        · rfl

def wideGeometry : Geometry :=
  { smallGeometry with
    numCols := 10
    numCols_pos := by decide
    numCols_lt := by decide }

def atColumn (col : Nat) : State :=
  { vuiConsoleCreate wideGeometry 0 0 with
    currentCol := col
    currentPixelX := u16 (5 + (col - 1) * 8) }

theorem atColumn_inGrid {col : Nat} (h : 1 ≤ col ∧ col ≤ 11) :
    InGrid wideGeometry (atColumn col) where
  row := ⟨Nat.le_refl 1, Nat.le_succ 1⟩
  col := h
  pixelX := rfl
  pixelY := rfl

/-- From the third column a tab reaches the fifth. -/
theorem tab_half_way : TabStop wideGeometry [] (atColumn 3) :=
  (tab_stop_iff wideGeometry [] (atColumn 3) (atColumn_inGrid (by decide)) (by decide)
    (by decide)).mpr (by decide)

/-- From the second column it reaches the third only. -/
theorem tab_second_column : ¬ TabStop wideGeometry [] (atColumn 2) := by
  rintro ⟨s', hput, -, -, hdvd, -⟩
  have hmoved : (vuiConsolePutChar wideGeometry [] (atColumn 2) 9).map State.currentCol = some 3 :=
    rfl
  rw [hput] at hmoved
  rw [Option.some.inj hmoved] at hdvd
  exact absurd hdvd (by decide)

end VersionSix.Console
