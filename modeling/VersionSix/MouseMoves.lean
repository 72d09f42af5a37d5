import VersionSix.MousePointer

/-!
# Moving the mouse pointer

`vui_handle_mouse_move` clamps the position to the screen, and the three
routines it calls add the size of the pointer to it. What they reach in
`mousebg` is always inside of it. What they reach in the framebuffer is on the
screen only while the end of the bottom row of the pointer is, at every
position the pointer comes to (`mouse_on_screen_iff`).

The positions of a run are a sum of displacements with a clamp after each, and
they always are on the screen; that is no help for a pointer that extends from
there to the right and downwards. The condition speaks of them, and of the end
of one row (`BottomFits`), in closed form: rows are a quarter of the 16-bit
pitch apart, and behind a certain row the product of 32 bits wraps around. That
the bottom row decides for all rows above it is `rowsFit_iff`.
-/

namespace VersionSix.Mouse

open CInt

/-! ## Functions -/

/-- `mouse_x` and `mouse_y`. -/
structure Position where
  x : Nat
  y : Nat
  deriving DecidableEq

/-- The new coordinate: the sum is an `int`, and clamped. -/
def clampTo (limit : Nat) (sum : Int) : Int :=
  let new := if sum > limit then (limit : Int) else sum
  if new < 0 then 0 else new

/-- `for( int j = AVSOS_MOUSE_SIZE_WIDTH; j > -1; j-- )` -/
def downColumns : List Nat := (List.range (AVSOS_MOUSE_SIZE_WIDTH + 1)).reverse

/-- `mouse_x` and `mouse_y` after a move by a displacement. -/
def newPosition (v : Vui) (p : Position) (displacement : Int × Int) : Position where
  x := uint16 (clampTo v.width (int32 (p.x + displacement.1)))
  y := uint16 (clampTo v.height (int32 (p.y + displacement.2)))

/-- What a call of `vui_handle_mouse_move` reads and writes: the old area is restored, the
new one is saved, and the pointer is drawn. -/
def moveAccesses (v : Vui) (p : Position) (displacement : Int × Int) : List Access :=
  let new := newPosition v p displacement
  accesses v p.x p.y upColumns ++ accesses v new.x new.y upColumns ++
    accesses v new.x new.y downColumns

/-- All that is accessed in the moves from a position. -/
def runAccesses (v : Vui) : Position → List (Int × Int) → List Access
  | _, [] => []
  | p, d :: ds => moveAccesses v p d ++ runAccesses v (newPosition v p d) ds

/-- The position after `vui_init`. -/
def Position.start : Position := ⟨0, 0⟩

/-! ## Statement -/

/-- `sizeof(mousebg) / sizeof(uint32_t)` -/
def mousebgSize : Nat := 10 * 20

def Access.InBounds (v : Vui) (a : Access) : Prop :=
  a.pixel < v.width * v.height ∧ a.slot < mousebgSize

def positions (v : Vui) : Position → List (Int × Int) → List Position
  | _, [] => []
  | p, d :: ds => newPosition v p d :: positions v (newPosition v p d) ds

/-- Column `last` of the bottom row of the pointer is on the screen. Rows begin a quarter of
the 16-bit pitch apart, which is the width of a screen below 2^14 columns; and the row from
which on `y * vui.pitch` is no `int` any more begins 3 * 2^30 pixels too far down. -/
def BottomFits (v : Vui) (last : Nat) (p : Position) : Prop :=
  (if p.y * v.pitch < 2 ^ 31 then 0 else 3 * 2 ^ 30)
    + (p.y + 6) * (v.width % 2 ^ 14) + p.x + last < v.width * v.height

/-- All that is accessed in the moves is in its buffer. -/
def OnScreen (v : Vui) (moves : List (Int × Int)) : Prop :=
  ∀ a ∈ runAccesses v Position.start moves, a.InBounds v

/-! ## Positions -/

variable {v : Vui} {p : Position} {displacement : Int × Int} {ds : List (Int × Int)}

theorem clampTo_bounds (limit : Nat) (sum : Int) :
    0 ≤ clampTo limit sum ∧ clampTo limit sum ≤ limit := by
  unfold clampTo
  dsimp only
  split <;> split <;> omega

theorem uint16_clampTo {limit : Nat} (h : limit < 2 ^ 16) (sum : Int) :
    (uint16 (clampTo limit sum) : Int) = clampTo limit sum := by
  obtain ⟨hnonneg, hle⟩ := clampTo_bounds limit sum
  rw [uint16]
  omega

theorem newPosition_le (v : Vui) (p : Position) (displacement : Int × Int) :
    (newPosition v p displacement).x ≤ v.width ∧ (newPosition v p displacement).y ≤ v.height := by
  have hx := uint16_clampTo v.width_lt (int32 (p.x + displacement.1))
  have hy := uint16_clampTo v.height_lt (int32 (p.y + displacement.2))
  have hx' := (clampTo_bounds v.width (int32 (p.x + displacement.1))).2
  have hy' := (clampTo_bounds v.height (int32 (p.y + displacement.2))).2
  simp only [newPosition]
  omega

theorem newPosition_lt (v : Vui) (p : Position) (displacement : Int × Int) :
    (newPosition v p displacement).y < 2 ^ 16 :=
  Nat.lt_of_le_of_lt (newPosition_le v p displacement).2 v.height_lt

/-! ## Rows -/

/-- Every row of the pointer, up to column `last`, is on the screen. -/
def RowsFit (v : Vui) (last : Nat) (p : Position) : Prop :=
  ∀ i, i < AVSOS_MOUSE_SIZE_HEIGHT → rowStart v p.y i + p.x + last < v.width * v.height

/-- The bottom row decides: where the product wraps around, no row is left on the screen
when the bottom one begins behind 2^32. -/
theorem rowsFit_iff {last : Nat} (hy : p.y < 2 ^ 16) : RowsFit v last p ↔ BottomFits v last p := by
  have hrow : ∀ {i}, i < 7 → (p.y + i) * (v.width % 2 ^ 14) ≤ (p.y + 6) * (v.width % 2 ^ 14) :=
    fun hi => Nat.mul_le_mul_right _ (by omega)
  unfold BottomFits
  rcases Nat.lt_or_ge (p.y * v.pitch) (2 ^ 31) with hlt | hge
  · rw [if_pos hlt, Nat.zero_add]
    constructor
    · intro hfit
      have hlast := hfit 6 (by decide)
      rwa [rowStart_of_lt hlt (by decide)] at hlast
    · intro hlast i hi
      rw [rowStart_of_lt hlt hi]
      have hi := hrow hi
      omega
  · have hlt := mul_pitch_lt v hy
    have hsize : v.width * v.height ≤ (2 ^ 16 - 1) * (2 ^ 16 - 1) :=
      Nat.mul_le_mul (Nat.le_of_lt_succ v.width_lt) (Nat.le_of_lt_succ v.height_lt)
    have hstart : ∀ i, rowStart v p.y i = (3 * 2 ^ 30 + (p.y + i) * (v.width % 2 ^ 14)) % 2 ^ 32 :=
      fun i => rowStart_of_ge hge hlt
    have hsix : (p.y + 6) * (v.width % 2 ^ 14) =
        p.y * (v.width % 2 ^ 14) + 6 * (v.width % 2 ^ 14) := Nat.add_mul ..
    rw [mul_pitch] at hlt
    rw [if_neg (Nat.not_lt.mpr hge)]
    constructor
    · intro hfit
      have hfirst := hfit 0 (by decide)
      have hlast := hfit 6 (by decide)
      rw [hstart, Nat.add_zero] at hfirst
      rw [hstart] at hlast
      omega
    · intro hlast i hi
      rw [hstart]
      have hi := hrow hi
      omega

/-- Where the pitch is exact, that row begins where the screen has it. -/
theorem bottomFits_iff {last : Nat} (h : PitchExact v p.y) :
    BottomFits v last p ↔ (p.y + 6) * v.width + p.x + last < v.width * v.height := by
  have hwidth : v.width % 2 ^ 14 = v.width := Nat.mod_eq_of_lt h.1
  have hproduct : p.y * v.pitch < 2 ^ 31 := by
    rw [mul_pitch, hwidth, Nat.mul_comm p.y, ← Nat.mul_assoc]
    exact h.2
  rw [BottomFits, if_pos hproduct, hwidth, Nat.zero_add]

/-! ## One move -/

theorem accesses_inBounds_iff {columns : List Nat} {last : Nat} (hlast : last ∈ columns)
    (hle : ∀ j ∈ columns, j ≤ last) (h14 : last ≤ 14) :
    (∀ a ∈ accesses v p.x p.y columns, a.InBounds v) ↔ RowsFit v last p := by
  constructor
  · intro h i hi
    exact (h _ (mem_accesses.mpr ⟨i, last, hi, hlast, rfl⟩)).1
  · intro h a ha
    obtain ⟨i, j, hi, hj, rfl⟩ := mem_accesses.mp ha
    have hrow := h i hi
    have hj := hle j hj
    refine ⟨?_, ?_⟩
    · simp only [access]
      omega
    · simp only [access, mousebgSize]
      omega

theorem upColumns_inBounds_iff :
    (∀ a ∈ accesses v p.x p.y upColumns, a.InBounds v) ↔ RowsFit v 13 p :=
  accesses_inBounds_iff (by decide) (by decide) (by decide)

theorem downColumns_inBounds_iff :
    (∀ a ∈ accesses v p.x p.y downColumns, a.InBounds v) ↔ RowsFit v 14 p :=
  accesses_inBounds_iff (by decide) (by decide) (by decide)

theorem RowsFit.save (h : RowsFit v 14 p) : RowsFit v 13 p := fun i hi =>
  Nat.lt_of_succ_lt (h i hi)

theorem move_inBounds_iff :
    (∀ a ∈ moveAccesses v p displacement, a.InBounds v) ↔
      RowsFit v 13 p ∧ RowsFit v 14 (newPosition v p displacement) := by
  simp only [moveAccesses, List.forall_mem_append, upColumns_inBounds_iff,
    downColumns_inBounds_iff]
  constructor
  · rintro ⟨⟨hold, -⟩, hnew⟩
    exact ⟨hold, hnew⟩
  · rintro ⟨hold, hnew⟩
    exact ⟨⟨hold, hnew.save⟩, hnew⟩

/-! ## Runs -/

theorem run_inBounds_iff :
    (∀ a ∈ runAccesses v p ds, a.InBounds v) ↔
      (ds ≠ [] → RowsFit v 13 p) ∧ ∀ q ∈ positions v p ds, RowsFit v 14 q := by
  induction ds generalizing p with
  | nil => simp [runAccesses, positions]
  | cons d ds ih =>
      rw [runAccesses, positions, List.forall_mem_append, List.forall_mem_cons,
        move_inBounds_iff, ih]
      constructor
      · rintro ⟨⟨hold, hnew⟩, -, hrest⟩
        exact ⟨fun _ => hold, hnew, hrest⟩
      · rintro ⟨hold, hnew, hrest⟩
        exact ⟨⟨hold (List.cons_ne_nil d ds), hnew⟩, fun _ => hnew.save, hrest⟩

theorem positions_lt {q : Position} (hq : q ∈ positions v p ds) : q.y < 2 ^ 16 := by
  induction ds generalizing p with
  | nil => cases hq
  | cons d ds ih =>
      rcases List.mem_cons.mp hq with rfl | hq
      · exact newPosition_lt v p d
      · exact ih hq

/-- **The mouse pointer on the screen.** All is accessed inside of its buffer
exactly if the bottom row fits, up to column 13 at the start and up to column
14 at every position that a move leads to. Without a move nothing is accessed.
The position itself is on the screen always. -/
theorem mouse_on_screen_iff (v : Vui) (moves : List (Int × Int)) :
    OnScreen v moves ↔
      (moves ≠ [] → BottomFits v 13 Position.start) ∧
        ∀ q ∈ positions v Position.start moves, BottomFits v 14 q := by
  rw [OnScreen, run_inBounds_iff, rowsFit_iff (by decide)]
  refine and_congr_right fun _ => forall₂_congr fun q hq => ?_
  rw [rowsFit_iff (positions_lt hq)]

/-- To the lower edge of the screen: the pointer is drawn behind the framebuffer. -/
theorem lower_edge_off_screen : ¬ OnScreen vgaScreen [(0, 480)] := by
  intro h
  have hedge : newPosition vgaScreen Position.start (0, 480) = ⟨0, 480⟩ := by
    decide +kernel
  have hrows := (run_inBounds_iff.mp h).2 _ (List.mem_singleton_self _)
  rw [hedge] at hrows
  exact absurd (hrows 0 (by decide)) (by decide)

end VersionSix.Mouse
