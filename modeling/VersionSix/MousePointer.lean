import VersionSix.CInt
import VersionSix.CopyLoop

/-!
# The area under the mouse pointer

`vui_mouse_save_area` keeps the pixels under the pointer in `mousebg` and
`vui_draw_mouse_save_buffer` puts them back. A row has 14 pixels there and the
next one starts 10 further, so rows share slots; and `vui.pitch` is four times
the width in 16 bits. The pointer can be taken away without a trace only where
neither matters (`mouse_restore_iff`).

All three routines are loops over turns, each with an index of `mousebg` and
one of the framebuffer (`Access`). What a slot has in the end is what the last
of its turns left there; of the pixels that share one, only those that look
alike come back (`RowsRepeat`).

The other half is about where the turns go. Where a product or the pitch leaves
its type, there is a pixel of the pointer that no turn reaches
(`exists_unreached`), and whatever is drawn there stays.
-/

namespace VersionSix.Mouse

open CInt CopyLoop

def AVSOS_MOUSE_SIZE_HEIGHT : Nat := 7

def AVSOS_MOUSE_SIZE_WIDTH : Nat := 14

/-! ## Functions -/

/-- The screen, as `vui_init` gets it. -/
structure Vui where
  width : Nat
  height : Nat
  width_lt : width < 2 ^ 16
  height_lt : height < 2 ^ 16

namespace Vui

/-- `vui.pitch`, which is `uint16_t`. -/
def pitch (v : Vui) : Nat := 4 * v.width % 2 ^ 16

/-- `y * vui.pitch/4`: the product is an `int`. -/
def offsetY (v : Vui) (y : Nat) : Nat := uint32 ((int32 (y * v.pitch)).tdiv 4)

end Vui

/-- One turn of an inner loop: the index in `mousebg` and the one in `vui.fb`. -/
structure Access where
  slot : Nat
  pixel : Nat

/-- The turns of the rows from `i` on, with the columns in the order of `columns`. -/
def rowsFrom (v : Vui) (offsetX : Nat) (columns : List Nat) : Nat → Nat → Nat → List Access
  | 0, _, _ => []
  | left + 1, i, offsetY =>
      (columns.map fun j => ⟨i * 10 + j, offsetY + offsetX + j⟩) ++
        rowsFrom v offsetX columns left (i + 1) (uint32 (offsetY + v.pitch / 4 : Nat))

/-- The turns of the loops that save, restore and draw. -/
def accesses (v : Vui) (x y : Nat) (columns : List Nat) : List Access :=
  rowsFrom v x columns AVSOS_MOUSE_SIZE_HEIGHT 0 (v.offsetY y)

/-- `for( int j = 0; j < AVSOS_MOUSE_SIZE_WIDTH; j++ )` -/
def upColumns : List Nat := List.range AVSOS_MOUSE_SIZE_WIDTH

/-- The area at `(x, y)` goes to `mousebg`. -/
def vuiMouseSaveArea (v : Vui) (x y : Nat) (fb mousebg : Nat → UInt32) : Nat → UInt32 :=
  copies Access.slot (fun a => fb a.pixel) (accesses v x y upColumns) mousebg

def vuiDrawMouseSaveBuffer (v : Vui) (x y : Nat) (mousebg fb : Nat → UInt32) : Nat → UInt32 :=
  copies Access.pixel (fun a => mousebg a.slot) (accesses v x y upColumns) fb

/-! ## Statement -/

/-- The pixel in row `i` and column `j` of the pointer at `(x, y)`. -/
def pixelAt (v : Vui) (x y i j : Nat) : Nat := (y + i) * v.width + (x + j)

def InPointer (v : Vui) (x y k : Nat) : Prop :=
  ∃ i j, i < AVSOS_MOUSE_SIZE_HEIGHT ∧ j < AVSOS_MOUSE_SIZE_WIDTH ∧ k = pixelAt v x y i j

/-- Whatever is drawn over the area in between, it is as before after the restore. -/
def RestoreExact (v : Vui) (x y : Nat) (fb : Nat → UInt32) : Prop :=
  ∀ mousebg drawn, (∀ k, ¬ InPointer v x y k → drawn k = fb k) →
    vuiDrawMouseSaveBuffer v x y (vuiMouseSaveArea v x y fb mousebg) drawn = fb

/-- Neither the pitch nor the product with it leaves its type. -/
def PitchExact (v : Vui) (y : Nat) : Prop := v.width < 2 ^ 14 ∧ 4 * v.width * y < 2 ^ 31

instance (v : Vui) (y : Nat) : Decidable (PitchExact v y) := inferInstanceAs (Decidable (_ ∧ _))

/-- The last four columns of a row look like the first four of the next one. -/
def RowsRepeat (v : Vui) (x y : Nat) (fb : Nat → UInt32) : Prop :=
  ∀ i j, i < 6 → 10 ≤ j → j < 14 → fb (pixelAt v x y i j) = fb (pixelAt v x y (i + 1) (j - 10))

/-! ## The turns -/

variable {v : Vui} {x y i j k : Nat} {columns : List Nat} {fb mousebg drawn : Nat → UInt32}

/-- `offset_y` in row `i`. -/
def rowStart (v : Vui) (y i : Nat) : Nat := (v.offsetY y + i * (v.pitch / 4)) % 2 ^ 32

def access (v : Vui) (x y i j : Nat) : Access := ⟨i * 10 + j, rowStart v y i + x + j⟩

theorem uint32_natCast (n : Nat) : uint32 n = n % 2 ^ 32 := by
  rw [uint32]
  omega

theorem rowStart_succ (v : Vui) (y i : Nat) :
    uint32 (rowStart v y i + v.pitch / 4 : Nat) = rowStart v y (i + 1) := by
  rw [uint32_natCast, rowStart, rowStart, Nat.mod_add_mod, Nat.succ_mul, Nat.add_assoc]

theorem rowStart_zero (v : Vui) (y : Nat) : v.offsetY y = rowStart v y 0 := by
  rw [rowStart, Nat.zero_mul, Nat.add_zero, Vui.offsetY, uint32]
  omega

theorem rowsFrom_eq (v : Vui) (x y : Nat) (columns : List Nat) (left i : Nat) :
    rowsFrom v x columns left i (rowStart v y i) =
      (List.range' i left).flatMap fun i => columns.map (access v x y i) := by
  induction left generalizing i with
  | zero => rfl
  | succ left ih =>
      rw [rowsFrom, rowStart_succ, ih, List.range'_succ, List.flatMap_cons]
      rfl

theorem accesses_eq (v : Vui) (x y : Nat) (columns : List Nat) :
    accesses v x y columns = (List.range 7).flatMap fun i => columns.map (access v x y i) := by
  rw [accesses, rowStart_zero, rowsFrom_eq, List.range_eq_range']
  rfl

theorem mem_accesses {a : Access} :
    a ∈ accesses v x y columns ↔ ∃ i j, i < 7 ∧ j ∈ columns ∧ a = access v x y i j := by
  rw [accesses_eq]
  simp only [List.mem_flatMap, List.mem_range, List.mem_map]
  constructor
  · rintro ⟨i, hi, j, hj, rfl⟩
    exact ⟨i, j, hi, hj, rfl⟩
  · rintro ⟨i, j, hi, hj, rfl⟩
    exact ⟨i, hi, j, hj, rfl⟩

theorem mem_upColumns : j ∈ upColumns ↔ j < 14 := List.mem_range

/-! ## Where the rows start -/

theorem pitch_div (v : Vui) : v.pitch / 4 = v.width % 2 ^ 14 := by
  rw [Vui.pitch]
  omega

theorem mul_pitch (v : Vui) (y : Nat) : y * v.pitch = 4 * (y * (v.width % 2 ^ 14)) := by
  have hpitch : v.pitch = 4 * (v.width % 2 ^ 14) := by
    rw [Vui.pitch]
    omega
  rw [hpitch, Nat.mul_left_comm]

theorem mul_pitch_lt (v : Vui) (hy : y < 2 ^ 16) : y * v.pitch < 2 ^ 32 := by
  have hle : y * (v.width % 2 ^ 14) ≤ y * (2 ^ 14 - 1) := Nat.mul_le_mul_left _ (by omega)
  rw [mul_pitch]
  omega

/-- The product fits an `int`. -/
theorem rowStart_of_lt (h : y * v.pitch < 2 ^ 31) (hi : i < 7) :
    rowStart v y i = (y + i) * (v.width % 2 ^ 14) := by
  have hint : int32 ((y : Int) * (v.pitch : Nat)) = 4 * (y * (v.width % 2 ^ 14) : Nat) := by
    rw [← Int.natCast_mul, int32_eq (by omega) (by omega), mul_pitch]
    rfl
  have hstride : i * (v.width % 2 ^ 14) ≤ 6 * (v.width % 2 ^ 14) :=
    Nat.mul_le_mul_right _ (Nat.le_of_lt_succ hi)
  rw [mul_pitch] at h
  rw [rowStart, Vui.offsetY, hint, Int.mul_tdiv_cancel_left _ (by decide), uint32_natCast,
    pitch_div, Nat.add_mul]
  omega

/-- It does not: a quarter of the wrapped product is 2^30 too small, and unsigned. -/
theorem rowStart_of_ge (h : 2 ^ 31 ≤ y * v.pitch) (hlt : y * v.pitch < 2 ^ 32) :
    rowStart v y i = (3 * 2 ^ 30 + (y + i) * (v.width % 2 ^ 14)) % 2 ^ 32 := by
  have hint : int32 ((y : Int) * (v.pitch : Nat)) =
      4 * ((y * (v.width % 2 ^ 14) : Nat) - 2 ^ 30 : Int) := by
    rw [← Int.natCast_mul, int32_over (by omega) (by omega), mul_pitch]
    omega
  rw [mul_pitch] at h hlt
  rw [rowStart, Vui.offsetY, hint, Int.mul_tdiv_cancel_left _ (by decide), pitch_div,
    Nat.add_mul, uint32]
  omega

theorem rowStart_exact (h : PitchExact v y) (hi : i < 7) : rowStart v y i = (y + i) * v.width := by
  have hwidth : v.width % 2 ^ 14 = v.width := Nat.mod_eq_of_lt h.1
  have hproduct : y * v.pitch < 2 ^ 31 := by
    rw [mul_pitch, hwidth, Nat.mul_comm y, ← Nat.mul_assoc]
    exact h.2
  rw [rowStart_of_lt hproduct hi, hwidth]

/-- A pixel of the pointer that no turn reaches: its last one where the rows are too
close, its first one where the product overflows. -/
theorem exists_unreached (hx : x + 14 ≤ v.width) (hy : y + 7 ≤ v.height)
    (h : ¬ PitchExact v y) :
    ∃ k, InPointer v x y k ∧ ∀ a ∈ accesses v x y upColumns, a.pixel ≠ k := by
  have hheight := v.height_lt
  have hwidth := v.width_lt
  rcases Nat.lt_or_ge (y * v.pitch) (2 ^ 31) with hlt | hge
  · have hwide : v.width % 2 ^ 14 < v.width := by
      by_contra hnarrow
      have hsame : v.width % 2 ^ 14 = v.width := by omega
      refine h ⟨by omega, ?_⟩
      rw [mul_pitch, hsame, Nat.mul_comm y, ← Nat.mul_assoc] at hlt
      exact hlt
    refine ⟨pixelAt v x y 6 13, ⟨6, 13, by decide, by decide, rfl⟩, fun a ha => ?_⟩
    obtain ⟨i, j, hi, hj, rfl⟩ := mem_accesses.mp ha
    have hj := mem_upColumns.mp hj
    have hrow : (y + i) * (v.width % 2 ^ 14) ≤ (y + 6) * (v.width % 2 ^ 14) :=
      Nat.mul_le_mul_right _ (by omega)
    have hrows : (y + 6) * (v.width % 2 ^ 14) < (y + 6) * v.width :=
      Nat.mul_lt_mul_of_pos_left hwide (by omega)
    rw [access, rowStart_of_lt hlt hi, pixelAt]
    dsimp only
    omega
  · refine ⟨pixelAt v x y 0 0, ⟨0, 0, by decide, by decide, rfl⟩, fun a ha => ?_⟩
    obtain ⟨i, j, hi, hj, rfl⟩ := mem_accesses.mp ha
    have hj := mem_upColumns.mp hj
    have hlt : y * v.pitch < 2 ^ 32 := mul_pitch_lt v (by omega)
    have hstart := rowStart_of_ge (i := i) hge hlt
    rw [mul_pitch] at hge hlt
    have hsplit : y * v.width = y * (v.width % 2 ^ 14) + 2 ^ 14 * (y * (v.width / 2 ^ 14)) := by
      rw [Nat.mul_left_comm, ← Nat.mul_add, Nat.mod_add_div]
    have hblocks : y * (v.width / 2 ^ 14) ≤ y * 3 := Nat.mul_le_mul_left _ (by omega)
    have hstride : i * (v.width % 2 ^ 14) ≤ 6 * (v.width % 2 ^ 14) :=
      Nat.mul_le_mul_right _ (Nat.le_of_lt_succ hi)
    rw [Nat.add_mul] at hstart
    rw [access, hstart, pixelAt, Nat.add_zero, Nat.add_zero, hsplit]
    dsimp only
    omega

/-! ## What is saved -/

/-- The slots after the first `n` rows. -/
def savedRows (v : Vui) (x y : Nat) (fb mousebg : Nat → UInt32) (n : Nat) : Nat → UInt32 :=
  copies Access.slot (fun a => fb a.pixel)
    ((List.range n).flatMap fun i => upColumns.map (access v x y i)) mousebg

theorem savedRows_succ (n : Nat) :
    savedRows v x y fb mousebg (n + 1) =
      copies Access.slot (fun a => fb a.pixel) (upColumns.map (access v x y n))
        (savedRows v x y fb mousebg n) := by
  rw [savedRows, List.range_succ, List.flatMap_append, copies_append, List.flatMap_singleton]
  rfl

theorem savedRows_last {n : Nat} (hj : j < 14) :
    savedRows v x y fb mousebg (n + 1) (n * 10 + j) = fb (access v x y n j).pixel := by
  have hmem : access v x y n j ∈ upColumns.map (access v x y n) :=
    List.mem_map_of_mem (mem_upColumns.mpr hj)
  rw [savedRows_succ]
  refine copies_agree hmem fun b hb hslot => ?_
  obtain ⟨j', -, rfl⟩ := List.mem_map.mp hb
  have hj' : j' = j := Nat.add_left_cancel hslot
  rw [hj']

theorem savedRows_kept {n : Nat} (h : k < n * 10) :
    savedRows v x y fb mousebg (n + 1) k = savedRows v x y fb mousebg n k := by
  rw [savedRows_succ]
  refine copies_other fun a ha => ?_
  obtain ⟨j, -, rfl⟩ := List.mem_map.mp ha
  simp only [access]
  omega

theorem savedRows_slot {n : Nat} (hi : i < n) (hj : j < 14) :
    savedRows v x y fb mousebg n (i * 10 + j) =
      if i + 1 < n ∧ 10 ≤ j then fb (access v x y (i + 1) (j - 10)).pixel
      else fb (access v x y i j).pixel := by
  induction n with
  | zero => exact absurd hi (Nat.not_lt_zero i)
  | succ n ih =>
      by_cases hlast : i = n
      · subst hlast
        rw [savedRows_last hj, if_neg (by omega)]
      · by_cases hshared : i + 1 = n ∧ 10 ≤ j
        · obtain ⟨rfl, hj10⟩ := hshared
          have hslot : i * 10 + j = (i + 1) * 10 + (j - 10) := by omega
          rw [if_pos (by omega), hslot, savedRows_last (by omega)]
        · rw [savedRows_kept (by omega), ih (by omega)]
          by_cases hbehind : i + 1 < n ∧ 10 ≤ j
          · rw [if_pos hbehind, if_pos (by omega)]
          · rw [if_neg hbehind, if_neg (by omega)]

theorem saveArea_slot (hi : i < 7) (hj : j < 14) :
    vuiMouseSaveArea v x y fb mousebg (i * 10 + j) =
      if i < 6 ∧ 10 ≤ j then fb (access v x y (i + 1) (j - 10)).pixel
      else fb (access v x y i j).pixel := by
  rw [vuiMouseSaveArea, accesses_eq]
  have hsaved : savedRows v x y fb mousebg 7 (i * 10 + j) = _ := savedRows_slot hi hj
  rw [savedRows] at hsaved
  rw [hsaved]
  by_cases hcase : i < 6 ∧ 10 ≤ j
  · rw [if_pos hcase, if_pos (by omega)]
  · rw [if_neg hcase, if_neg (by omega)]

/-! ## What is restored -/

theorem access_pixel (h : PitchExact v y) (hi : i < 7) :
    (access v x y i j).pixel = pixelAt v x y i j := by
  rw [access, rowStart_exact h hi, pixelAt, Nat.add_assoc]

theorem pixelAt_inj (hx : x + 14 ≤ v.width) {i' j' : Nat} (hj : j < 14) (hj' : j' < 14)
    (h : pixelAt v x y i j = pixelAt v x y i' j') : i = i' ∧ j = j' := by
  unfold pixelAt at h
  have hrow : ∀ {a b : Nat}, a < b → (y + a) * v.width + v.width ≤ (y + b) * v.width := by
    intro a b hab
    rw [← Nat.succ_mul]
    exact Nat.mul_le_mul_right _ (by omega)
  rcases Nat.lt_trichotomy i i' with hlt | rfl | hgt
  · have hle := hrow hlt
    omega
  · exact ⟨rfl, by omega⟩
  · have hle := hrow hgt
    omega

theorem restored_pixel (hexact : PitchExact v y) (hx : x + 14 ≤ v.width) (hi : i < 7)
    (hj : j < 14) :
    vuiDrawMouseSaveBuffer v x y mousebg fb (pixelAt v x y i j) = mousebg (i * 10 + j) := by
  have hmem : access v x y i j ∈ accesses v x y upColumns :=
    mem_accesses.mpr ⟨i, j, hi, mem_upColumns.mpr hj, rfl⟩
  rw [vuiDrawMouseSaveBuffer, ← access_pixel hexact hi]
  refine copies_agree hmem fun b hb hpixel => ?_
  obtain ⟨i', j', hi', hj', rfl⟩ := mem_accesses.mp hb
  rw [access_pixel hexact hi, access_pixel hexact hi'] at hpixel
  obtain ⟨rfl, rfl⟩ := pixelAt_inj hx (mem_upColumns.mp hj') hj hpixel
  rfl

theorem restored_other (hexact : PitchExact v y) (hk : ¬ InPointer v x y k) :
    vuiDrawMouseSaveBuffer v x y mousebg fb k = fb k := by
  refine copies_other fun a ha hpixel => hk ?_
  obtain ⟨i, j, hi, hj, rfl⟩ := mem_accesses.mp ha
  rw [access_pixel hexact hi] at hpixel
  exact ⟨i, j, hi, mem_upColumns.mp hj, hpixel.symm⟩

theorem restored_saved (hexact : PitchExact v y) (hx : x + 14 ≤ v.width) (hi : i < 7)
    (hj : j < 14) :
    vuiDrawMouseSaveBuffer v x y (vuiMouseSaveArea v x y fb mousebg) drawn (pixelAt v x y i j) =
      if i < 6 ∧ 10 ≤ j then fb (pixelAt v x y (i + 1) (j - 10))
      else fb (pixelAt v x y i j) := by
  rw [restored_pixel hexact hx hi hj, saveArea_slot hi hj]
  by_cases hcase : i < 6 ∧ 10 ≤ j
  · rw [if_pos hcase, if_pos hcase, access_pixel hexact (by omega)]
  · rw [if_neg hcase, if_neg hcase, access_pixel hexact hi]

theorem exists_ne_pixel (a : UInt32) : ∃ b, b ≠ a := by
  by_cases h : a = 0
  · exact ⟨1, by rw [h]; decide⟩
  · exact ⟨0, Ne.symm h⟩

/-- A pixel that is not reached keeps what is drawn over it. -/
theorem pitchExact_of_restoreExact (hx : x + 14 ≤ v.width) (hy : y + 7 ≤ v.height)
    (h : RestoreExact v x y fb) : PitchExact v y := by
  by_contra hpitch
  obtain ⟨k, hk, hunreached⟩ := exists_unreached hx hy hpitch
  obtain ⟨b, hb⟩ := exists_ne_pixel (fb k)
  have hrestored := congrFun (h (fun _ => 0) (Function.update fb k b) fun k' hk' => by
    refine Function.update_of_ne ?_ _ _
    rintro rfl
    exact hk' hk) k
  rw [vuiDrawMouseSaveBuffer, copies_other hunreached, Function.update_self] at hrestored
  exact hb hrestored

/-- **The area under the mouse pointer.** Whatever is drawn over it in between,
the area is restored exactly if neither the pitch nor its product with the row
leaves its type, and the last four columns of each row look like the first four
of the next one, with which they share their slots. -/
theorem mouse_restore_iff (v : Vui) (x y : Nat) (fb : Nat → UInt32) (hx : x + 14 ≤ v.width)
    (hy : y + 7 ≤ v.height) :
    RestoreExact v x y fb ↔ PitchExact v y ∧ RowsRepeat v x y fb := by
  constructor
  · intro h
    have hexact := pitchExact_of_restoreExact hx hy h
    refine ⟨hexact, fun i j hi hj hj14 => ?_⟩
    have hrestored := congrFun (h (fun _ => 0) fb fun _ _ => rfl) (pixelAt v x y i j)
    rw [restored_saved hexact hx (by omega) hj14, if_pos ⟨hi, hj⟩] at hrestored
    exact hrestored.symm
  · rintro ⟨hexact, hrepeat⟩ mousebg drawn hdrawn
    funext k
    by_cases hk : InPointer v x y k
    · obtain ⟨i, j, hi, hj, rfl⟩ := hk
      rw [restored_saved hexact hx hi hj]
      split
      case isTrue hcase => exact (hrepeat i j hcase.1 hcase.2 hj).symm
      case isFalse => rfl
    · rw [restored_other hexact hk, hdrawn k hk]

def vgaScreen : Vui := ⟨640, 480, by decide, by decide⟩

/-- Stripes that repeat every ten pixels, with the columns 104 to 109 all different. -/
def stripes : Nat → UInt32 := fun k =>
  UInt32.ofNat (if 104 ≤ k % 640 ∧ k % 640 < 110 then k else k % 10)

theorem stripes_of_edge {k : Nat} (h : k % 640 < 104 ∨ 110 ≤ k % 640) :
    stripes k = UInt32.ofNat (k % 10) := by
  rw [stripes, if_neg (by omega)]

theorem striped_area_restored : RestoreExact vgaScreen 100 100 stripes := by
  refine (mouse_restore_iff vgaScreen 100 100 stripes (by decide) (by decide)).mpr
    ⟨by decide, fun i j hi hj hj14 => ?_⟩
  have hpixel : ∀ i j, pixelAt vgaScreen 100 100 i j = (100 + i) * 640 + (100 + j) :=
    fun _ _ => rfl
  rw [hpixel, hpixel, stripes_of_edge (by omega), stripes_of_edge (by omega)]
  exact congrArg UInt32.ofNat (by omega)

/-- A white pixel in column 10 of the area at `(0, 0)`. -/
def onePixel : Nat → UInt32 := fun k => if k = 10 then 0xFFFFFF else 0

theorem one_pixel_lost : ¬ RestoreExact vgaScreen 0 0 onePixel := by
  intro h
  have hexact : PitchExact vgaScreen 0 := by decide
  have hrestored := congrFun (h (fun _ => 0) onePixel fun _ _ => rfl) (pixelAt vgaScreen 0 0 0 10)
  rw [restored_saved hexact (by decide) (by decide) (by decide)] at hrestored
  exact absurd hrestored (by decide)

end VersionSix.Mouse
