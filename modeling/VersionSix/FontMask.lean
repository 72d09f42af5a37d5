import Mathlib.Data.Nat.Bitwise
import VersionSix.Accumulate
import VersionSix.PsfFont

/-!
# Font smoothing

`vui_font_create_aa_mask` goes over the blocks of two by two pixels of a glyph,
once for each of six patterns, and marks the empty pixels of every block that
looks like the pattern. It reads the glyph and only adds to the mask, so the
mask is what one look at every pixel would give (`vuiFontCreateAaMask_spec`).

The two loops have bounds that depend on the size of the glyph and go in
opposite directions. As nothing is ever taken from the mask, neither that nor
the order of the patterns matters: a loop that adds to a set adds the union of
what its turns add, and that is all that is used of them (`Accumulate`).

A block at the edge of the glyph is looked at like any other, and the mask
stays inside the size of the glyph (`IsMask`).
-/

namespace VersionSix.Font

open Accumulate Function

/-! ## Function -/

abbrev Pixel := Nat × Nat

def fontGetPixel (b : FontBitmap) (x : Pixel) : Bool := (b.pixelRow x.1).toNat.testBit x.2

def fontSetAaPixel (mask : FontBitmap) (x : Pixel) : FontBitmap :=
  { mask with
    pixelRow := update mask.pixelRow x.1
      (UInt16.ofNat ((mask.pixelRow x.1).toNat ||| 1 <<< x.2)) }

def patterns : List (List Bool) :=
  [[true, false, false, true],
    [true, true, true, false],
    [true, true, false, true],
    [false, true, true, false],
    [false, true, true, true],
    [true, false, true, true]]

/-- The pixels a pattern is compared with, in its order. -/
def block (topLine col : Nat) : List Pixel :=
  [(topLine, col), (topLine, col - 1), (topLine + 1, col), (topLine + 1, col - 1)]

/-- `if( font_get_pixel(...) == 0 ) { font_set_aapixel(...); }` -/
def setIfEmpty (glyph mask : FontBitmap) (x : Pixel) : FontBitmap :=
  if fontGetPixel glyph x = false then fontSetAaPixel mask x else mask

def tryPattern (glyph : FontBitmap) (pattern : List Bool) (topLine : Nat) (mask : FontBitmap)
    (col : Nat) : FontBitmap :=
  if (block topLine col).map (fontGetPixel glyph) = pattern then
    (block topLine col).foldl (setIfEmpty glyph) mask
  else mask

/-- `for( uint16_t top_line = 0; top_line < (font->info.height - 1); top_line++ )` -/
def topLines (height : UInt16) : List Nat := List.range (height.toNat - 1)

/-- `for( uint16_t col = font->info.width - 1; col > 0; col-- )` -/
def columns (width : UInt16) : List Nat := (List.range' 1 (width - 1).toNat).reverse

def maskLine (glyph : FontBitmap) (info : FontInfo) (pattern : List Bool) (mask : FontBitmap)
    (topLine : Nat) : FontBitmap :=
  (columns info.width).foldl (tryPattern glyph pattern topLine) mask

def maskPattern (glyph : FontBitmap) (info : FontInfo) (mask : FontBitmap) (pattern : List Bool) :
    FontBitmap :=
  (topLines info.height).foldl (maskLine glyph info pattern) mask

def createAaMask (order : List (List Bool)) (font : VuiFont) (charNum : UInt16) : VuiFont :=
  let g := charNum.toNat
  { font with
    aaMask := update font.aaMask g
      (order.foldl (maskPattern (font.bitmaps g) font.info) (font.aaMask g)) }

def vuiFontCreateAaMask (font : Option VuiFont) (charNum : UInt16) : Option VuiFont :=
  font.map fun font => createAaMask patterns font charNum

/-! ## Statement -/

/-- An empty pixel of a block of the glyph that looks like one of the patterns. -/
def Smoothed (glyph : FontBitmap) (info : FontInfo) (x : Pixel) : Prop :=
  fontGetPixel glyph x = false ∧ ∃ pattern ∈ patterns, ∃ topLine col,
    topLine + 1 < info.height.toNat ∧ 1 ≤ col ∧ col < info.width.toNat ∧
      x ∈ block topLine col ∧ (block topLine col).map (fontGetPixel glyph) = pattern

/-- The mask has the smoothed pixels; none of them is in the glyph or outside its size. -/
structure IsMask (glyph : FontBitmap) (info : FontInfo) (mask : FontBitmap) : Prop where
  smoothed : ∀ x, fontGetPixel mask x = true ↔ Smoothed glyph info x
  apart : ∀ x, fontGetPixel mask x = true → fontGetPixel glyph x = false
  inside : ∀ x, fontGetPixel mask x = true → x.1 < info.height.toNat ∧ x.2 < info.width.toNat

/-- A glyph the tables have room for, with a mask that is clear. -/
structure Smoothable (font : VuiFont) (charNum : UInt16) : Prop where
  height : 1 ≤ font.info.height.toNat ∧ font.info.height.toNat ≤ 20
  width : 1 ≤ font.info.width.toNat ∧ font.info.width.toNat ≤ 16
  clear : ∀ row, (font.aaMask charNum.toNat).pixelRow row = 0

/-! ## What the mask shows -/

variable {glyph : FontBitmap} {info : FontInfo} {pattern : List Bool} {topLine col : Nat}
  {x : Pixel}

def pixels (b : FontBitmap) : Set Pixel := {x | fontGetPixel b x = true}

theorem fontSetAaPixel_adds (hx : x.2 < 16) :
    Adds pixels (fun mask => fontSetAaPixel mask x) {x} := by
  intro mask
  ext y
  simp only [pixels, fontGetPixel, fontSetAaPixel, Set.mem_union, Set.mem_ofPred_eq,
    Set.mem_singleton_iff]
  by_cases hrow : y.1 = x.1
  · have hpixel : y = x ↔ x.2 = y.2 := by
      rw [Prod.ext_iff, eq_comm (a := x.2)]
      exact and_iff_right hrow
    have hbit : 1 <<< x.2 < 2 ^ 16 := by
      rw [Nat.one_shiftLeft]
      exact Nat.pow_lt_pow_right (by decide) hx
    rw [hrow, Function.update_self, UInt16.toNat_ofNat',
      Nat.mod_eq_of_lt (Nat.or_lt_two_pow (mask.pixelRow x.1).toNat_lt hbit), Nat.testBit_or,
      Nat.one_shiftLeft, Nat.testBit_two_pow, Bool.or_eq_true, decide_eq_true_iff, hpixel]
  · have hne : y ≠ x := fun h => hrow (h ▸ rfl)
    rw [Function.update_of_ne hrow]
    simp only [hne, or_false]

theorem setIfEmpty_adds (hx : x.2 < 16) :
    Adds pixels (fun mask => setIfEmpty glyph mask x) {y | fontGetPixel glyph x = false ∧ y = x} :=
  Adds.ite (fontSetAaPixel_adds hx)

theorem mem_block_lt (hcol : col < 16) (hx : x ∈ block topLine col) : x.2 < 16 := by
  simp only [block, List.mem_cons, List.not_mem_nil, or_false] at hx
  rcases hx with rfl | rfl | rfl | rfl
  · exact hcol
  · exact Nat.lt_of_le_of_lt (Nat.sub_le _ _) hcol
  · exact hcol
  · exact Nat.lt_of_le_of_lt (Nat.sub_le _ _) hcol

/-- The empty pixels of the block, if it looks like the pattern. -/
def blockAdds (glyph : FontBitmap) (pattern : List Bool) (topLine col : Nat) : Set Pixel :=
  {x | (block topLine col).map (fontGetPixel glyph) = pattern ∧
    ∃ y ∈ block topLine col, fontGetPixel glyph y = false ∧ x = y}

theorem tryPattern_adds (hcol : col < 16) :
    Adds pixels (fun mask => tryPattern glyph pattern topLine mask col)
      (blockAdds glyph pattern topLine col) :=
  Adds.ite (Adds.foldl _ fun _ hx => setIfEmpty_adds (mem_block_lt hcol hx))

theorem mem_columns : col ∈ columns info.width ↔ 1 ≤ col ∧ col < 1 + (info.width - 1).toNat := by
  rw [columns, List.mem_reverse, List.mem_range'_1]

theorem width_sub (h : 1 ≤ info.width.toNat) : 1 + (info.width - 1).toNat = info.width.toNat := by
  have hle : (1 : UInt16) ≤ info.width := UInt16.le_iff_toNat_le.mpr h
  rw [UInt16.toNat_sub_of_le _ _ hle]
  exact Nat.add_sub_cancel' h

def lineAdds (glyph : FontBitmap) (info : FontInfo) (pattern : List Bool) (topLine : Nat) :
    Set Pixel :=
  {x | ∃ col ∈ columns info.width, x ∈ blockAdds glyph pattern topLine col}

def patternAdds (glyph : FontBitmap) (info : FontInfo) (pattern : List Bool) : Set Pixel :=
  {x | ∃ topLine ∈ topLines info.height, x ∈ lineAdds glyph info pattern topLine}

theorem maskPattern_adds (hwidth : 1 ≤ info.width.toNat ∧ info.width.toNat ≤ 16) :
    Adds pixels (fun mask => maskPattern glyph info mask pattern)
      (patternAdds glyph info pattern) := by
  refine Adds.foldl _ fun topLine _ => Adds.foldl _ fun col hcol => tryPattern_adds ?_
  have hlt := (mem_columns.mp hcol).2
  rw [width_sub hwidth.1] at hlt
  omega

/-! ## Main result -/

theorem mem_patternAdds_iff (h : 1 ≤ info.width.toNat) :
    (∃ pattern ∈ patterns, x ∈ patternAdds glyph info pattern) ↔ Smoothed glyph info x := by
  simp only [patternAdds, lineAdds, blockAdds, Set.mem_ofPred_eq, topLines, List.mem_range,
    mem_columns, width_sub h, Smoothed]
  constructor
  · rintro ⟨pattern, hpattern, topLine, htop, col, ⟨hone, hcol⟩, hlike, y, hy, hempty, rfl⟩
    exact ⟨hempty, pattern, hpattern, topLine, col, by omega, hone, hcol, hy, hlike⟩
  · rintro ⟨hempty, pattern, hpattern, topLine, col, htop, hone, hcol, hy, hlike⟩
    exact ⟨pattern, hpattern, topLine, by omega, col, ⟨hone, hcol⟩, hlike, x, hy, hempty, rfl⟩

theorem Smoothed.inside (h : Smoothed glyph info x) :
    x.1 < info.height.toNat ∧ x.2 < info.width.toNat := by
  obtain ⟨-, -, -, topLine, col, htop, hone, hcol, hx, -⟩ := h
  simp only [block, List.mem_cons, List.not_mem_nil, or_false] at hx
  rcases hx with rfl | rfl | rfl | rfl <;> exact ⟨by omega, by omega⟩

theorem pixelRow_eq {a b : FontBitmap} (h : pixels a = pixels b) : a.pixelRow = b.pixelRow := by
  funext row
  refine UInt16.toNat_inj.mp (Nat.eq_of_testBit_eq fun col => ?_)
  have hpixel : (row, col) ∈ pixels a ↔ (row, col) ∈ pixels b := by rw [h]
  exact Bool.eq_iff_iff.mpr hpixel

theorem pixels_createAaMask {font : VuiFont} {charNum : UInt16} (h : Smoothable font charNum)
    (order : List (List Bool)) :
    pixels ((createAaMask order font charNum).aaMask charNum.toNat) =
      {x | ∃ pattern ∈ order,
        x ∈ patternAdds (font.bitmaps charNum.toNat) font.info pattern} := by
  have hclear : pixels (font.aaMask charNum.toNat) = ∅ := by
    ext x
    simp only [pixels, fontGetPixel, Set.mem_ofPred_eq, h.clear, UInt16.toNat_zero,
      Nat.zero_testBit, Bool.false_eq_true, Set.mem_empty_iff_false]
  have hmask : (createAaMask order font charNum).aaMask charNum.toNat =
      order.foldl (maskPattern (font.bitmaps charNum.toNat) font.info)
        (font.aaMask charNum.toNat) :=
    Function.update_self _ _ _
  have hadds : ∀ pattern ∈ order,
      Adds pixels (maskPattern (font.bitmaps charNum.toNat) font.info · pattern)
        (patternAdds (font.bitmaps charNum.toNat) font.info pattern) :=
    fun _ _ => maskPattern_adds h.width
  rw [hmask, Adds.foldl order hadds, hclear, Set.empty_union]

/-- The mask of a glyph is that of the patterns, whatever their order: the
empty pixels of the blocks that look like one of them, and no pixel besides.
The glyph may have any size that the tables have room for, and the mask has to
be clear before. -/
theorem vuiFontCreateAaMask_spec (font : VuiFont) (charNum : UInt16)
    (h : Smoothable font charNum) :
    ∃ masked, vuiFontCreateAaMask (some font) charNum = some masked ∧
      IsMask (font.bitmaps charNum.toNat) font.info (masked.aaMask charNum.toNat) ∧
      ∀ order, order.Perm patterns →
        ((createAaMask order font charNum).aaMask charNum.toNat).pixelRow =
          (masked.aaMask charNum.toNat).pixelRow := by
  have hsmoothed (x : Pixel) :
      fontGetPixel ((createAaMask patterns font charNum).aaMask charNum.toNat) x = true ↔
        Smoothed (font.bitmaps charNum.toNat) font.info x := by
    rw [← mem_patternAdds_iff h.width.1]
    exact Set.ext_iff.mp (pixels_createAaMask h patterns) x
  refine ⟨_, rfl, ⟨hsmoothed, fun x hx => ((hsmoothed x).mp hx).1,
    fun x hx => ((hsmoothed x).mp hx).inside⟩, fun order horder => ?_⟩
  have hsame : pixels ((createAaMask order font charNum).aaMask charNum.toNat) =
      pixels ((createAaMask patterns font charNum).aaMask charNum.toNat) := by
    rw [pixels_createAaMask h, pixels_createAaMask h]
    simp only [horder.mem_iff]
  exact pixelRow_eq hsame

def diagonal : VuiFont where
  bitmaps := fun _ => ⟨0, fun row => if row = 0 then 0b01 else 0b10⟩
  aaMask := fun _ => ⟨0, fun _ => 0⟩
  info := ⟨2, 2, 1⟩

theorem diagonal_masked :
    ∃ masked, vuiFontCreateAaMask (some diagonal) 0 = some masked ∧
      IsMask (diagonal.bitmaps 0) diagonal.info (masked.aaMask 0) ∧
      ∀ order, order.Perm patterns →
        ((createAaMask order diagonal 0).aaMask 0).pixelRow = (masked.aaMask 0).pixelRow :=
  vuiFontCreateAaMask_spec diagonal 0 ⟨by decide, by decide, fun _ => rfl⟩

example : (((createAaMask patterns diagonal 0).aaMask 0).pixelRow 0,
    ((createAaMask patterns diagonal 0).aaMask 0).pixelRow 1) = (0b10, 0b01) := by decide

end VersionSix.Font
