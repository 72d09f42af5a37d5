import Mathlib.Logic.Function.Basic
import VersionSix.Bytes

/-!
# PSF fonts

`vui_font_load_psf` reads a font file in one of the two PSF formats. In the
file the leftmost pixel of a row is the highest bit of its first byte; in
`pixel_row` it is the lowest bit. The bits are turned round by `reverse_map`, a
byte at a time, and a row of two bytes is read as a little-endian word, so the
bytes keep their places (`vuiFontLoadPsf_pixels`).

A format is a place for the bitmaps in the file, with their number and their
size (`Layout`), and the two headers declare such a layout each in its own way
(`Declares`). So the loops are dealt with once. That a file has room for all it
declares, and the tables of the kernel for all glyphs, is what makes a font
file well formed (`FontFile`).
-/

namespace VersionSix.Font

open ByteStore Function

/-! ## Data -/

structure FontInfo where
  height : UInt16
  width : UInt16
  numGlyphs : UInt16

/-- `pixel_row` has 20 entries. -/
structure FontBitmap where
  num : UInt16
  pixelRow : Nat → UInt16

structure VuiFont where
  bitmaps : Nat → FontBitmap
  aaMask : Nat → FontBitmap
  info : FontInfo

def VFS_ERROR_NONE : Int := 0

def PSF1_FONT_MAGIC : Nat := 0x0436

def PSF_FONT_MAGIC : Nat := 0x864ab572

/-- What the file system and the allocator give `vui_font_load_psf`; the allocated memory holds
anything. -/
structure Environment where
  statError : Int
  stSize : UInt32
  readErr : Int
  data : Bytes
  bitmaps : Nat → FontBitmap
  aaMask : Nat → FontBitmap

/-! ## Function -/

def reverseMap : List UInt8 :=
  [0x00, 0x80, 0x40, 0xc0, 0x20, 0xa0, 0x60, 0xe0, 0x10, 0x90, 0x50, 0xd0, 0x30, 0xb0, 0x70, 0xf0,
    0x08, 0x88, 0x48, 0xc8, 0x28, 0xa8, 0x68, 0xe8, 0x18, 0x98, 0x58, 0xd8, 0x38, 0xb8, 0x78, 0xf8,
    0x04, 0x84, 0x44, 0xc4, 0x24, 0xa4, 0x64, 0xe4, 0x14, 0x94, 0x54, 0xd4, 0x34, 0xb4, 0x74, 0xf4,
    0x0c, 0x8c, 0x4c, 0xcc, 0x2c, 0xac, 0x6c, 0xec, 0x1c, 0x9c, 0x5c, 0xdc, 0x3c, 0xbc, 0x7c, 0xfc,
    0x02, 0x82, 0x42, 0xc2, 0x22, 0xa2, 0x62, 0xe2, 0x12, 0x92, 0x52, 0xd2, 0x32, 0xb2, 0x72, 0xf2,
    0x0a, 0x8a, 0x4a, 0xca, 0x2a, 0xaa, 0x6a, 0xea, 0x1a, 0x9a, 0x5a, 0xda, 0x3a, 0xba, 0x7a, 0xfa,
    0x06, 0x86, 0x46, 0xc6, 0x26, 0xa6, 0x66, 0xe6, 0x16, 0x96, 0x56, 0xd6, 0x36, 0xb6, 0x76, 0xf6,
    0x0e, 0x8e, 0x4e, 0xce, 0x2e, 0xae, 0x6e, 0xee, 0x1e, 0x9e, 0x5e, 0xde, 0x3e, 0xbe, 0x7e, 0xfe,
    0x01, 0x81, 0x41, 0xc1, 0x21, 0xa1, 0x61, 0xe1, 0x11, 0x91, 0x51, 0xd1, 0x31, 0xb1, 0x71, 0xf1,
    0x09, 0x89, 0x49, 0xc9, 0x29, 0xa9, 0x69, 0xe9, 0x19, 0x99, 0x59, 0xd9, 0x39, 0xb9, 0x79, 0xf9,
    0x05, 0x85, 0x45, 0xc5, 0x25, 0xa5, 0x65, 0xe5, 0x15, 0x95, 0x55, 0xd5, 0x35, 0xb5, 0x75, 0xf5,
    0x0d, 0x8d, 0x4d, 0xcd, 0x2d, 0xad, 0x6d, 0xed, 0x1d, 0x9d, 0x5d, 0xdd, 0x3d, 0xbd, 0x7d, 0xfd,
    0x03, 0x83, 0x43, 0xc3, 0x23, 0xa3, 0x63, 0xe3, 0x13, 0x93, 0x53, 0xd3, 0x33, 0xb3, 0x73, 0xf3,
    0x0b, 0x8b, 0x4b, 0xcb, 0x2b, 0xab, 0x6b, 0xeb, 0x1b, 0x9b, 0x5b, 0xdb, 0x3b, 0xbb, 0x7b, 0xfb,
    0x07, 0x87, 0x47, 0xc7, 0x27, 0xa7, 0x67, 0xe7, 0x17, 0x97, 0x57, 0xd7, 0x37, 0xb7, 0x77, 0xf7,
    0x0f, 0x8f, 0x4f, 0xcf, 0x2f, 0xaf, 0x6f, 0xef, 0x1f, 0x9f, 0x5f, 0xdf, 0x3f, 0xbf, 0x7f, 0xff]

/-- `reverse_map[b]` -/
def reversed (b : Nat) : UInt8 := reverseMap.getD b 0

def narrowRow (data : Bytes) (start : Nat) : UInt16 :=
  UInt16.ofNat (reversed (data start).toNat).toNat

/-- `reverse_map[*start >> 8] << 8 | reverse_map[*start & 0xFF]` of a `uint16_t`. -/
def wideRow (data : Bytes) (start : Nat) : UInt16 :=
  let word := le 2 data start
  UInt16.ofNat ((reversed (word >>> 8)).toNat <<< 8 ||| (reversed (word &&& 0xFF)).toNat)

/-- The rows of a glyph from `j` on, of which `left` are left; `start` moves by `size` bytes. -/
def loadRows (row : Nat → UInt16) (size : Nat) : Nat → Nat → Nat → FontBitmap → FontBitmap × Nat
  | 0, _, start, bitmap => (bitmap, start)
  | left + 1, j, start, bitmap =>
      loadRows row size left (j + 1) (start + size)
        { bitmap with pixelRow := update bitmap.pixelRow j (row start) }

/-- The glyphs from `i` on. -/
def loadGlyphs (row : Nat → UInt16) (size height : Nat) :
    Nat → Nat → Nat → (Nat → FontBitmap) → Nat → FontBitmap
  | 0, _, _, bitmaps => bitmaps
  | left + 1, i, start, bitmaps =>
      let loaded := loadRows row size height 0 start { bitmaps i with num := UInt16.ofNat i }
      loadGlyphs row size height left (i + 1) loaded.2 (update bitmaps i loaded.1)

def isPsf1 (data : Bytes) : Bool := le 4 data 0 % 2 ^ 16 == PSF1_FONT_MAGIC

def fontInfo (data : Bytes) : FontInfo :=
  if isPsf1 data then
    { numGlyphs := if data 2 &&& 0x1 ≠ 0 then 512 else 256
      height := (data 3).toUInt16
      width := 8 }
  else
    { height := UInt16.ofNat (le 4 data 24)
      width := UInt16.ofNat (le 4 data 28)
      numGlyphs := UInt16.ofNat (le 4 data 16) }

/-- The size of `psf1_header` or of `psf_font`. -/
def headerSize (data : Bytes) : Nat := if isPsf1 data then 4 else 32

/-- With what it returns: `false` when the file cannot be read. -/
def vuiFontLoadPsf (env : Environment) (font : VuiFont) : VuiFont × Bool :=
  if env.statError ≠ VFS_ERROR_NONE then (font, false)
  else if env.readErr < VFS_ERROR_NONE then (font, false)
  else
    let data := update env.data env.stSize.toNat 0
    let info := fontInfo data
    let load (row : Nat → UInt16) (size : Nat) : Nat → FontBitmap :=
      loadGlyphs row size info.height.toNat info.numGlyphs.toNat 0 (headerSize data) env.bitmaps
    let bitmaps := if info.width ≤ 8 then load (narrowRow data) 1 else load (wideRow data) 2
    ({ bitmaps := bitmaps, aaMask := env.aaMask, info := info }, true)

/-! ## The formats -/

/-- Where the bitmaps are in a font file, and how many of what size. -/
structure Layout where
  header : Nat
  glyphs : Nat
  height : Nat
  width : Nat

namespace Layout

def rowBytes (l : Layout) : Nat := (l.width + 7) / 8

def glyphBytes (l : Layout) : Nat := l.height * l.rowBytes

/-- Row `r`, column `c` from the left of glyph `g`. -/
def pixel (l : Layout) (data : Bytes) (g r c : Nat) : Bool :=
  (data (l.header + g * l.glyphBytes + r * l.rowBytes + c / 8)).toNat.testBit (7 - c % 8)

end Layout

/-- The layout a header of the first format declares. -/
def psf1Layout (data : Bytes) : Layout where
  header := 4
  glyphs := if (data 2).toNat.testBit 0 then 512 else 256
  height := (data 3).toNat
  width := 8

def psf2Layout (data : Bytes) : Layout where
  header := le 4 data 8
  glyphs := le 4 data 16
  height := le 4 data 24
  width := le 4 data 28

/-- A header that is consistent in itself. -/
inductive Declares (data : Bytes) : Layout → Prop
  | psf1 (hmagic : le 2 data 0 = PSF1_FONT_MAGIC) : Declares data (psf1Layout data)
  | psf2 (hmagic : le 4 data 0 = PSF_FONT_MAGIC) (hheader : le 4 data 8 = 32)
      (hglyph : le 4 data 20 = (psf2Layout data).glyphBytes) : Declares data (psf2Layout data)

/-- A font file of `size` bytes that the tables of `vui_font` have room for. -/
structure FontFile (size : Nat) (data : Bytes) (l : Layout) : Prop where
  declares : Declares data l
  complete : l.header + l.glyphs * l.glyphBytes ≤ size
  glyphs : l.glyphs ≤ 65535
  height : 1 ≤ l.height ∧ l.height ≤ 20
  width : 1 ≤ l.width ∧ l.width ≤ 16

/-! ## Bits of a row -/

variable {data : Bytes} {size start i j k left height g r c : Nat} {row : Nat → UInt16}
  {bitmap : FontBitmap} {bitmaps : Nat → FontBitmap} {l : Layout}

theorem reversed_testBit {b : Nat} (hb : b < 256) (hj : j < 8) :
    (reversed b).toNat.testBit j = b.testBit (7 - j) := by
  have htable : ∀ entry ∈ reverseMap.zipIdx, ∀ j < 8,
      entry.1.toNat.testBit j = entry.2.testBit (7 - j) := by
    decide +kernel
  have hlength : reverseMap.length = 256 := by decide +kernel
  have hlt : b < reverseMap.length := hlength ▸ hb
  have hentry : (reversed b, b) ∈ reverseMap.zipIdx := by
    rw [List.mem_zipIdx_iff_getElem?, reversed, List.getD_eq_getElem?_getD,
      List.getElem?_eq_getElem hlt, Option.getD_some]
  exact htable _ hentry j hj

theorem ofNat_testBit (n : Nat) (hj : j < 16) :
    (UInt16.ofNat n).toNat.testBit j = n.testBit j := by
  rw [UInt16.toNat_ofNat', Nat.testBit_mod_two_pow, decide_eq_true hj, Bool.true_and]

theorem narrowRow_testBit (hj : j < 8) :
    (narrowRow data start).toNat.testBit j =
      (data (start + j / 8)).toNat.testBit (7 - j % 8) := by
  rw [narrowRow, ofNat_testBit _ (by omega), reversed_testBit (data start).toNat_lt hj,
    Nat.div_eq_of_lt hj, Nat.mod_eq_of_lt hj, Nat.add_zero]

/-- The high byte of the word is the second one of the row: columns 8 to 15. -/
theorem wideRow_testBit (hj : j < 16) :
    (wideRow data start).toNat.testBit j =
      (data (start + j / 8)).toNat.testBit (7 - j % 8) := by
  have hlow : (data start).toNat < 256 := (data start).toNat_lt
  have hhigh : (data (start + 1)).toNat < 256 := (data (start + 1)).toNat_lt
  have hword : le 2 data start = (data start).toNat + 256 * (data (start + 1)).toNat := by
    simp only [le, Nat.mul_zero, Nat.add_zero]
  have hshift : le 2 data start >>> 8 = (data (start + 1)).toNat := by
    rw [hword, Nat.shiftRight_eq_div_pow]
    omega
  have hmask : le 2 data start &&& 0xFF = (data start).toNat := by
    rw [hword, Nat.and_two_pow_sub_one_eq_mod _ 8]
    omega
  have hbyte (h : 8 ≤ j) : (reversed (data start).toNat).toNat < 2 ^ j :=
    Nat.lt_of_lt_of_le (reversed _).toNat_lt (Nat.pow_le_pow_right (by decide) h)
  simp only [wideRow]
  rw [hshift, hmask, ofNat_testBit _ hj, Nat.testBit_or, Nat.testBit_shiftLeft]
  by_cases hlt : j < 8
  · rw [decide_eq_false (by omega), Bool.false_and, Bool.false_or, reversed_testBit hlow hlt,
      Nat.div_eq_of_lt hlt, Nat.mod_eq_of_lt hlt, Nat.add_zero]
  · have hdiv : j / 8 = 1 := by omega
    have hmod : j % 8 = j - 8 := by omega
    rw [decide_eq_true (by omega), Bool.true_and, reversed_testBit hhigh (by omega),
      Nat.testBit_lt_two_pow (hbyte (by omega)), Bool.or_false, hdiv, hmod]

/-! ## The loops -/

theorem loadRows_start (left j start : Nat) (bitmap : FontBitmap) :
    (loadRows row size left j start bitmap).2 = start + left * size := by
  induction left generalizing j start bitmap with
  | zero => rw [loadRows, Nat.zero_mul, Nat.add_zero]
  | succ left ih =>
      rw [loadRows, ih, Nat.succ_mul]
      omega

theorem loadRows_kept (hk : k < j) :
    (loadRows row size left j start bitmap).1.pixelRow k = bitmap.pixelRow k := by
  induction left generalizing j start bitmap with
  | zero => rfl
  | succ left ih =>
      rw [loadRows, ih (Nat.lt_succ_of_lt hk)]
      exact Function.update_of_ne (Nat.ne_of_lt hk) _ _

theorem loadRows_row (row : Nat → UInt16) (size j start : Nat) (bitmap : FontBitmap)
    (hk : k < left) :
    (loadRows row size left j start bitmap).1.pixelRow (j + k) = row (start + k * size) := by
  induction left generalizing j start bitmap k with
  | zero => cases hk
  | succ left ih =>
      rw [loadRows]
      cases k with
      | zero =>
          rw [loadRows_kept (by omega), Nat.zero_mul, Nat.add_zero, Nat.add_zero]
          exact Function.update_self _ _ _
      | succ k =>
          have hrow := ih (j + 1) (start + size)
            { bitmap with pixelRow := update bitmap.pixelRow j (row start) }
            (Nat.lt_of_succ_lt_succ hk)
          rw [Nat.add_assoc, Nat.add_comm 1] at hrow
          rw [hrow, Nat.succ_mul, Nat.add_comm (k * size), Nat.add_assoc]

theorem loadGlyphs_kept (hk : k < i) :
    loadGlyphs row size height left i start bitmaps k = bitmaps k := by
  induction left generalizing i start bitmaps with
  | zero => rfl
  | succ left ih =>
      rw [loadGlyphs, ih (Nat.lt_succ_of_lt hk)]
      exact Function.update_of_ne (Nat.ne_of_lt hk) _ _

theorem loadGlyphs_row (row : Nat → UInt16) (size i start : Nat) (bitmaps : Nat → FontBitmap)
    (hk : k < left) (hr : r < height) :
    (loadGlyphs row size height left i start bitmaps (i + k)).pixelRow r =
      row (start + (k * height + r) * size) := by
  induction left generalizing i start bitmaps k with
  | zero => cases hk
  | succ left ih =>
      rw [loadGlyphs]
      cases k with
      | zero =>
          have hrow := loadRows_row row size 0 start { bitmaps i with num := UInt16.ofNat i } hr
          rw [loadGlyphs_kept (by omega), Nat.add_zero, Function.update_self, Nat.zero_mul,
            Nat.zero_add]
          rwa [Nat.zero_add] at hrow
      | succ k =>
          rw [show i + (k + 1) = i + 1 + k by omega, ih _ _ _ (Nat.lt_of_succ_lt_succ hk),
            loadRows_start, Nat.succ_mul, Nat.add_right_comm (k * height), Nat.add_mul _ height]
          congr 1
          omega

/-! ## The header -/

theorem le_four_mod (data : Bytes) (off : Nat) : le 4 data off % 2 ^ 16 = le 2 data off := by
  have hlow : le 2 data off < 2 ^ 16 := le_lt 2 data off
  have hsplit : le 4 data off = le 2 data off + 2 ^ 16 * le 2 data (off + 1 + 1) := by
    simp only [le]
    omega
  rw [hsplit, Nat.add_mul_mod_self_left, Nat.mod_eq_of_lt hlow]

theorem and_one_iff (b : UInt8) : b &&& 0x1 ≠ 0 ↔ b.toNat.testBit 0 = true := by
  rw [Ne, ← UInt8.toNat_inj, UInt8.toNat_and, Nat.testBit_zero, decide_eq_true_iff]
  show ¬ b.toNat &&& 1 = 0 ↔ _
  rw [Nat.and_one_is_mod]
  omega

/-- The byte stored past the end is outside every header and bitmap. -/
theorem le_update {n off : Nat} (v : UInt8) (h : off + n ≤ size) :
    le n (update data size v) off = le n data off :=
  le_congr fun _ _ => Function.update_of_ne (by omega) _ _

/-- The header the code sees is the one in the file, and it is read as the format says. -/
theorem fontInfo_update (hfile : FontFile size data l) (v : UInt8) :
    (fontInfo (update data size v)).height.toNat = l.height ∧
      (fontInfo (update data size v)).width.toNat = l.width ∧
      (fontInfo (update data size v)).numGlyphs.toNat = l.glyphs ∧
      headerSize (update data size v) = l.header := by
  obtain ⟨hdeclares, hcomplete, hglyphs, hheight, hwidth⟩ := hfile
  cases hdeclares with
  | psf1 hmagic =>
      have hsize : 4 ≤ size := Nat.le_trans (Nat.le_add_right _ _) hcomplete
      have hpsf1 : isPsf1 (update data size v) = true := by
        rw [isPsf1, le_update v hsize, le_four_mod, hmagic]
        rfl
      have hmode : update data size v 2 = data 2 := Function.update_of_ne (by omega) _ _
      have hsize3 : update data size v 3 = data 3 := Function.update_of_ne (by omega) _ _
      simp only [fontInfo, headerSize, hpsf1, if_true, hmode, hsize3, psf1Layout, and_one_iff]
      refine ⟨rfl, rfl, ?_, trivial⟩
      split <;> rfl
  | psf2 hmagic hheader hglyph =>
      have hsize : 32 ≤ size := hheader ▸ Nat.le_trans (Nat.le_add_right _ _) hcomplete
      have hpsf2 : isPsf1 (update data size v) = false := by
        rw [isPsf1, le_update v (by omega), hmagic]
        rfl
      have hle (off : Nat) (h : off + 4 ≤ 32) : le 4 (update data size v) off = le 4 data off :=
        le_update v (by omega)
      have hofNat {n : Nat} (h : n ≤ 65535) : (UInt16.ofNat n).toNat = n := by
        rw [UInt16.toNat_ofNat', Nat.mod_eq_of_lt (by omega)]
      simp only [psf2Layout] at hglyphs hheight hwidth
      simp only [fontInfo, headerSize, hpsf2, psf2Layout, hheader, Bool.false_eq_true, if_false,
        hle 24 (by decide), hle 28 (by decide), hle 16 (by decide)]
      exact ⟨hofNat (by omega), hofNat (by omega), hofNat hglyphs, trivial⟩

/-! ## Main result -/

theorem pixel_lt (hg : g < l.glyphs) (hr : r < l.height) (hc : c < l.width) :
    l.header + g * l.glyphBytes + r * l.rowBytes + c / 8 < l.header + l.glyphs * l.glyphBytes := by
  have hcol : c / 8 < l.rowBytes := by
    rw [Layout.rowBytes]
    omega
  have hrow : (r + 1) * l.rowBytes ≤ l.glyphBytes := Nat.mul_le_mul_right _ hr
  have hglyph : (g + 1) * l.glyphBytes ≤ l.glyphs * l.glyphBytes := Nat.mul_le_mul_right _ hg
  rw [Nat.succ_mul] at hrow hglyph
  omega

/-- Both loops: `row` reads what a row of the file has in its columns. -/
theorem loadGlyphs_pixel (hrowBytes : l.rowBytes = size)
    (hrow : ∀ start j, j < l.width →
      (row start).toNat.testBit j = (data (start + j / 8)).toNat.testBit (7 - j % 8))
    (hg : g < l.glyphs) (hr : r < l.height) (hc : c < l.width) :
    ((loadGlyphs row size l.height l.glyphs 0 l.header bitmaps g).pixelRow r).toNat.testBit c =
      l.pixel data g r c := by
  have hglyph := loadGlyphs_row row size 0 l.header bitmaps hg hr
  rw [Nat.zero_add] at hglyph
  rw [hglyph, hrow _ _ hc, Layout.pixel, Layout.glyphBytes, hrowBytes, Nat.add_mul, Nat.mul_assoc,
    ← Nat.add_assoc l.header]

/-- For every well-formed font file of either format all pixels of all glyphs
are where the file has them: the pixel in row `r` and column `c` of glyph `g`
is bit `c` of the row, counted from the lowest one, in `pixel_row` as the
renderer reads it. -/
theorem vuiFontLoadPsf_pixels (env : Environment) (font : VuiFont) (l : Layout)
    (hstat : env.statError = VFS_ERROR_NONE) (hread : VFS_ERROR_NONE ≤ env.readErr)
    (hfile : FontFile env.stSize.toNat env.data l) :
    ∃ loaded, vuiFontLoadPsf env font = (loaded, true) ∧
      loaded.info.numGlyphs.toNat = l.glyphs ∧ loaded.info.height.toNat = l.height ∧
      loaded.info.width.toNat = l.width ∧
      ∀ g r j, g < l.glyphs → r < l.height → j < l.width →
        ((loaded.bitmaps g).pixelRow r).toNat.testBit j = l.pixel env.data g r j := by
  obtain ⟨hheight, hwidth, hglyphs, hheader⟩ := fontInfo_update hfile 0
  have hpixel {g r j : Nat} (hg : g < l.glyphs) (hr : r < l.height) (hj : j < l.width) :
      l.pixel (update env.data env.stSize.toNat 0) g r j = l.pixel env.data g r j := by
    have hlt := Nat.lt_of_lt_of_le (pixel_lt hg hr hj) hfile.complete
    rw [Layout.pixel, Function.update_of_ne (Nat.ne_of_lt hlt), Layout.pixel]
  rw [vuiFontLoadPsf, if_neg (not_not.mpr hstat), if_neg (Int.not_lt.mpr hread)]
  refine ⟨_, rfl, hglyphs, hheight, hwidth, fun g r j hg hr hj => ?_⟩
  rw [← hpixel hg hr hj]
  simp only [hheight, hglyphs, hheader]
  have hwidth_le := hfile.width
  split
  case isTrue hle =>
    have hnarrow : l.width ≤ 8 := hwidth ▸ hle
    exact loadGlyphs_pixel (by rw [Layout.rowBytes]; omega)
      (fun _ _ hj => narrowRow_testBit (by omega)) hg hr hj
  case isFalse hle =>
    have hwide : ¬ l.width ≤ 8 := hwidth ▸ hle
    exact loadGlyphs_pixel (by rw [Layout.rowBytes]; omega)
      (fun _ _ hj => wideRow_testBit (by omega)) hg hr hj

def wideFont : List UInt8 :=
  [0x72, 0xb5, 0x4a, 0x86, 0, 0, 0, 0, 32, 0, 0, 0, 0, 0, 0, 0, 1, 0, 0, 0, 4, 0, 0, 0,
    2, 0, 0, 0, 10, 0, 0, 0, 0x80, 0x40, 0x01, 0x80]

def wideFontRead : Environment where
  statError := VFS_ERROR_NONE
  stSize := 36
  readErr := 36
  data := fun i => wideFont.getD i 0
  bitmaps := fun _ => ⟨0xFFFF, fun _ => 0xFFFF⟩
  aaMask := fun _ => ⟨0xFFFF, fun _ => 0xFFFF⟩

def noFont : VuiFont := ⟨wideFontRead.bitmaps, wideFontRead.aaMask, ⟨0, 0, 0⟩⟩

theorem wideFont_pixels :
    ∃ loaded, vuiFontLoadPsf wideFontRead noFont = (loaded, true) ∧
      loaded.info.numGlyphs.toNat = 1 ∧ loaded.info.height.toNat = 2 ∧
      loaded.info.width.toNat = 10 ∧
      ∀ g r j, g < 1 → r < 2 → j < 10 →
        ((loaded.bitmaps g).pixelRow r).toNat.testBit j =
          Layout.pixel ⟨32, 1, 2, 10⟩ wideFontRead.data g r j :=
  vuiFontLoadPsf_pixels wideFontRead noFont (psf2Layout wideFontRead.data) rfl (by decide)
    ⟨.psf2 (by decide) (by decide) (by decide), by decide, by decide, by decide, by decide⟩

end VersionSix.Font
