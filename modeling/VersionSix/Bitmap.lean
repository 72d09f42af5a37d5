import Mathlib.Algebra.Group.Nat.Defs

/-!
# Bitmaps

`lib/bitmap.c`: a bitmap is an array of 64-bit fields. A result `none` is an
access outside of the array; a `false` in C is reported as such.

The bits of the array are read as a function of their index (`bit`), so that
the fields, the shifts and the masks come up in this module only. Creation,
test and update each get one lemma in these terms. `viBitmapTest_spec` is what
the page groups and the other users of bitmaps go by.

Setting a bit is a disjunction with a mask and does what it should. Clearing is
a conjunction with `0 << bit`, which has no bit at all: it empties the whole
field. What follows from that for runs of updates is the subject of
`BitmapUpdates`.
-/

namespace VersionSix.Bitmap

def viBitmapFieldSize : UInt64 := 64
def viBitmapMaxBitCount : UInt64 := 2147483648

structure ViBitmap where
  fields : List (BitVec 64)
  fieldCount : UInt32
  bitCount : UInt64

/-! ## Functions -/

/-- `vi_bitmap_create` for a bitmap that is not `NULL`; `none` is failure. -/
def viBitmapCreate (size : UInt64) : Option ViBitmap :=
  if size < 1 then none
  else if size ≥ viBitmapMaxBitCount then none
  else
    let fieldCount := (size / viBitmapFieldSize).toUInt32
    let fieldCount := if size % viBitmapFieldSize ≠ 0 then fieldCount + 1 else fieldCount
    some { fields := List.replicate fieldCount.toNat 0, fieldCount := fieldCount, bitCount := size }

def fieldOf (bitNum : UInt64) : UInt32 := (bitNum / viBitmapFieldSize).toUInt32

def bitOf (bitNum : UInt64) : UInt64 := bitNum % viBitmapFieldSize

def viBitmapTest (b : ViBitmap) (bitNum : UInt64) : Option Bool :=
  if bitNum > b.bitCount then some false
  else
    b.fields[(fieldOf bitNum).toNat]?.map fun field =>
      decide (field &&& 1#64 <<< (bitOf bitNum).toNat ≥ 1)

/-- The bitmap after the call, and what it returned. -/
def viBitmapSetTo (b : ViBitmap) (bitNum : UInt64) (val : Bool) : Option (ViBitmap × Bool) :=
  if bitNum > b.bitCount then some (b, false)
  else
    let i := (fieldOf bitNum).toNat
    b.fields[i]?.map fun field =>
      let field := if val then field ||| 1#64 <<< (bitOf bitNum).toNat
        else field &&& 0#64 <<< (bitOf bitNum).toNat
      ({ b with fields := b.fields.set i field }, true)

def viBitmapSet (b : ViBitmap) (bitNum : UInt64) : Option (ViBitmap × Bool) :=
  viBitmapSetTo b bitNum true

def viBitmapClear (b : ViBitmap) (bitNum : UInt64) : Option (ViBitmap × Bool) :=
  viBitmapSetTo b bitNum false

/-! ## Bits -/

/-- The bit `i` of the array. -/
def ViBitmap.bit (b : ViBitmap) (i : Nat) : Bool := (b.fields[i / 64]?.getD 0).getLsbD (i % 64)

/-- The array has a field for every bit. -/
structure WellFormed (b : ViBitmap) : Prop where
  count : b.bitCount.toNat < 2 ^ 31
  fields : b.bitCount.toNat ≤ 64 * b.fields.length

theorem and_bit (field : BitVec 64) {i : Nat} (hi : i < 64) :
    decide (field &&& 1#64 <<< i ≥ 1) = field.getLsbD i := by
  have hand : field &&& 1#64 <<< i = if field.getLsbD i then BitVec.twoPow 64 i else 0#64 :=
    BitVec.and_twoPow field i
  rw [hand]
  cases field.getLsbD i with
  | false => rfl
  | true =>
      have hpos : 0 < 2 ^ i := Nat.two_pow_pos i
      have hlt : 2 ^ i < 2 ^ 64 := Nat.pow_lt_pow_right (by decide) hi
      simp only [if_true, decide_eq_true_eq, ge_iff_le, BitVec.le_def, BitVec.toNat_twoPow]
      rw [Nat.mod_eq_of_lt hlt]
      exact hpos

theorem or_bit (field : BitVec 64) {i j : Nat} (hi : i < 64) :
    (field ||| 1#64 <<< i).getLsbD j = (field.getLsbD j || decide (i = j)) := by
  have htwo : (1#64 <<< i).getLsbD j = (BitVec.twoPow 64 i).getLsbD j := rfl
  rw [BitVec.getLsbD_or, htwo, BitVec.getLsbD_twoPow, decide_eq_true hi, Bool.true_and]

theorem fieldOf_toNat {i : UInt64} (hi : i.toNat < 2 ^ 31) : (fieldOf i).toNat = i.toNat / 64 := by
  unfold fieldOf viBitmapFieldSize
  simp
  omega

theorem bitOf_toNat (i : UInt64) : (bitOf i).toNat = i.toNat % 64 := by
  unfold bitOf viBitmapFieldSize
  simp

variable {b : ViBitmap} {i : UInt64}

/-- A bit of the bitmap is not refused, and its field is there. -/
theorem WellFormed.field_lt (h : WellFormed b) (hi : i.toNat < b.bitCount.toNat) :
    ¬ i > b.bitCount ∧ i.toNat / 64 < b.fields.length := by
  have hfields := h.fields
  rw [gt_iff_lt, UInt64.lt_iff_toNat_lt]
  omega

theorem viBitmapTest_spec (h : WellFormed b) (hi : i.toNat < b.bitCount.toNat) :
    viBitmapTest b i = some (b.bit i.toNat) := by
  obtain ⟨hle, hfield⟩ := h.field_lt hi
  unfold viBitmapTest ViBitmap.bit
  rw [if_neg hle, fieldOf_toNat (Nat.lt_trans hi h.count), bitOf_toNat,
    List.getElem?_eq_getElem hfield,
    Option.map_some, and_bit _ (Nat.mod_lt _ (by decide)), Option.getD_some]

/-- The test is true of no bit that is not set, at the end of the bitmap as well. -/
theorem WellFormed.bit_of_test (h : WellFormed b) (htest : viBitmapTest b i = some true) :
    b.bit i.toNat = true := by
  have hcount := h.count
  unfold viBitmapTest at htest
  split at htest
  · cases htest
  · next hle =>
      rw [gt_iff_lt, UInt64.lt_iff_toNat_lt] at hle
      obtain ⟨field, hfield, hbit⟩ := Option.map_eq_some_iff.mp htest
      rw [fieldOf_toNat (by omega)] at hfield
      rw [bitOf_toNat, and_bit _ (Nat.mod_lt _ (by decide))] at hbit
      rwa [ViBitmap.bit, hfield, Option.getD_some]

/-- Setting a bit of a bitmap sets this bit and no other. -/
theorem viBitmapSet_spec (h : WellFormed b) (hi : i.toNat < b.bitCount.toNat) :
    ∃ b', viBitmapSet b i = some (b', true) ∧ WellFormed b' ∧ b'.bitCount = b.bitCount ∧
      ∀ j, b'.bit j = (b.bit j || decide (i.toNat = j)) := by
  have hcount := h.count
  have hfields := h.fields
  obtain ⟨hle, hfield⟩ := h.field_lt hi
  unfold viBitmapSet viBitmapSetTo
  simp only [if_neg hle, fieldOf_toNat (Nat.lt_trans hi hcount), bitOf_toNat,
    List.getElem?_eq_getElem hfield, Option.map_some, if_true]
  refine ⟨_, rfl, ⟨hcount, by simpa using hfields⟩, rfl, fun j => ?_⟩
  unfold ViBitmap.bit
  by_cases hj : j / 64 = i.toNat / 64
  · have hbit : i.toNat % 64 = j % 64 ↔ i.toNat = j := by omega
    rw [hj, List.getElem?_set_self hfield, Option.getD_some, or_bit _ (Nat.mod_lt _ (by decide)),
      List.getElem?_eq_getElem hfield, Option.getD_some, decide_eq_decide.mpr hbit]
  · have hne : i.toNat ≠ j := fun hij => hj (by rw [hij])
    rw [List.getElem?_set_ne (Ne.symm hj), decide_eq_false hne, Bool.or_false]

theorem viBitmapCreate_spec {size : UInt64} (h : viBitmapCreate size = some b) :
    WellFormed b ∧ b.bitCount = size ∧ 1 ≤ size.toNat ∧ ∀ j, b.bit j = false := by
  unfold viBitmapCreate at h
  split at h
  · cases h
  split at h
  · cases h
  · next hone hmax =>
      obtain rfl := Option.some.inj h
      have hone' : 1 ≤ size.toNat := by
        rw [UInt64.lt_iff_toNat_lt] at hone
        exact Nat.le_of_not_lt hone
      have hmax' : size.toNat < 2 ^ 31 := by
        rw [ge_iff_le, UInt64.le_iff_toNat_le] at hmax
        exact Nat.lt_of_not_le hmax
      have hcount : size.toNat ≤ 64 * (if size % viBitmapFieldSize ≠ 0
          then (size / viBitmapFieldSize).toUInt32 + 1
          else (size / viBitmapFieldSize).toUInt32).toNat := by
        have hquot : (size / viBitmapFieldSize).toUInt32.toNat = size.toNat / 64 := by
          simpa [fieldOf] using fieldOf_toNat hmax'
        have hrem : (size % viBitmapFieldSize).toNat = size.toNat % 64 := bitOf_toNat size
        split
        · rw [UInt32.toNat_add, hquot, UInt32.toNat_one]
          omega
        · next hzero =>
            rw [Decidable.not_not.mp hzero] at hrem
            rw [hquot]
            have hrem' : 0 = size.toNat % 64 := hrem
            omega
      refine ⟨⟨hmax', by rwa [List.length_replicate]⟩, rfl, hone', fun j => ?_⟩
      unfold ViBitmap.bit
      dsimp only
      generalize UInt32.toNat _ = n
      rw [List.getElem?_replicate]
      split <;> exact BitVec.getLsbD_zero

end VersionSix.Bitmap
