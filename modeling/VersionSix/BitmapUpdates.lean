import VersionSix.Bitmap
import VersionSix.Run

/-!
# Bitmap updates

A bitmap beside the array of booleans it stands for (`Flags`).
`vi_bitmap_set_to` clears a bit with the mask `0 << bit`, which has no bit at
all: the whole field goes to 0. So an update is one of the array exactly if it
sets a bit, or if no other bit of the field is set (`Spares`).

`updates_touch_one_bit_iff` says when a single update does that, and when every
update of a run does, so that the run leaves the array that its updates
describe. The condition of a run is one on its prefixes: no other bit of the
field is set where a clear comes.

The visits of `vi_bitmap_for_each_set` rest on the same reading: it calls back
for the set bits in order. And the functions let one bit number through that
the bitmap does not have, the size itself (`bounded_iff`).
-/

namespace VersionSix.Bitmap

/-! ## Functions -/

/-- The loop of `vi_bitmap_for_each_set` from bit `i`, with `n` turns to go. -/
def forEachSetFrom {σ : Type} (b : ViBitmap) (func : UInt64 → σ → σ) :
    Nat → UInt64 → σ → Option σ
  | 0, _, data => some data
  | n + 1, i, data => (viBitmapTest b i).bind fun set =>
      forEachSetFrom b func n (i + 1) (if set then func i data else data)

/-- `vi_bitmap_for_each_set`; what the callback does to its `data` is a
parameter. -/
def viBitmapForEachSet {σ : Type} (b : ViBitmap) (func : UInt64 → σ → σ) (data : σ) : Option σ :=
  forEachSetFrom b func b.bitCount.toNat 0 data

/-- One call of `vi_bitmap_set_to`. -/
abbrev Update := UInt64 × Bool

def update (b : ViBitmap) (u : Update) : Option ViBitmap :=
  (viBitmapSetTo b u.1 u.2).map Prod.fst

/-! ## Statement -/

/-- Some bitmap that `vi_bitmap_create` made for `size` bits, with any content. -/
structure OfSize (size : UInt64) (b : ViBitmap) : Prop where
  created : ∃ b₀, viBitmapCreate size = some b₀ ∧ b.bitCount = b₀.bitCount ∧
    b.fieldCount = b₀.fieldCount
  length : b.fields.length = b.fieldCount.toNat

abbrev Flags := UInt64 → Bool

def Flags.update (a : Flags) (u : Update) : Flags := Function.update a u.1 u.2

/-- The indices of an array of `size` flags, in increasing order. -/
def indices (size : UInt64) : List UInt64 := (List.range size.toNat).map UInt64.ofNat

def ViBitmap.flags (b : ViBitmap) : Flags := fun i => b.bit i.toNat

/-- Every test, and every visit, is the one of the array. -/
structure IsArray (b : ViBitmap) (a : Flags) : Prop where
  test : ∀ i, i < b.bitCount → viBitmapTest b i = some (a i)
  visits : ∀ (σ : Type) (func : UInt64 → σ → σ) (data : σ), viBitmapForEachSet b func data =
    some (((indices b.bitCount).filter a).foldl (fun data i => func i data) data)

/-- The bit `i` gets the value `v`, and no other bit changes. -/
def TouchesOneBit (b : ViBitmap) (i : UInt64) (v : Bool) : Prop :=
  ∃ b', viBitmapSetTo b i v = some (b', true) ∧ viBitmapTest b' i = some v ∧
    ∀ j, j < b.bitCount → j ≠ i → viBitmapTest b' j = viBitmapTest b j

/-- No other bit in the field of bit `i` is set. -/
def Alone (b : ViBitmap) (i : UInt64) : Prop :=
  ∀ j, j < b.bitCount → j ≠ i → j / viBitmapFieldSize = i / viBitmapFieldSize →
    b.bit j.toNat = false

def Spares (b : ViBitmap) (u : Update) : Prop := u.2 = true ∨ Alone b u.1

/-! ## Bits of a new content -/

variable {b b' : ViBitmap} {size i j : UInt64} {a : Flags}

@[simp] theorem Flags.update_self (a : Flags) (i : UInt64) (v : Bool) : a.update (i, v) i = v :=
  Function.update_self ..

@[simp] theorem Flags.update_of_ne (hne : j ≠ i) (a : Flags) (v : Bool) :
    a.update (i, v) j = a j :=
  Function.update_of_ne hne ..

theorem OfSize.wellFormed (h : OfSize size b) : WellFormed b := by
  obtain ⟨b₀, hb₀, hcount, hfields⟩ := h.created
  have hwf := (viBitmapCreate_spec hb₀).1
  have hlen : b₀.fields.length = b₀.fieldCount.toNat := by
    unfold viBitmapCreate at hb₀
    split at hb₀
    · cases hb₀
    split at hb₀
    · cases hb₀
    · obtain rfl := Option.some.inj hb₀
      exact List.length_replicate
  exact ⟨hcount ▸ hwf.count, by rw [hcount, h.length, hfields, ← hlen]; exact hwf.fields⟩

theorem OfSize.bitCount_eq (h : OfSize size b) : b.bitCount = size := by
  obtain ⟨b₀, hb₀, hcount, -⟩ := h.created
  rw [hcount, (viBitmapCreate_spec hb₀).2.1]

theorem and_zero_bit (field : BitVec 64) (i j : Nat) :
    (field &&& 0#64 <<< i).getLsbD j = false := by
  simp

theorem quot_eq_iff : j / viBitmapFieldSize = i / viBitmapFieldSize ↔
    j.toNat / 64 = i.toNat / 64 := by
  rw [← UInt64.toNat_inj, UInt64.toNat_div, UInt64.toNat_div]
  rfl

theorem viBitmapClear_spec (h : WellFormed b) (hi : i.toNat < b.bitCount.toNat) :
    ∃ b', viBitmapClear b i = some (b', true) ∧ b'.bitCount = b.bitCount ∧
      b'.fieldCount = b.fieldCount ∧ b'.fields.length = b.fields.length ∧
      ∀ j, b'.bit j = (b.bit j && decide (j / 64 ≠ i.toNat / 64)) := by
  obtain ⟨hle, hfield⟩ := h.field_lt hi
  unfold viBitmapClear viBitmapSetTo
  simp only [if_neg hle, fieldOf_toNat (Nat.lt_trans hi h.count), bitOf_toNat,
    List.getElem?_eq_getElem hfield, Option.map_some, Bool.false_eq_true, if_false]
  refine ⟨_, rfl, rfl, rfl, List.length_set .., fun j => ?_⟩
  unfold ViBitmap.bit
  by_cases hj : j / 64 = i.toNat / 64
  · rw [hj, List.getElem?_set_self hfield, Option.getD_some, and_zero_bit]
    simp
  · rw [List.getElem?_set_ne (Ne.symm hj), decide_eq_true hj, Bool.and_true]

theorem viBitmapSetTo_kept {v r : Bool} (h : viBitmapSetTo b i v = some (b', r)) :
    b'.bitCount = b.bitCount ∧ b'.fieldCount = b.fieldCount ∧
      b'.fields.length = b.fields.length := by
  unfold viBitmapSetTo at h
  split at h
  · obtain ⟨rfl, -⟩ := Prod.mk.inj (Option.some.inj h)
    exact ⟨rfl, rfl, rfl⟩
  · obtain ⟨field, -, heq⟩ := Option.map_eq_some_iff.mp h
    obtain ⟨rfl, -⟩ := Prod.mk.inj heq
    exact ⟨rfl, rfl, List.length_set ..⟩

theorem OfSize.setTo (h : OfSize size b) {v r : Bool} (hb' : viBitmapSetTo b i v = some (b', r)) :
    OfSize size b' := by
  obtain ⟨hcount, hfields, hlen⟩ := viBitmapSetTo_kept hb'
  obtain ⟨b₀, hb₀, hcount₀, hfields₀⟩ := h.created
  exact ⟨⟨b₀, hb₀, hcount.trans hcount₀, hfields.trans hfields₀⟩, by rw [hlen, hfields, h.length]⟩

theorem OfSize.lt_iff (h : OfSize size b) : i.toNat < b.bitCount.toNat ↔ i < size := by
  rw [h.bitCount_eq, UInt64.lt_iff_toNat_lt]

theorem OfSize.test (h : OfSize size b) (hi : i < size) :
    viBitmapTest b i = some (b.bit i.toNat) :=
  viBitmapTest_spec h.wellFormed (h.lt_iff.mpr hi)

theorem OfSize.setTo_spec (h : OfSize size b) (hi : i < size) (v : Bool) :
    ∃ b', viBitmapSetTo b i v = some (b', true) ∧ OfSize size b' ∧
      ∀ j, b'.bit j.toNat = if j = i then v else
        b.bit j.toNat && (v || decide (j / viBitmapFieldSize ≠ i / viBitmapFieldSize)) := by
  have hi' := h.lt_iff.mpr hi
  cases v with
  | true =>
      obtain ⟨b', hb', -, -, hbit⟩ := viBitmapSet_spec h.wellFormed hi'
      refine ⟨b', hb', h.setTo hb', fun j => ?_⟩
      rw [hbit]
      by_cases hj : j = i
      · simp [hj]
      · have hne : i.toNat ≠ j.toNat := fun heq => hj (UInt64.toNat_inj.mp heq.symm)
        simp [hj, hne]
  | false =>
      obtain ⟨b', hb', -, -, -, hbit⟩ := viBitmapClear_spec h.wellFormed hi'
      refine ⟨b', hb', h.setTo hb', fun j => ?_⟩
      rw [hbit]
      by_cases hj : j = i
      · simp [hj]
      · simp only [hj, if_false, Bool.false_or, ne_eq, quot_eq_iff]

/-! ## Visits -/

theorem ofNat_lt {k : Nat} (hk : k < size.toNat) : UInt64.ofNat k < size := by
  have hval : (UInt64.ofNat k).toNat = k :=
    UInt64.toNat_ofNat_of_lt (Nat.lt_trans hk size.toNat_lt)
  rw [UInt64.lt_iff_toNat_lt, hval]
  exact hk

theorem forEachSetFrom_spec {σ : Type} (h : OfSize size b) (func : UInt64 → σ → σ) {n : Nat}
    {k : Nat} (hn : k + n ≤ size.toNat) (data : σ) :
    forEachSetFrom b func n (UInt64.ofNat k) data =
      some ((((List.range' k n).map UInt64.ofNat).filter b.flags).foldl
        (fun data i => func i data) data) := by
  induction n generalizing k data with
  | zero => rfl
  | succ n ih =>
      have hlt : UInt64.ofNat k < size := ofNat_lt (by omega)
      have hnext : UInt64.ofNat k + 1 = UInt64.ofNat (k + 1) := by
        rw [UInt64.ofNat_add]
        rfl
      rw [forEachSetFrom, h.test hlt, Option.bind_some, hnext, ih (by omega), List.range'_succ,
        List.map_cons, List.filter_cons]
      change _ = some (List.foldl _ _ (if b.bit (UInt64.ofNat k).toNat = true then _ else _))
      split <;> rfl

theorem OfSize.isArray_iff (h : OfSize size b) :
    IsArray b a ↔ ∀ i, i < size → b.bit i.toNat = a i := by
  constructor
  · intro harr i hi
    have htest := harr.test i (by rwa [h.bitCount_eq])
    rw [h.test hi] at htest
    exact Option.some.inj htest
  · intro hbits
    refine ⟨fun i hi => ?_, fun σ func data => ?_⟩
    · rw [h.bitCount_eq] at hi
      rw [h.test hi, hbits i hi]
    · have hsame : (indices size).filter a = (indices size).filter b.flags := by
        refine List.filter_congr fun i hi => ?_
        obtain ⟨k, hk, rfl⟩ := List.mem_map.mp hi
        exact (hbits _ (ofNat_lt (List.mem_range.mp hk))).symm
      rw [viBitmapForEachSet, h.bitCount_eq, hsame]
      have hloop := forEachSetFrom_spec h func (n := size.toNat) (k := 0) (by omega) data
      rw [← List.range_eq_range'] at hloop
      exact hloop

/-! ## Updates -/

theorem OfSize.touchesOneBit_iff (h : OfSize size b) (hi : i < size) (v : Bool) :
    TouchesOneBit b i v ↔ Spares b (i, v) := by
  obtain ⟨b', hb', hsize, hbit⟩ := h.setTo_spec hi v
  constructor
  · rintro ⟨b₁, hb₁, -, hkept⟩
    obtain ⟨rfl, -⟩ := Prod.mk.inj (Option.some.inj (hb'.symm.trans hb₁))
    cases v with
    | true => exact .inl rfl
    | false =>
        refine .inr fun j hj hne hfield => ?_
        have hjs : j < size := by rwa [← h.bitCount_eq]
        have hsame := hkept j hj hne
        rw [hsize.test hjs, h.test hjs, hbit, if_neg hne] at hsame
        simpa [hfield] using (Option.some.inj hsame).symm
  · intro hspares
    refine ⟨b', hb', ?_, fun j hj hne => ?_⟩
    · rw [hsize.test hi, hbit, if_pos rfl]
    · have hjs : j < size := by rwa [← h.bitCount_eq]
      rw [hsize.test hjs, h.test hjs, hbit, if_neg hne]
      rcases hspares with rfl | halone
      · rw [Bool.true_or, Bool.and_true]
      · by_cases hfield : j / viBitmapFieldSize = i / viBitmapFieldSize
        · rw [halone j hj hne hfield, Bool.false_and]
        · simp [hfield]

/-- With the array beside it, an update is right exactly if it spares the other
bits of its field. -/
theorem isArray_update_iff {i : UInt64} {v : Bool} (h : OfSize size b) (ha : IsArray b a)
    (hi : i < size) :
    ∃ b', update b (i, v) = some b' ∧ OfSize size b' ∧
      (IsArray b' (a.update (i, v)) ↔ Spares b (i, v)) := by
  obtain ⟨b', hb', hsize, -⟩ := h.setTo_spec hi v
  refine ⟨b', by rw [update, hb', Option.map_some], hsize, ?_⟩
  rw [← h.touchesOneBit_iff hi]
  have htest : ∀ j, j < size → viBitmapTest b j = some (a j) := by
    intro j hj
    exact ha.test j (by rwa [h.bitCount_eq])
  constructor
  · intro harr
    refine ⟨b', hb', ?_, fun j hj hne => ?_⟩
    · rw [harr.test i (by rwa [hsize.bitCount_eq]), Flags.update_self]
    · rw [h.bitCount_eq] at hj
      rw [htest j hj, harr.test j (by rwa [hsize.bitCount_eq]), Flags.update_of_ne hne]
  · rintro ⟨b₁, hb₁, hself, hkept⟩
    obtain ⟨rfl, -⟩ := Prod.mk.inj (Option.some.inj (hb'.symm.trans hb₁))
    refine hsize.isArray_iff.mpr fun j hj => ?_
    have hj' := hsize.test hj
    by_cases hne : j = i
    · subst hne
      rw [hself] at hj'
      rw [← Option.some.inj hj', Flags.update_self]
    · rw [hkept j (by rwa [h.bitCount_eq]) hne, htest j hj] at hj'
      rw [← Option.some.inj hj', Flags.update_of_ne hne]

theorem beside_of_spares {x : ViBitmap × Flags} {u : Update} (hu : u.1 < size)
    (hx : OfSize size x.1 ∧ IsArray x.1 x.2) (hspares : Spares x.1 u) :
    ∃ x', Run.beside update Flags.update x u = some x' ∧ OfSize size x'.1 ∧ IsArray x'.1 x'.2 := by
  obtain ⟨b', hb', hsize, hiff⟩ := isArray_update_iff (v := u.2) hx.1 hx.2 hu
  exact ⟨_, Run.beside_of_step hb' x.2, hsize, hiff.mpr hspares⟩

theorem spares_of_beside {x x' : ViBitmap × Flags} {u : Update} (hu : u.1 < size)
    (hx : OfSize size x.1 ∧ IsArray x.1 x.2) (hx' : Run.beside update Flags.update x u = some x')
    (harr : IsArray x'.1 x'.2) : Spares x.1 u := by
  obtain ⟨b', hb', -, hiff⟩ := isArray_update_iff (v := u.2) hx.1 hx.2 hu
  obtain ⟨hnext, hflags⟩ := Run.step_of_beside hx'
  obtain rfl := Option.some.inj (hb'.symm.trans hnext)
  rw [hflags] at harr
  exact hiff.mp harr

/-- **Updates.** A call touches one bit exactly if it spares the others, and a
bitmap is the array after every part of a run exactly if all its calls do. Only
a clear can go wrong, when another bit of the same field is set; the visits of
`for_each` are in the order of the bits in any case. -/
theorem updates_touch_one_bit_iff (h : OfSize size b) :
    (∀ i v, i < size → (TouchesOneBit b i v ↔ Spares b (i, v))) ∧
      ∀ us : List Update, (∀ u ∈ us, u.1 < size) →
        ((∀ vs, vs <+: us → ∃ b', Run.exec update b vs = some b' ∧
            IsArray b' (vs.foldl Flags.update b.flags)) ↔
          Run.Along update Spares b us) := by
  refine ⟨fun i v hi => h.touchesOneBit_iff hi v, fun us hus => ?_⟩
  have hrule : (∀ vs, vs <+: us → ∃ x, Run.exec (Run.beside update Flags.update) (b, b.flags) vs =
      some x ∧ IsArray x.1 x.2) ↔ Run.Along (Run.beside update Flags.update)
        (fun x u => Spares x.1 u) (b, b.flags) us :=
    Run.prefixes_iff_along_labels (fun x hx => hx.2) (fun _ _ => beside_of_spares)
      (fun _ _ _ => spares_of_beside) hus ⟨h, h.isArray_iff.mpr fun _ _ => rfl⟩
  rw [Run.along_beside] at hrule
  rw [← hrule]
  refine forall_congr' fun vs => imp_congr_right fun _ => ?_
  rw [Run.exec_beside]
  constructor
  · rintro ⟨b', hb', harr⟩
    exact ⟨_, by rw [hb', Option.map_some], harr⟩
  · rintro ⟨x, hx, harr⟩
    obtain ⟨b', hb', rfl⟩ := Option.map_eq_some_iff.mp hx
    exact ⟨b', hb', harr⟩

/-- A bitmap of 128 bits in which 3 and 5 are set. -/
def threeAndFive : ViBitmap := ⟨[40, 0], 2, 128⟩

theorem threeAndFive_ofSize : OfSize 128 threeAndFive := ⟨⟨_, rfl, rfl, rfl⟩, rfl⟩

theorem sixtyFour_alone : Alone ⟨[40, 1], 2, 128⟩ 64 := by
  intro j hj hne hfield
  have hbits : ∀ k < 128, 64 < k → ViBitmap.bit ⟨[40, 1], 2, 128⟩ k = false := by
    intro k hk hlt
    have hone : (1#64).getLsbD (k % 64) = decide (k % 64 = 0) := by
      rw [BitVec.getLsbD_one]
      simp
    have hdiv : k / 64 = 1 := by omega
    rw [ViBitmap.bit, hdiv]
    exact hone.trans (decide_eq_false (by omega))
  have hj : j.toNat < 128 := UInt64.lt_iff_toNat_lt.mp hj
  have hne : j.toNat ≠ 64 := fun h => hne (UInt64.toNat_inj.mp h)
  have hfield : j.toNat / 64 = 1 := by
    simpa [viBitmapFieldSize] using congrArg UInt64.toNat hfield
  exact hbits j.toNat hj (by omega)

/-- 9 and 64 are set, and 64 is cleared again, which has its field to itself. -/
theorem updates_touch_one_bit_iff_set : TouchesOneBit threeAndFive 9 true ∧
    ∀ vs, vs <+: [((64 : UInt64), true), (64, false), (9, true)] →
      ∃ b', Run.exec update threeAndFive vs = some b' ∧
        IsArray b' (vs.foldl Flags.update threeAndFive.flags) := by
  obtain ⟨hone, hrun⟩ := updates_touch_one_bit_iff threeAndFive_ofSize
  have hsize : ∀ u ∈ [((64 : UInt64), true), (64, false), (9, true)], u.1 < 128 := by
    intro u hu
    simp only [List.mem_cons, List.not_mem_nil, or_false] at hu
    obtain rfl | rfl | rfl := hu <;> decide
  refine ⟨(hone 9 true (by decide)).mpr (.inl rfl), (hrun _ hsize).mpr ?_⟩
  refine ⟨.inl rfl, fun b' hb' => ?_⟩
  obtain rfl : ⟨[40, 1], 2, 128⟩ = b' := Option.some.inj hb'
  exact ⟨.inr sixtyFour_alone, fun _ _ => ⟨.inl rfl, fun _ _ => trivial⟩⟩

/-- 3 is cleared, and 5 is gone. -/
theorem clear_wipes_neighbour :
    ((viBitmapCreate 128).bind fun b => Run.exec update b [(3, true), (5, true)]) =
        some threeAndFive ∧
      viBitmapTest threeAndFive 5 = some true ∧
      ((viBitmapClear threeAndFive 3).bind fun x => viBitmapTest x.1 5) = some false ∧
      ¬ TouchesOneBit threeAndFive 3 false := by
  have hafter : ((viBitmapClear threeAndFive 3).bind fun x => viBitmapTest x.1 5) = some false :=
    rfl
  refine ⟨rfl, rfl, hafter, ?_⟩
  rintro ⟨b', hb', -, hkept⟩
  have hclear : viBitmapClear threeAndFive 3 = some (b', true) := hb'
  rw [hclear, Option.bind_some, hkept 5 (by decide) (by decide)] at hafter
  cases hafter

/-! ## Bounds -/

/-- No access outside of the fields, nothing accepted outside of the bitmap,
and nothing changed by a call that is rejected. -/
structure Bounded (b : ViBitmap) (n : UInt64) : Prop where
  test : ∃ r, viBitmapTest b n = some r
  setTo : ∀ v, ∃ x, viBitmapSetTo b n v = some x
  test_outside : b.bitCount ≤ n → viBitmapTest b n = some false
  setTo_outside : b.bitCount ≤ n → ∀ v b' r, viBitmapSetTo b n v = some (b', r) → r = false
  rejected : ∀ v b', viBitmapSetTo b n v = some (b', false) → b' = b

theorem setTo_rejected {v : Bool} (h : viBitmapSetTo b i v = some (b', false)) : b' = b := by
  unfold viBitmapSetTo at h
  split at h
  · exact (Prod.mk.inj (Option.some.inj h)).1.symm
  · obtain ⟨field, -, heq⟩ := Option.map_eq_some_iff.mp h
    cases (Prod.mk.inj heq).2

theorem refused (h : i > b.bitCount) (v : Bool) :
    viBitmapTest b i = some false ∧ viBitmapSetTo b i v = some (b, false) := by
  unfold viBitmapTest viBitmapSetTo
  exact ⟨if_pos h, if_pos h⟩

theorem setTo_size {v r : Bool} (h : viBitmapSetTo b b.bitCount v = some (b', r)) : r = true := by
  have hle : ¬ b.bitCount > b.bitCount := UInt64.lt_irrefl _
  unfold viBitmapSetTo at h
  rw [if_neg hle] at h
  obtain ⟨field, -, heq⟩ := Option.map_eq_some_iff.mp h
  exact (Prod.mk.inj heq).2.symm

/-- **Bounds.** The only bit number that `vi_bitmap_test` and
`vi_bitmap_set_to` get wrong is the size of the bitmap: the comparison lets it
through, and it is behind the last field if the size is a multiple of 64, and a
bit of no flag otherwise. -/
theorem bounded_iff (h : OfSize size b) (n : UInt64) : Bounded b n ↔ n ≠ size := by
  rw [← h.bitCount_eq]
  constructor
  · rintro hb rfl
    obtain ⟨⟨b', r⟩, hset⟩ := hb.setTo true
    have hfalse := hb.setTo_outside (UInt64.le_refl _) true b' r hset
    rw [setTo_size hset] at hfalse
    cases hfalse
  · intro hne
    by_cases hn : n < b.bitCount
    · have hns : n < size := by rwa [← h.bitCount_eq]
      have hnot : ¬ b.bitCount ≤ n := UInt64.not_le.mpr hn
      refine ⟨⟨_, h.test hns⟩, fun v => ?_, fun hle => absurd hle hnot,
        fun hle => absurd hle hnot, fun v b' => setTo_rejected⟩
      obtain ⟨b', hb', -⟩ := h.setTo_spec hns v
      exact ⟨_, hb'⟩
    · have hgt : n > b.bitCount := UInt64.lt_of_le_of_ne (UInt64.not_lt.mp hn) (Ne.symm hne)
      refine ⟨⟨_, (refused hgt true).1⟩, fun v => ⟨_, (refused hgt v).2⟩,
        fun _ => (refused hgt true).1, fun _ v b' r hset => ?_, fun v b' => setTo_rejected⟩
      rw [(refused hgt v).2] at hset
      exact (Prod.mk.inj (Option.some.inj hset)).2.symm

theorem bounded_iff_last : Bounded threeAndFive 127 :=
  (bounded_iff threeAndFive_ofSize 127).mpr (by decide)

/-- Bit 64 of 64 is outside of the fields; bit 70 of 70 can be set. -/
theorem size_not_bounded :
    let full : ViBitmap := ⟨[0], 1, 64⟩
    let odd : ViBitmap := ⟨[0, 0], 2, 70⟩
    viBitmapCreate 64 = some full ∧ viBitmapTest full 64 = none ∧ ¬ Bounded full 64 ∧
      viBitmapCreate 70 = some odd ∧
      ((viBitmapSet odd 70).bind fun x => viBitmapTest x.1 70) = some true ∧ ¬ Bounded odd 70 := by
  refine ⟨rfl, rfl, fun h => ?_, rfl, rfl, fun h => ?_⟩
  · obtain ⟨r, hr⟩ := h.test
    cases hr
  · have hfalse := h.setTo_outside (by decide) true _ _ rfl
    cases hfalse

end VersionSix.Bitmap
