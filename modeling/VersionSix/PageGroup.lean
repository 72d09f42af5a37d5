import Mathlib.Data.List.Nodup
import Mathlib.Data.Nat.Find
import Mathlib.Data.Nat.ModEq
import VersionSix.Bitmap
import VersionSix.Run

/-!
# Page groups

`mem/pagegroup.c`: the free pages of a group are the bits of its bitmap that
are not set. The macros of `page_group.h` turn a bit into the address of its
page and back; the product in `PAGE_GROUP_BIT_TO_ADDR` is one of two 32-bit
values. A result `none` is a division by zero or an access outside of the
bitmap.

So the addresses of a large group come round: page 2^20 gets the address of
page 0, its bit is never set, and it is handed out again and again. The other
exception is the page at the address 0, which is what a failed search returns.

`allocations_exact_iff` says that there are no others, for runs of any length.
The state between two allocations is that the first pages are handed out and no
more (`Handed`); it is kept as long as the product does not wrap around, and
what the first wrong address is follows from it.
-/

namespace VersionSix.Mem

open Bitmap

structure PageGroup where
  pageBitmap : ViBitmap
  physicalBase : UInt64
  numPages : UInt32
  pageSize : UInt32

/-! ## Functions -/

def pageGroupAddrToBit (group : PageGroup) (addr : UInt64) : UInt64 :=
  (addr - group.physicalBase) / group.pageSize.toUInt64

def pageGroupBitToAddr (group : PageGroup) (bit : UInt32) : UInt64 :=
  (bit * group.pageSize).toUInt64 + group.physicalBase

/-- The group after `page_group_setup_bitmap`, unless it returns `false`. -/
def pageGroupSetupBitmap (group : PageGroup) (size : UInt64) : Option PageGroup :=
  if group.pageSize = 0 then none
  else
    let numPages := (size / group.pageSize.toUInt64).toUInt32
    (viBitmapCreate numPages.toUInt64).map fun bitmap =>
      { group with pageBitmap := bitmap, numPages := numPages }

/-- The loop of `page_group_get_next_free` from page `i` on. -/
def nextFreeLoop (group : PageGroup) : Nat → UInt32 → Option UInt64
  | 0, _ => some 0
  | fuel + 1, i =>
      if i < group.numPages then
        (viBitmapTest group.pageBitmap i.toUInt64).bind fun taken =>
          if taken then nextFreeLoop group fuel (i + 1) else some (pageGroupBitToAddr group i)
      else some 0

/-- The loop makes a turn for each page. -/
def pageGroupGetNextFree (group : PageGroup) : Option UInt64 :=
  nextFreeLoop group group.numPages.toNat 0

def pageGroupAllocateNextFree (group : PageGroup) : Option (PageGroup × UInt64) :=
  (pageGroupGetNextFree group).bind fun addr =>
    if addr = 0 then some (group, 0)
    else
      if group.pageSize = 0 then none
      else
        (viBitmapSet group.pageBitmap (pageGroupAddrToBit group addr)).map fun (bitmap, _) =>
          ({ group with pageBitmap := bitmap }, addr)

/-! ## Runs -/

/-- The group after `n` allocations, and the addresses they returned. -/
def allocations (group : PageGroup) (n : Nat) : Option (PageGroup × List UInt64) :=
  Run.trace (fun g (_ : Unit) => pageGroupAllocateNextFree g) group (List.replicate n ())

/-- The address of page `i`. -/
def pageAddress (group : PageGroup) (i : Nat) : Nat :=
  group.physicalBase.toNat + i * group.pageSize.toNat

/-- What the addresses returned by the allocations of a run have to be. -/
structure Exact (group : PageGroup) (addrs : List UInt64) : Prop where
  distinct : (addrs.filter (· ≠ 0)).Nodup
  inside : ∀ a ∈ addrs, a ≠ 0 → group.physicalBase.toNat ≤ a.toNat ∧
    a.toNat < pageAddress group group.numPages.toNat
  aligned : ∀ a ∈ addrs, a ≠ 0 → 
    a.toNat ≡ group.physicalBase.toNat [MOD group.pageSize.toNat]
  exhausted : ∀ l r, addrs = l ++ 0 :: r → ∀ i < group.numPages.toNat,
    ∃ a ∈ l, a.toNat = pageAddress group i

/-! ## Conversions -/

variable {g g' : PageGroup} {k : Nat}

/-- The group fits into the address space; only the product can wrap around. -/
structure Fits (g : PageGroup) : Prop where
  pageSize : 0 < g.pageSize.toNat
  numPages : g.numPages.toNat < 2 ^ 31
  top : pageAddress g g.numPages.toNat ≤ 2 ^ 64

theorem Fits.ofNat_toNat (h : Fits g) {i : Nat} (hi : i ≤ g.numPages.toNat) :
    (UInt32.ofNat i).toNat = i :=
  UInt32.toNat_ofNat_of_lt' (Nat.lt_of_le_of_lt hi (Nat.lt_trans h.numPages (by decide)))

/-- Where the product puts page `i`. -/
def wrapped (g : PageGroup) (i : Nat) : Nat := i * g.pageSize.toNat % 2 ^ 32

theorem wrapped_of_lt {i : Nat} (h : i * g.pageSize.toNat < 2 ^ 32) :
    wrapped g i = i * g.pageSize.toNat := Nat.mod_eq_of_lt h

theorem Fits.wrapped_lt (h : Fits g) {i : Nat} (hi : i < g.numPages.toNat) :
    g.physicalBase.toNat + wrapped g i < 2 ^ 64 := by
  have hmul : (i + 1) * g.pageSize.toNat ≤ g.numPages.toNat * g.pageSize.toNat :=
    Nat.mul_le_mul_right _ hi
  have hmod : wrapped g i ≤ i * g.pageSize.toNat := Nat.mod_le ..
  have htop := h.top
  have hpos := h.pageSize
  unfold pageAddress at htop
  rw [Nat.add_mul, Nat.one_mul] at hmul
  omega

theorem Fits.bitToAddr (h : Fits g) {i : Nat} (hi : i < g.numPages.toNat) :
    (pageGroupBitToAddr g (UInt32.ofNat i)).toNat = g.physicalBase.toNat + wrapped g i := by
  have hlt := h.wrapped_lt hi
  unfold pageGroupBitToAddr
  rw [UInt64.toNat_add, UInt32.toNat_toUInt64, UInt32.toNat_mul,
    h.ofNat_toNat (Nat.le_of_lt hi), Nat.add_comm]
  exact Nat.mod_eq_of_lt hlt

theorem Fits.addrToBit (h : Fits g) {i : Nat} (hi : i < g.numPages.toNat) :
    (pageGroupAddrToBit g (pageGroupBitToAddr g (UInt32.ofNat i))).toNat
      = wrapped g i / g.pageSize.toNat := by
  have haddr := h.bitToAddr hi
  have hle : g.physicalBase ≤ pageGroupBitToAddr g (UInt32.ofNat i) := by
    rw [UInt64.le_iff_toNat_le, haddr]
    exact Nat.le_add_right ..
  unfold pageGroupAddrToBit
  rw [UInt64.toNat_div, UInt64.toNat_sub_of_le _ _ hle, haddr, Nat.add_sub_cancel_left,
    UInt32.toNat_toUInt64]

/-! ## One allocation -/

/-- The first `k` pages are handed out. -/
structure Handed (g : PageGroup) (k : Nat) : Prop where
  fits : Fits g
  bitmap : WellFormed g.pageBitmap
  count : g.pageBitmap.bitCount.toNat = g.numPages.toNat
  bit : ∀ i < g.numPages.toNat, g.pageBitmap.bit i = decide (i < k)

theorem Handed.test (h : Handed g k) {i : Nat} (hi : i < g.numPages.toNat) :
    viBitmapTest g.pageBitmap (UInt32.ofNat i).toUInt64 = some (decide (i < k)) := by
  have hofNat : (UInt32.ofNat i).toUInt64.toNat = i := by
    rw [UInt32.toNat_toUInt64, h.fits.ofNat_toNat (Nat.le_of_lt hi)]
  rw [viBitmapTest_spec h.bitmap (by rw [hofNat, h.count]; exact hi), hofNat, h.bit i hi]

theorem Handed.loop (h : Handed g k) {fuel i : Nat} (hfuel : i + fuel = g.numPages.toNat)
    (hik : i ≤ k) : nextFreeLoop g fuel (UInt32.ofNat i)
      = some (if k < g.numPages.toNat then pageGroupBitToAddr g (UInt32.ofNat k) else 0) := by
  induction fuel generalizing i with
  | zero =>
      rw [if_neg (by omega)]
      rfl
  | succ fuel ih =>
      have hlt : UInt32.ofNat i < g.numPages := by
        rw [UInt32.lt_iff_toNat_lt, h.fits.ofNat_toNat (by omega)]
        omega
      rw [nextFreeLoop, if_pos hlt, h.test (by omega), Option.bind_some]
      by_cases hlt : i < k
      · rw [decide_eq_true hlt, if_pos rfl, ← UInt32.ofNat_one, ← UInt32.ofNat_add]
        exact ih (by omega) hlt
      · obtain rfl : i = k := by omega
        rw [decide_eq_false hlt, if_neg (by simp), if_pos (by omega)]

theorem Handed.nextFree (h : Handed g k) : pageGroupGetNextFree g
      = some (if k < g.numPages.toNat then pageGroupBitToAddr g (UInt32.ofNat k) else 0) :=
  h.loop (Nat.zero_add _) (Nat.zero_le k)

theorem Handed.exhausted (h : Handed g g.numPages.toNat) :
    pageGroupAllocateNextFree g = some (g, 0) := by
  unfold pageGroupAllocateNextFree
  rw [h.nextFree, if_neg (Nat.lt_irrefl _), Option.bind_some, if_pos rfl]

/-- Address 0 stands for failure. -/
theorem Handed.allocate_zero (h : Handed g 0) (hone : 1 ≤ g.numPages.toNat)
    (hbase : g.physicalBase = 0) : pageGroupAllocateNextFree g = some (g, 0) := by
  have haddr : pageGroupBitToAddr g (UInt32.ofNat 0) = 0 := by
    refine UInt64.toNat_inj.mp ?_
    rw [h.fits.bitToAddr hone, hbase, wrapped, Nat.zero_mul]
    rfl
  unfold pageGroupAllocateNextFree
  rw [h.nextFree, if_pos (Nat.lt_of_lt_of_le Nat.zero_lt_one hone), haddr, Option.bind_some,
    if_pos rfl]

/-- Page `k` is found; the bit that is set belongs to where the product put it. -/
theorem Handed.allocate (h : Handed g k) (hk : k < g.numPages.toNat)
    (hbase : g.physicalBase ≠ 0) : ∃ b,
      pageGroupAllocateNextFree g
        = some ({ g with pageBitmap := b }, pageGroupBitToAddr g (UInt32.ofNat k)) ∧
      WellFormed b ∧ b.bitCount = g.pageBitmap.bitCount ∧
      ∀ j, b.bit j = (g.pageBitmap.bit j || decide (wrapped g k / g.pageSize.toNat = j)) := by
  have haddr : pageGroupBitToAddr g (UInt32.ofNat k) ≠ 0 := by
    intro hzero
    have hsum := h.fits.bitToAddr hk
    rw [hzero] at hsum
    have hbase' : g.physicalBase.toNat = 0 := by
      have hsum' : 0 = g.physicalBase.toNat + wrapped g k := hsum
      omega
    exact hbase (UInt64.toNat_inj.mp hbase')
  have hsize : g.pageSize ≠ 0 := by
    intro hzero
    have hpos := h.fits.pageSize
    rw [hzero] at hpos
    exact Nat.lt_irrefl 0 hpos
  have hbit := h.fits.addrToBit hk
  have hlt : wrapped g k / g.pageSize.toNat < g.numPages.toNat := by
    refine Nat.lt_of_le_of_lt ?_ hk
    calc wrapped g k / g.pageSize.toNat
        ≤ k * g.pageSize.toNat / g.pageSize.toNat := Nat.div_le_div_right (Nat.mod_le ..)
      _ = k := Nat.mul_div_cancel k h.fits.pageSize
  obtain ⟨b, hset, hwf, hcount, hbits⟩ := viBitmapSet_spec h.bitmap
    (i := pageGroupAddrToBit g (pageGroupBitToAddr g (UInt32.ofNat k)))
    (by rw [h.count, hbit]; exact hlt)
  refine ⟨b, ?_, hwf, hcount, fun j => by rw [hbits, hbit]⟩
  unfold pageGroupAllocateNextFree
  rw [h.nextFree, if_pos hk, Option.bind_some, if_neg haddr, if_neg hsize, hset]
  rfl

/-- As long as the product does not wrap around, this is the page's own bit. -/
theorem Handed.allocate_next (h : Handed g k) (hk : k < g.numPages.toNat)
    (hbase : g.physicalBase ≠ 0) (hprod : k * g.pageSize.toNat < 2 ^ 32) : ∃ b,
      pageGroupAllocateNextFree g
        = some ({ g with pageBitmap := b }, pageGroupBitToAddr g (UInt32.ofNat k)) ∧
      Handed { g with pageBitmap := b } (k + 1) := by
  obtain ⟨b, hb, hwf, hcount, hbits⟩ := h.allocate hk hbase
  refine ⟨b, hb, ⟨h.fits.pageSize, h.fits.numPages, h.fits.top⟩, hwf, hcount ▸ h.count,
    fun i hi => ?_⟩
  rw [wrapped_of_lt hprod, Nat.mul_div_cancel _ h.fits.pageSize] at hbits
  dsimp only at hi ⊢
  rw [hbits, h.bit i hi]
  by_cases hik : i < k
  · simp [hik, Nat.lt_succ_of_lt hik]
  · by_cases heq : k = i
    · simp [heq]
    · simp [hik, heq, show ¬ i < k + 1 by omega]

/-! ## Runs of allocations -/

theorem allocations_succ (g : PageGroup) (n : Nat) :
    allocations g (n + 1) = (pageGroupAllocateNextFree g).bind fun x =>
      (allocations x.1 n).map fun y => (y.1, x.2 :: y.2) := by
  rw [allocations, List.replicate_succ, Run.trace]
  rfl

theorem allocations_add (g : PageGroup) (m n : Nat) :
    allocations g (m + n) = (allocations g m).bind fun x =>
      (allocations x.1 n).map fun y => (y.1, x.2 ++ y.2) := by
  rw [allocations, List.replicate_add, Run.trace_append]
  rfl

/-- The addresses of `m` pages from page `k` on. -/
def addresses (g : PageGroup) (k m : Nat) : List UInt64 :=
  (List.range' k m).map fun i => pageGroupBitToAddr g (UInt32.ofNat i)

/-- The pages before the product wraps around are handed out in order. -/
theorem Handed.allocations (h : Handed g k) (hbase : g.physicalBase ≠ 0) {m : Nat}
    (hm : k + m ≤ g.numPages.toNat) (hprod : ∀ i < k + m, i * g.pageSize.toNat < 2 ^ 32) :
    ∃ b, allocations g m = some ({ g with pageBitmap := b }, addresses g k m) ∧
      Handed { g with pageBitmap := b } (k + m) := by
  induction m generalizing g k with
  | zero => exact ⟨g.pageBitmap, rfl, h⟩
  | succ m ih =>
      obtain ⟨b₁, hb₁, h₁⟩ := h.allocate_next (by omega) hbase (hprod k (by omega))
      obtain ⟨b₂, hb₂, h₂⟩ := ih h₁ hbase (by dsimp only; omega) fun i hi => hprod i (by omega)
      refine ⟨b₂, ?_, by rwa [Nat.add_assoc, Nat.add_comm 1] at h₂⟩
      rw [allocations_succ, hb₁, Option.bind_some, hb₂]
      rfl

theorem Handed.allocations_exhausted (h : Handed g g.numPages.toNat) (n : Nat) :
    Mem.allocations g n = some (g, List.replicate n 0) := by
  induction n with
  | zero => rfl
  | succ n ih =>
      rw [allocations_succ, h.exhausted, Option.bind_some, ih]
      rfl

theorem setup_cases {g₀ : PageGroup} {size : UInt64}
    (h : pageGroupSetupBitmap g₀ size = some g) :
    g.pageSize ≠ 0 ∧ WellFormed g.pageBitmap ∧
      g.pageBitmap.bitCount.toNat = g.numPages.toNat ∧ 1 ≤ g.numPages.toNat ∧
      ∀ j, g.pageBitmap.bit j = false := by
  unfold pageGroupSetupBitmap at h
  split at h
  · cases h
  · next hsize =>
      obtain ⟨b, hb, rfl⟩ := Option.map_eq_some_iff.mp h
      obtain ⟨hwf, hcount, hone, hbits⟩ := viBitmapCreate_spec hb
      have hcount' := congrArg UInt64.toNat hcount
      rw [UInt32.toNat_toUInt64] at hcount' hone
      exact ⟨hsize, hwf, hcount', hone, hbits⟩

theorem toNat_pos {x : UInt32} (h : x ≠ 0) : 0 < x.toNat :=
  Nat.pos_of_ne_zero fun hzero => h (UInt32.toNat_inj.mp hzero)

theorem setup_handed {g₀ : PageGroup} {size : UInt64} (h : pageGroupSetupBitmap g₀ size = some g)
    (htop : pageAddress g g.numPages.toNat ≤ 2 ^ 64) : Handed g 0 ∧ 1 ≤ g.numPages.toNat := by
  obtain ⟨hsize, hwf, hcount, hone, hbits⟩ := setup_cases h
  refine ⟨⟨⟨toNat_pos hsize, ?_, htop⟩, hwf, hcount, fun i _ => ?_⟩, hone⟩
  · exact hcount ▸ hwf.count
  · simpa using hbits i

/-! ## When every run is exact -/

variable {addrs : List UInt64}

theorem mem_addresses {m : Nat} {a : UInt64} :
    a ∈ addresses g 0 m ↔ ∃ i < m, pageGroupBitToAddr g (UInt32.ofNat i) = a := by
  simp [addresses]

/-- While the product does not wrap around, page `i` is where it belongs. -/
theorem Fits.bitToAddr_eq (h : Fits g) {i : Nat} (hi : i < g.numPages.toNat)
    (hprod : i * g.pageSize.toNat < 2 ^ 32) :
    (pageGroupBitToAddr g (UInt32.ofNat i)).toNat = pageAddress g i := by
  rw [h.bitToAddr hi, wrapped_of_lt hprod, pageAddress]

theorem Fits.bitToAddr_ne_zero (h : Fits g) (hbase : g.physicalBase ≠ 0) {i : Nat}
    (hi : i < g.numPages.toNat) : pageGroupBitToAddr g (UInt32.ofNat i) ≠ 0 := by
  intro hzero
  have hsum := h.bitToAddr hi
  rw [hzero, UInt64.toNat_zero] at hsum
  exact hbase (UInt64.toNat_inj.mp (Nat.add_eq_zero_iff.mp hsum.symm).1)

theorem pageAddress_inj (h : Fits g) {i j : Nat} (hij : pageAddress g i = pageAddress g j) :
    i = j :=
  Nat.eq_of_mul_eq_mul_right h.pageSize (Nat.add_left_cancel hij)

/-- Some pages in order, and nothing else until all of them are handed out. -/
theorem Fits.exact (h : Fits g) (hbase : g.physicalBase ≠ 0)
    (hprod : ∀ i < g.numPages.toNat, i * g.pageSize.toNat < 2 ^ 32) {m z : Nat}
    (hm : m ≤ g.numPages.toNat) (hz : z ≠ 0 → m = g.numPages.toNat) :
    Exact g (addresses g 0 m ++ List.replicate z 0) := by
  have hne : ∀ a ∈ addresses g 0 m, a ≠ 0 := by
    intro a ha
    obtain ⟨i, hi, rfl⟩ := mem_addresses.mp ha
    exact h.bitToAddr_ne_zero hbase (Nat.lt_of_lt_of_le hi hm)
  have hpage : ∀ a ∈ addresses g 0 m ++ List.replicate z 0, a ≠ 0 →
      ∃ i < m, a.toNat = pageAddress g i := by
    intro a ha hazero
    rcases List.mem_append.mp ha with ha | ha
    · obtain ⟨i, hi, rfl⟩ := mem_addresses.mp ha
      have hi' := Nat.lt_of_lt_of_le hi hm
      exact ⟨i, hi, h.bitToAddr_eq hi' (hprod i hi')⟩
    · exact absurd (List.eq_of_mem_replicate ha) hazero
  refine ⟨?_, fun a ha hazero => ?_, fun a ha hazero => ?_, fun l r hlr i hi => ?_⟩
  · have hzeros : (List.replicate z (0 : UInt64)).filter (· ≠ 0) = [] := by
      simp
    rw [List.filter_append, hzeros, List.append_nil, List.filter_eq_self.mpr (by simpa using hne)]
    refine List.Nodup.map_on (fun i hi j hj hij => ?_) List.nodup_range'
    have hi' : i < g.numPages.toNat := by
      rw [List.mem_range'_1] at hi
      omega
    have hj' : j < g.numPages.toNat := by
      rw [List.mem_range'_1] at hj
      omega
    refine pageAddress_inj h ?_
    rw [← h.bitToAddr_eq hi' (hprod i hi'), hij, h.bitToAddr_eq hj' (hprod j hj')]
  · obtain ⟨i, hi, ha'⟩ := hpage a ha hazero
    rw [ha']
    refine ⟨Nat.le_add_right .., Nat.add_lt_add_left ?_ _⟩
    exact Nat.mul_lt_mul_of_pos_right (Nat.lt_of_lt_of_le hi hm) h.pageSize
  · obtain ⟨i, -, ha'⟩ := hpage a ha hazero
    rw [ha', pageAddress, Nat.add_modEq_left_iff]
    exact Nat.dvd_mul_left ..
  · -- the first 0 stands behind the addresses
    have hall : z ≠ 0 ∧ ∀ a ∈ addresses g 0 m, a ∈ l := by
      rcases List.append_eq_append_iff.mp hlr with ⟨c, rfl, hc⟩ | ⟨c, hc, hc'⟩
      · refine ⟨?_, fun a ha => List.mem_append_left _ ha⟩
        rintro rfl
        simp at hc
      · cases c with
        | nil =>
            rw [List.append_nil] at hc
            refine ⟨?_, fun a ha => hc ▸ ha⟩
            rintro rfl
            simp at hc'
        | cons x c =>
            obtain ⟨rfl, -⟩ := List.cons.inj hc'
            exact absurd rfl (hne 0 (by rw [hc]; simp))
    rw [← hz hall.1] at hi
    have hi' := Nat.lt_of_lt_of_le hi hm
    exact ⟨_, hall.2 _ (mem_addresses.mpr ⟨i, hi, rfl⟩), h.bitToAddr_eq hi' (hprod i hi')⟩

/-- The page at which the product wraps around for the first time. -/
theorem first_wrapped (hps : 0 < g.pageSize.toNat) {n : Nat}
    (hn : 2 ^ 32 ≤ n * g.pageSize.toNat) : ∃ i ≤ n, 0 < i ∧
      (∀ j < i, j * g.pageSize.toNat < 2 ^ 32) ∧ wrapped g i < g.pageSize.toNat := by
  have hex : ∃ i, 2 ^ 32 ≤ i * g.pageSize.toNat := ⟨n, hn⟩
  have hbefore : ∀ j < Nat.find hex, j * g.pageSize.toNat < 2 ^ 32 := fun j hj =>
    Nat.lt_of_not_le (Nat.find_min hex hj)
  have hfound := Nat.find_spec hex
  refine ⟨Nat.find hex, Nat.find_min' hex hn, Nat.pos_of_ne_zero fun hzero => ?_, hbefore, ?_⟩
  · rw [hzero, Nat.zero_mul] at hfound
    exact absurd hfound (by decide)
  · obtain ⟨i, hi⟩ : ∃ i, Nat.find hex = i + 1 := by
      refine Nat.exists_eq_succ_of_ne_zero fun hzero => ?_
      rw [hzero, Nat.zero_mul] at hfound
      exact absurd hfound (by decide)
    have hprev := hbefore i (by omega)
    have hword : g.pageSize.toNat < 2 ^ 32 := g.pageSize.toNat_lt
    rw [hi, Nat.add_mul, Nat.one_mul] at hfound
    unfold wrapped
    rw [hi, Nat.add_mul, Nat.one_mul]
    omega

/-- **Allocation is exact** in every run exactly if page 0 is not at address 0
and the last page lies less than 2^32 bytes behind it. Exact means that the
pages come in order, each one once, and then none. Otherwise the first page
with a wrong address is the end of the exact part: the run that reaches it is
the counterexample. -/
theorem allocations_exact_iff {g₀ : PageGroup} {size : UInt64}
    (hsetup : pageGroupSetupBitmap g₀ size = some g)
    (htop : pageAddress g g.numPages.toNat ≤ 2 ^ 64) :
    (∀ n, ∃ g' addrs, allocations g n = some (g', addrs) ∧ Exact g addrs) ↔
      g.physicalBase ≠ 0 ∧ (g.numPages.toNat - 1) * g.pageSize.toNat < 2 ^ 32 := by
  obtain ⟨h, hone⟩ := setup_handed hsetup htop
  constructor
  · intro hexact
    have hbase : g.physicalBase ≠ 0 := by
      intro hbase
      obtain ⟨g', addrs, hrun, haddrs⟩ := hexact 1
      rw [allocations_succ, h.allocate_zero hone hbase] at hrun
      obtain ⟨-, rfl⟩ := Prod.mk.inj (Option.some.inj hrun)
      obtain ⟨a, ha, -⟩ := haddrs.exhausted [] [] rfl 0 hone
      exact List.not_mem_nil ha
    refine ⟨hbase, ?_⟩
    by_contra hwrap
    obtain ⟨i, hi, hpos, hbefore, hsmall⟩ := first_wrapped h.fits.pageSize (Nat.le_of_not_lt hwrap)
    have hinum : i < g.numPages.toNat := by omega
    obtain ⟨b₁, hb₁, h₁⟩ := h.allocations hbase (m := i) (by omega) fun j hj => hbefore j (by omega)
    rw [Nat.zero_add] at h₁
    obtain ⟨b₂, hb₂, -⟩ := h₁.allocate hinum hbase
    obtain ⟨g', addrs, hrun, haddrs⟩ := hexact (i + 1)
    rw [allocations_add, hb₁, Option.bind_some, allocations_succ, hb₂] at hrun
    obtain ⟨-, rfl⟩ := Prod.mk.inj (Option.some.inj hrun)
    -- page `i` is aligned only if the product wraps around to page 0
    have hi0 := h.fits.bitToAddr_ne_zero hbase hinum
    have haligned := haddrs.aligned _ (List.mem_append_right _ (List.mem_singleton_self _)) hi0
    have hbit : pageGroupBitToAddr { g with pageBitmap := b₁ } (UInt32.ofNat i)
        = pageGroupBitToAddr g (UInt32.ofNat i) := rfl
    rw [hbit, h.fits.bitToAddr hinum] at haligned
    have hzero : wrapped g i = 0 :=
      Nat.eq_zero_of_dvd_of_lt (Nat.add_modEq_left_iff.mp haligned) hsmall
    have hsame : pageGroupBitToAddr g (UInt32.ofNat 0) = pageGroupBitToAddr g (UInt32.ofNat i) := by
      refine UInt64.toNat_inj.mp ?_
      rw [h.fits.bitToAddr hone, h.fits.bitToAddr hinum, hzero, wrapped_of_lt (hbefore 0 hpos),
        Nat.zero_mul]
    have hdistinct := haddrs.distinct
    rw [List.filter_append, List.nodup_append] at hdistinct
    have hfirst : pageGroupBitToAddr g (UInt32.ofNat 0) ∈ addresses g 0 i :=
      mem_addresses.mpr ⟨0, hpos, rfl⟩
    refine hdistinct.2.2 _ (List.mem_filter.mpr ⟨hfirst, ?_⟩) _ (List.mem_filter.mpr
      ⟨List.mem_singleton_self _, ?_⟩) hsame
    · exact decide_eq_true (h.fits.bitToAddr_ne_zero hbase hone)
    · exact decide_eq_true hi0
  · rintro ⟨hbase, hlast⟩ n
    have hprod : ∀ i < g.numPages.toNat, i * g.pageSize.toNat < 2 ^ 32 := fun i hi =>
      Nat.lt_of_le_of_lt (Nat.mul_le_mul_right _ (Nat.le_sub_one_of_lt hi)) hlast
    obtain ⟨b, hb, hb'⟩ := h.allocations hbase (m := min n g.numPages.toNat) (by omega)
      fun i hi => hprod i (by omega)
    by_cases hn : n ≤ g.numPages.toNat
    · rw [Nat.min_eq_left hn] at hb
      have hexact := h.fits.exact hbase hprod (z := 0) hn fun hzero => absurd rfl hzero
      exact ⟨_, _, hb, by simpa using hexact⟩
    · rw [Nat.min_eq_right (by omega)] at hb hb'
      obtain ⟨z, rfl⟩ : ∃ z, n = g.numPages.toNat + z := ⟨n - g.numPages.toNat, by omega⟩
      rw [Nat.zero_add] at hb'
      refine ⟨{ g with pageBitmap := b }, _, ?_,
        h.fits.exact hbase hprod (z := z) (Nat.le_refl _) fun _ => rfl⟩
      rw [allocations_add, hb, Option.bind_some, Handed.allocations_exhausted hb']
      rfl

/-! ### Two groups -/

/-- A group at 4096, before its bitmap is set up. -/
def newGroup (pageSize : UInt32) : PageGroup where
  pageBitmap := { fields := [], fieldCount := 0, bitCount := 0 }
  physicalBase := 4096
  numPages := 0
  pageSize := pageSize

/-- A group at 4096 without a page handed out. -/
def freeGroup (numPages pageSize : UInt32) : PageGroup where
  pageBitmap := { fields := [0], fieldCount := 1, bitCount := numPages.toUInt64 }
  physicalBase := 4096
  numPages := numPages
  pageSize := pageSize

theorem allocations_exact_iff_smallPages :
    pageGroupSetupBitmap (newGroup 4096) 0x2000 = some (freeGroup 2 4096) ∧
      ∀ n, ∃ g' addrs, allocations (freeGroup 2 4096) n = some (g', addrs) ∧
        Exact (freeGroup 2 4096) addrs :=
  have hsetup : pageGroupSetupBitmap (newGroup 4096) 0x2000 = some (freeGroup 2 4096) := rfl
  ⟨hsetup, (allocations_exact_iff hsetup (by decide)).mpr (by decide)⟩

/-- Of five pages of 1 GiB the fifth is the first again. -/
theorem fifth_page_repeats :
    pageGroupSetupBitmap (newGroup 0x40000000) 0x140000000 = some (freeGroup 5 0x40000000) ∧
      pageAddress (freeGroup 5 0x40000000) 5 ≤ 2 ^ 64 ∧
      ¬ ∀ n, ∃ g' addrs, allocations (freeGroup 5 0x40000000) n = some (g', addrs) ∧
        Exact (freeGroup 5 0x40000000) addrs := by
  refine ⟨rfl, by decide, fun hexact => ?_⟩
  obtain ⟨g', addrs, hrun, haddrs⟩ := hexact 5
  have hany : (allocations (freeGroup 5 0x40000000) 5).map Prod.snd
      = some [4096, 0x40001000, 0x80001000, 0xC0001000, 4096] := by
    decide +kernel
  rw [hrun, Option.map_some] at hany
  obtain rfl := Option.some.inj hany
  exact absurd haddrs.distinct (by decide)

end VersionSix.Mem
