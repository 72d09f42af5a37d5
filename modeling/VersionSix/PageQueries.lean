import VersionSix.PageGroup

/-!
# Page group queries

`page_group_is_free` and `page_group_is_num_free` of `mem/pagegroup.c`. Both
return the result of `vi_bitmap_test`, which is true of a page that has been
handed out: in every state that allocations lead to they answer the opposite of
what their names ask, for page 0 at least, and every group has a page 0
(`queries_never_agree`).

A single answer can still be right (`queries_right_iff`). For a page number it
is so just when the group has no such page. For an address it is when no page
of the group has it, or when it lies behind the end that the 32-bit product
gives the group, where the function answers that nothing is free.

What a run of allocations leaves is all that is needed (`Marked`): the set bits
are those of the addresses that were returned, and the first of these was page
0.
-/

namespace VersionSix.Mem

open Bitmap

/-! ## Functions -/

/-- The product is one of two 32-bit values here as well. -/
def pageGroupIsFree (group : PageGroup) (addr : UInt64) : Option Bool :=
  if addr < group.physicalBase ∨
      addr > group.physicalBase + (group.numPages * group.pageSize).toUInt64 then some false
  else if group.pageSize = 0 then none
  else viBitmapTest group.pageBitmap (pageGroupAddrToBit group addr)

def pageGroupIsNumFree (group : PageGroup) (number : UInt32) : Option Bool :=
  viBitmapTest group.pageBitmap number.toUInt64

/-! ## Agreement -/

/-- The address lies in page `k`. -/
def InPage (g : PageGroup) (k : Nat) (a : UInt64) : Prop :=
  pageAddress g k ≤ a.toNat ∧ a.toNat < pageAddress g (k + 1)

/-- Page `k` is one of those that were returned. -/
def HandedOut (g : PageGroup) (addrs : List UInt64) (k : Nat) : Prop :=
  ∃ a ∈ addrs, a ≠ 0 ∧ InPage g k a

/-- What `page_group_is_free` has to answer about an address. -/
def FreeRight (g : PageGroup) (addrs : List UInt64) (a : UInt64) : Prop :=
  pageGroupIsFree g a = some true ↔
    ∃ k < g.numPages.toNat, InPage g k a ∧ ¬ HandedOut g addrs k

/-- What `page_group_is_num_free` has to answer about a page number. -/
def NumFreeRight (g : PageGroup) (addrs : List UInt64) (k : UInt32) : Prop :=
  pageGroupIsNumFree g k = some true ↔ k < g.numPages ∧ ¬ HandedOut g addrs k.toNat

/-- What the queries have to answer after allocations that returned `addrs`. -/
structure Agree (g : PageGroup) (addrs : List UInt64) : Prop where
  isFree : ∀ a, FreeRight g addrs a
  isNumFree : ∀ k, NumFreeRight g addrs k
  nextFree : ∀ k, pageGroupIsNumFree g k = some true →
    (∀ j < k, pageGroupIsNumFree g j ≠ some true) →
    ∃ a, pageGroupGetNextFree g = some a ∧ a.toNat = pageAddress g k.toNat

/-! ## Bits -/

variable {g g' : PageGroup} {addrs : List UInt64}

/-- The bitmap has a bit for each page. -/
structure Charted (g : PageGroup) : Prop where
  bitmap : WellFormed g.pageBitmap
  count : g.pageBitmap.bitCount.toNat = g.numPages.toNat

theorem Charted.numPages_lt (h : Charted g) : g.numPages.toNat < 2 ^ 31 :=
  h.count ▸ h.bitmap.count

theorem Charted.ofNat_toNat (h : Charted g) {i : Nat} (hi : i ≤ g.numPages.toNat) :
    (UInt32.ofNat i).toNat = i :=
  UInt32.toNat_ofNat_of_lt' (Nat.lt_of_le_of_lt hi (Nat.lt_trans h.numPages_lt (by decide)))

theorem Charted.test (h : Charted g) {i : UInt32} (hi : i < g.numPages) :
    viBitmapTest g.pageBitmap i.toUInt64 = some (g.pageBitmap.bit i.toNat) := by
  rw [UInt32.lt_iff_toNat_lt] at hi
  have hcount : i.toUInt64.toNat < g.pageBitmap.bitCount.toNat := by
    rw [UInt32.toNat_toUInt64, h.count]
    exact hi
  rw [viBitmapTest_spec h.bitmap hcount, UInt32.toNat_toUInt64]

/-- The page whose bit belongs to an address comes from the 32-bit product. -/
theorem addrToBit_bitToAddr (g : PageGroup) (i : UInt32) :
    (pageGroupAddrToBit g (pageGroupBitToAddr g i)).toNat
      = i.toNat * g.pageSize.toNat % 2 ^ 32 / g.pageSize.toNat := by
  unfold pageGroupAddrToBit pageGroupBitToAddr
  rw [UInt64.add_sub_cancel, UInt64.toNat_div, UInt32.toNat_toUInt64, UInt32.toNat_toUInt64,
    UInt32.toNat_mul]

/-- The loop finds a page that is not set, the one it starts at if it is one. -/
theorem Charted.loop (h : Charted g) {fuel i : Nat} (hfuel : i + fuel = g.numPages.toNat) :
    ∃ a, nextFreeLoop g fuel (UInt32.ofNat i) = some a ∧
      (a ≠ 0 → ∃ j : UInt32, j < g.numPages ∧ pageGroupBitToAddr g j = a) ∧
      (0 < fuel → g.pageBitmap.bit i = false → a = pageGroupBitToAddr g (UInt32.ofNat i)) := by
  induction fuel generalizing i with
  | zero =>
      refine ⟨0, rfl, fun hne => absurd rfl hne, fun hpos => absurd hpos (Nat.lt_irrefl 0)⟩
  | succ fuel ih =>
      have hi : (UInt32.ofNat i).toNat = i := h.ofNat_toNat (by omega)
      have hlt : UInt32.ofNat i < g.numPages := by
        rw [UInt32.lt_iff_toNat_lt, hi]
        omega
      rw [nextFreeLoop, if_pos hlt, h.test hlt, Option.bind_some, hi]
      cases hbit : g.pageBitmap.bit i with
      | false => exact ⟨_, by simp, fun _ => ⟨_, hlt, rfl⟩, fun _ _ => rfl⟩
      | true =>
          obtain ⟨a, ha, hfound, -⟩ := ih (i := i + 1) (by omega)
          rw [UInt32.ofNat_add] at ha
          exact ⟨a, by simpa using ha, hfound, fun _ hfalse => by cases hfalse⟩

/-! ## Runs of allocations -/

/-- The bits are those of the addresses, and page 0 was the first of them. -/
structure Marked (g : PageGroup) (addrs : List UInt64) : Prop where
  charted : Charted g
  pageSize : g.pageSize ≠ 0
  numPages : 0 < g.numPages.toNat
  bit : ∀ j, g.pageBitmap.bit j = true ↔
    ∃ a ∈ addrs, a ≠ 0 ∧ (pageGroupAddrToBit g a).toNat = j
  page : ∀ a ∈ addrs, a ≠ 0 → ∃ i : UInt32, i < g.numPages ∧ pageGroupBitToAddr g i = a
  first : ∀ a ∈ addrs, a ≠ 0 → g.physicalBase ≠ 0 ∧ g.physicalBase ∈ addrs

theorem setup_marked {g₀ : PageGroup} {size : UInt64}
    (h : pageGroupSetupBitmap g₀ size = some g) : Marked g [] := by
  obtain ⟨hsize, hwf, hcount, hone, hbits⟩ := setup_cases h
  refine ⟨⟨hwf, hcount⟩, hsize, hone, fun j => ?_, fun a ha => ?_, fun a ha => ?_⟩
  · simp [hbits j]
  · cases ha
  · cases ha

theorem bitToAddr_zero (g : PageGroup) :
    pageGroupBitToAddr g (UInt32.ofNat 0) = g.physicalBase := by
  unfold pageGroupBitToAddr
  simp

/-- An address 0 changes nothing, as far as the bits are concerned. -/
theorem Marked.zero (h : Marked g addrs) : Marked g (addrs ++ [0]) := by
  have hold : ∀ a ∈ addrs ++ [0], a ≠ 0 → a ∈ addrs := by
    intro a ha hne
    rcases List.mem_append.mp ha with ha | ha
    · exact ha
    · exact absurd (List.mem_singleton.mp ha) hne
  refine ⟨h.charted, h.pageSize, h.numPages, fun j => ?_, fun a ha hne => ?_, fun a ha hne => ?_⟩
  · rw [h.bit]
    constructor
    · rintro ⟨a, ha, hne, hj⟩
      exact ⟨a, List.mem_append_left _ ha, hne, hj⟩
    · rintro ⟨a, ha, hne, hj⟩
      exact ⟨a, hold a ha hne, hne, hj⟩
  · exact h.page a (hold a ha hne) hne
  · obtain ⟨hbase, hmem⟩ := h.first a (hold a ha hne) hne
    exact ⟨hbase, List.mem_append_left _ hmem⟩

theorem Marked.found (h : Marked g addrs) {a : UInt64} {b : ViBitmap} (hne : a ≠ 0)
    (hpage : ∃ i : UInt32, i < g.numPages ∧ pageGroupBitToAddr g i = a)
    (hfirst : g.pageBitmap.bit 0 = false → a = g.physicalBase)
    (hwf : WellFormed b) (hcount : b.bitCount = g.pageBitmap.bitCount)
    (hbits : ∀ j, b.bit j = (g.pageBitmap.bit j || decide ((pageGroupAddrToBit g a).toNat = j))) :
    Marked { g with pageBitmap := b } (addrs ++ [a]) := by
  refine ⟨⟨hwf, hcount ▸ h.charted.count⟩, h.pageSize, h.numPages, fun j => ?_,
    fun a' ha' hne' => ?_, fun a' ha' hne' => ?_⟩
  · dsimp only
    rw [hbits, Bool.or_eq_true, h.bit, decide_eq_true_eq]
    constructor
    · rintro (⟨a', ha', hne', hj⟩ | hj)
      · exact ⟨a', List.mem_append_left _ ha', hne', hj⟩
      · exact ⟨a, List.mem_append_right _ (List.mem_singleton_self a), hne, hj⟩
    · rintro ⟨a', ha', hne', hj⟩
      rcases List.mem_append.mp ha' with ha' | ha'
      · exact Or.inl ⟨a', ha', hne', hj⟩
      · obtain rfl := List.mem_singleton.mp ha'
        exact Or.inr hj
  · rcases List.mem_append.mp ha' with ha' | ha'
    · exact h.page a' ha' hne'
    · rw [List.mem_singleton.mp ha']
      exact hpage
  · -- either page 0 is taken already, or it is the page that was found
    cases hbit : g.pageBitmap.bit 0 with
    | false =>
        have hbase := hfirst hbit
        exact ⟨hbase ▸ hne, List.mem_append_right _ (hbase ▸ List.mem_singleton_self a)⟩
    | true =>
        obtain ⟨a₀, ha₀, hne₀, -⟩ := (h.bit 0).mp hbit
        obtain ⟨hbase, hmem⟩ := h.first a₀ ha₀ hne₀
        exact ⟨hbase, List.mem_append_left _ hmem⟩

theorem Marked.bit_lt (h : Marked g addrs) {i : UInt32} (hi : i < g.numPages) :
    (pageGroupAddrToBit g (pageGroupBitToAddr g i)).toNat < g.numPages.toNat := by
  have hpos := toNat_pos h.pageSize
  rw [UInt32.lt_iff_toNat_lt] at hi
  refine Nat.lt_of_le_of_lt ?_ hi
  rw [addrToBit_bitToAddr]
  calc i.toNat * g.pageSize.toNat % 2 ^ 32 / g.pageSize.toNat
      ≤ i.toNat * g.pageSize.toNat / g.pageSize.toNat := Nat.div_le_div_right (Nat.mod_le ..)
    _ = i.toNat := Nat.mul_div_cancel _ hpos

theorem Marked.allocate (h : Marked g addrs) : ∃ b a,
    pageGroupAllocateNextFree g = some ({ g with pageBitmap := b }, a) ∧
      Marked { g with pageBitmap := b } (addrs ++ [a]) := by
  obtain ⟨a, ha, hpage, hfirst⟩ := h.charted.loop (Nat.zero_add _)
  have hnext : pageGroupGetNextFree g = some a := ha
  unfold pageGroupAllocateNextFree
  rw [hnext, Option.bind_some]
  by_cases hne : a = 0
  · subst hne
    exact ⟨g.pageBitmap, 0, if_pos rfl, h.zero⟩
  · obtain ⟨i, hi, rfl⟩ := hpage hne
    obtain ⟨b, hset, hwf, hcount, hbits⟩ := viBitmapSet_spec h.charted.bitmap
      (i := pageGroupAddrToBit g (pageGroupBitToAddr g i))
      (by rw [h.charted.count]; exact h.bit_lt hi)
    rw [if_neg hne, if_neg h.pageSize, hset]
    refine ⟨_, _, rfl, h.found hne ⟨i, hi, rfl⟩ (fun hbit => ?_) hwf hcount hbits⟩
    rw [hfirst h.numPages hbit, bitToAddr_zero]

/-- **Every run marks what it hands out.** -/
theorem allocations_marked {g₀ : PageGroup} {size : UInt64}
    (hsetup : pageGroupSetupBitmap g₀ size = some g) (n : Nat) :
    ∃ b addrs, allocations g n = some ({ g with pageBitmap := b }, addrs) ∧
      Marked { g with pageBitmap := b } addrs := by
  have hstep : ∀ s as (_ : Unit), (∃ b, s = { g with pageBitmap := b } ∧ Marked s as) →
      ∃ s' a, pageGroupAllocateNextFree s = some (s', a) ∧
        ∃ b, s' = { g with pageBitmap := b } ∧ Marked s' (as ++ [a]) := by
    rintro s as - ⟨b, rfl, h⟩
    obtain ⟨b', a, hrun, h'⟩ := h.allocate
    exact ⟨_, a, hrun, b', rfl, h'⟩
  obtain ⟨g', addrs, hrun, b, rfl, h⟩ :=
    Run.trace_total hstep ⟨_, rfl, setup_marked hsetup⟩ (List.replicate n ())
  exact ⟨b, addrs, hrun, h⟩

/-! ## What the queries answer -/

theorem Marked.isNumFree (h : Marked g addrs) {k : UInt32} (hk : k < g.numPages) :
    pageGroupIsNumFree g k = some (g.pageBitmap.bit k.toNat) :=
  h.charted.test hk

theorem InPage.addrToBit {k : Nat} {a : UInt64} (hsize : g.pageSize ≠ 0) (h : InPage g k a) :
    (pageGroupAddrToBit g a).toNat = k := by
  obtain ⟨hlow, hhigh⟩ := h
  unfold pageAddress at hlow hhigh
  have hle : g.physicalBase ≤ a := by
    rw [UInt64.le_iff_toNat_le]
    omega
  have hpos := toNat_pos hsize
  rw [Nat.add_mul, Nat.one_mul] at hhigh
  unfold pageGroupAddrToBit
  rw [UInt64.toNat_div, UInt64.toNat_sub_of_le _ _ hle, UInt32.toNat_toUInt64]
  refine Nat.div_eq_of_lt_le (by omega) ?_
  rw [Nat.succ_mul]
  omega

/-- The bit of page 0 tells whether it has been handed out. -/
theorem Marked.bit_zero (h : Marked g addrs) :
    g.pageBitmap.bit 0 = true ↔ HandedOut g addrs 0 := by
  rw [h.bit]
  constructor
  · rintro ⟨a, ha, hne, -⟩
    obtain ⟨hbase, hmem⟩ := h.first a ha hne
    refine ⟨_, hmem, hbase, ?_, ?_⟩
    · simp [pageAddress]
    · simpa [pageAddress] using toNat_pos h.pageSize
  · rintro ⟨a, ha, hne, hin⟩
    exact ⟨a, ha, hne, hin.addrToBit h.pageSize⟩

/-- Behind the base the macro names the page an address lies in. -/
theorem inPage_addrToBit (hsize : g.pageSize ≠ 0) {a : UInt64} (hle : g.physicalBase ≤ a) :
    InPage g (pageGroupAddrToBit g a).toNat a := by
  have hpos := toNat_pos hsize
  have hdiv := Nat.div_add_mod (a.toNat - g.physicalBase.toNat) g.pageSize.toNat
  have hmod := Nat.mod_lt (a.toNat - g.physicalBase.toNat) hpos
  rw [Nat.mul_comm] at hdiv
  unfold InPage pageAddress pageGroupAddrToBit
  rw [UInt64.toNat_div, UInt64.toNat_sub_of_le _ _ hle, UInt32.toNat_toUInt64, Nat.add_mul,
    Nat.one_mul]
  rw [UInt64.le_iff_toNat_le] at hle
  omega

/-- In a group that ends within the address space every bit does. -/
theorem Marked.bit_iff (h : Marked g addrs) (htop : pageAddress g g.numPages.toNat ≤ 2 ^ 64)
    (k : Nat) : g.pageBitmap.bit k = true ↔ HandedOut g addrs k := by
  have hpos := toNat_pos h.pageSize
  have hfits : Fits g := ⟨hpos, h.charted.numPages_lt, htop⟩
  rw [h.bit]
  constructor
  · rintro ⟨a, ha, hne, rfl⟩
    obtain ⟨i, hi, rfl⟩ := h.page a ha hne
    have haddr := hfits.bitToAddr (UInt32.lt_iff_toNat_lt.mp hi)
    rw [UInt32.ofNat_toNat] at haddr
    refine ⟨_, ha, hne, inPage_addrToBit h.pageSize ?_⟩
    rw [UInt64.le_iff_toNat_le, haddr]
    exact Nat.le_add_right _ _
  · rintro ⟨a, ha, hne, hin⟩
    exact ⟨a, ha, hne, hin.addrToBit h.pageSize⟩

/-- Bits of pages that the group does not have are never set. -/
theorem Marked.lt_of_bit (h : Marked g addrs) {j : Nat} (hbit : g.pageBitmap.bit j = true) :
    j < g.numPages.toNat := by
  obtain ⟨a, ha, hne, rfl⟩ := (h.bit j).mp hbit
  obtain ⟨i, hi, rfl⟩ := h.page a ha hne
  exact h.bit_lt hi

/-- The answer for a page number: whether the page has been handed out. -/
theorem Marked.isNumFree_iff (h : Marked g addrs) (htop : pageAddress g g.numPages.toNat ≤ 2 ^ 64)
    (k : UInt32) :
    pageGroupIsNumFree g k = some true ↔ k < g.numPages ∧ HandedOut g addrs k.toNat := by
  rw [← h.bit_iff htop]
  constructor
  · intro htest
    have hbit := h.charted.bitmap.bit_of_test htest
    rw [UInt32.toNat_toUInt64] at hbit
    exact ⟨UInt32.lt_iff_toNat_lt.mpr (h.lt_of_bit hbit), hbit⟩
  · rintro ⟨hk, hbit⟩
    rw [h.isNumFree hk, hbit]

/-- The end of the group as `page_group_is_free` computes it. -/
def groupEnd (g : PageGroup) : UInt64 :=
  g.physicalBase + (g.numPages * g.pageSize).toUInt64

/-- The answer for an address: whether its page has been handed out, up to the end that the
32-bit product gives the group. -/
theorem Marked.isFree_iff (h : Marked g addrs) (htop : pageAddress g g.numPages.toNat ≤ 2 ^ 64)
    (a : UInt64) : pageGroupIsFree g a = some true ↔
      a ≤ groupEnd g ∧ ∃ k < g.numPages.toNat, InPage g k a ∧ HandedOut g addrs k := by
  have hpage : ∀ {k}, InPage g k a → g.physicalBase ≤ a := by
    intro k hin
    rw [UInt64.le_iff_toNat_le]
    exact Nat.le_trans (Nat.le_add_right _ _) hin.1
  constructor
  · intro hfree
    unfold pageGroupIsFree at hfree
    split at hfree
    · cases hfree
    · next hrange =>
        rw [if_neg h.pageSize] at hfree
        rw [not_or, UInt64.not_lt, gt_iff_lt, UInt64.not_lt] at hrange
        have hbit := h.charted.bitmap.bit_of_test hfree
        exact ⟨hrange.2, _, h.lt_of_bit hbit, inPage_addrToBit h.pageSize hrange.1,
          (h.bit_iff htop _).mp hbit⟩
  · rintro ⟨hend, k, hk, hin, hout⟩
    have hbit := hin.addrToBit h.pageSize
    have hcount : (pageGroupAddrToBit g a).toNat < g.pageBitmap.bitCount.toNat := by
      rw [hbit, h.charted.count]
      exact hk
    have hrange : ¬ (a < g.physicalBase ∨ a > groupEnd g) := by
      rw [not_or, UInt64.not_lt, gt_iff_lt, UInt64.not_lt]
      exact ⟨hpage hin, hend⟩
    unfold pageGroupIsFree
    rw [if_neg h.pageSize, viBitmapTest_spec h.charted.bitmap hcount, hbit,
      (h.bit_iff htop k).mpr hout]
    exact if_neg hrange

theorem InPage.unique {j k : Nat} {a : UInt64} (hsize : g.pageSize ≠ 0) (hj : InPage g j a)
    (hk : InPage g k a) : j = k :=
  (hj.addrToBit hsize).symm.trans (hk.addrToBit hsize)

theorem Marked.numFreeRight_iff (h : Marked g addrs)
    (htop : pageAddress g g.numPages.toNat ≤ 2 ^ 64) (k : UInt32) :
    NumFreeRight g addrs k ↔ g.numPages ≤ k := by
  rw [NumFreeRight, h.isNumFree_iff htop]
  by_cases hk : k < g.numPages
  · have hle : ¬ g.numPages ≤ k := UInt32.not_le.mpr hk
    simp [hk, hle]
  · have hle : g.numPages ≤ k := UInt32.not_lt.mp hk
    simp [hk, hle]

theorem Marked.freeRight_iff (h : Marked g addrs)
    (htop : pageAddress g g.numPages.toNat ≤ 2 ^ 64) (a : UInt64) :
    FreeRight g addrs a ↔
      ∀ k < g.numPages.toNat, InPage g k a → HandedOut g addrs k ∧ groupEnd g < a := by
  rw [FreeRight, h.isFree_iff htop]
  constructor
  · intro hright k hk hin
    have hout : HandedOut g addrs k := by
      by_contra hout
      obtain ⟨-, k', -, hin', hout'⟩ := hright.mpr ⟨k, hk, hin, hout⟩
      obtain rfl := hin.unique h.pageSize hin'
      exact hout hout'
    refine ⟨hout, UInt64.not_le.mp fun hend => ?_⟩
    obtain ⟨k', -, hin', hout'⟩ := hright.mp ⟨hend, k, hk, hin, hout⟩
    obtain rfl := hin.unique h.pageSize hin'
    exact hout' hout
  · intro hall
    constructor
    · rintro ⟨hend, k, hk, hin, -⟩
      exact absurd hend (UInt64.not_le.mpr (hall k hk hin).2)
    · rintro ⟨k, hk, hin, hout⟩
      exact absurd (hall k hk hin).1 hout

/-- **When a single answer is right.** About a page number it is exactly if the group has no
such page. About an address it is exactly if it lies in no page of the group, or behind the
end that the 32-bit product gives the group and in a page that was handed out. -/
theorem queries_right_iff {g₀ : PageGroup} {size : UInt64}
    (hsetup : pageGroupSetupBitmap g₀ size = some g)
    (htop : pageAddress g g.numPages.toNat ≤ 2 ^ 64) (n : Nat) :
    ∃ g' addrs, allocations g n = some (g', addrs) ∧
      (∀ k, NumFreeRight g' addrs k ↔ g'.numPages ≤ k) ∧
      ∀ a, FreeRight g' addrs a ↔
        ∀ k < g'.numPages.toNat, InPage g' k a → HandedOut g' addrs k ∧ groupEnd g' < a := by
  obtain ⟨b, addrs, hrun, h⟩ := allocations_marked hsetup n
  exact ⟨_, addrs, hrun, h.numFreeRight_iff htop, h.freeRight_iff htop⟩

/-- **The queries never agree** with the allocator, whatever has been handed
out. Page 0 is enough: before it is handed out it counts as taken, and
afterwards as free. Which single answers are right all the same is said by
`queries_right_iff`. -/
theorem queries_never_agree {g₀ : PageGroup} {size : UInt64}
    (hsetup : pageGroupSetupBitmap g₀ size = some g) (n : Nat) :
    ∃ g' addrs, allocations g n = some (g', addrs) ∧ ¬ Agree g' addrs := by
  obtain ⟨b, addrs, hrun, h⟩ := allocations_marked hsetup n
  refine ⟨_, addrs, hrun, fun hagree => ?_⟩
  have hpos : 0 < g.numPages := UInt32.lt_iff_toNat_lt.mpr h.numPages
  have hzero := hagree.isNumFree 0
  have hbit := h.bit_zero
  rw [NumFreeRight, h.isNumFree hpos, Option.some_inj, UInt32.toNat_zero] at hzero
  rw [hzero] at hbit
  by_cases hout : HandedOut { g with pageBitmap := b } addrs 0
  · exact (hbit.mpr hout).2 hout
  · exact hout (hbit.mp ⟨hpos, hout⟩)

theorem queries_never_agree_twoPages :
    pageGroupSetupBitmap (newGroup 4096) 0x2000 = some (freeGroup 2 4096) ∧
      ∃ g' addrs, allocations (freeGroup 2 4096) 1 = some (g', addrs) ∧ ¬ Agree g' addrs :=
  have hsetup : pageGroupSetupBitmap (newGroup 4096) 0x2000 = some (freeGroup 2 4096) := rfl
  ⟨hsetup, queries_never_agree hsetup 1⟩

/-- The first of two pages is handed out: it is the one that counts as free. -/
theorem taken_page_free : ∃ b addrs,
    allocations (freeGroup 2 4096) 1 = some ({ freeGroup 2 4096 with pageBitmap := b }, addrs) ∧
      addrs = [4096] ∧
      pageGroupIsFree { freeGroup 2 4096 with pageBitmap := b } 4096 = some true ∧
      pageGroupIsNumFree { freeGroup 2 4096 with pageBitmap := b } 0 = some true ∧
      pageGroupIsNumFree { freeGroup 2 4096 with pageBitmap := b } 1 = some false ∧
      ¬ Agree { freeGroup 2 4096 with pageBitmap := b } addrs := by
  refine ⟨{ fields := [1], fieldCount := 1, bitCount := 2 }, [4096], rfl, rfl, rfl, rfl, rfl,
    fun hagree => ?_⟩
  refine ((hagree.isNumFree 0).mp rfl).2 ⟨4096, List.mem_singleton_self _, ?_, ?_, ?_⟩
  · decide
  · decide
  · decide

end VersionSix.Mem
