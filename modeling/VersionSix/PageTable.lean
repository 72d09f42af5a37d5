import Mathlib.Data.Nat.Bitwise
import Mathlib.Logic.Function.Basic

/-!
# Page tables

The data of `page.c` and the functions on the four-level tables: index
extraction, page entries, the walk `paging_virtual_to_physical` and the
mapping `paging_page_map_to_pml4`.

Physical memory is a map from the addresses of aligned 8-byte words to
their values. A pointer is dereferenced by the fixed offset of the area it
points into (`physOf`): the direct map, the pages allocated to the kernel,
the kernel image. A result `none` is a fault of the kernel.

`page_allocate_kernel_linear` is a parameter of the mapping here; its code
is in `PageCursor`.
-/

namespace VersionSix.Page

/-! ## Constants -/

def pageSize : Nat := 4096
def pageAddrMask : Nat := 0x000FFFFFFFFFF000
def addrIdentityMap : Nat := 0xFFFF800000000000

/-- What `identity_map` covers: eight pages of 1 GiB. -/
def identityMapSize : Nat := 8 * 0x40000000

def pageFlagPresent : Nat := 1 <<< 0
def pageFlagReadWrite : Nat := 1 <<< 1
def pageFlagUserSupervisor : Nat := 1 <<< 2
def pageFlagWriteThrough : Nat := 1 <<< 3
def pageFlagCacheDisabled : Nat := 1 <<< 4
def pageFlagAccessed : Nat := 1 <<< 5
def pageFlagPageSize : Nat := 1 <<< 7
def pageFlagExecuteDisabled : Nat := 1 <<< 63

/-! ## State -/

structure Paging where
  memory : Nat → Nat
  cr3 : Nat
  kernelVirtualBase : Nat
  kernelPhysicalBase : Nat
  kernelVirtualAllocationBase : Nat
  kernelPhysicalAllocationBase : Nat
  kernelVirtualMemoryNext : Nat
  kernelPhysicalMemoryNext : Nat
  kCurrentPdptIndex : Nat := 0
  kCurrentPdIndex : Nat := 0
  kCurrentPtIndex : Nat := 0
  kCurrentPdpt : Nat := 0
  kCurrentPd : Nat := 0
  kCurrentPt : Nat := 0
  kNewPt : Nat := 0
  kNewPd : Nat := 0
  /-- history variable: the pages the kernel allocator mapped, newest first -/
  mapped : List Nat := []

/-! ## Addresses -/

structure PageIndexes where
  pml4 : Nat
  pdpt : Nat
  pd : Nat
  pt : Nat
deriving DecidableEq

def pagingGetIndexes (virtualAddress : Nat) : PageIndexes :=
  { pml4 := (virtualAddress >>> 39) &&& 0x1FF
    pdpt := (virtualAddress >>> 30) &&& 0x1FF
    pd := (virtualAddress >>> 21) &&& 0x1FF
    pt := (virtualAddress >>> 12) &&& 0x1FF }

/-- `paging_make_page`. `flags` is a `uint32_t`, so the last test never holds. -/
def pagingMakePage (physicalAddress flags : Nat) : Nat :=
  let flags := flags % 2 ^ 32
  let page := physicalAddress &&& pageAddrMask
  let page := if flags &&& pageFlagPresent ≠ 0 then page ||| 1 <<< 0 else page
  let page := if flags &&& pageFlagReadWrite ≠ 0 then page ||| 1 <<< 1 else page
  let page := if flags &&& pageFlagUserSupervisor ≠ 0 then page ||| 1 <<< 2 else page
  let page := if flags &&& pageFlagWriteThrough ≠ 0 then page ||| 1 <<< 3 else page
  let page := if flags &&& pageFlagCacheDisabled ≠ 0 then page ||| 1 <<< 4 else page
  let page := if flags &&& pageFlagAccessed ≠ 0 then page ||| 1 <<< 5 else page
  let page := if flags &&& pageFlagPageSize ≠ 0 then page ||| 1 <<< 7 else page
  if flags &&& pageFlagExecuteDisabled ≠ 0 then page ||| 1 <<< 63 else page

/-- The physical address of a page allocated to the kernel. -/
def kernelPagePhysical (s : Paging) (v : Nat) : Nat :=
  (v + 2 ^ 64 - s.kernelVirtualAllocationBase + s.kernelPhysicalAllocationBase) % 2 ^ 64

def physOf (s : Paging) (p : Nat) : Option Nat :=
  if addrIdentityMap ≤ p ∧ p < addrIdentityMap + identityMapSize then some (p - addrIdentityMap)
  else if s.kernelVirtualAllocationBase ≤ p ∧ p < s.kernelVirtualMemoryNext then
    some (kernelPagePhysical s p)
  else if s.kernelVirtualBase ≤ p ∧ p < s.kernelVirtualAllocationBase then
    some (p - s.kernelVirtualBase + s.kernelPhysicalBase)
  else none

/-- `table[i]` -/
def loadEntry (s : Paging) (table i : Nat) : Option Nat :=
  (physOf s table).map fun frame => s.memory (frame + 8 * i)

/-- `table[i] = entry` -/
def storeEntry (s : Paging) (table i entry : Nat) : Option Paging :=
  (physOf s table).map fun frame =>
    { s with memory := Function.update s.memory (frame + 8 * i) entry }

def entryTable (entry : Nat) : Nat := ((entry &&& pageAddrMask) + addrIdentityMap) % 2 ^ 64

/-! ## Walking the tables -/

/-- One level of the walk; an absent entry ends it with 0. -/
def walkLevel (s : Paging) (table i : Nat) (next : Nat → Option Nat) : Option Nat :=
  (loadEntry s table i).bind fun entry =>
    if entry &&& pageFlagPresent = 0 then some 0 else next entry

def pagingVirtualToPhysical (s : Paging) (virtualAddress : Nat) : Option Nat :=
  let index := pagingGetIndexes virtualAddress
  let pml4 := (s.cr3 + addrIdentityMap) % 2 ^ 64
  walkLevel s pml4 index.pml4 fun entry =>
    walkLevel s (entryTable entry) index.pdpt fun entry =>
      walkLevel s (entryTable entry) index.pd fun entry =>
        walkLevel s (entryTable entry) index.pt fun entry => some (entry &&& pageAddrMask)

/-! ## Mapping a page -/

/-- The pointers of the first phase; `none` is `NULL`. -/
structure Tables where
  pdpt : Option Nat
  pd : Option Nat
  pt : Option Nat

/-- The first phase: the tables on the way that are there. -/
def findTables (s : Paging) (pml4 : Nat) (index : PageIndexes) : Option Tables :=
  (loadEntry s pml4 index.pml4).bind fun entry =>
    if entry &&& pageFlagPresent = 0 then some { pdpt := none, pd := none, pt := none }
    else
      let pdpt := entryTable entry
      (loadEntry s pdpt index.pdpt).bind fun entry =>
        if entry &&& pageFlagPresent = 0 then some { pdpt := pdpt, pd := none, pt := none }
        else
          let pd := entryTable entry
          (loadEntry s pd index.pd).map fun entry =>
            if entry &&& pageFlagPresent = 0 then { pdpt := pdpt, pd := pd, pt := none }
            else
              let pt := entryTable entry
              { pdpt := pdpt, pd := pd, pt := if pt = 0 then none else some pt }

/-- The second phase at one level: a missing table is allocated and its
entry is set in `parent`. -/
def setupTable (alloc : Paging → Option (Nat × Paging)) (s : Paging) (table : Option Nat)
    (parent i : Nat) : Option (Nat × Paging) :=
  match table with
  | some table => some (table, s)
  | none =>
      (alloc s).bind fun (v, s) =>
        (storeEntry s parent i (pagingMakePage (kernelPagePhysical s v)
          (pageFlagPresent ||| pageFlagReadWrite))).map fun s => (v, s)

/-- `pml_4`, or the current table for `NULL`. -/
def pml4Pointer (s : Paging) (pml4 : Nat) : Nat :=
  if pml4 = 0 then (s.cr3 + addrIdentityMap) % 2 ^ 64 else pml4

def pagingPageMapToPml4 (alloc : Paging → Option (Nat × Paging)) (s : Paging)
    (pml4 physicalAddress virtualAddress flags : Nat) : Option Paging := do
  let index := pagingGetIndexes virtualAddress
  let pml4 := pml4Pointer s pml4
  let tables ← findTables s pml4 index
  let (pdpt, s) ← setupTable alloc s tables.pdpt pml4 index.pml4
  let (pd, s) ← setupTable alloc s tables.pd pdpt index.pdpt
  let (pt, s) ← setupTable alloc s tables.pt pd index.pd
  storeEntry s pt index.pt (pagingMakePage physicalAddress flags)

theorem pageMap_eq {alloc : Paging → Option (Nat × Paging)} {s s₁ s₂ s₃ : Paging}
    {pml4 phys virt flags pdpt pd pt : Nat} {tables : Tables}
    (hfind : findTables s (pml4Pointer s pml4) (pagingGetIndexes virt) = some tables)
    (h₁ : setupTable alloc s tables.pdpt (pml4Pointer s pml4) (pagingGetIndexes virt).pml4
      = some (pdpt, s₁))
    (h₂ : setupTable alloc s₁ tables.pd pdpt (pagingGetIndexes virt).pdpt = some (pd, s₂))
    (h₃ : setupTable alloc s₂ tables.pt pd (pagingGetIndexes virt).pd = some (pt, s₃)) :
    pagingPageMapToPml4 alloc s pml4 phys virt flags
      = storeEntry s₃ pt (pagingGetIndexes virt).pt (pagingMakePage phys flags) := by
  unfold pagingPageMapToPml4
  simp only [Option.bind_eq_bind, hfind, h₁, h₂, h₃, Option.bind_some]

/-! ## Arithmetic of entries -/

theorem and_pageAddrMask (x : Nat) : x &&& pageAddrMask = x / 4096 % 2 ^ 40 * 4096 := by
  refine Nat.eq_of_testBit_eq fun i => ?_
  rw [show pageAddrMask = (2 ^ 40 - 1) <<< 12 from rfl, show (4096 : Nat) = 2 ^ 12 from rfl,
    ← Nat.shiftLeft_eq, ← Nat.shiftRight_eq_div_pow]
  simp only [Nat.testBit_and, Nat.testBit_shiftLeft, Nat.testBit_shiftRight,
    Nat.testBit_mod_two_pow, Nat.testBit_two_pow_sub_one]
  by_cases hi : 12 ≤ i
  · rw [show 12 + (i - 12) = i by omega]
    simp [hi, Bool.and_comm]
  · simp [hi]

theorem and_pageAddrMask_of_aligned {x : Nat} (h : x % 4096 = 0) (hx : x < 2 ^ 52) :
    x &&& pageAddrMask = x := by
  rw [and_pageAddrMask]
  omega

theorem ite_or_and {p : Prop} [Decidable p] (page c m : Nat) :
    (if p then page ||| c else page) &&& m = (page &&& m) ||| if p then c &&& m else 0 := by
  split
  · exact Nat.and_or_distrib_right ..
  · exact (Nat.or_zero _).symm

theorem makePage_addr (phys flags : Nat) :
    pagingMakePage phys flags &&& pageAddrMask = phys &&& pageAddrMask := by
  have hbits : (1 <<< 0 &&& pageAddrMask = 0) ∧ (1 <<< 1 &&& pageAddrMask = 0) ∧
      (1 <<< 2 &&& pageAddrMask = 0) ∧ (1 <<< 3 &&& pageAddrMask = 0) ∧
      (1 <<< 4 &&& pageAddrMask = 0) ∧ (1 <<< 5 &&& pageAddrMask = 0) ∧
      (1 <<< 7 &&& pageAddrMask = 0) ∧ (1 <<< 63 &&& pageAddrMask = 0) := by decide
  obtain ⟨h0, h1, h2, h3, h4, h5, h7, h63⟩ := hbits
  unfold pagingMakePage
  simp only [ite_or_and, h0, h1, h2, h3, h4, h5, h7, h63, ite_self, Nat.or_zero, Nat.and_assoc,
    Nat.and_self]

theorem makePage_present (phys flags : Nat) :
    pagingMakePage phys flags &&& pageFlagPresent = 0 ↔ flags &&& pageFlagPresent = 0 := by
  have hflags : flags % 2 ^ 32 &&& pageFlagPresent = flags &&& pageFlagPresent := by
    unfold pageFlagPresent
    rw [Nat.shiftLeft_zero, Nat.and_one_is_mod, Nat.and_one_is_mod]
    omega
  have hmask : pageAddrMask &&& pageFlagPresent = 0 := by decide
  have hbits : (1 <<< 0 &&& pageFlagPresent = 1) ∧ (1 <<< 1 &&& pageFlagPresent = 0) ∧
      (1 <<< 2 &&& pageFlagPresent = 0) ∧ (1 <<< 3 &&& pageFlagPresent = 0) ∧
      (1 <<< 4 &&& pageFlagPresent = 0) ∧ (1 <<< 5 &&& pageFlagPresent = 0) ∧
      (1 <<< 7 &&& pageFlagPresent = 0) ∧ (1 <<< 63 &&& pageFlagPresent = 0) := by decide
  obtain ⟨h0, h1, h2, h3, h4, h5, h7, h63⟩ := hbits
  unfold pagingMakePage
  simp only [ite_or_and, h0, h1, h2, h3, h4, h5, h7, h63, ite_self, Nat.or_zero, Nat.and_assoc,
    hmask, Nat.and_zero, Nat.zero_or, hflags]
  split <;> simp_all

theorem makePage_table_notHuge (phys : Nat) :
    pagingMakePage phys (pageFlagPresent ||| pageFlagReadWrite) &&& pageFlagPageSize = 0 := by
  have hmask : pageAddrMask &&& pageFlagPageSize = 0 := by decide
  unfold pagingMakePage
  simp only [ite_or_and, Nat.and_assoc, hmask, Nat.and_zero, Nat.zero_or]
  decide

/-! ## Arithmetic of indexes -/

theorem shiftRight_and_511 (v n : Nat) : (v >>> n) &&& 0x1FF = v / 2 ^ n % 512 := by
  rw [show (0x1FF : Nat) = 2 ^ 9 - 1 from rfl, Nat.and_two_pow_sub_one_eq_mod,
    Nat.shiftRight_eq_div_pow]

theorem getIndexes_eq (v : Nat) : pagingGetIndexes v =
    { pml4 := v / 2 ^ 39 % 512, pdpt := v / 2 ^ 30 % 512, pd := v / 2 ^ 21 % 512,
      pt := v / 2 ^ 12 % 512 } := by
  unfold pagingGetIndexes
  simp only [shiftRight_and_511]

theorem index_lt (x : Nat) : x % 512 < 512 := Nat.mod_lt x (by decide)

theorem getIndexes_lt (v : Nat) :
    (pagingGetIndexes v).pml4 < 512 ∧ (pagingGetIndexes v).pdpt < 512 ∧
      (pagingGetIndexes v).pd < 512 ∧ (pagingGetIndexes v).pt < 512 := by
  rw [getIndexes_eq]
  exact ⟨index_lt _, index_lt _, index_lt _, index_lt _⟩

/-- The number of a virtual page: the address bits the tables look at. -/
def virtualPage (v : Nat) : Nat := v / 4096 % 2 ^ 36

/-- The way to a virtual page through the four levels. -/
def pathOf (v : Nat) : List Nat :=
  let index := pagingGetIndexes v
  [index.pml4, index.pdpt, index.pd, index.pt]

theorem pathOf_eq (v : Nat) :
    pathOf v = [v / 2 ^ 39 % 512, v / 2 ^ 30 % 512, v / 2 ^ 21 % 512, v / 2 ^ 12 % 512] := by
  unfold pathOf
  rw [getIndexes_eq]

theorem pathOf_inj (v w : Nat) : pathOf v = pathOf w ↔ virtualPage v = virtualPage w := by
  rw [pathOf_eq, pathOf_eq]
  unfold virtualPage
  simp only [List.cons.injEq, and_true]
  omega

end VersionSix.Page
