import VersionSix.PageTree
import VersionSix.Run

/-!
# The kernel page allocator

`page_allocate_kernel_linear` and `page_allocate_kernel_mmio` hand out the
pages that follow the kernel image, one after the other. Where the next one
goes is kept twice: as addresses (`kernel_virtual_memory_next`,
`kernel_physical_memory_next`) and as a position in the kernel's page tables
(`k_current_pd_index`, `k_current_pt_index`, `k_current_pt`).

`InStep` says that the two agree. `Cursor`, in the module after this one, is
the invariant that keeps them in step: three words of the page tables lead to
the current page table, and neither they nor the tables lie in the part of the
allocation area that is still free.

The stores to a page that was just mapped go through the processor's
translation (`mmuWalk`), not through the allocator's own idea of where the page
is. So an entry in the wrong place shows: the page that is zeroed is another
one. The functions are those of `page.c` with their widths and their pointer
arithmetic, in which a difference of `uint64_t *` counts words.
-/

namespace VersionSix.Page

/-! ## The memory management unit -/

/-- The translation the processor makes, from a table of the given level. -/
def mmuWalk (memory : Nat → Nat) : Nat → Nat → Nat → Option Nat
  | 0, table, v =>
      let entry := memory (table + 8 * (v / 2 ^ 12 % 512))
      if entry &&& pageFlagPresent = 0 then none
      else some ((entry &&& pageAddrMask) + v % 4096)
  | level + 1, table, v =>
      let size := 2 ^ (12 + 9 * (level + 1))
      let entry := memory (table + 8 * (v / size % 512))
      if entry &&& pageFlagPresent = 0 then none
      else if entry &&& pageFlagPageSize ≠ 0 then
        some ((entry &&& pageAddrMask) / size * size + v % size)
      else mmuWalk memory level (entry &&& pageAddrMask) v

def mmu (s : Paging) (v : Nat) : Option Nat := mmuWalk s.memory 3 s.cr3 v

/-- `*v = value` -/
def storeVirtual (s : Paging) (v value : Nat) : Option Paging :=
  (mmu s v).map fun a => s.write a value

/-- `*v` -/
def loadVirtual (s : Paging) (v : Nat) : Option Nat := (mmu s v).map s.memory

/-- `memset( v, 0, PAGE_SIZE )` of a page. -/
def memsetPage (s : Paging) (v : Nat) : Option Paging :=
  (mmu s v).map fun a =>
    { s with memory := fun b => if a ≤ b ∧ b < a + pageSize then 0 else s.memory b }

/-! ## `page.c`: pages for the kernel -/

def tableFlags : Nat := pageFlagPresent ||| pageFlagReadWrite

theorem tableFlags_present : tableFlags &&& pageFlagPresent ≠ 0 := by decide

def pagingAllocateSingleLinearKernelPage (s : Paging) : Option (Nat × Paging) := do
  let pageEntry := pagingMakePage s.kernelPhysicalMemoryNext tableFlags
  let s ← storeEntry s s.kCurrentPt s.kCurrentPtIndex pageEntry
  let s ← memsetPage s s.kernelVirtualMemoryNext
  let s := { s with
    kernelVirtualMemoryNext := (s.kernelVirtualMemoryNext + pageSize) % 2 ^ 64
    kernelPhysicalMemoryNext := (s.kernelPhysicalMemoryNext + pageSize) % 2 ^ 64
    mapped := s.kernelVirtualMemoryNext :: s.mapped }
  return ((s.kernelVirtualMemoryNext + 2 ^ 64 - pageSize) % 2 ^ 64, s)

/-- The first half of `paging_increment_kernel_page_index`. -/
def incrementPtIndex (s : Paging) : Option Paging :=
  if s.kCurrentPtIndex = 511 then
    let s := { s with kCurrentPtIndex := 0, kCurrentPt := s.kNewPt }
    let entry := pagingMakePage (kernelPagePhysical s s.kNewPt) tableFlags
    (storeEntry s s.kCurrentPd (s.kCurrentPdIndex + 1) entry).map fun s =>
      { s with kCurrentPdIndex := (s.kCurrentPdIndex + 1) % 2 ^ 16 }
  else some { s with kCurrentPtIndex := (s.kCurrentPtIndex + 1) % 2 ^ 16 }

/-- The second half. `k_new_pd` is a `uint64_t *`, so the bases that are
subtracted from it and added to it count eightfold. -/
def rolloverPd (s : Paging) : Option Paging :=
  if s.kCurrentPdIndex = 512 then
    let s := { s with kCurrentPdIndex := 0, kCurrentPd := s.kNewPd }
    let physical :=
      (s.kNewPd + 8 * (2 ^ 64 - s.kernelVirtualBase) + 8 * s.kernelPhysicalBase) % 2 ^ 64
    (storeEntry s s.kCurrentPdpt s.kCurrentPdptIndex (pagingMakePage physical tableFlags)).map
      fun s => { s with kCurrentPdptIndex := (s.kCurrentPdptIndex + 1) % 2 ^ 16 }
  else some s

def pagingIncrementKernelPageIndex (s : Paging) : Option Paging :=
  (incrementPtIndex s).bind rolloverPd

/-- The loop of `page_allocate_kernel_linear`. -/
def linearPages : Nat → Paging → Option Paging
  | 0, s => some s
  | n + 1, s => do
      let (_, s) ← pagingAllocateSingleLinearKernelPage s
      let s ← pagingIncrementKernelPageIndex s
      linearPages n s

def renewPd (s : Paging) : Option Paging :=
  if s.kCurrentPd = s.kNewPd then do
    let (page, s) ← pagingAllocateSingleLinearKernelPage s
    pagingIncrementKernelPageIndex { s with kNewPd := page }
  else some s

def renewPt (s : Paging) : Option Paging :=
  if s.kCurrentPt = s.kNewPt then do
    let (page, s) ← pagingAllocateSingleLinearKernelPage s
    pagingIncrementKernelPageIndex { s with kNewPt := page }
  else some s

def pageAllocateKernelLinear (numberOfPages : Nat) (s : Paging) : Option (Nat × Paging) :=
  if numberOfPages < 1 then some (0, s)
  else do
    let s ← renewPd s
    let s ← renewPt s
    let returnVirtAddr := s.kernelVirtualMemoryNext
    let s ← linearPages numberOfPages s
    return (returnVirtAddr, s)

def mmioFlags : Nat :=
  pageFlagPresent ||| pageFlagReadWrite ||| pageFlagCacheDisabled ||| pageFlagWriteThrough

theorem mmioFlags_present : mmioFlags &&& pageFlagPresent ≠ 0 := by decide

/-- The `do` loop of `page_allocate_kernel_mmio`; the index is a `uint16_t`,
so it is 0 after 2^16 turns at the latest. -/
def skipToNextTable : Nat → Paging → Option Paging
  | 0, _ => none
  | turns + 1, s =>
      (pagingIncrementKernelPageIndex s).bind fun s =>
        if s.kCurrentPtIndex ≠ 0 then skipToNextTable turns s else some s

/-- The loop of `page_allocate_kernel_mmio`. -/
def mmioPages : Nat → Paging → Option Paging
  | 0, s => some s
  | n + 1, s => do
      let s ← pagingPageMapToPml4 (pageAllocateKernelLinear 1) s 0 s.kernelPhysicalMemoryNext
        s.kernelVirtualMemoryNext mmioFlags
      let s := { s with
        kernelVirtualMemoryNext := (s.kernelVirtualMemoryNext + pageSize) % 2 ^ 64
        mapped := s.kernelVirtualMemoryNext :: s.mapped }
      let s ← pagingIncrementKernelPageIndex s
      let s := { s with
        kernelPhysicalMemoryNext := (s.kernelPhysicalMemoryNext + pageSize) % 2 ^ 64 }
      mmioPages n s

def pageAllocateKernelMmio (number : Nat) (s : Paging) : Option (Nat × Paging) :=
  if number < 1 then some (0, s)
  else do
    let s ←
      if 511 < (s.kCurrentPtIndex + number) % 2 ^ 32 then skipToNextTable (2 ^ 16) s else some s
    let returnVal := s.kernelVirtualMemoryNext
    let s ← mmioPages number s
    return (returnVal, s)

/-! ## `page.c`: setting up -/

structure MemmapEntry where
  size : Nat
  type : Nat

/-- What `kernel_info` and the linker know. -/
structure KernelInfo where
  kernelVirtualBase : Nat
  kernelPhysicalBase : Nat
  kernelEnd : Nat
  kernelAllocateMemoryStart : Nat
  kernelAllocateMemorySize : Nat
  memmap : List MemmapEntry
  /-- addresses of the static tables -/
  identityMap : Nat
  kPml4 : Nat
  kPdpt : Nat
  kPd : Nat
  kPt1 : Nat
  kPt2 : Nat
  kPt3 : Nat
  kPt4 : Nat

def limineMemmapKernelAndModules : Nat := 6

def kernelStart : Nat := 0xFFFFFFFF80000000

def identityMapEnd : Nat := addrIdentityMap + 0x240000000

/-- The physical address of something in the kernel image. -/
def imagePhysical (b : KernelInfo) (p : Nat) : Nat :=
  (p + 2 ^ 64 - b.kernelVirtualBase + b.kernelPhysicalBase) % 2 ^ 64

/-- Pages of the last entry of the kernel's type; the number is a `uint16_t`. -/
def numKernelPages (b : KernelInfo) : Option Nat :=
  ((b.memmap.filter fun e => e.type == limineMemmapKernelAndModules).getLast?).map fun e =>
    let pages := e.size / 0x1000 % 2 ^ 16
    if e.size % 0x1000 ≠ 0 then (pages + 1) % 2 ^ 16 else pages

def clearTable (b : KernelInfo) (s : Paging) (table : Nat) : Paging :=
  { s with memory := fun a =>
      if imagePhysical b table ≤ a ∧ a < imagePhysical b table + pageSize then 0 else s.memory a }

/-- `table[i] = entry`, in a static table. -/
def setStatic (b : KernelInfo) (s : Paging) (table i entry : Nat) : Paging :=
  s.write (imagePhysical b table + 8 * i) entry

/-- `!GET_PDE_PRESENT( table[i] )` is `(!table[i]) & 1`. -/
def setIfZero (b : KernelInfo) (s : Paging) (table i entry : Nat) : Paging :=
  if s.memory (imagePhysical b table + 8 * i) = 0 then setStatic b s table i entry else s

def kernelPt (b : KernelInfo) : Nat → Option Nat
  | 0 => some b.kPt1
  | 1 => some b.kPt2
  | 2 => some b.kPt3
  | 3 => some b.kPt4
  | _ => none

/-- One turn of the loop over the kernel's pages. -/
def setupKernelPage (b : KernelInfo) (s : Paging) (i : Nat) : Option Paging :=
  let index := pagingGetIndexes ((kernelStart + i * 0x1000) % 2 ^ 64)
  let physical := (imagePhysical b kernelStart + i * 0x1000) % 2 ^ 64
  (kernelPt b index.pd).map fun pt =>
    let s :=
      { setStatic b s pt index.pt (pagingMakePage physical tableFlags) with kCurrentPt := pt }
    let s := setIfZero b s b.kPd index.pd
      (pagingMakePage (imagePhysical b (pt + 8 * index.pt)) tableFlags)
    let s := setIfZero b s b.kPdpt index.pdpt
      (pagingMakePage (imagePhysical b (b.kPd + 8 * index.pd)) tableFlags)
    setIfZero b s b.kPml4 index.pml4
      (pagingMakePage (imagePhysical b (b.kPdpt + 8 * index.pdpt)) tableFlags)

/-- The eight entries of 1 GiB. -/
def setupIdentityMap (b : KernelInfo) (s : Paging) : Paging :=
  (List.range 8).foldl (fun s i => setStatic b s b.identityMap i
    (pagingMakePage (i * 0x40000000) (tableFlags ||| pageFlagPageSize))) s

def pagingSetupInitialStructures (b : KernelInfo) (s : Paging) : Option Paging := do
  let imIndex := (pagingGetIndexes identityMapEnd).pml4
  let imEntry := pagingMakePage (imagePhysical b b.identityMap) tableFlags
  let s := setupIdentityMap b s
  let s := s.write (s.cr3 + 8 * imIndex) imEntry
  let s := [b.kPml4, b.kPdpt, b.kPd, b.kPt1, b.kPt2].foldl (clearTable b) s
  let pages ← numKernelPages b
  let s := { s with kCurrentPdpt := b.kPdpt, kCurrentPd := b.kPd }
  let s ← (List.range pages).foldlM (setupKernelPage b) s
  let s := setStatic b s b.kPml4 imIndex imEntry
  return { s with cr3 := imagePhysical b b.kPml4 }

/-- The variables `paging_initalize` sets first. -/
def startCursor (b : KernelInfo) (s : Paging) : Paging :=
  let index := pagingGetIndexes b.kernelEnd
  { s with
    kernelVirtualBase := b.kernelVirtualBase
    kernelPhysicalBase := b.kernelPhysicalBase
    kernelVirtualAllocationBase := b.kernelEnd
    kernelPhysicalAllocationBase := b.kernelAllocateMemoryStart
    kernelVirtualMemoryNext := b.kernelEnd
    kernelPhysicalMemoryNext := b.kernelAllocateMemoryStart
    kCurrentPdptIndex := index.pdpt
    kCurrentPdIndex := index.pd
    kCurrentPtIndex := index.pt
    kNewPt := 0xFFFF000000000000
    kNewPd := 0xFFFF000000000000 }

/-- The value that was stored is read back; else the machine is shut down. -/
def readsBack (s : Paging) (v value : Nat) : Option Paging :=
  (loadVirtual s v).bind fun read => if read ≠ value then none else some s

def sanityCheck (s : Paging) : Option Paging := do
  let (check, s) ← pageAllocateKernelLinear 1 s
  let s ← storeVirtual s check 0x00001111BADAB000
  let s ← readsBack s check 0x00001111BADAB000
  let check2 := 0x00001122BADA0000
  let s ← pagingPageMapToPml4 (pageAllocateKernelLinear 1) s 0 0x0000000090000000 check2 tableFlags
  let s ← storeVirtual s check2 30
  let s ← storeVirtual s (check2 + 8) 40
  readsBack s check2 30

def pagingInitalize (b : KernelInfo) (s : Paging) : Option Paging := do
  let (newPt, s) ← pageAllocateKernelLinear 1 (startCursor b s)
  let (newPd, s) ← pageAllocateKernelLinear 1 { s with kNewPt := newPt }
  sanityCheck { s with kNewPd := newPd }

/-- Both functions, from the memory the boot loader leaves. -/
def boot (b : KernelInfo) (s : Paging) : Option Paging :=
  (pagingSetupInitialStructures b s).bind (pagingInitalize b)

/-! ## Runs -/

inductive Call
  | linear (n : Nat)
  | mmio (n : Nat)

def step (s : Paging) : Call → Option Paging
  | .linear n => (pageAllocateKernelLinear n s).map Prod.snd
  | .mmio n => (pageAllocateKernelMmio n s).map Prod.snd

/-! ## In step -/

/-- The addresses and the position in the tables agree, so that the page the
next allocation zeroes is the page it maps. -/
structure InStep (s : Paging) : Prop where
  indexes : s.kCurrentPdIndex = (pagingGetIndexes s.kernelVirtualMemoryNext).pd ∧
    s.kCurrentPtIndex = (pagingGetIndexes s.kernelVirtualMemoryNext).pt
  table : ∃ pd pt, physOf s s.kCurrentPd = some pd ∧ physOf s s.kCurrentPt = some pt ∧
    s.memory (pd + 8 * s.kCurrentPdIndex) &&& pageFlagPresent ≠ 0 ∧
    s.memory (pd + 8 * s.kCurrentPdIndex) &&& pageAddrMask = pt
  advanced : (s.kernelVirtualMemoryNext + 2 ^ 64 - s.kernelVirtualAllocationBase) % 2 ^ 64
    = (s.kernelPhysicalMemoryNext + 2 ^ 64 - s.kernelPhysicalAllocationBase) % 2 ^ 64
  zeroed : ∀ v s', pagingAllocateSingleLinearKernelPage s = some (v, s') →
    mmu s' v = some s.kernelPhysicalMemoryNext ∧
    ∀ i, i < 512 → s'.memory (s.kernelPhysicalMemoryNext + 8 * i) = 0

end VersionSix.Page
