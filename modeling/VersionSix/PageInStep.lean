import VersionSix.PageCursor

/-!
# Cursors in step

The invariant of the kernel page allocator. As long as the cursor does not
leave the first page directory, no `mmio` call skips to the next table and the
allocation area lasts, every call keeps it (`linear_ok`, `mmioPages_ok`).

The cursor is one position told in four ways: the next virtual address, the
next physical one, the two indexes, and the pointers to the two tables.
`InStep` says that they agree and that the three words that lead to the next
entry are in memory. Then the processor finds the page that is mapped next
where the allocator says it is (`mmu_kernel`).

What the pages before it keep is stated for words: the pages handed out to
callers are none of the allocator's own tables (`DataPage`), and a step touches
the current table and the new page only (`Touched`). What lies where in the
image is assumed from the linker script (`Layout`).
-/

namespace VersionSix.Page

/-! ## Where things lie -/

/-- What the linker script and the boot loader guarantee: the static tables
are different pages of the kernel image, and the image, the allocation area
and the page of the paging test do not overlap. -/
structure Layout (b : KernelInfo) : Prop where
  base : b.kernelVirtualBase = kernelStart
  kernelEnd : b.kernelEnd % 4096 = 0 ∧ kernelStart ≤ b.kernelEnd ∧
    b.kernelEnd ≤ kernelStart + 0x40000000
  statics : ∀ t ∈ [b.kPml4, b.kPdpt, b.kPd, b.kPt1, b.kPt2, b.kPt3, b.kPt4],
    t % 4096 = 0 ∧ kernelStart ≤ t ∧ t + 4096 ≤ b.kernelEnd
  distinct : [b.kPml4, b.kPdpt, b.kPd, b.kPt1, b.kPt2, b.kPt3, b.kPt4].Nodup
  image : b.kernelPhysicalBase % 4096 = 0 ∧
    b.kernelPhysicalBase + (b.kernelEnd - kernelStart) ≤ identityMapSize
  area : b.kernelAllocateMemoryStart % 4096 = 0 ∧
    b.kernelAllocateMemoryStart + b.kernelAllocateMemorySize ≤ identityMapSize
  apart : b.kernelAllocateMemoryStart + b.kernelAllocateMemorySize ≤ b.kernelPhysicalBase ∨
    b.kernelPhysicalBase + (b.kernelEnd - kernelStart) ≤ b.kernelAllocateMemoryStart
  testPage : (0x90001000 ≤ b.kernelPhysicalBase ∨
      b.kernelPhysicalBase + (b.kernelEnd - kernelStart) ≤ 0x90000000) ∧
    (0x90001000 ≤ b.kernelAllocateMemoryStart ∨
      b.kernelAllocateMemoryStart + b.kernelAllocateMemorySize ≤ 0x90000000)

def areaEnd (b : KernelInfo) : Nat := b.kernelAllocateMemoryStart + b.kernelAllocateMemorySize

def pml4Frame (b : KernelInfo) : Nat := imagePhysical b b.kPml4
def pdptFrame (b : KernelInfo) : Nat := imagePhysical b b.kPdpt
def pdFrame (b : KernelInfo) : Nat := imagePhysical b b.kPd

def Allocated (b : KernelInfo) (s : Paging) (p : Nat) : Prop :=
  p % 4096 = 0 ∧ b.kernelEnd ≤ p ∧ p + 4096 ≤ s.kernelVirtualMemoryNext

/-- A static page table or a page that has been handed out. -/
def TablePtr (b : KernelInfo) (s : Paging) (p : Nat) : Prop :=
  p ∈ [b.kPt1, b.kPt2, b.kPt3, b.kPt4] ∨ Allocated b s p

def ptrFrame (b : KernelInfo) (p : Nat) : Nat :=
  if b.kernelEnd ≤ p then b.kernelAllocateMemoryStart + (p - b.kernelEnd) else imagePhysical b p

/-- The word at `a` leads to the table `f`. -/
structure Leads (memory : Nat → Nat) (a f : Nat) : Prop where
  present : memory a &&& pageFlagPresent ≠ 0
  plain : memory a &&& pageFlagPageSize = 0
  addr : memory a &&& pageAddrMask = f

/-- The position in the page tables, `d` pages before the next address. -/
structure Cursor (b : KernelInfo) (d : Nat) (s : Paging) : Prop where
  cr3 : s.cr3 = pml4Frame b
  bases : s.kernelVirtualBase = kernelStart ∧ s.kernelPhysicalBase = b.kernelPhysicalBase ∧
    s.kernelVirtualAllocationBase = b.kernelEnd ∧
    s.kernelPhysicalAllocationBase = b.kernelAllocateMemoryStart
  pd : s.kCurrentPd = b.kPd
  pml4Entry : Leads s.memory (pml4Frame b + 8 * 511) (pdptFrame b)
  pdptEntry : Leads s.memory (pdptFrame b + 8 * 510) (pdFrame b)
  indexes : s.kCurrentPdIndex < 512 ∧ s.kCurrentPtIndex < 512
  next : s.kernelVirtualMemoryNext
    = kernelStart + 4096 * (512 * s.kCurrentPdIndex + s.kCurrentPtIndex + d)
  count : ∃ n, s.kernelVirtualMemoryNext = b.kernelEnd + 4096 * n ∧
    s.kernelPhysicalMemoryNext = b.kernelAllocateMemoryStart + 4096 * n
  room : s.kernelPhysicalMemoryNext ≤ areaEnd b
  table : TablePtr b s s.kCurrentPt ∧
    Leads s.memory (pdFrame b + 8 * s.kCurrentPdIndex) (ptrFrame b s.kCurrentPt)
  newPt : s.kNewPt < s.kernelVirtualMemoryNext

/-! ## Frames -/

theorem Layout.imagePhysical_eq {b : KernelInfo} (h : Layout b) {t : Nat}
    (ht : kernelStart ≤ t ∧ t + 4096 ≤ b.kernelEnd) :
    imagePhysical b t = b.kernelPhysicalBase + (t - kernelStart) := by
  have hk : kernelStart = 0xFFFFFFFF80000000 := rfl
  have hmap : identityMapSize = 0x200000000 := rfl
  have himage := h.image
  unfold imagePhysical
  rw [h.base]
  omega

theorem Layout.static_frame {b : KernelInfo} (h : Layout b) {t : Nat}
    (ht : t ∈ [b.kPml4, b.kPdpt, b.kPd, b.kPt1, b.kPt2, b.kPt3, b.kPt4]) :
    imagePhysical b t % 4096 = 0 ∧ imagePhysical b t + 4096 ≤ identityMapSize ∧
      (imagePhysical b t + 4096 ≤ b.kernelAllocateMemoryStart ∨ areaEnd b ≤ imagePhysical b t) ∧
      (imagePhysical b t + 4096 ≤ 0x90000000 ∨ 0x90001000 ≤ imagePhysical b t) := by
  have hk : kernelStart = 0xFFFFFFFF80000000 := rfl
  obtain ⟨halign, hstart, hend⟩ := h.statics t ht
  have himage := h.image
  have hpart := h.apart
  have htest := h.testPage.1
  rw [h.imagePhysical_eq ⟨hstart, hend⟩]
  unfold areaEnd
  omega

theorem Layout.static_ne {b : KernelInfo} (h : Layout b) {t u : Nat}
    (ht : t ∈ [b.kPml4, b.kPdpt, b.kPd, b.kPt1, b.kPt2, b.kPt3, b.kPt4])
    (hu : u ∈ [b.kPml4, b.kPdpt, b.kPd, b.kPt1, b.kPt2, b.kPt3, b.kPt4]) (hne : t ≠ u) :
    imagePhysical b t ≠ imagePhysical b u := by
  have ht' := h.statics t ht
  have hu' := h.statics u hu
  rw [h.imagePhysical_eq ht'.2, h.imagePhysical_eq hu'.2]
  omega

/-- The frames of the PML4, the PDPT and the page directory are three pages
outside the allocation area. -/
theorem Layout.upper_frames {b : KernelInfo} (h : Layout b) :
    pml4Frame b ≠ pdptFrame b ∧ pml4Frame b ≠ pdFrame b ∧ pdptFrame b ≠ pdFrame b := by
  have hd := h.distinct
  simp only [List.nodup_cons, List.mem_cons, not_or] at hd
  exact ⟨h.static_ne (by simp) (by simp) hd.1.1, h.static_ne (by simp) (by simp) hd.1.2.1,
    h.static_ne (by simp) (by simp) hd.2.1.1⟩

theorem pt_static {b : KernelInfo} {t : Nat} (ht : t ∈ [b.kPt1, b.kPt2, b.kPt3, b.kPt4]) :
    t ∈ [b.kPml4, b.kPdpt, b.kPd, b.kPt1, b.kPt2, b.kPt3, b.kPt4] :=
  List.mem_cons_of_mem _ (List.mem_cons_of_mem _ (List.mem_cons_of_mem _ ht))

theorem Layout.pt_frame {b : KernelInfo} (h : Layout b) {t : Nat}
    (ht : t ∈ [b.kPt1, b.kPt2, b.kPt3, b.kPt4]) : imagePhysical b t ≠ pml4Frame b ∧
      imagePhysical b t ≠ pdptFrame b ∧ imagePhysical b t ≠ pdFrame b := by
  have hmem := pt_static ht
  have hne : t ≠ b.kPml4 ∧ t ≠ b.kPdpt ∧ t ≠ b.kPd := by
    have hd := h.distinct
    refine ⟨?_, ?_, ?_⟩ <;> rintro rfl <;> simp_all
  exact ⟨h.static_ne hmem (by simp) hne.1, h.static_ne hmem (by simp) hne.2.1,
    h.static_ne hmem (by simp) hne.2.2⟩

theorem Layout.ptrFrame_static {b : KernelInfo} (h : Layout b) {t : Nat}
    (ht : t ∈ [b.kPml4, b.kPdpt, b.kPd, b.kPt1, b.kPt2, b.kPt3, b.kPt4]) :
    ptrFrame b t = imagePhysical b t := by
  have hend := (h.statics t ht).2.2
  exact if_neg (by omega)

theorem Allocated.ptrFrame_aligned {b : KernelInfo} (h : Layout b) {s : Paging} {p : Nat}
    (hp : Allocated b s p) : ptrFrame b p % 4096 = 0 := by
  obtain ⟨halign, hstart, -⟩ := hp
  have harea := h.area.1
  have hend := h.kernelEnd.1
  unfold ptrFrame
  rw [if_pos hstart]
  omega

/-- A page that has been handed out has its frame in the used part of the area. -/
theorem Cursor.allocated_frame {b : KernelInfo} {s : Paging} {d p : Nat} (hc : Cursor b d s)
    (hp : Allocated b s p) : b.kernelAllocateMemoryStart ≤ ptrFrame b p ∧
      ptrFrame b p + 4096 ≤ s.kernelPhysicalMemoryNext := by
  obtain ⟨n, hv, hn⟩ := hc.count
  obtain ⟨halign, hstart, hnext⟩ := hp
  unfold ptrFrame
  rw [if_pos hstart]
  omega

theorem Layout.static_apart {b : KernelInfo} (h : Layout b) {t f : Nat}
    (ht : t ∈ [b.kPml4, b.kPdpt, b.kPd, b.kPt1, b.kPt2, b.kPt3, b.kPt4])
    (hf : b.kernelAllocateMemoryStart ≤ f ∧ f + 4096 ≤ areaEnd b) : f ≠ imagePhysical b t := by
  have hpart := (h.static_frame ht).2.2.1
  omega

/-- A page table is a page of its own, outside the free part of the area. -/
theorem Layout.table_frame {b : KernelInfo} (h : Layout b) {s : Paging} {d p : Nat}
    (hc : Cursor b d s) (hp : TablePtr b s p) :
    ptrFrame b p % 4096 = 0 ∧ ptrFrame b p + 4096 ≤ identityMapSize ∧
      (ptrFrame b p + 4096 ≤ s.kernelPhysicalMemoryNext ∨ areaEnd b ≤ ptrFrame b p) ∧
      ptrFrame b p ≠ pml4Frame b ∧ ptrFrame b p ≠ pdptFrame b ∧ ptrFrame b p ≠ pdFrame b := by
  have hroom := hc.room
  rcases hp with hp | hp
  · obtain ⟨n, -, hn⟩ := hc.count
    have hframe := h.static_frame (pt_static hp)
    rw [h.ptrFrame_static (pt_static hp)]
    refine ⟨hframe.1, hframe.2.1, ?_, h.pt_frame hp⟩
    omega
  · obtain ⟨hlow, hhigh⟩ := hc.allocated_frame hp
    have hin : b.kernelAllocateMemoryStart ≤ ptrFrame b p ∧ ptrFrame b p + 4096 ≤ areaEnd b :=
      ⟨hlow, hhigh.trans hroom⟩
    have harea : areaEnd b ≤ identityMapSize := h.area.2
    exact ⟨hp.ptrFrame_aligned h, hin.2.trans harea, .inl hhigh, h.static_apart (by simp) hin,
      h.static_apart (by simp) hin, h.static_apart (by simp) hin⟩

theorem Cursor.physOf_static {b : KernelInfo} (h : Layout b) {s : Paging} {d t : Nat}
    (hc : Cursor b d s)
    (ht : t ∈ [b.kPml4, b.kPdpt, b.kPd, b.kPt1, b.kPt2, b.kPt3, b.kPt4]) :
    physOf s t = some (imagePhysical b t) := by
  have hk : kernelStart = 0xFFFFFFFF80000000 := rfl
  have ht' := h.statics t ht
  obtain ⟨hb₁, hb₂, hb₃, -⟩ := hc.bases
  unfold physOf addrIdentityMap identityMapSize
  rw [if_neg (by omega), hb₃, if_neg (by omega), hb₁, hb₂, if_pos ⟨ht'.2.1, by omega⟩,
    h.imagePhysical_eq ht'.2, Nat.add_comm]

theorem Cursor.kernelPagePhysical_eq {b : KernelInfo} (h : Layout b) {s : Paging} {d p : Nat}
    (hc : Cursor b d s) (hp : Allocated b s p) : kernelPagePhysical s p = ptrFrame b p := by
  have hk : kernelStart = 0xFFFFFFFF80000000 := rfl
  have hmap : identityMapSize = 0x200000000 := rfl
  obtain ⟨halign, hstart, hnext⟩ := hp
  obtain ⟨n, hv, hn⟩ := hc.count
  have hroom := hc.room
  have harea := h.area
  have hnext' := hc.next
  have hindexes := hc.indexes
  obtain ⟨-, -, hb₃, hb₄⟩ := hc.bases
  unfold areaEnd at hroom
  unfold kernelPagePhysical ptrFrame
  rw [hb₃, hb₄, if_pos hstart]
  omega

theorem Cursor.physOf_table {b : KernelInfo} (h : Layout b) {s : Paging} {d p : Nat}
    (hc : Cursor b d s) (hp : TablePtr b s p) : physOf s p = some (ptrFrame b p) := by
  rcases hp with hp | hp
  · rw [hc.physOf_static h (pt_static hp), h.ptrFrame_static (pt_static hp)]
  · have hk : kernelStart = 0xFFFFFFFF80000000 := rfl
    have hend := h.kernelEnd
    rw [← hc.kernelPagePhysical_eq h hp]
    obtain ⟨-, hstart, hnext⟩ := hp
    unfold physOf addrIdentityMap identityMapSize
    rw [hc.bases.2.2.1, if_neg (by omega), if_pos ⟨hstart, by omega⟩]

/-! ## Translating the next address -/

theorem Leads.of_entry {memory : Nat → Nat} {a f : Nat}
    (h : memory a = pagingMakePage f tableFlags) (hf : f % 4096 = 0 ∧ f < 2 ^ 52) :
    Leads memory a f := by
  refine ⟨?_, ?_, ?_⟩
  · rw [h]
    exact tableEntry_present f
  · rw [h]
    exact makePage_table_notHuge f
  · rw [h, makePage_addr, and_pageAddrMask_of_aligned hf.1 hf.2]

theorem Leads.of_makePage {memory : Nat → Nat} {a f : Nat}
    (h : memory a = pagingMakePage f tableFlags) (hf : f % 4096 = 0 ∧ f + 4096 ≤ identityMapSize) :
    Leads memory a f := by
  have hlt : f < 2 ^ 52 := by
    have := hf.2
    unfold identityMapSize at this
    omega
  exact .of_entry h ⟨hf.1, hlt⟩

theorem Leads.congr {memory memory' : Nat → Nat} {a f : Nat} (h : Leads memory a f)
    (ha : memory' a = memory a) : Leads memory' a f := by
  obtain ⟨hpresent, hplain, haddr⟩ := h
  exact ⟨by rwa [ha], by rwa [ha], by rwa [ha]⟩

theorem mmuWalk_leads {memory : Nat → Nat} {l table v i f : Nat}
    (hi : v / 2 ^ (12 + 9 * (l + 1)) % 512 = i) (h : Leads memory (table + 8 * i) f) :
    mmuWalk memory (l + 1) table v = mmuWalk memory l f v := by
  subst hi
  conv_lhs => rw [mmuWalk]
  rw [if_neg h.present, if_neg (not_not.mpr h.plain), h.addr]

/-- The processor finds the page a kernel address is mapped to through the
three words of the cursor. -/
theorem mmu_kernel {b : KernelInfo} {s : Paging} {pd pt f g : Nat} (hcr3 : s.cr3 = pml4Frame b)
    (h₄ : Leads s.memory (pml4Frame b + 8 * 511) (pdptFrame b))
    (h₃ : Leads s.memory (pdptFrame b + 8 * 510) (pdFrame b))
    (h₂ : Leads s.memory (pdFrame b + 8 * pd) f) (h₁ : Leads s.memory (f + 8 * pt) g)
    (hpd : pd < 512) (hpt : pt < 512) :
    mmu s (kernelStart + 4096 * (512 * pd + pt)) = some g := by
  have hk : kernelStart = 0xFFFFFFFF80000000 := rfl
  unfold mmu
  rw [hcr3, mmuWalk_leads (by omega) h₄, mmuWalk_leads (by omega) h₃, mmuWalk_leads (by omega) h₂]
  have hi : (kernelStart + 4096 * (512 * pd + pt)) / 2 ^ 12 % 512 = pt := by omega
  have hoff : (kernelStart + 4096 * (512 * pd + pt)) % 4096 = 0 := by omega
  unfold mmuWalk
  dsimp only
  rw [hi, if_neg h₁.present, h₁.addr, hoff, Nat.add_zero]

/-! ## Allocating one page -/

/-- The memory after the entry for the next page is set and the page zeroed. -/
def mappedMemory (s : Paging) (f : Nat) : Nat → Nat := fun a =>
  if s.kernelPhysicalMemoryNext ≤ a ∧ a < s.kernelPhysicalMemoryNext + pageSize then 0
  else Function.update s.memory (f + 8 * s.kCurrentPtIndex)
    (pagingMakePage s.kernelPhysicalMemoryNext tableFlags) a

def advanced (s : Paging) (memory : Nat → Nat) : Paging :=
  { s with
    memory := memory
    kernelVirtualMemoryNext := s.kernelVirtualMemoryNext + pageSize
    kernelPhysicalMemoryNext := s.kernelPhysicalMemoryNext + pageSize
    mapped := s.kernelVirtualMemoryNext :: s.mapped }

theorem mappedMemory_out {s : Paging} {f a : Nat} (hpt : s.kCurrentPtIndex < 512)
    (hf : a < f ∨ f + 4096 ≤ a)
    (hnext : a < s.kernelPhysicalMemoryNext ∨ s.kernelPhysicalMemoryNext + 4096 ≤ a) :
    mappedMemory s f a = s.memory a := by
  unfold mappedMemory pageSize
  rw [if_neg (by omega), Function.update_of_ne (by omega)]

/-- The page that comes next is an aligned page of the free area. -/
theorem Cursor.nextPage {b : KernelInfo} (h : Layout b) {s : Paging} {d : Nat} (hc : Cursor b d s)
    (hroom : s.kernelPhysicalMemoryNext + 4096 ≤ areaEnd b) :
    s.kernelPhysicalMemoryNext % 4096 = 0 ∧
      s.kernelPhysicalMemoryNext + 4096 ≤ identityMapSize ∧
      b.kernelAllocateMemoryStart ≤ s.kernelPhysicalMemoryNext := by
  obtain ⟨n, hv, hn⟩ := hc.count
  have harea := h.area
  unfold areaEnd at hroom
  omega

/-- `m` differs from memory in the current page table and the next page only. -/
def Touched (b : KernelInfo) (s : Paging) (m : Nat → Nat) : Prop :=
  ∀ a, a < ptrFrame b s.kCurrentPt ∨ ptrFrame b s.kCurrentPt + 4096 ≤ a →
    a < s.kernelPhysicalMemoryNext ∨ s.kernelPhysicalMemoryNext + 4096 ≤ a → m a = s.memory a

theorem Cursor.touched_entry {b : KernelInfo} (h : Layout b) {s : Paging} (hc : Cursor b 0 s)
    (hroom : s.kernelPhysicalMemoryNext + 4096 ≤ areaEnd b) {m : Nat → Nat} (hm : Touched b s m)
    {a f : Nat} (hf : f = pml4Frame b ∨ f = pdptFrame b ∨ f = pdFrame b)
    (ha : f ≤ a ∧ a < f + 4096) : m a = s.memory a := by
  have hnext := hc.nextPage h hroom
  obtain ⟨htable, -, -, h4, h3, h2⟩ := h.table_frame hc hc.table.1
  have hframe : f % 4096 = 0 ∧ (f + 4096 ≤ b.kernelAllocateMemoryStart ∨ areaEnd b ≤ f) := by
    rcases hf with rfl | rfl | rfl
    · have := h.static_frame (t := b.kPml4) (by simp)
      exact ⟨this.1, this.2.2.1⟩
    · have := h.static_frame (t := b.kPdpt) (by simp)
      exact ⟨this.1, this.2.2.1⟩
    · have := h.static_frame (t := b.kPd) (by simp)
      exact ⟨this.1, this.2.2.1⟩
  have hne : ptrFrame b s.kCurrentPt ≠ f := by rcases hf with rfl | rfl | rfl <;> assumption
  exact hm a (by omega) (by omega)

theorem Cursor.advance_eq {b : KernelInfo} (h : Layout b) {s : Paging} (hc : Cursor b 0 s)
    (hroom : s.kernelPhysicalMemoryNext + 4096 ≤ areaEnd b) :
    (s.kernelVirtualMemoryNext + pageSize) % 2 ^ 64 = s.kernelVirtualMemoryNext + pageSize ∧
      (s.kernelPhysicalMemoryNext + pageSize) % 2 ^ 64 = s.kernelPhysicalMemoryNext + pageSize ∧
      (s.kernelVirtualMemoryNext + pageSize + 2 ^ 64 - pageSize) % 2 ^ 64
        = s.kernelVirtualMemoryNext := by
  have hk : kernelStart = 0xFFFFFFFF80000000 := rfl
  have hmap : identityMapSize = 0x200000000 := rfl
  have hindexes := hc.indexes
  have hnext := hc.next
  have harea := (hc.nextPage h hroom).2.1
  unfold pageSize
  refine ⟨?_, ?_, ?_⟩ <;> omega

theorem single_eq {b : KernelInfo} (h : Layout b) {s : Paging} (hc : Cursor b 0 s)
    (hroom : s.kernelPhysicalMemoryNext + 4096 ≤ areaEnd b) :
    pagingAllocateSingleLinearKernelPage s = some (s.kernelVirtualMemoryNext,
      advanced s (mappedMemory s (ptrFrame b s.kCurrentPt))) := by
  obtain ⟨halign, hdirect, -⟩ := hc.nextPage h hroom
  obtain ⟨-, -, -, h4, h3, h2⟩ := h.table_frame hc hc.table.1
  have htable := (h.table_frame hc hc.table.1).1
  have hindexes := hc.indexes
  have hP4 := (h.static_frame (t := b.kPml4) (by simp)).1
  have hP3 := (h.static_frame (t := b.kPdpt) (by simp)).1
  have hP2 := (h.static_frame (t := b.kPd) (by simp)).1
  -- the entry of the next page is not one of the three words
  have hword : ∀ {f i}, f % 4096 = 0 → i < 512 → ptrFrame b s.kCurrentPt ≠ f →
      Function.update s.memory (ptrFrame b s.kCurrentPt + 8 * s.kCurrentPtIndex)
        (pagingMakePage s.kernelPhysicalMemoryNext tableFlags) (f + 8 * i) = s.memory (f + 8 * i) :=
    fun hf hi hne => Function.update_of_ne (by omega) ..
  have hmmu : mmu (s.write (ptrFrame b s.kCurrentPt + 8 * s.kCurrentPtIndex)
      (pagingMakePage s.kernelPhysicalMemoryNext tableFlags)) s.kernelVirtualMemoryNext
      = some s.kernelPhysicalMemoryNext := by
    rw [hc.next, Nat.add_zero]
    refine mmu_kernel hc.cr3 (hc.pml4Entry.congr (hword hP4 (by decide) h4))
      (hc.pdptEntry.congr (hword hP3 (by decide) h3))
      (hc.table.2.congr (hword hP2 hindexes.1 h2)) (.of_makePage ?_ ⟨halign, hdirect⟩)
      hindexes.1 hindexes.2
    exact Function.update_self ..
  have hset : memsetPage (s.write (ptrFrame b s.kCurrentPt + 8 * s.kCurrentPtIndex)
      (pagingMakePage s.kernelPhysicalMemoryNext tableFlags)) s.kernelVirtualMemoryNext
      = some { s with memory := mappedMemory s (ptrFrame b s.kCurrentPt) } := by
    unfold memsetPage
    rw [hmmu]
    rfl
  obtain ⟨hv, hp, hr⟩ := hc.advance_eq h hroom
  unfold pagingAllocateSingleLinearKernelPage
  simp only [Option.bind_eq_bind, storeEntry_eq (hc.physOf_table h hc.table.1), Option.bind_some]
  rw [show (s.write (ptrFrame b s.kCurrentPt + 8 * s.kCurrentPtIndex)
      (pagingMakePage s.kernelPhysicalMemoryNext tableFlags)).kernelVirtualMemoryNext
      = s.kernelVirtualMemoryNext from rfl, hset, Option.bind_some, hv, hp, hr]
  rfl

/-! ## What is kept -/

theorem Allocated.mono {b : KernelInfo} {s s' : Paging} {p : Nat} (h : Allocated b s p)
    (hs : s.kernelVirtualMemoryNext ≤ s'.kernelVirtualMemoryNext) : Allocated b s' p :=
  ⟨h.1, h.2.1, h.2.2.trans hs⟩

theorem TablePtr.mono {b : KernelInfo} {s s' : Paging} {p : Nat} (h : TablePtr b s p)
    (hs : s.kernelVirtualMemoryNext ≤ s'.kernelVirtualMemoryNext) : TablePtr b s' p :=
  h.imp_right fun h => h.mono hs

/-- A page that has been handed out to a caller: not one of the allocator's
own tables. -/
structure DataPage (b : KernelInfo) (s : Paging) (p : Nat) : Prop where
  allocated : Allocated b s p
  notCurrent : p ≠ s.kCurrentPt
  notNew : p ≠ s.kNewPt

/-- The PML4 and the pages handed out keep their content. -/
structure Keeps (b : KernelInfo) (s s' : Paging) : Prop where
  pml4 : ∀ i, i < 512 → s'.memory (pml4Frame b + 8 * i) = s.memory (pml4Frame b + 8 * i)
  data : ∀ p, DataPage b s p → DataPage b s' p ∧
    ∀ i, i < 512 → s'.memory (ptrFrame b p + 8 * i) = s.memory (ptrFrame b p + 8 * i)

theorem Keeps.refl (b : KernelInfo) (s : Paging) : Keeps b s s :=
  ⟨fun _ _ => rfl, fun _ h => ⟨h, fun _ _ => rfl⟩⟩

theorem Keeps.trans {b : KernelInfo} {s s₁ s₂ : Paging} (h₁ : Keeps b s s₁) (h₂ : Keeps b s₁ s₂) :
    Keeps b s s₂ where
  pml4 i hi := (h₂.pml4 i hi).trans (h₁.pml4 i hi)
  data p hp :=
    have hp₁ := h₁.data p hp
    have hp₂ := h₂.data p hp₁.1
    ⟨hp₂.1, fun i hi => (hp₂.2 i hi).trans (hp₁.2 i hi)⟩

/-- A page handed out to a caller is no page table of the cursor. -/
theorem Layout.data_frame {b : KernelInfo} (h : Layout b) {s : Paging} {d p q : Nat}
    (hc : Cursor b d s) (hp : Allocated b s p) (hq : TablePtr b s q) (hne : p ≠ q) :
    ptrFrame b p ≠ ptrFrame b q := by
  rcases hq with hq | ⟨-, hstart', -⟩
  · obtain ⟨hlow, hhigh⟩ := hc.allocated_frame hp
    rw [h.ptrFrame_static (pt_static hq)]
    exact h.static_apart (pt_static hq) ⟨hlow, hhigh.trans hc.room⟩
  · obtain ⟨-, hstart, -⟩ := hp
    unfold ptrFrame
    rw [if_pos hstart, if_pos hstart']
    omega

/-! ## One page further -/

theorem advanced_cursor {b : KernelInfo} (h : Layout b) {s : Paging} (hc : Cursor b 0 s)
    (hroom : s.kernelPhysicalMemoryNext + 4096 ≤ areaEnd b) {m : Nat → Nat}
    (hm : Touched b s m) : Cursor b 1 (advanced s m) := by
  have hle : s.kernelVirtualMemoryNext ≤ (advanced s m).kernelVirtualMemoryNext :=
    Nat.le_add_right ..
  have hnext := hc.next
  refine ⟨hc.cr3, hc.bases, hc.pd, hc.pml4Entry.congr ?_, hc.pdptEntry.congr ?_, hc.indexes, ?_, ?_,
    hroom, ⟨hc.table.1.mono hle, hc.table.2.congr ?_⟩, hc.newPt.trans_le hle⟩
  · exact hc.touched_entry h hroom hm (.inl rfl) (by omega)
  · exact hc.touched_entry h hroom hm (.inr (.inl rfl)) (by omega)
  · unfold advanced pageSize
    dsimp only
    omega
  · obtain ⟨n, hv, hn⟩ := hc.count
    refine ⟨n + 1, ?_, ?_⟩
    · unfold advanced pageSize
      dsimp only
      omega
    · unfold advanced pageSize
      dsimp only
      omega
  · have := hc.indexes
    exact hc.touched_entry h hroom hm (.inr (.inr rfl)) (by omega)

theorem advanced_keeps {b : KernelInfo} (h : Layout b) {s : Paging} (hc : Cursor b 0 s)
    (hroom : s.kernelPhysicalMemoryNext + 4096 ≤ areaEnd b) {m : Nat → Nat}
    (hm : Touched b s m) : Keeps b s (advanced s m) where
  pml4 i hi := hc.touched_entry h hroom hm (.inl rfl) (by omega)
  data p hp := by
    refine ⟨⟨hp.allocated.mono (Nat.le_add_right ..), hp.notCurrent, hp.notNew⟩, fun i hi => ?_⟩
    have hne := h.data_frame hc hp.allocated hc.table.1 hp.notCurrent
    have hframe := hc.allocated_frame hp.allocated
    have hp' := (h.table_frame hc (.inr hp.allocated)).1
    have htable := (h.table_frame hc hc.table.1).1
    exact hm _ (by omega) (by omega)

theorem mappedMemory_touched (b : KernelInfo) {s : Paging} (hpt : s.kCurrentPtIndex < 512) :
    Touched b s (mappedMemory s (ptrFrame b s.kCurrentPt)) :=
  fun _ => mappedMemory_out hpt

theorem Cursor.newPage {b : KernelInfo} (h : Layout b) {s : Paging} (hc : Cursor b 0 s)
    (m : Nat → Nat) : Allocated b (advanced s m) s.kernelVirtualMemoryNext ∧
      ptrFrame b s.kernelVirtualMemoryNext = s.kernelPhysicalMemoryNext := by
  obtain ⟨n, hv, hn⟩ := hc.count
  have hend := h.kernelEnd
  refine ⟨⟨by omega, by omega, le_refl _⟩, ?_⟩
  unfold ptrFrame
  rw [if_pos (by omega)]
  omega

theorem Cursor.newPage_data {b : KernelInfo} (h : Layout b) {s : Paging} (hc : Cursor b 0 s)
    (m : Nat → Nat) : DataPage b (advanced s m) s.kernelVirtualMemoryNext := by
  have halloc := (hc.newPage h m).1
  refine ⟨halloc, fun heq => ?_, fun heq => ?_⟩
  · -- the current table was there before
    have heq : s.kernelVirtualMemoryNext = s.kCurrentPt := heq
    obtain ⟨n, hv, -⟩ := hc.count
    rcases hc.table.1 with hmem | ⟨-, -, hlt⟩
    · have := h.statics s.kCurrentPt (pt_static hmem)
      omega
    · omega
  · have := hc.newPt
    rw [show s.kNewPt = s.kernelVirtualMemoryNext from heq.symm] at this
    exact Nat.lt_irrefl _ this

theorem Cursor.leaf {b : KernelInfo} (h : Layout b) {s : Paging} (hc : Cursor b 0 s)
    (hroom : s.kernelPhysicalMemoryNext + 4096 ≤ areaEnd b) :
    Leads (mappedMemory s (ptrFrame b s.kCurrentPt))
      (ptrFrame b s.kCurrentPt + 8 * s.kCurrentPtIndex) s.kernelPhysicalMemoryNext := by
  obtain ⟨halign, hdirect, -⟩ := hc.nextPage h hroom
  obtain ⟨htable, -, hout, -⟩ := h.table_frame hc hc.table.1
  have hindexes := hc.indexes
  refine .of_makePage ?_ ⟨halign, hdirect⟩
  unfold mappedMemory pageSize
  rw [if_neg (by omega), Function.update_self]

theorem single_mmu {b : KernelInfo} (h : Layout b) {s : Paging} (hc : Cursor b 0 s)
    (hroom : s.kernelPhysicalMemoryNext + 4096 ≤ areaEnd b) :
    mmu (advanced s (mappedMemory s (ptrFrame b s.kCurrentPt))) s.kernelVirtualMemoryNext
      = some s.kernelPhysicalMemoryNext := by
  have hc₁ := advanced_cursor h hc hroom (mappedMemory_touched b hc.indexes.2)
  rw [hc.next, Nat.add_zero]
  exact mmu_kernel hc₁.cr3 hc₁.pml4Entry hc₁.pdptEntry hc₁.table.2 (hc.leaf h hroom)
    hc.indexes.1 hc.indexes.2

/-! ## Stepping the position -/

/-- The state after `paging_increment_kernel_page_index`, within one page
directory. -/
def stepped (b : KernelInfo) (s : Paging) : Paging :=
  if s.kCurrentPtIndex = 511 then
    { s with
      memory := Function.update s.memory (pdFrame b + 8 * (s.kCurrentPdIndex + 1))
        (pagingMakePage (ptrFrame b s.kNewPt) tableFlags)
      kCurrentPtIndex := 0
      kCurrentPdIndex := s.kCurrentPdIndex + 1
      kCurrentPt := s.kNewPt }
  else { s with kCurrentPtIndex := s.kCurrentPtIndex + 1 }

theorem increment_eq {b : KernelInfo} (h : Layout b) {s : Paging} {d : Nat} (hc : Cursor b d s)
    (hroll : s.kCurrentPtIndex = 511 → Allocated b s s.kNewPt ∧ s.kCurrentPdIndex < 511) :
    pagingIncrementKernelPageIndex s = some (stepped b s) := by
  have hindexes := hc.indexes
  unfold pagingIncrementKernelPageIndex incrementPtIndex stepped
  by_cases hpt : s.kCurrentPtIndex = 511
  · obtain ⟨hnew, hpd⟩ := hroll hpt
    have hptr : physOf s s.kCurrentPd = some (pdFrame b) := by
      rw [hc.pd]
      exact hc.physOf_static h (by simp)
    have hentry := hc.kernelPagePhysical_eq h hnew
    rw [if_pos hpt, if_pos hpt]
    dsimp only
    rw [storeEntry_eq (s := { s with kCurrentPtIndex := 0, kCurrentPt := s.kNewPt }) hptr,
      show kernelPagePhysical { s with kCurrentPtIndex := 0, kCurrentPt := s.kNewPt } s.kNewPt
        = kernelPagePhysical s s.kNewPt from rfl, hentry, Option.map_some, Option.bind_some]
    unfold rolloverPd
    rw [if_neg (by dsimp only [Paging.write]; omega)]
    dsimp only [Paging.write]
    rw [Nat.mod_eq_of_lt (by omega)]
  · rw [if_neg hpt, if_neg hpt, Option.bind_some, Nat.mod_eq_of_lt (by omega)]
    exact if_neg (by dsimp only; omega)

theorem stepped_cursor {b : KernelInfo} (h : Layout b) {s : Paging} (hc : Cursor b 1 s)
    (hroll : s.kCurrentPtIndex = 511 → Allocated b s s.kNewPt ∧ s.kCurrentPdIndex < 511) :
    Cursor b 0 (stepped b s) := by
  have hindexes := hc.indexes
  have hnext := hc.next
  unfold stepped
  split
  · next hpt =>
      obtain ⟨hnew, hpd⟩ := hroll hpt
      have hframe := h.table_frame hc (.inr hnew)
      have hP4 := (h.static_frame (t := b.kPml4) (by simp)).1
      have hP3 := (h.static_frame (t := b.kPdpt) (by simp)).1
      have hP2 := (h.static_frame (t := b.kPd) (by simp)).1
      obtain ⟨hne₁, hne₂, hne₃⟩ := h.upper_frames
      unfold pml4Frame pdptFrame pdFrame at *
      refine ⟨hc.cr3, hc.bases, hc.pd, hc.pml4Entry.congr ?_, hc.pdptEntry.congr ?_,
        ⟨by dsimp only; omega, by dsimp only; omega⟩, ?_, hc.count, hc.room,
        ⟨.inr hnew, .of_makePage ?_ ⟨hframe.1, hframe.2.1⟩⟩, hc.newPt⟩
      · exact Function.update_of_ne (by unfold pml4Frame; omega) ..
      · exact Function.update_of_ne (by unfold pdptFrame; omega) ..
      · dsimp only
        rw [hnext, hpt, Nat.add_zero, Nat.add_zero, Nat.mul_succ 512]
      · exact Function.update_self ..
  · next hpt =>
      refine ⟨hc.cr3, hc.bases, hc.pd, hc.pml4Entry, hc.pdptEntry,
        ⟨hindexes.1, by dsimp only; omega⟩, ?_, hc.count, hc.room, hc.table, hc.newPt⟩
      dsimp only
      omega

theorem stepped_keeps {b : KernelInfo} (h : Layout b) {s : Paging} {d : Nat} (hc : Cursor b d s)
    (hpd : s.kCurrentPtIndex = 511 → s.kCurrentPdIndex < 511) : Keeps b s (stepped b s) := by
  unfold stepped
  split
  · next hpt =>
      have hpd := hpd hpt
      have hP2 := (h.static_frame (t := b.kPd) (by simp)).1
      refine ⟨fun i hi => Function.update_of_ne ?_ .., fun p hp =>
        ⟨⟨hp.allocated, hp.notNew, hp.notNew⟩, fun i hi => Function.update_of_ne ?_ ..⟩⟩
      · have hP4 := (h.static_frame (t := b.kPml4) (by simp)).1
        have hne := h.upper_frames.2.1
        unfold pml4Frame pdFrame at *
        omega
      · obtain ⟨halign, -, -, -, -, hne⟩ := h.table_frame hc (.inr hp.allocated)
        unfold pdFrame at *
        omega
  · exact ⟨fun _ _ => rfl, fun p hp => ⟨⟨hp.allocated, hp.notCurrent, hp.notNew⟩, fun _ _ => rfl⟩⟩

@[simp] theorem stepped_next (b : KernelInfo) (s : Paging) :
    (stepped b s).kernelVirtualMemoryNext = s.kernelVirtualMemoryNext ∧
      (stepped b s).kernelPhysicalMemoryNext = s.kernelPhysicalMemoryNext ∧
      (stepped b s).kNewPt = s.kNewPt ∧ (stepped b s).kNewPd = s.kNewPd := by
  unfold stepped
  split <;> exact ⟨rfl, rfl, rfl, rfl⟩

/-! ## Linear allocation -/

/-- `n` pages further. -/
structure Further (b : KernelInfo) (n : Nat) (s s' : Paging) : Prop where
  cursor : Cursor b 0 s'
  virt : s'.kernelVirtualMemoryNext = s.kernelVirtualMemoryNext + 4096 * n
  phys : s'.kernelPhysicalMemoryNext = s.kernelPhysicalMemoryNext + 4096 * n
  newPd : s'.kNewPd = s.kNewPd
  keeps : Keeps b s s'

theorem Further.trans {b : KernelInfo} {n₁ n₂ : Nat} {s s₁ s₂ : Paging} (h₁ : Further b n₁ s s₁)
    (h₂ : Further b n₂ s₁ s₂) : Further b (n₁ + n₂) s s₂ where
  cursor := h₂.cursor
  virt := by rw [h₂.virt, h₁.virt, Nat.mul_add, Nat.add_assoc]
  phys := by rw [h₂.phys, h₁.phys, Nat.mul_add, Nat.add_assoc]
  newPd := h₂.newPd.trans h₁.newPd
  keeps := h₁.keeps.trans h₂.keeps

/-- The position in pages, from the start of the kernel's gigabyte. -/
def position (s : Paging) : Nat := 512 * s.kCurrentPdIndex + s.kCurrentPtIndex

theorem Further.position_eq {b : KernelInfo} {n : Nat} {s s' : Paging} (hc : Cursor b 0 s)
    (h : Further b n s s') : position s' = position s + n := by
  have hnext := hc.next
  have hnext' := h.cursor.next
  have hvirt := h.virt
  unfold position
  omega

def FreshData (b : KernelInfo) (s : Paging) (p : Nat) : Prop :=
  DataPage b s p ∧ ∀ i, i < 512 → s.memory (ptrFrame b p + 8 * i) = 0

theorem Cursor.newPage_fresh {b : KernelInfo} (h : Layout b) {s : Paging} (hc : Cursor b 0 s) :
    FreshData b (advanced s (mappedMemory s (ptrFrame b s.kCurrentPt)))
      s.kernelVirtualMemoryNext := by
  refine ⟨hc.newPage_data h _, fun i hi => ?_⟩
  rw [(hc.newPage h (mappedMemory s (ptrFrame b s.kCurrentPt))).2]
  exact if_pos ⟨by omega, by unfold pageSize; omega⟩

theorem FreshData.keeps {b : KernelInfo} {s s' : Paging} {p : Nat} (h : FreshData b s p)
    (hk : Keeps b s s') : FreshData b s' p := by
  obtain ⟨hdata, hsame⟩ := hk.data p h.1
  exact ⟨hdata, fun i hi => (hsame i hi).trans (h.2 i hi)⟩

theorem stepped_further {b : KernelInfo} (h : Layout b) {s : Paging} (hc : Cursor b 0 s)
    (hroom : s.kernelPhysicalMemoryNext + 4096 ≤ areaEnd b) {m : Nat → Nat}
    (hm : Touched b s m)
    (hroll : s.kCurrentPtIndex = 511 → Allocated b s s.kNewPt ∧ s.kCurrentPdIndex < 511) :
    pagingIncrementKernelPageIndex (advanced s m) = some (stepped b (advanced s m)) ∧
      Further b 1 s (stepped b (advanced s m)) := by
  have hc' := advanced_cursor h hc hroom hm
  have hroll' : (advanced s m).kCurrentPtIndex = 511 →
      Allocated b (advanced s m) (advanced s m).kNewPt ∧ (advanced s m).kCurrentPdIndex < 511 :=
    fun hpt => ⟨(hroll hpt).1.mono (Nat.le_add_right ..), (hroll hpt).2⟩
  obtain ⟨hv, hp, -, hpd⟩ := stepped_next b (advanced s m)
  exact ⟨increment_eq h hc' hroll', stepped_cursor h hc' hroll', hv, hp, hpd,
    (advanced_keeps h hc hroom hm).trans (stepped_keeps h hc' fun hpt => (hroll' hpt).2)⟩

theorem stepped_mmu {b : KernelInfo} (h : Layout b) {s : Paging} (hc : Cursor b 0 s)
    (hroom : s.kernelPhysicalMemoryNext + 4096 ≤ areaEnd b)
    (hroll : s.kCurrentPtIndex = 511 → Allocated b s s.kNewPt ∧ s.kCurrentPdIndex < 511) :
    mmu (stepped b (advanced s (mappedMemory s (ptrFrame b s.kCurrentPt))))
      s.kernelVirtualMemoryNext = some s.kernelPhysicalMemoryNext := by
  have htouched := mappedMemory_touched b hc.indexes.2
  have hc₁ := advanced_cursor h hc hroom htouched
  obtain ⟨-, hfurther⟩ := stepped_further h hc hroom htouched hroll
  obtain ⟨htable, -, -, -, -, hne⟩ := h.table_frame hc hc.table.1
  have hP2 : pdFrame b % 4096 = 0 := (h.static_frame (t := b.kPd) (by simp)).1
  have hindexes := hc.indexes
  -- the rollover sets an entry of the page directory after the current one
  have hkeep : ∀ a, (a < pdFrame b ∨ pdFrame b + 4096 ≤ a ∨
      a = pdFrame b + 8 * s.kCurrentPdIndex) →
      (stepped b (advanced s (mappedMemory s (ptrFrame b s.kCurrentPt)))).memory a
        = mappedMemory s (ptrFrame b s.kCurrentPt) a := by
    intro a ha
    unfold stepped
    split
    · next hpt =>
        have hpd : s.kCurrentPdIndex < 511 := (hroll hpt).2
        have hpd' : (advanced s (mappedMemory s (ptrFrame b s.kCurrentPt))).kCurrentPdIndex
          = s.kCurrentPdIndex := rfl
        exact Function.update_of_ne (by omega) ..
    · rfl
  rw [hc.next, Nat.add_zero]
  refine mmu_kernel hfurther.cursor.cr3 hfurther.cursor.pml4Entry hfurther.cursor.pdptEntry
    (hc₁.table.2.congr (hkeep _ ?_)) ((hc.leaf h hroom).congr (hkeep _ ?_)) hindexes.1 hindexes.2
  · exact .inr (.inr rfl)
  · omega

theorem linearPages_ok {b : KernelInfo} (h : Layout b) {n : Nat} {s : Paging} (hc : Cursor b 0 s)
    (hroom : s.kernelPhysicalMemoryNext + 4096 * n ≤ areaEnd b) (hpos : position s + n < 2 ^ 18)
    (hlook : s.kCurrentPtIndex + n ≤ 511 ∨ Allocated b s s.kNewPt) :
    ∃ s', linearPages n s = some s' ∧ Further b n s s' ∧ s'.kNewPt = s.kNewPt ∧
      (0 < n → FreshData b s' s.kernelVirtualMemoryNext) ∧
      (n = 1 → mmu s' s.kernelVirtualMemoryNext = some (ptrFrame b s.kernelVirtualMemoryNext)) := by
  induction n generalizing s with
  | zero =>
      exact ⟨s, rfl, ⟨hc, rfl, rfl, rfl, .refl b s⟩, rfl, fun h => absurd h (by decide),
        fun h => absurd h (by decide)⟩
  | succ n ih =>
      rw [Nat.mul_succ] at hroom
      have hroom₁ : s.kernelPhysicalMemoryNext + 4096 ≤ areaEnd b :=
        (Nat.add_le_add_left (Nat.le_add_left ..) _).trans hroom
      have htouched := mappedMemory_touched b hc.indexes.2
      have hroll : s.kCurrentPtIndex = 511 → Allocated b s s.kNewPt ∧ s.kCurrentPdIndex < 511 := by
        unfold position at hpos
        exact fun hpt => ⟨hlook.resolve_left (by omega), by omega⟩
      obtain ⟨hinc, hfurther⟩ := stepped_further h hc hroom₁ htouched hroll
      have hmmu := stepped_mmu h hc hroom₁ hroll
      generalize hs₁ : stepped b (advanced s _) = s₁ at hinc hfurther hmmu
      have hnewPt : s₁.kNewPt = s.kNewPt := by
        rw [← hs₁]
        exact (stepped_next b _).2.2.1
      have hindex : s₁.kCurrentPtIndex + n ≤ 511 ∨ Allocated b s₁ s₁.kNewPt := by
        rcases hlook with hpt | hnew
        · have := hfurther.position_eq hc
          have h₁ := hfurther.cursor.indexes
          have h₀ := hc.indexes
          unfold position at this
          exact .inl (by omega)
        · rw [hnewPt]
          exact .inr (hnew.mono (by rw [hfurther.virt]; exact Nat.le_add_right ..))
      have hpos₁ : position s₁ + n < 2 ^ 18 := by
        have := hfurther.position_eq hc
        omega
      have hroom₂ : s₁.kernelPhysicalMemoryNext + 4096 * n ≤ areaEnd b := by
        rw [hfurther.phys]
        omega
      obtain ⟨s₂, hs₂, hfurther₂, hnewPt₂, -, -⟩ := ih hfurther.cursor hroom₂ hpos₁ hindex
      refine ⟨s₂, ?_, Nat.add_comm n 1 ▸ hfurther.trans hfurther₂, hnewPt₂.trans hnewPt,
        fun _ => ?_, fun hone => ?_⟩
      · unfold linearPages
        simp only [single_eq h hc hroom₁, Option.bind_eq_bind, Option.bind_some, hinc]
        exact hs₂
      · -- the first page was zeroed, and no later step touches it
        have hfresh := hc.newPage_fresh h
        have hc₁ := advanced_cursor h hc hroom₁ htouched
        have hkeeps := stepped_keeps h hc₁ fun hpt => (hroll hpt).2
        rw [hs₁] at hkeeps
        exact (hfresh.keeps hkeeps).keeps hfurther₂.keeps
      · obtain rfl : n = 0 := Nat.succ.inj hone
        obtain rfl := Option.some.inj hs₂
        rw [hmmu, (hc.newPage h (mappedMemory s (ptrFrame b s.kCurrentPt))).2]

/-- Whether the next linear allocation takes a page for the next table. -/
def renews (s : Paging) : Nat := if s.kCurrentPt = s.kNewPt then 1 else 0

theorem renewPt_ok {b : KernelInfo} (h : Layout b) {s : Paging} (hc : Cursor b 0 s)
    (hroom : s.kernelPhysicalMemoryNext + 4096 * renews s ≤ areaEnd b)
    (hpos : position s + renews s < 2 ^ 18) :
    ∃ s', renewPt s = some s' ∧ Further b (renews s) s s' ∧
      (s.kCurrentPt = s.kNewPt → Allocated b s' s'.kNewPt) ∧
      (s.kCurrentPt ≠ s.kNewPt → s' = s) := by
  unfold renewPt renews at *
  by_cases heq : s.kCurrentPt = s.kNewPt
  · rw [if_pos heq] at hroom hpos
    rw [if_pos heq, if_pos heq]
    have htouched := mappedMemory_touched b hc.indexes.2
    have hc₁ := advanced_cursor h hc hroom htouched
    have hkeeps₁ := advanced_keeps h hc hroom htouched
    have hnew := (hc.newPage h (mappedMemory s (ptrFrame b s.kCurrentPt))).1
    rw [single_eq h hc hroom]
    -- the new table is the page just allocated
    generalize hs₁ : advanced s (mappedMemory s (ptrFrame b s.kCurrentPt)) = s₁ at *
    have hv : s₁.kernelVirtualMemoryNext = s.kernelVirtualMemoryNext + 4096 := by rw [← hs₁]; rfl
    have hp : s₁.kernelPhysicalMemoryNext = s.kernelPhysicalMemoryNext + 4096 := by rw [← hs₁]; rfl
    have hd : s₁.kNewPd = s.kNewPd ∧ s₁.kCurrentPdIndex = s.kCurrentPdIndex ∧
        s₁.kCurrentPtIndex = s.kCurrentPtIndex := by
      rw [← hs₁]
      exact ⟨rfl, rfl, rfl⟩
    have hc₂ : Cursor b 1 { s₁ with kNewPt := s.kernelVirtualMemoryNext } :=
      { hc₁ with newPt := by dsimp only; omega }
    have hroll : s₁.kCurrentPtIndex = 511 →
        Allocated b { s₁ with kNewPt := s.kernelVirtualMemoryNext } s.kernelVirtualMemoryNext ∧
          s₁.kCurrentPdIndex < 511 := fun hpt => ⟨hnew, by unfold position at hpos; omega⟩
    obtain ⟨hv', hp', hpt', hpd'⟩ := stepped_next b { s₁ with kNewPt := s.kernelVirtualMemoryNext }
    refine ⟨_, increment_eq h hc₂ hroll, ⟨stepped_cursor h hc₂ hroll, hv'.trans hv, hp'.trans hp,
      hpd'.trans hd.1, ?_⟩, fun _ => ?_, fun hne => absurd heq hne⟩
    · -- the new table is none of the pages handed out before
      have hkeeps₂ : Keeps b s { s₁ with kNewPt := s.kernelVirtualMemoryNext } := by
        refine ⟨hkeeps₁.pml4, fun p hp => ?_⟩
        obtain ⟨hdata, hsame⟩ := hkeeps₁.data p hp
        have hlt := hp.allocated.2.2
        exact ⟨⟨hdata.allocated, hdata.notCurrent, by dsimp only; omega⟩, hsame⟩
      exact hkeeps₂.trans (stepped_keeps h hc₂ fun hpt => (hroll hpt).2)
    · rw [hpt']
      exact hnew.mono (by rw [hv'])
  · rw [if_neg heq, if_neg heq]
    exact ⟨s, rfl, ⟨hc, rfl, rfl, rfl, .refl b s⟩, fun h => absurd h heq, fun _ => rfl⟩

/-- A linear allocation stays in the page directory and in the area. -/
structure Fits (b : KernelInfo) (s : Paging) (n : Nat) : Prop where
  area : s.kernelPhysicalMemoryNext + 4096 * n ≤ areaEnd b
  directory : position s + n < 2 ^ 18

theorem Fits.further {b : KernelInfo} {n k : Nat} {s s' : Paging} (hc : Cursor b 0 s)
    (h : Further b n s s') (hfits : Fits b s (n + k)) : Fits b s' k := by
  obtain ⟨harea, hdirectory⟩ := hfits
  refine ⟨?_, ?_⟩
  · rw [h.phys, Nat.add_assoc, ← Nat.mul_add]
    exact harea
  · rw [h.position_eq hc, Nat.add_assoc]
    exact hdirectory

theorem Fits.mono {b : KernelInfo} {n k : Nat} {s : Paging} (hfits : Fits b s n) (h : k ≤ n) :
    Fits b s k :=
  ⟨(Nat.add_le_add_left (Nat.mul_le_mul_left _ h) _).trans hfits.area,
    (Nat.add_le_add_left h _).trans_lt hfits.directory⟩

theorem renews_le (s : Paging) : renews s ≤ 1 := by
  unfold renews
  split <;> decide

theorem linear_ok {b : KernelInfo} (h : Layout b) {n : Nat} {s : Paging} (hc : Cursor b 0 s)
    (hn : 0 < n) (hpd : s.kNewPd ≠ b.kPd) (hfits : Fits b s (renews s + n))
    (hlook : s.kCurrentPt = s.kNewPt ∨ s.kCurrentPtIndex + n ≤ 511 ∨ Allocated b s s.kNewPt) :
    ∃ v s', pageAllocateKernelLinear n s = some (v, s') ∧ Further b (renews s + n) s s' ∧
      FreshData b s' v ∧ s.kernelVirtualMemoryNext ≤ v ∧
      (n = 1 → mmu s' v = some (ptrFrame b v)) ∧
      (s.kCurrentPt = s.kNewPt → Allocated b s' s'.kNewPt) ∧
      (s.kCurrentPt ≠ s.kNewPt → s'.kNewPt = s.kNewPt) := by
  have hroom₁ : s.kernelPhysicalMemoryNext + 4096 * renews s ≤ areaEnd b := by
    have := hfits.area
    omega
  have hpos₁ : position s + renews s < 2 ^ 18 := by
    have := hfits.directory
    omega
  obtain ⟨s₁, hs₁, hfurther₁, hnew, hsame⟩ := renewPt_ok h hc hroom₁ hpos₁
  have hroom₂ : s₁.kernelPhysicalMemoryNext + 4096 * n ≤ areaEnd b := by
    have := hfits.area
    rw [hfurther₁.phys]
    omega
  have hpos₂ : position s₁ + n < 2 ^ 18 := by
    have := hfits.directory
    rw [hfurther₁.position_eq hc]
    omega
  have hlook₂ : s₁.kCurrentPtIndex + n ≤ 511 ∨ Allocated b s₁ s₁.kNewPt := by
    by_cases heq : s.kCurrentPt = s.kNewPt
    · exact .inr (hnew heq)
    · rw [hsame heq]
      exact hlook.resolve_left heq
  obtain ⟨s₂, hs₂, hfurther₂, hnewPt, hfresh, hmmu⟩ :=
    linearPages_ok h hfurther₁.cursor hroom₂ hpos₂ hlook₂
  refine ⟨s₁.kernelVirtualMemoryNext, s₂, ?_, hfurther₁.trans hfurther₂, hfresh hn, ?_, hmmu,
    fun heq => ?_, fun hne => ?_⟩
  · unfold pageAllocateKernelLinear renewPd
    have hne : ¬ s.kCurrentPd = s.kNewPd := fun heq => hpd (heq.symm.trans hc.pd)
    rw [if_neg (by omega), if_neg hne]
    simp only [Option.bind_eq_bind, Option.bind_some, hs₁, hs₂]
    rfl
  · rw [hfurther₁.virt]
    exact Nat.le_add_right ..
  · rw [hnewPt]
    refine (hnew heq).mono ?_
    rw [hfurther₂.virt]
    exact Nat.le_add_right ..
  · rw [hnewPt, hsame hne]

/-! ## Allocation for devices -/

theorem loadEntry_direct (s : Paging) {f : Nat} (hf : f + 4096 ≤ identityMapSize) (i : Nat) :
    loadEntry s ((f + addrIdentityMap) % 2 ^ 64) i = some (s.memory (f + 8 * i)) := by
  unfold loadEntry
  rw [physOf_direct s hf]
  rfl

theorem Leads.entryTable_eq {memory : Nat → Nat} {a f : Nat} (h : Leads memory a f) :
    entryTable (memory a) = (f + addrIdentityMap) % 2 ^ 64 := by
  unfold entryTable
  rw [h.addr]

theorem kernel_indexes {pd pt : Nat} (hpd : pd < 512) (hpt : pt < 512) :
    pagingGetIndexes (kernelStart + 4096 * (512 * pd + pt))
      = { pml4 := 511, pdpt := 510, pd := pd, pt := pt } := by
  have h₄ : (kernelStart + 4096 * (512 * pd + pt)) / 2 ^ 39 % 512 = 511 := by
    have hk : kernelStart = 0xFFFFFFFF80000000 := rfl
    omega
  have h₃ : (kernelStart + 4096 * (512 * pd + pt)) / 2 ^ 30 % 512 = 510 := by
    have hk : kernelStart = 0xFFFFFFFF80000000 := rfl
    omega
  have h₂ : (kernelStart + 4096 * (512 * pd + pt)) / 2 ^ 21 % 512 = pd := by
    have hk : kernelStart = 0xFFFFFFFF80000000 := rfl
    omega
  have h₁ : (kernelStart + 4096 * (512 * pd + pt)) / 2 ^ 12 % 512 = pt := by
    have hk : kernelStart = 0xFFFFFFFF80000000 := rfl
    omega
  rw [getIndexes_eq, h₄, h₃, h₂, h₁]

theorem Cursor.getIndexes_next {b : KernelInfo} {s : Paging} (hc : Cursor b 0 s) :
    pagingGetIndexes s.kernelVirtualMemoryNext
      = { pml4 := 511, pdpt := 510, pd := s.kCurrentPdIndex, pt := s.kCurrentPtIndex } := by
  rw [hc.next, Nat.add_zero, kernel_indexes hc.indexes.1 hc.indexes.2]

theorem findTables_leads {s : Paging} (index : PageIndexes) {p₄ p₃ p₂ p₁ : Nat}
    (h₄ : Leads s.memory (p₄ + 8 * index.pml4) p₃) (h₃ : Leads s.memory (p₃ + 8 * index.pdpt) p₂)
    (h₂ : Leads s.memory (p₂ + 8 * index.pd) p₁) (hp₄ : p₄ + 4096 ≤ identityMapSize)
    (hp₃ : p₃ + 4096 ≤ identityMapSize) (hp₂ : p₂ + 4096 ≤ identityMapSize)
    (hp₁ : p₁ + 4096 ≤ identityMapSize) :
    findTables s ((p₄ + addrIdentityMap) % 2 ^ 64) index
      = some { pdpt := some ((p₃ + addrIdentityMap) % 2 ^ 64)
               pd := some ((p₂ + addrIdentityMap) % 2 ^ 64)
               pt := some ((p₁ + addrIdentityMap) % 2 ^ 64) } := by
  have hpt : ¬ (p₁ + addrIdentityMap) % 2 ^ 64 = 0 := by
    unfold identityMapSize at hp₁
    unfold addrIdentityMap
    omega
  unfold findTables
  dsimp only
  rw [loadEntry_direct s hp₄, Option.bind_some, if_neg h₄.present, h₄.entryTable_eq,
    loadEntry_direct s hp₃, Option.bind_some, if_neg h₃.present, h₃.entryTable_eq,
    loadEntry_direct s hp₂, Option.map_some, if_neg h₂.present, h₂.entryTable_eq, if_neg hpt]

/-- The page mapped at the kernel page `(pd, pt)` whose table is there. -/
theorem map_kernel {b : KernelInfo} (h : Layout b) {s : Paging} {pd pt f : Nat}
    (hcr3 : s.cr3 = pml4Frame b)
    (h₄ : Leads s.memory (pml4Frame b + 8 * 511) (pdptFrame b))
    (h₃ : Leads s.memory (pdptFrame b + 8 * 510) (pdFrame b))
    (h₂ : Leads s.memory (pdFrame b + 8 * pd) f) (hf : f + 4096 ≤ identityMapSize)
    (hpd : pd < 512) (hpt : pt < 512) (alloc : Paging → Option (Nat × Paging))
    (phys flags : Nat) :
    pagingPageMapToPml4 alloc s 0 phys (kernelStart + 4096 * (512 * pd + pt)) flags
      = some (s.write (f + 8 * pt) (pagingMakePage phys flags)) := by
  have hp₄ := (h.static_frame (t := b.kPml4) (by simp)).2.1
  have hp₃ := (h.static_frame (t := b.kPdpt) (by simp)).2.1
  have hp₂ := (h.static_frame (t := b.kPd) (by simp)).2.1
  have hpml4 : pml4Pointer s 0 = (pml4Frame b + addrIdentityMap) % 2 ^ 64 := by
    rw [← hcr3]
    exact if_pos rfl
  have hfind := findTables_leads
    { pml4 := 511, pdpt := 510, pd := pd, pt := pt } h₄ h₃ h₂ hp₄ hp₃ hp₂ hf
  rw [← hpml4, ← kernel_indexes hpd hpt] at hfind
  rw [pageMap_eq hfind rfl rfl rfl, storeEntry_eq (physOf_direct s hf), kernel_indexes hpd hpt]

theorem Cursor.map_next {b : KernelInfo} (h : Layout b) {s : Paging} (hc : Cursor b 0 s)
    (alloc : Paging → Option (Nat × Paging)) (phys flags : Nat) :
    pagingPageMapToPml4 alloc s 0 phys s.kernelVirtualMemoryNext flags
      = some (s.write (ptrFrame b s.kCurrentPt + 8 * s.kCurrentPtIndex)
          (pagingMakePage phys flags)) := by
  rw [hc.next, Nat.add_zero]
  exact map_kernel h hc.cr3 hc.pml4Entry hc.pdptEntry hc.table.2
    (h.table_frame hc hc.table.1).2.1 hc.indexes.1 hc.indexes.2 alloc phys flags

theorem increment_within {s : Paging} (hpd : s.kCurrentPdIndex < 512)
    (hpt : s.kCurrentPtIndex < 511) : pagingIncrementKernelPageIndex s
      = some { s with kCurrentPtIndex := s.kCurrentPtIndex + 1 } := by
  unfold pagingIncrementKernelPageIndex incrementPtIndex rolloverPd
  rw [if_neg (Nat.ne_of_lt hpt), Option.bind_some, Nat.mod_eq_of_lt (by omega)]
  exact if_neg (Nat.ne_of_lt hpd)

theorem mmioPages_eq {n : Nat} {s s₁ s₂ : Paging}
    (hmap : pagingPageMapToPml4 (pageAllocateKernelLinear 1) s 0 s.kernelPhysicalMemoryNext
      s.kernelVirtualMemoryNext mmioFlags = some s₁)
    (hinc : pagingIncrementKernelPageIndex { s₁ with
        kernelVirtualMemoryNext := (s₁.kernelVirtualMemoryNext + pageSize) % 2 ^ 64
        mapped := s₁.kernelVirtualMemoryNext :: s₁.mapped } = some s₂) :
    mmioPages (n + 1) s = mmioPages n { s₂ with
      kernelPhysicalMemoryNext := (s₂.kernelPhysicalMemoryNext + pageSize) % 2 ^ 64 } := by
  rw [mmioPages, hmap, Option.bind_eq_bind, Option.bind_some]
  dsimp only
  rw [hinc, Option.bind_some]

theorem mmioPages_succ {b : KernelInfo} (h : Layout b) {n : Nat} {s : Paging} (hc : Cursor b 0 s)
    (hroom : s.kernelPhysicalMemoryNext + 4096 ≤ areaEnd b) (hpt : s.kCurrentPtIndex < 511) :
    mmioPages (n + 1) s = mmioPages n (stepped b (advanced s
      (Function.update s.memory (ptrFrame b s.kCurrentPt + 8 * s.kCurrentPtIndex)
        (pagingMakePage s.kernelPhysicalMemoryNext mmioFlags)))) := by
  obtain ⟨hv, hp, -⟩ := hc.advance_eq h hroom
  rw [mmioPages_eq (hc.map_next h ..) (increment_within hc.indexes.1 hpt)]
  dsimp only [Paging.write]
  rw [hv, hp, stepped, if_neg (show ¬ (advanced s _).kCurrentPtIndex = 511 from Nat.ne_of_lt hpt)]
  rfl

/-- A call that stays in the page table does not skip to the next one. -/
theorem mmio_within {n : Nat} {s : Paging} (hn : 0 < n) (hpt : s.kCurrentPtIndex + n ≤ 511) :
    pageAllocateKernelMmio n s
      = (mmioPages n s).map fun s' => (s.kernelVirtualMemoryNext, s') := by
  have hskip : ¬ 511 < (s.kCurrentPtIndex + n) % 2 ^ 32 := by
    rw [Nat.mod_eq_of_lt (by omega)]
    omega
  unfold pageAllocateKernelMmio
  rw [if_neg (by omega), if_neg hskip]
  cases hpages : mmioPages n s with
  | none =>
      simp only [Option.bind_eq_bind, Option.bind_some, hpages, Option.bind_none, Option.map_none]
  | some s' =>
      simp only [Option.bind_eq_bind, Option.bind_some, hpages, Option.map_some]
      rfl

theorem mmioPages_ok {b : KernelInfo} (h : Layout b) {n : Nat} {s : Paging} (hc : Cursor b 0 s)
    (hroom : s.kernelPhysicalMemoryNext + 4096 * n ≤ areaEnd b)
    (hpt : s.kCurrentPtIndex + n ≤ 511) :
    ∃ s', mmioPages n s = some s' ∧ Further b n s s' ∧ s'.kNewPt = s.kNewPt := by
  induction n generalizing s with
  | zero => exact ⟨s, rfl, ⟨hc, rfl, rfl, rfl, .refl b s⟩, rfl⟩
  | succ n ih =>
      rw [Nat.mul_succ] at hroom
      have hroom₁ : s.kernelPhysicalMemoryNext + 4096 ≤ areaEnd b :=
        (Nat.add_le_add_left (Nat.le_add_left ..) _).trans hroom
      have hlt : s.kCurrentPtIndex < 511 := by omega
      have htouched : Touched b s (Function.update s.memory
          (ptrFrame b s.kCurrentPt + 8 * s.kCurrentPtIndex)
          (pagingMakePage s.kernelPhysicalMemoryNext mmioFlags)) :=
        fun a ha _ => Function.update_of_ne (by omega) ..
      obtain ⟨-, hfurther⟩ := stepped_further h hc hroom₁ htouched fun heq => by omega
      rw [mmioPages_succ h hc hroom₁ hlt]
      generalize Function.update s.memory _ _ = m at hfurther ⊢
      have hnewPt := (stepped_next b (advanced s m)).2.2.1
      have hindex : (stepped b (advanced s m)).kCurrentPtIndex = s.kCurrentPtIndex + 1 := by
        rw [stepped, if_neg (show ¬ (advanced s m).kCurrentPtIndex = 511 from Nat.ne_of_lt hlt)]
        rfl
      generalize stepped b (advanced s m) = s₁ at hfurther hindex hnewPt ⊢
      have hroom₂ : s₁.kernelPhysicalMemoryNext + 4096 * n ≤ areaEnd b := by
        rw [hfurther.phys]
        omega
      obtain ⟨s', hs', hfurther', hnewPt'⟩ := ih hfurther.cursor hroom₂ (by omega)
      exact ⟨s', hs', Nat.add_comm n 1 ▸ hfurther.trans hfurther', hnewPt'.trans hnewPt⟩

end VersionSix.Page
