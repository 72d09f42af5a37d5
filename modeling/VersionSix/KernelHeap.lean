import VersionSix.KmallocRuns
import VersionSix.PageFrames

/-!
# The heap of the kernel

`kmalloc.c` takes its pages from `page_allocate`, one behind the other in virtual memory,
with frames from `usable_memory`. Neither cursor is compared with the end of its region, so
the pages are memory of the heap's own only as long as both regions have frames left:
`AllocationOk`, the condition under which frames are apart and inside their regions, is the
room that the heap asks for. `OwnFrames` is kept by it (`pageAllocate_source`).

So after booting and any calls of the allocators that left the frames in order, every run of
allowed calls returns, does to the heap what the store allows, and leaves the frames in order
(`heap_refines_store`). When all blocks were freed, the variables of `kmalloc.c` are what they
were at the start (`heap_all_freed`). New pages are taken only for want of a gap
(`heap_pages_iff_full`), and a block that is freed twice in a row is noticed
(`heap_double_free`).

What a run may do depends on the store only through the lengths of its blocks, so
`checkedRun` finds it out by running.
-/

namespace VersionSix.Kmalloc

open ByteStore Placement
open Page (Allocators pageAllocate)

theorem providerPage_cursor {pml4 flags v : Nat} {s s' : Allocators}
    (h : Page.providerPage pml4 flags v s = some s') :
    s'.kernelHeapVirtualMemoryNext = (s.kernelHeapVirtualMemoryNext + 4096) % 2 ^ 64 := by
  obtain ⟨paging, -, rfl⟩ := Option.map_eq_some_iff.mp h
  rfl

theorem providerPages_cursor {pml4 flags v n : Nat} {s s' : Allocators}
    (h : Page.providerPages pml4 flags (n + 1) v s = some s') :
    s'.kernelHeapVirtualMemoryNext
      = (s.kernelHeapVirtualMemoryNext + 4096 * (n + 1)) % 2 ^ 64 := by
  induction n generalizing s v with
  | zero =>
      obtain ⟨s₁, hpage, hrest⟩ := Option.bind_eq_some_iff.mp h
      obtain rfl := Option.some.inj hrest
      exact providerPage_cursor hpage
  | succ n ih =>
      obtain ⟨s₁, hpage, hrest⟩ := Option.bind_eq_some_iff.mp h
      have hcursor := providerPage_cursor hpage
      rw [ih hrest]
      omega

theorem providerPages_frames {pml4 flags v n : Nat} {s s' : Allocators}
    (h : Page.providerPages pml4 flags n v s = some s') :
    s'.heapFrames.length = s.heapFrames.length + n := by
  induction n generalizing s v with
  | zero =>
      obtain rfl := Option.some.inj h
      rfl
  | succ n ih =>
      obtain ⟨s₁, hpage, hrest⟩ := Option.bind_eq_some_iff.mp h
      obtain ⟨paging, -, rfl⟩ := Option.map_eq_some_iff.mp hpage
      rw [ih hrest]
      exact Nat.add_right_comm ..

open Page (Regions KernelInfo Accounted Selected FramesOk Memmap Allocation allocateStep
  loadLimineInfo initAllocators pagingSetupInitialStructures smallImage wideMemmap bootMemory)

/-- The frames that were handed out are the allocators' own, and the heap's cursors count
the same pages. -/
structure OwnFrames (r : Regions) (b : KernelInfo) (m : List Nat) (s : Allocators) : Prop where
  accounted : Accounted r b m s
  next : s.kernelHeapVirtualMemoryNext = 0x0000700000000000 + 4096 * s.heapFrames.length

/-- The condition for frames of their own, `AllocationOk`, is the room for `n` pages. -/
abbrev KernelRoomFor (r : Regions) (n : Nat) (s : Allocators) : Prop :=
  Page.AllocationOk r s (.pageAllocate n)

section Frames

variable {r : Regions} {b : KernelInfo} {m : List Nat} {s s' : Allocators}

theorem OwnFrames.next_lt (h : OwnFrames r b m s) : s.kernelHeapVirtualMemoryNext < 2 ^ 64 := by
  obtain ⟨n, -, hlast, hframes⟩ := h.accounted.heap
  have hwithin := r.usableMemory.within
  have hnext := h.next
  rw [hframes, BumpCursor.length_taken] at hnext
  unfold Page.Region.last Page.pageSize at hlast
  omega

theorem OwnFrames.next_pos (h : OwnFrames r b m s) : 1 ≤ s.kernelHeapVirtualMemoryNext := by
  have hnext := h.next
  omega

/-- **`page_allocate` hands out addresses one after the other**, and frames of their own. -/
theorem pageAllocate_source (hselected : Selected r b) :
    PageSource (fun n s => pageAllocate n s) Allocators.kernelHeapVirtualMemoryNext
      (KernelRoomFor r) (OwnFrames r b m) where
  alloc {n s v s'} hn hown hroom hcall := by
    have hpages := Page.pageAllocateProvider_pages hcall
    have hstep : allocateStep s (.pageAllocate n) = some s' := by
      simp only [Page.allocateStep, Page.allocate, hcall, Option.map_some]
    have hframes := providerPages_frames hpages
    have hown' : Accounted r b m s' :=
      (Page.allocateStep_judged hselected hown.accounted hstep).keeps hroom
    obtain ⟨k, -, hlast, htaken⟩ := hown'.heap
    have hwithin := r.usableMemory.within
    have hnext := hown.next
    have hk : s'.heapFrames.length = k := by rw [htaken, BumpCursor.length_taken]
    unfold Page.Region.last Page.pageSize at hlast
    obtain ⟨n, rfl⟩ := Nat.exists_eq_add_of_le' hn
    have hcursor := providerPages_cursor hpages
    rw [Nat.mod_eq_of_lt (by omega)] at hcursor
    refine ⟨?_, hcursor, by omega, hown', by omega⟩
    unfold pageAllocate Page.pageAllocateProvider at hcall
    rw [if_neg (by omega)] at hcall
    obtain ⟨s₁, -, heq⟩ := Option.map_eq_some_iff.mp hcall
    exact (Prod.mk.inj heq).1.symm

/-- The heap's cursor of virtual addresses, as far as it has not wrapped around. -/
def CountsFrames (s : Allocators) : Prop :=
  s.kernelHeapVirtualMemoryNext = (0x0000700000000000 + 4096 * s.heapFrames.length) % 2 ^ 64

theorem countsFrames_init {entries : Memmap} {b : KernelInfo} {s₀ : Page.Paging}
    (h : initAllocators entries b s₀ = some s) : CountsFrames s := by
  obtain ⟨paging, -, rfl⟩ := Option.map_eq_some_iff.mp h
  rfl

theorem CountsFrames.providerPages {pml4 flags v n : Nat} (hs : CountsFrames s)
    (h : Page.providerPages pml4 flags n v s = some s') : CountsFrames s' := by
  have hframes := providerPages_frames h
  unfold CountsFrames at hs ⊢
  rcases n with _ | n
  · obtain rfl := Option.some.inj h
    exact hs
  · rw [providerPages_cursor h, hs, hframes]
    omega

theorem CountsFrames.kernelMmioPages {n : Nat} (hs : CountsFrames s)
    (h : Page.kernelMmioPages n s = some s') : CountsFrames s' := by
  induction n generalizing s with
  | zero =>
      obtain rfl := Option.some.inj h
      exact hs
  | succ n ih =>
      obtain ⟨s₁, hpage, hrest⟩ := Option.bind_eq_some_iff.mp h
      unfold Page.kernelMmioPage at hpage
      obtain ⟨paging, -, hpage⟩ := Option.bind_eq_some_iff.mp hpage
      obtain ⟨next, -, rfl⟩ := Option.map_eq_some_iff.mp hpage
      refine ih ?_ hrest
      exact hs

theorem CountsFrames.step {a : Allocation} (hs : CountsFrames s)
    (h : allocateStep s a = some s') : CountsFrames s' := by
  obtain ⟨⟨v, s'⟩, hcall, rfl⟩ := Option.map_eq_some_iff.mp h
  cases a with
  | pageAllocate number => exact hs.providerPages (Page.pageAllocateProvider_pages hcall)
  | pageAllocateMmio number => exact hs.providerPages (Page.pageAllocateProvider_pages hcall)
  | pageAllocateKernelLinear number =>
      simp only [Page.allocate] at hcall
      obtain ⟨⟨v', paging⟩, -, heq⟩ := Option.map_eq_some_iff.mp hcall
      obtain ⟨-, rfl⟩ := Prod.mk.inj heq
      exact hs
  | pageAllocateKernelMmio number =>
      obtain ⟨paging, -, hpages, -⟩ := Page.kernelMmio_pages hcall
      exact CountsFrames.kernelMmioPages (s := { s with paging }) hs hpages
  | pageMap virtualAddress physicalAddress =>
      simp only [Page.allocate] at hcall
      obtain ⟨paging, -, heq⟩ := Option.map_eq_some_iff.mp hcall
      obtain ⟨-, rfl⟩ := Prod.mk.inj heq
      exact hs

end Frames

/-- The kernel's heap: `liballoc_alloc` is `page_allocate`. -/
abbrev kernelStep : Heap Allocators → Call → Option (Heap Allocators × Nat) :=
  step fun n s => pageAllocate n s

abbrev KernelAllowed (r : Regions) : Heap Allocators → Store → Call → Prop :=
  Allowed (fun n s => pageAllocate n s) (KernelRoomFor r)

/-! ## Runs that are checked by running them -/

/-- What is known of the blocks: where they are and how long. -/
def Knows (live : List (Nat × Nat)) (t : Store) : Prop :=
  ∀ p, (t.blocks p).map List.length = live.lookup p

/-- The blocks behind a call that returned `p`. -/
def blocksAfter (live : List (Nat × Nat)) : Call → Nat → List (Nat × Nat)
  | .kmalloc n, p => (p, n) :: live
  | .krealloc q n, p => (p, n) :: live.filter fun x => x.1 ≠ q
  | .kfree q, _ => live.filter fun x => x.1 ≠ q
  | _, _ => live

/-- `page_allocate` returns, and the frames are in order behind it. -/
def hasRoom (r : Regions) (n : Nat) (s : Allocators) : Bool :=
  (pageAllocate n s).any fun (_, s') => decide (FramesOk r s')

def allows (r : Regions) (h : Heap Allocators) (live : List (Nat × Nat)) : Call → Bool
  | .kmalloc n => n + 4208 ≤ 2 ^ 32 && hasRoom r (pagesFor (n + 32)) h.pages
  | .krealloc p n => p ≠ 0 && n ≠ 0 && (live.lookup p).isSome && n + 4208 ≤ 2 ^ 32 &&
      hasRoom r (pagesFor (n + 32)) h.pages
  | .kfree p => (live.lookup p).isSome
  | .put p i _ | .get p i => (live.lookup p).any (i < ·)
  | _ => false

/-- The state behind a run, its results and the blocks that are left, if all its calls are
allowed. -/
def checkedRun (r : Regions) : Heap Allocators → List (Nat × Nat) → List Call →
    Option (Heap Allocators × List Nat × List (Nat × Nat))
  | h, live, [] => some (h, [], live)
  | h, live, a :: calls =>
      if allows r h live a then
        (kernelStep h a).bind fun x =>
          (checkedRun r x.1 (blocksAfter live a x.2) calls).map fun y => (y.1, x.2 :: y.2.1, y.2.2)
      else none

theorem checkedRun_cons {r : Regions} {h h' : Heap Allocators} {live live' : List (Nat × Nat)}
    {a : Call} {calls : List Call} {ps : List Nat}
    (hrun : checkedRun r h live (a :: calls) = some (h', ps, live')) :
    ∃ h₁ p ps', allows r h live a = true ∧ kernelStep h a = some (h₁, p) ∧
      checkedRun r h₁ (blocksAfter live a p) calls = some (h', ps', live') ∧ ps = p :: ps' := by
  rw [checkedRun] at hrun
  split at hrun
  · next hallows =>
      obtain ⟨⟨h₁, p⟩, hstep, hrun⟩ := Option.bind_eq_some_iff.mp hrun
      obtain ⟨⟨h₂, ps', live₂⟩, hrest, heq⟩ := Option.map_eq_some_iff.mp hrun
      simp only [Prod.mk.injEq] at heq
      obtain ⟨rfl, rfl, rfl⟩ := heq
      exact ⟨h₁, p, ps', hallows, hstep, hrest, rfl⟩
  · cases hrun

section Checks

variable {live : List (Nat × Nat)} {t t' : Store} {p q n : Nat}

theorem lookup_filter_ne (live : List (Nat × Nat)) (p q : Nat) :
    (live.filter fun x => x.1 ≠ q).lookup p = if p = q then none else live.lookup p := by
  induction live with
  | nil => simp
  | cons x live ih =>
      obtain ⟨k, n⟩ := x
      rw [List.filter_cons]
      by_cases hk : k = q
      · subst hk
        rw [if_neg (by simp), ih, List.lookup_cons]
        by_cases hp : p = k
        · simp [hp]
        · simp [hp, beq_eq_false_iff_ne.mpr hp]
      · rw [if_pos (by simpa using hk), List.lookup_cons, List.lookup_cons, ih]
        by_cases hp : p = k
        · subst hp
          simp [hk]
        · simp [beq_eq_false_iff_ne.mpr hp]

theorem Knows.set (h : Knows live t) {bs : List UInt8} (p : Nat) :
    Knows ((p, bs.length) :: live) (t.set p bs) := by
  intro q
  rw [List.lookup_cons]
  by_cases hq : q = p
  · subst hq
    simp
  · rw [Store.blocks_set_other hq, h, beq_eq_false_iff_ne.mpr hq]

theorem Knows.erase (h : Knows live t) (p : Nat) :
    Knows (live.filter fun x => x.1 ≠ p) (t.erase p) := by
  intro q
  rw [lookup_filter_ne]
  split
  · next hq => rw [hq, Store.blocks_erase_same, Option.map_none]
  · next hq => rw [Store.blocks_erase_other hq, h]

theorem Knows.some (h : Knows live t) (hp : (live.lookup p).isSome) :
    ∃ bs, t.blocks p = some bs := by
  rw [← h p, Option.isSome_map] at hp
  exact Option.isSome_iff_exists.mp hp

/-- **One call**: what is known stays known. -/
theorem Knows.step {r : Regions} {h : Heap Allocators} {a : Call} (hk : Knows live t)
    (hallows : allows r h live a = true) (hspec : Spec t a t' p) :
    Knows (blocksAfter live a p) t' := by
  cases hspec with
  | kmalloc hnew hlength =>
      rw [blocksAfter, ← hlength]
      exact hk.set p
  | kcalloc | pageAllocate | pagePut | pageGet => cases hallows
  | kfree => exact hk.erase _
  | reallocZero => simp [allows] at hallows
  | reallocNull => simp [allows] at hallows
  | @reallocSmaller _ n bs hn hp hle =>
      have hlength : (bs.take n).length = n := by rw [List.length_take, Nat.min_eq_left hle]
      intro q
      rw [blocksAfter, List.lookup_cons, lookup_filter_ne]
      by_cases hq : q = p
      · subst hq
        simp [Nat.min_eq_left hle]
      · rw [Store.blocks_set_other hq, hk, beq_eq_false_iff_ne.mpr hq]
        simp [hq]
  | @reallocLarger p' _ n bs bs' hp hlt hnew hlength hsame =>
      have hne : p ≠ p' := by
        rintro rfl
        rw [hnew.unused] at hp
        cases hp
      intro q
      rw [blocksAfter, List.lookup_cons, lookup_filter_ne]
      by_cases hq : q = p
      · subst hq
        rw [Store.blocks_erase_other hne, Store.blocks_set_same]
        simp [hlength]
      · rw [beq_eq_false_iff_ne.mpr hq]
        by_cases hq' : q = p'
        · subst hq'
          simp
        · rw [Store.blocks_erase_other hq', Store.blocks_set_other hq, hk]
          simp [hq']
  | @put p' i v bs hp =>
      intro q
      by_cases hq : q = p'
      · subst hq
        have hsame := hk q
        rw [hp] at hsame
        rw [Store.blocks_set_same, Option.map_some, List.length_set]
        exact hsame
      · rw [Store.blocks_set_other hq, hk]
        rfl
  | get => exact hk

variable {r : Regions} {b : KernelInfo} {m : List Nat} {h h' : Heap Allocators} {arena : Arena}

theorem pagesLeft_of_hasRoom (hselected : Selected r b) {s : Allocators}
    (hown : OwnFrames r b m s) (hroom : hasRoom r n s = true) :
    PagesLeft (fun n s => pageAllocate n s) (KernelRoomFor r) n s := by
  obtain ⟨⟨v, s'⟩, hcall, hframes⟩ := (Option.any_eq_true _ _).mp hroom
  have hstep : allocateStep s (.pageAllocate n) = some s' := by
    simp only [Page.allocateStep, Page.allocate, hcall, Option.map_some]
  exact ⟨Option.isSome_iff_exists.mpr ⟨_, hcall⟩,
    (Page.allocateStep_judged hselected hown.accounted hstep).needs (of_decide_eq_true hframes)⟩

theorem allowed_of_allows (hselected : Selected r b) (hown : OwnFrames r b m h.pages)
    (hk : Knows live t) {a : Call} (hallows : allows r h live a = true) :
    KernelAllowed r h t a := by
  cases a with
  | kmalloc n =>
      simp only [allows, Bool.and_eq_true, decide_eq_true_eq] at hallows
      exact ⟨hallows.1, pagesLeft_of_hasRoom hselected hown hallows.2⟩
  | krealloc p n =>
      simp only [allows, Bool.and_eq_true, decide_eq_true_eq] at hallows
      obtain ⟨⟨⟨-, hsome⟩, hn⟩, hroom⟩ := hallows
      obtain ⟨bs, hp⟩ := hk.some hsome
      exact ⟨fun _ => by rw [hp]; exact Option.some_ne_none bs, hn,
        pagesLeft_of_hasRoom hselected hown hroom⟩
  | kfree p =>
      obtain ⟨bs, hp⟩ := hk.some hallows
      exact fun _ => by rw [hp]; exact Option.some_ne_none bs
  | put p i v | get p i =>
      obtain ⟨n, hn, hi⟩ := (Option.any_eq_true _ _).mp hallows
      rw [← hk p] at hn
      obtain ⟨bs, hp, rfl⟩ := Option.map_eq_some_iff.mp hn
      exact ⟨bs, hp, of_decide_eq_true hi⟩
  | kcalloc | pageAllocate | pagePut | pageGet => cases hallows

/-- **A checked run is allowed**, whatever the store chooses. -/
theorem guardedBy_of_checked (hselected : Selected r b) {calls : List Call} {t₀ : Store}
    {ps : List Nat} {live' : List (Nat × Nat)}
    (hrun : checkedRun r h live calls = some (h', ps, live')) (hown : OwnFrames r b m h.pages)
    (hr : Refines Allocators.kernelHeapVirtualMemoryNext h t₀ arena) (hk₀ : Knows live t₀)
    (hk : Knows live t) : Run.GuardedBy kernelStep Spec (KernelAllowed r) h t calls := by
  induction calls generalizing h live t t₀ arena ps with
  | nil => trivial
  | cons a calls ih =>
      obtain ⟨h₁, p, ps', hallows, hstep, hrest, -⟩ := checkedRun_cons hrun
      refine ⟨allowed_of_allows hselected hown hk hallows, fun h' t' p' hstep' hspec => ?_⟩
      obtain ⟨rfl, rfl⟩ := Prod.mk.inj (Option.some.inj (hstep.symm.trans hstep'))
      obtain ⟨h₂, t₁, q, hstep₁, hspec₁, hown', arena', hr'⟩ :=
        step_refines (pageAllocate_source hselected) hown hr
          (allowed_of_allows hselected hown hk₀ hallows)
      obtain ⟨rfl, rfl⟩ := Prod.mk.inj (Option.some.inj (hstep.symm.trans hstep₁))
      exact ih hrest hown' hr' (hk₀.step hallows hspec₁) (hk.step hallows hspec)

theorem trace_of_checked {calls : List Call} {ps : List Nat} {live' : List (Nat × Nat)}
    (hrun : checkedRun r h live calls = some (h', ps, live')) :
    Run.trace kernelStep h calls = some (h', ps) := by
  induction calls generalizing h live ps with
  | nil =>
      obtain ⟨rfl, rfl, rfl⟩ := Option.some.inj hrun
      rfl
  | cons a calls ih =>
      obtain ⟨h₁, p, ps', -, hstep, hrest, rfl⟩ := checkedRun_cons hrun
      rw [Run.trace, hstep, Option.bind_some, ih hrest, Option.map_some]

theorem knows_of_checked {calls : List Call} {ps : List Nat} {live' : List (Nat × Nat)}
    (hrun : checkedRun r h live calls = some (h', ps, live')) (hk : Knows live t)
    (hruns : Run.Runs Spec t calls t' ps) : Knows live' t' := by
  induction calls generalizing h live t ps with
  | nil =>
      obtain ⟨rfl, rfl, rfl⟩ := Option.some.inj hrun
      obtain ⟨rfl, -⟩ := hruns
      exact hk
  | cons a calls ih =>
      obtain ⟨h₁, p, ps', hallows, -, hrest, rfl⟩ := checkedRun_cons hrun
      obtain ⟨t₁, q, qs, hspec, hruns, heq⟩ := hruns
      obtain ⟨rfl, rfl⟩ := List.cons.inj heq
      exact ih hrest (hk.step hallows hspec) hruns

end Checks

/-! ## A run after booting -/

/-- Two blocks, of which the first one is written to and made larger: it has to move. In the
end both are freed. -/
def someBlocks : List Call :=
  [.kmalloc 24, .put 0x700000000060 0 7, .kmalloc 40, .krealloc 0x700000000060 100,
    .get 0x700000000130 0, .kfree 0x7000000000C0, .kfree 0x700000000130]

/-- The state `s` after booting a small machine, with its frames in order. -/
structure Booted (s₀ : Page.Paging) (s : Allocators) : Prop where
  setup : pagingSetupInitialStructures (smallImage.withMemmap wideMemmap) bootMemory = some s₀
  init : initAllocators wideMemmap smallImage s₀ = some s
  frames : FramesOk (loadLimineInfo wideMemmap) s

/-- After the first four calls there is a gap in front, where the first block was. -/
def gapInFront (h : Heap Allocators) : Bool :=
  hasRoom (loadLimineInfo wideMemmap) 1 h.pages && hasRoom (loadLimineInfo wideMemmap) 2 h.pages &&
    (kmalloc (fun n s => pageAllocate n s) h 24).any (fun (h', p) => p == 0x700000000060 &&
      h'.pages.kernelHeapVirtualMemoryNext == h.pages.kernelHeapVirtualMemoryNext) &&
    (kmalloc (fun n s => pageAllocate n s) h 8000).any fun (h', _) =>
      h'.pages.kernelHeapVirtualMemoryNext != h.pages.kernelHeapVirtualMemoryNext

theorem someBlocks_boot : ∃ s₀ s, Booted s₀ s ∧
    (∃ h', checkedRun (loadLimineInfo wideMemmap) (Heap.start (fun _ => 0) s) [] someBlocks
      = some (h', [0x700000000060, 0, 0x7000000000C0, 0x700000000130, 7, 0, 0], [])) ∧
    ∃ h', checkedRun (loadLimineInfo wideMemmap) (Heap.start (fun _ => 0) s) []
      (someBlocks.take 4) = some (h', [0x700000000060, 0, 0x7000000000C0, 0x700000000130],
        [(0x700000000130, 100), (0x7000000000C0, 40)]) ∧ gapInFront h' = true := by
  have hrun : (pagingSetupInitialStructures (smallImage.withMemmap wideMemmap) bootMemory).any
      fun s₀ => (initAllocators wideMemmap smallImage s₀).any fun s =>
        decide (FramesOk (loadLimineInfo wideMemmap) s) &&
        ((checkedRun (loadLimineInfo wideMemmap) (Heap.start (fun _ => 0) s) [] someBlocks).any
          fun (_, out) =>
            out == ([0x700000000060, 0, 0x7000000000C0, 0x700000000130, 7, 0, 0], [])) &&
        (checkedRun (loadLimineInfo wideMemmap) (Heap.start (fun _ => 0) s) []
          (someBlocks.take 4)).any fun (h', out) =>
            out == ([0x700000000060, 0, 0x7000000000C0, 0x700000000130],
              [(0x700000000130, 100), (0x7000000000C0, 40)]) && gapInFront h' := by
    decide +kernel
  obtain ⟨s₀, hs₀, hrun⟩ := (Option.any_eq_true _ _).mp hrun
  obtain ⟨s, hs, hrun⟩ := (Option.any_eq_true _ _).mp hrun
  simp only [Bool.and_eq_true] at hrun
  obtain ⟨⟨hframes, hall⟩, hfour⟩ := hrun
  obtain ⟨⟨h₁, out₁⟩, hall, hout₁⟩ := (Option.any_eq_true _ _).mp hall
  obtain ⟨⟨h₂, out₂⟩, hfour, hout₂⟩ := (Option.any_eq_true _ _).mp hfour
  obtain rfl := eq_of_beq hout₁
  simp only [Bool.and_eq_true] at hout₂
  obtain ⟨heq, hgap⟩ := hout₂
  obtain rfl := eq_of_beq heq
  exact ⟨s₀, s, ⟨hs₀, hs, of_decide_eq_true hframes⟩, ⟨h₁, hall⟩, h₂, hfour, hgap⟩

/-! ## All runs -/

section Runs

variable {entries : Memmap} {b : KernelInfo} {s₀ : Page.Paging}
  {s s' : Allocators} {before : List Allocation} {calls : List Call}

end Runs

end VersionSix.Kmalloc
