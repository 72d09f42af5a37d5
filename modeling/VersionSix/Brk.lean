import VersionSix.Process

/-!
# The heap of a process

`brk_syscall_handler` on the record of the process that calls it. The
comments of `process.h` promise that `heap_top` never exceeds
`heap_top_allocated`, and that the latter is the heap page count times the
page size, always; `HeapOk` puts this together with the table of the pages.

It never holds. A new process has no heap pages and a `heap_top` of
0xB0000000, but `heap_top_allocated` is cleared to 0 with the rest of the
record, and no function ever counts `heap_page_count` up. So the comment
could only be right with the heap top at its base, and there nothing has
been allocated (`Unrecorded`).

`sbrk_syscall_handler` reads `heap_top` after the break has moved it, so that
it returns the end of the new region where its comment speaks of the start.
-/

namespace VersionSix.Brk

open Process

/-! ## The handler -/

/-- A process record with its `heap_top_allocated`, which only `brk.c` reads. -/
structure HeapProcess where
  data : ProcessData
  heapTopAllocated : Nat

/-- `process_get_new_process` -/
def newHeapProcess (pid : Nat) : HeapProcess := { data := newProcess pid, heapTopAllocated := 0 }

/-- What memory management answers during one call. -/
structure BrkEnv where
  /-- results of `page_allocate( 1 )`, in the order of the calls -/
  pageAllocate : Nat → Nat
  pagingVirtualToPhysical : Nat → Nat
  /-- content of the entries `krealloc` adds to a block -/
  added : Nat → ExecSection

def krealloc (old : List ExecSection) (n : Nat) (added : Nat → ExecSection) : List ExecSection :=
  (List.range n).map fun i => (old[i]?).getD (added i)

def addHeapPage (env : BrkEnv) (p : HeapProcess) (i : Nat) : HeapProcess :=
  let kernVirt := env.pageAllocate i
  let page : ExecSection :=
    { kernVirt := kernVirt
      phys := env.pagingVirtualToPhysical kernVirt
      virt := p.heapTopAllocated }
  { data := { p.data with heapPages := p.data.heapPages.set i page }
    heapTopAllocated := (p.heapTopAllocated + pageSize) % 2 ^ 64 }

def addHeapPages (env : BrkEnv) (p : HeapProcess) (numPages : Nat) : HeapProcess :=
  (List.range numPages).foldl (addHeapPage env) p

/-- `brk_syscall_handler`; `num_pages` is a `uint16_t`. -/
def brkSyscallHandler (env : BrkEnv) (p : HeapProcess) (addr : Nat) : HeapProcess × Int :=
  if addr ≤ p.data.heapTop then (p, -1)
  else if addr ≤ p.heapTopAllocated then ({ p with data := { p.data with heapTop := addr } }, 0)
  else
    let heapAdd := addr - p.data.heapTop
    let numPages := (heapAdd % pageSize + 1) % 2 ^ 16
    let heapPages := krealloc p.data.heapPages (p.data.heapPageCount + numPages) env.added
    let p := addHeapPages env { p with data := { p.data with heapPages := heapPages } } numPages
    ({ p with data := { p.data with heapTop := addr } }, 0)

def brkCalls (p : HeapProcess) (calls : List (BrkEnv × Nat)) : HeapProcess :=
  calls.foldl (fun p c => (brkSyscallHandler c.1 p c.2).1) p

/-! ## The promise -/

def heapBase : Nat := 0xB0000000

/-- The heap as the comments of `process.h` describe it, with every page
below its top in the table. -/
structure HeapOk (p : HeapProcess) : Prop where
  top_le : p.data.heapTop ≤ p.heapTopAllocated
  allocated : p.heapTopAllocated = heapBase + p.data.heapPageCount * pageSize
  recorded : ∀ a, a % pageSize = 0 → heapBase ≤ a → a < p.data.heapTop →
    ∃! i, i < p.data.heapPageCount ∧ ∃ s, p.data.heapPages[i]? = some s ∧ s.virt = a
  own_frame : ∀ i j s t, i < p.data.heapPageCount → j < p.data.heapPageCount → i ≠ j →
    p.data.heapPages[i]? = some s → p.data.heapPages[j]? = some t → s.phys ≠ t.phys

/-! ## What the calls do -/

/-- No page is counted, and a heap that has not grown has nothing allocated. -/
structure Unrecorded (p : HeapProcess) : Prop where
  count : p.data.heapPageCount = 0
  base_le : heapBase ≤ p.data.heapTop
  empty : p.data.heapTop = heapBase → p.heapTopAllocated = 0

@[simp] theorem addHeapPages_count (env : BrkEnv) (p : HeapProcess) (numPages : Nat) :
    (addHeapPages env p numPages).data.heapPageCount = p.data.heapPageCount := by
  induction numPages with
  | zero => rfl
  | succ n ih =>
      rw [addHeapPages, List.range_succ, List.foldl_append]
      exact ih

theorem unrecorded_new (pid : Nat) : Unrecorded (newHeapProcess pid) :=
  ⟨rfl, Nat.le_refl _, fun _ => rfl⟩

/-- A heap top above the base stays out of the way of `empty`. -/
theorem Unrecorded.of_grown {p : HeapProcess} (hcount : p.data.heapPageCount = 0)
    (htop : heapBase < p.data.heapTop) : Unrecorded p :=
  ⟨hcount, Nat.le_of_lt htop, fun h => absurd h (Nat.ne_of_gt htop)⟩

theorem Unrecorded.brk {p : HeapProcess} (h : Unrecorded p) (env : BrkEnv) (addr : Nat) :
    Unrecorded (brkSyscallHandler env p addr).1 := by
  unfold brkSyscallHandler
  by_cases hle : addr ≤ p.data.heapTop
  · rw [if_pos hle]
    exact h
  · have htop : heapBase < addr := Nat.lt_of_le_of_lt h.base_le (Nat.lt_of_not_le hle)
    rw [if_neg hle]
    by_cases halloc : addr ≤ p.heapTopAllocated
    · rw [if_pos halloc]
      exact .of_grown h.count htop
    · rw [if_neg halloc]
      refine .of_grown ?_ htop
      exact (addHeapPages_count ..).trans h.count

theorem Unrecorded.calls {p : HeapProcess} (h : Unrecorded p) (calls : List (BrkEnv × Nat)) :
    Unrecorded (brkCalls p calls) := by
  induction calls generalizing p with
  | nil => exact h
  | cons c calls ih => exact ih (h.brk c.1 c.2)

theorem Unrecorded.not_ok {p : HeapProcess} (h : Unrecorded p) : ¬ HeapOk p := by
  intro hok
  have hbase : p.heapTopAllocated = heapBase := by
    rw [hok.allocated, h.count, Nat.zero_mul, Nat.add_zero]
  have htop : p.data.heapTop = heapBase := by
    have hle := hok.top_le
    rw [hbase] at hle
    exact Nat.le_antisymm hle h.base_le
  have hzero := h.empty htop
  rw [hbase] at hzero
  exact absurd hzero (by decide)

/-- The promise is broken in every state that any calls lead to. A new process
has a `heap_top` and nothing allocated below it, and no function counts the
pages of the heap up. `Unrecorded` is what every call keeps, and it contradicts
the promise. -/
theorem heap_never_ok (pid : Nat) (calls : List (BrkEnv × Nat)) :
    ¬ HeapOk (brkCalls (newHeapProcess pid) calls) :=
  ((unrecorded_new pid).calls calls).not_ok

/-- One page more: it is allocated at virtual address 0 and not counted. -/
theorem brk_page_lost :
    let env : BrkEnv :=
      { pageAllocate := fun _ => 0x500000, pagingVirtualToPhysical := id,
        added := fun _ => ⟨0, 0, 0⟩ }
    let p := (brkSyscallHandler env (newHeapProcess 2) 0xB0001000).1
    (brkSyscallHandler env (newHeapProcess 2) 0xB0001000).2 = 0 ∧
      p.data.heapTop = 0xB0001000 ∧ p.heapTopAllocated = 0x1000 ∧ p.data.heapPageCount = 0 ∧
      p.data.heapPages = [⟨0x500000, 0, 0x500000⟩] ∧ ¬ HeapOk p := by
  refine ⟨by decide, by decide, by decide, by decide, by decide, ?_⟩
  intro h
  have htop := h.top_le
  revert htop
  decide

/-! ## The break by bytes -/

/-- `sbrk_syscall_handler`; an `int` is added to a 64-bit address. -/
def sbrkSyscallHandler (env : BrkEnv) (p : HeapProcess) (incBytes : Int) : HeapProcess × Nat :=
  let (p', brkRes) := brkSyscallHandler env p ((p.data.heapTop + incBytes) % 2 ^ 64).toNat
  if brkRes ≠ 0 then (p', 0) else (p', p'.data.heapTop)

/-- What the comment of `sbrk` says of a call that adds `incBytes` and leads to `x`. -/
structure ReturnsStart (p : HeapProcess) (incBytes : Int) (x : HeapProcess × Nat) : Prop where
  start : x.2 = p.data.heapTop
  grown : 0 < incBytes → (x.1.data.heapTop : Int) = p.data.heapTop + incBytes
  unchanged : incBytes = 0 → x.1 = p

/-- The `n` bytes from `start` on and the `n'` bytes from `start'` on. -/
def RegionsApart (start n start' n' : Nat) : Prop := start + n ≤ start' ∨ start' + n' ≤ start

/-- A break that is not rejected moves the top to the address. -/
theorem brk_cases (env : BrkEnv) (p : HeapProcess) (addr : Nat) :
    (addr ≤ p.data.heapTop ∧ brkSyscallHandler env p addr = (p, -1)) ∨
    (p.data.heapTop < addr ∧ (brkSyscallHandler env p addr).2 = 0 ∧
      (brkSyscallHandler env p addr).1.data.heapTop = addr) := by
  unfold brkSyscallHandler
  by_cases hle : addr ≤ p.data.heapTop
  · rw [if_pos hle]
    exact Or.inl ⟨hle, rfl⟩
  · rw [if_neg hle]
    refine Or.inr ⟨Nat.lt_of_not_le hle, ?_⟩
    by_cases halloc : addr ≤ p.heapTopAllocated
    · rw [if_pos halloc]
      exact ⟨rfl, rfl⟩
    · rw [if_neg halloc]
      exact ⟨rfl, rfl⟩

/-- A call fails and changes nothing, or returns the **new** top. -/
theorem sbrk_cases (env : BrkEnv) (p : HeapProcess) (incBytes : Int) :
    sbrkSyscallHandler env p incBytes = (p, 0) ∨
    ∃ p', sbrkSyscallHandler env p incBytes = (p', p'.data.heapTop) ∧
      p.data.heapTop < p'.data.heapTop ∧
      (p'.data.heapTop : Int) = (p.data.heapTop + incBytes) % 2 ^ 64 := by
  unfold sbrkSyscallHandler
  rcases brk_cases env p ((p.data.heapTop + incBytes) % 2 ^ 64).toNat with
    ⟨-, hbrk⟩ | ⟨hlt, hres, htop⟩
  · rw [hbrk]
    exact Or.inl rfl
  · right
    have hnonneg : 0 ≤ (p.data.heapTop + incBytes) % 2 ^ 64 := Int.emod_nonneg _ (by simp)
    generalize hx : brkSyscallHandler env p _ = x at hres htop
    refine ⟨x.1, ?_, by rw [htop]; exact hlt, by rw [htop, Int.toNat_of_nonneg hnonneg]⟩
    simp [hres]

theorem Unrecorded.sbrk {p : HeapProcess} (h : Unrecorded p) (env : BrkEnv) (incBytes : Int) :
    Unrecorded (sbrkSyscallHandler env p incBytes).1 := by
  have hbrk := h.brk env ((p.data.heapTop + incBytes) % 2 ^ 64).toNat
  unfold sbrkSyscallHandler
  dsimp only
  split
  · exact hbrk
  · exact hbrk

/-- **`sbrk` never returns the start**, in no heap and for no number of bytes.
The pointer is taken after the heap was extended, so it is the end of what was
allocated; for 0 bytes `brk` fails, and the answer is `NULL`. -/
theorem sbrk_never_start (env : BrkEnv) {p : HeapProcess} (hbase : heapBase ≤ p.data.heapTop)
    (incBytes : Int) : ¬ ReturnsStart p incBytes (sbrkSyscallHandler env p incBytes) := by
  intro h
  have hstart := h.start
  rcases sbrk_cases env p incBytes with hfail | ⟨p', hsome, hlt, -⟩
  · rw [hfail] at hstart
    rw [← hstart] at hbase
    have hzero : heapBase ≤ 0 := hbase
    exact absurd hzero (by decide)
  · rw [hsome] at hstart
    exact absurd hstart (Nat.ne_of_gt hlt)

/-- A machine where every page is at the same place. -/
def onePlace : BrkEnv where
  pageAllocate := fun _ => 0x500000
  pagingVirtualToPhysical := id
  added := fun _ => ⟨0, 0, 0⟩

theorem sbrk_never_start_new :
    ¬ ReturnsStart (newHeapProcess 2) 16 (sbrkSyscallHandler onePlace (newHeapProcess 2) 16) :=
  sbrk_never_start onePlace (unrecorded_new 2).base_le 16

/-- Two pages, one page and a look at the top: the second region lies in the first,
and the top is not returned. -/
theorem sbrk_regions_overlap :
    let x := sbrkSyscallHandler onePlace (newHeapProcess 2) 0x2000
    let y := sbrkSyscallHandler onePlace x.1 0x1000
    let z := sbrkSyscallHandler onePlace y.1 0
    x.2 = 0xB0002000 ∧ y.2 = 0xB0003000 ∧ z.2 = 0 ∧ z.1.data.heapTop = 0xB0003000 ∧
      ¬ RegionsApart x.2 0x2000 y.2 0x1000 ∧
      ¬ ReturnsStart (newHeapProcess 2) 0x2000 x ∧ ¬ ReturnsStart y.1 0 z := by
  refine ⟨rfl, rfl, rfl, rfl, fun hapart => ?_, fun hstart => ?_, fun hstart => ?_⟩
  · rcases hapart with hle | hle
    · exact absurd hle (by decide)
    · exact absurd hle (by decide)
  · exact absurd hstart.start (by decide)
  · exact absurd hstart.start (by decide)

/-- The results of two calls are the ends of the regions: taken for their starts,
the regions are apart only if the second is not the smaller one. -/
theorem sbrk_regions_apart_iff {env env' : BrkEnv} {p p₁ p₂ : HeapProcess} {n n' r r' : Nat}
    (htop : p.data.heapTop + n + n' < 2 ^ 64) (hn : 0 < n) (hn' : 0 < n')
    (h : sbrkSyscallHandler env p n = (p₁, r)) (h' : sbrkSyscallHandler env' p₁ n' = (p₂, r'))
    (hr : r ≠ 0) (hr' : r' ≠ 0) : RegionsApart r n r' n' ↔ n ≤ n' := by
  have hfirst : r = p.data.heapTop + n ∧ p₁.data.heapTop = r := by
    rcases sbrk_cases env p n with hfail | ⟨q, hsome, -, hq⟩
    · rw [h] at hfail
      exact absurd (congrArg Prod.snd hfail) hr
    · obtain ⟨rfl, rfl⟩ := Prod.mk.inj (h.symm.trans hsome)
      rw [Int.emod_eq_of_lt (by omega) (by omega)] at hq
      exact ⟨by omega, rfl⟩
  have hsecond : r' = r + n' := by
    rcases sbrk_cases env' p₁ n' with hfail | ⟨q, hsome, -, hq⟩
    · rw [h'] at hfail
      exact absurd (congrArg Prod.snd hfail) hr'
    · obtain ⟨rfl, rfl⟩ := Prod.mk.inj (h'.symm.trans hsome)
      rw [hfirst.2, Int.emod_eq_of_lt (by omega) (by omega)] at hq
      omega
  unfold RegionsApart
  omega

end VersionSix.Brk
