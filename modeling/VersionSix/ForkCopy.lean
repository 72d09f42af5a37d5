import VersionSix.AddrSpace
import VersionSix.Context

/-!
# What `fork` copies

`fork_syscall_handler` gives the child a stack, a table and pages for its
data, a table and pages for its text, and copies each page of the parent
through the kernel's own mapping. The frames come from
`page_allocate_kernel`; what is known of them is that they are fresh
(`FreshPages`): apart from each other and from the parent's frames.

Under that assumption the child is an isolated copy (`ForkIsolated`)
exactly when both tables fit into the one page each gets and the parent
has no heap pages, since no loop copies those (`fork_isolated_iff`).
-/

namespace VersionSix.Process

open ByteStore (Bytes)

/-! ## Blocks of physical memory -/

structure Block where
  start : Nat
  size : Nat
deriving DecidableEq

namespace Block

def Has (b : Block) (a : Nat) : Prop := b.start ≤ a ∧ a < b.start + b.size

def Apart (b c : Block) : Prop := b.start + b.size ≤ c.start ∨ c.start + c.size ≤ b.start

instance (b c : Block) : Decidable (b.Apart c) := inferInstanceAs (Decidable (_ ∨ _))

/-- `c` lies in `b`. -/
def Covers (b c : Block) : Prop := b.start ≤ c.start ∧ c.start + c.size ≤ b.start + b.size

instance (b c : Block) : Decidable (b.Covers c) := inferInstanceAs (Decidable (_ ∧ _))

theorem Apart.symm {b c : Block} (h : b.Apart c) : c.Apart b := Or.symm h

theorem Apart.not_has {b c : Block} (h : b.Apart c) {x : Nat} (hx : x < c.size) :
    ¬ b.Has (c.start + x) := by
  rintro ⟨hle, hlt⟩
  rcases h with h | h <;> omega

theorem Apart.of_covers {b b' c : Block} (h : b.Apart c) (hb : b.Covers b') : b'.Apart c := by
  obtain ⟨hle, hend⟩ := hb
  rcases h with h | h
  · exact .inl (hend.trans h)
  · exact .inr (h.trans hle)

def Before (b c : Block) : Prop := b.start + b.size ≤ c.start

instance (b c : Block) : Decidable (b.Before c) := inferInstanceAs (Decidable (_ ≤ _))

theorem Before.trans {b c d : Block} (h : b.Before c) (h' : c.Before d) : b.Before d :=
  Nat.le_trans h (Nat.le_trans (Nat.le_add_right c.start c.size) h')

theorem apart_of_row {bs : List Block} (h : bs.IsChain Before) : bs.Pairwise Apart := by
  have htrans : Trans Before Before Before := ⟨Before.trans⟩
  exact (List.isChain_iff_pairwise.mp h).imp Or.inl

end Block

/-- `m'` is `m` outside the blocks. -/
def SameOutside (m m' : Bytes) (blocks : List Block) : Prop :=
  ∀ a, (∀ b ∈ blocks, ¬ b.Has a) → m' a = m a

theorem SameOutside.refl (m : Bytes) : SameOutside m m [] := fun _ _ => rfl

theorem SameOutside.trans {m m' m'' : Bytes} {bs cs : List Block} (h : SameOutside m m' bs)
    (h' : SameOutside m' m'' cs) : SameOutside m m'' (bs ++ cs) := by
  intro a ha
  rw [h' a fun b hb => ha b (List.mem_append_right _ hb),
    h a fun b hb => ha b (List.mem_append_left _ hb)]

theorem SameOutside.block {m m' : Bytes} {blocks : List Block} (h : SameOutside m m' blocks)
    {c : Block} (hc : ∀ b ∈ blocks, b.Apart c) {x : Nat} (hx : x < c.size) :
    m' (c.start + x) = m (c.start + x) :=
  h _ fun b hb => (hc b hb).not_has hx

theorem SameOutside.write {m : Bytes} {start n : Nat} {buf : Bytes} :
    SameOutside m (ByteStore.write m start n buf) [⟨start, n⟩] := by
  intro a ha
  refine ByteStore.write_out ?_
  have hout : ¬(start ≤ a ∧ a < start + n) := ha _ (List.mem_singleton_self _)
  omega

/-! ## The law -/

def frameOf (s : ExecSection) : Block := ⟨s.phys, pageSize⟩

def frames (p : ProcessData) : List Block := (recordedPages p ++ stackPages p).map frameOf

/-- `t` is the page `s` on another frame: the same virtual page with the
bytes `s` had, and `s` still has them. -/
structure PageCopied (m m' : Bytes) (s t : ExecSection) : Prop where
  virt : t.virt = s.virt
  bytes : ∀ x < pageSize, m' (t.phys + x) = m (s.phys + x)
  kept : ∀ x < pageSize, m' (s.phys + x) = m (s.phys + x)

structure IsolatedCopy (k k' : Kernel) (parent child : ProcessData) : Prop where
  data : List.Forall₂ (PageCopied k.memory k'.memory) (dataPages parent) (dataPages child)
  text : List.Forall₂ (PageCopied k.memory k'.memory) (textPages parent) (textPages child)
  heap : List.Forall₂ (PageCopied k.memory k'.memory) (heapPagesOf parent) (heapPagesOf child)
  stack : List.Forall₂ (PageCopied k.memory k'.memory) (stackPages parent) (stackPages child)
  apart : (frames child).Pairwise Block.Apart
  separate : ∀ b ∈ frames child, ∀ c ∈ frames parent, b.Apart c

/-- The handler runs through, so that no table write left its page, and the
process it appends is an isolated copy of the parent. -/
def ForkIsolated (k : Kernel) (env : CallEnv) (parent : ProcessData) : Prop :=
  ∃ k' child, forkSyscallHandler k env = some k' ∧
    k'.proc? k.processList.length = some child ∧ IsolatedCopy k k' parent child

/-! ### What the law assumes -/

/-- What the loaders and the creation of processes leave in the record of a
process with a stack. -/
structure ParentRecorded (k : Kernel) (p : ProcessData) : Prop where
  arrays : p.dataSectionCount ≤ p.dataSections.length ∧
    p.textSectionCount ≤ p.textSections.length ∧ p.heapPageCount ≤ p.heapPages.length
  phys : ∀ s ∈ dataPages p ++ textPages p, s.phys = kernelPhysical k s.kernVirt
  stackVirt : p.procStackVirt = 0xA0000000
  stackPhys : p.procStackPhys = kernelPhysical k p.procStackKvirt
  stackSize : p.stackSize = processDefaultStackSize
  stackEnd : p.procStackPhys + processDefaultStackSize ≤ 2 ^ 64

def stackBlock (phys : Nat → Nat) (v : Nat) : Block := ⟨phys v, processDefaultStackSize⟩
def pageBlock (phys : Nat → Nat) (v : Nat) : Block := ⟨phys v, pageSize⟩

def blocks (phys : Nat → Nat) (stack : Nat) (pages : List Nat) : List Block :=
  stackBlock phys stack :: pages.map (pageBlock phys)

/-- What `page_allocate_kernel` hands out in one fork: a block for the stack,
then as many pages as are asked for. -/
structure FreshPages (k : Kernel) (p : ProcessData) (stack : Nat) (pages : List Nat) : Prop where
  enough : p.dataSectionCount + p.textSectionCount + 2 ≤ pages.length
  apart : (blocks (kernelPhysical k) stack pages).Pairwise Block.Apart
  separate : ∀ b ∈ blocks (kernelPhysical k) stack pages, ∀ c ∈ frames p, b.Apart c
  stackEnd : kernelPhysical k stack + processDefaultStackSize ≤ 2 ^ 64

/-! ## Allocating and copying -/

/-- `t` got the virtual page of `s` and the bytes of its kernel mapping. -/
structure CopyOf (phys : Nat → Nat) (m m' : Bytes) (s t : ExecSection) : Prop where
  virt : t.virt = s.virt
  bytes : ∀ x < pageSize, m' (t.phys + x) = m (phys s.kernVirt + x)

/-- The pages are apart from each other and from what will be read. -/
structure FreshFor (phys : Nat → Nat) (pages : List Nat) (sections : List ExecSection) :
    Prop where
  apart : (pages.map (pageBlock phys)).Pairwise Block.Apart
  sources : ∀ v ∈ pages, ∀ s ∈ sections, (pageBlock phys v).Apart (pageBlock phys s.kernVirt)

theorem FreshFor.tail {phys : Nat → Nat} {v : Nat} {pages : List Nat}
    {sections : List ExecSection} (h : FreshFor phys (v :: pages) sections) :
    FreshFor phys pages sections :=
  ⟨(List.pairwise_cons.mp h.apart).2, fun w hw => h.sources w (List.mem_cons_of_mem _ hw)⟩

theorem FreshFor.head_apart {phys : Nat → Nat} {v : Nat} {pages : List Nat}
    {sections : List ExecSection} (h : FreshFor phys (v :: pages) sections) {b : Block}
    (hb : b ∈ pages.map (pageBlock phys)) : (pageBlock phys v).Apart b :=
  (List.pairwise_cons.mp h.apart).1 b hb

theorem forall₂_imp_mem {α β : Type} {R S : α → β → Prop} {as : List α} {bs : List β}
    (h : List.Forall₂ R as bs) (himp : ∀ a ∈ as, ∀ b ∈ bs, R a b → S a b) :
    List.Forall₂ S as bs := by
  induction h with
  | nil => exact .nil
  | cons hab _ ih =>
      refine .cons (himp _ List.mem_cons_self _ List.mem_cons_self hab) (ih fun a ha b hb => ?_)
      exact himp a (List.mem_cons_of_mem _ ha) b (List.mem_cons_of_mem _ hb)

/-- The source may be written before the copy, the target after it, if they
are apart from what is written. -/
theorem CopyOf.widen {phys : Nat → Nat} {m m₁ m₂ m₃ : Bytes} {bs cs : List Block}
    {s t : ExecSection} (h : CopyOf phys m₁ m₂ s t) (hbs : SameOutside m m₁ bs)
    (hcs : SameOutside m₂ m₃ cs) (hs : ∀ b ∈ bs, b.Apart (pageBlock phys s.kernVirt))
    (ht : ∀ c ∈ cs, c.Apart (frameOf t)) : CopyOf phys m m₃ s t where
  virt := h.virt
  bytes _ hx := (hcs.block ht hx).trans ((h.bytes _ hx).trans (hbs.block hs hx))

section

variable {k : Kernel} {phys : Nat → Nat} (hphys : kernelPhysical k = phys)
include hphys

theorem allocate_fresh (m : Bytes) (n v : Nat) (rest : List Nat) :
    ∃ m', pageAllocateKernel (k.withMemory m) n (v :: rest) = some (v, k.withMemory m', rest) ∧
      SameOutside m m' [⟨phys v, n * pageSize⟩] := by
  subst hphys
  exact ⟨_, rfl, .write⟩

theorem memcpy_fresh (m : Bytes) (dst src n : Nat) :
    ∃ m', memcpyKernel (k.withMemory m) dst src n = k.withMemory m' ∧
      SameOutside m m' [⟨phys dst, n⟩] ∧ ∀ x < n, m' (phys dst + x) = m (phys src + x) := by
  subst hphys
  refine ⟨_, rfl, .write, fun x hx => ?_⟩
  exact (ByteStore.write_in hx).trans (ByteStore.read_eq hx)

theorem copyPages_fresh (m : Bytes) {sections : List ExecSection} {pages : List Nat}
    (rest : List Nat) (hlen : pages.length = sections.length) (hf : FreshFor phys pages sections) :
    ∃ copied m', copyPages (k.withMemory m) sections (pages ++ rest) =
        some (copied, k.withMemory m', rest) ∧
      SameOutside m m' (pages.map (pageBlock phys)) ∧
      copied.map frameOf = pages.map (pageBlock phys) ∧
      List.Forall₂ (CopyOf phys m m') sections copied := by
  induction sections generalizing m pages with
  | nil =>
      obtain rfl := List.length_eq_zero_iff.mp hlen
      exact ⟨[], m, rfl, .refl m, rfl, .nil⟩
  | cons s sections ih =>
      obtain ⟨v, pages, rfl⟩ := List.exists_cons_of_length_eq_add_one hlen
      obtain ⟨m₁, hm₁, hout₁⟩ := allocate_fresh hphys m 1 v (pages ++ rest)
      obtain ⟨m₂, hm₂, hout₂, hbytes⟩ := memcpy_fresh hphys m₁ v s.kernVirt pageSize
      rw [Nat.one_mul] at hout₁
      have hs : ∀ b ∈ [pageBlock phys v], b.Apart (pageBlock phys s.kernVirt) := fun b hb => by
        obtain rfl := List.mem_singleton.mp hb
        exact hf.sources v List.mem_cons_self s List.mem_cons_self
      have hfresh : FreshFor phys pages sections :=
        ⟨hf.tail.apart, fun w hw t ht => hf.tail.sources w hw t (List.mem_cons_of_mem _ ht)⟩
      obtain ⟨copied, m₃, hcopy, hout₃, hframes, hall⟩ := ih m₂ (Nat.succ.inj hlen) hfresh
      have hout : SameOutside m m₂ [pageBlock phys v] := fun a ha => by
        rw [hout₂ a ha, hout₁ a ha]
      refine ⟨{ kernVirt := v, virt := s.virt, phys := phys v } :: copied, m₃, ?_,
        hout.trans hout₃, congrArg (pageBlock phys v :: ·) hframes, .cons ⟨rfl, fun x hx => ?_⟩ ?_⟩
      · rw [List.cons_append, copyPages, hm₁, Option.bind_some]
        simp only [hm₂, hcopy]
        subst hphys
        rfl
      · -- the pages copied later leave this one alone, and its source was not overwritten
        have hlater := hout₃.block (c := pageBlock phys v) (fun b hb => (hf.head_apart hb).symm) hx
        exact hlater.trans ((hbytes x hx).trans (hout₁.block hs hx))
      · refine forall₂_imp_mem hall fun t ht c _ hc => ?_
        refine hc.widen hout (.refl m₃) (fun b hb => ?_) fun _ hc => absurd hc List.not_mem_nil
        obtain rfl := List.mem_singleton.mp hb
        exact hf.sources v List.mem_cons_self t (List.mem_cons_of_mem _ ht)

theorem copySections_fresh (m : Bytes) {sections : List ExecSection} {count : Nat}
    {table : Nat} {pages : List Nat} (rest : List Nat) (hfits : count ≤ sectionsPerPage)
    (hcount : count ≤ sections.length) (hlen : pages.length = count)
    (hf : FreshFor phys (table :: pages) (sections.take count)) :
    ∃ copied m', copySections (k.withMemory m) sections count (table :: pages ++ rest) =
        some (copied, k.withMemory m', rest) ∧
      SameOutside m m' ((table :: pages).map (pageBlock phys)) ∧
      copied.map frameOf = pages.map (pageBlock phys) ∧
      List.Forall₂ (CopyOf phys m m') (sections.take count) copied := by
  obtain ⟨m₁, hm₁, hout₁⟩ := allocate_fresh hphys m 1 table (pages ++ rest)
  rw [Nat.one_mul] at hout₁
  have hlen' : pages.length = (sections.take count).length :=
    hlen.trans (List.length_take_of_le hcount).symm
  obtain ⟨copied, m₂, hcopy, hout₂, hframes, hall⟩ := copyPages_fresh hphys m₁ rest hlen' hf.tail
  refine ⟨copied, m₂, ?_, hout₁.trans hout₂, hframes, forall₂_imp_mem hall fun s hs t _ ht => ?_⟩
  · unfold copySections
    rw [if_neg (Nat.not_lt.mpr hfits), List.cons_append, hm₁, Option.bind_some,
      readSections_of_le hcount]
    exact hcopy
  · refine ht.widen hout₁ (.refl m₂) (fun b hb => ?_) fun _ hc => absurd hc List.not_mem_nil
    obtain rfl := List.mem_singleton.mp hb
    exact hf.sources table List.mem_cons_self s hs

end

/-! ### Stacks -/

/-- The frames of a stack that does not wrap lie in one block, one after the other. -/
theorem stackPage_phys {p : ProcessData}
    (hend : p.procStackPhys + processDefaultStackSize ≤ 2 ^ 64) {i : Nat}
    (hi : i < processDefaultStackPages) :
    (p.procStackPhys + i * pageSize) % 2 ^ 64 = p.procStackPhys + i * pageSize := by
  unfold processDefaultStackPages at hi
  unfold processDefaultStackSize at hend
  unfold pageSize
  exact Nat.mod_eq_of_lt (by omega)

theorem stack_byte {p : ProcessData} (hend : p.procStackPhys + processDefaultStackSize ≤ 2 ^ 64)
    {x : Nat} (hx : x < processDefaultStackSize) :
    ∃ s ∈ stackPages p, x % pageSize < pageSize ∧
      s.phys + x % pageSize = p.procStackPhys + x := by
  have hpage : x / pageSize < processDefaultStackPages := Nat.div_lt_of_lt_mul hx
  have hsplit : x / pageSize * pageSize + x % pageSize = x := Nat.div_add_mod' ..
  refine ⟨_, List.mem_map.mpr ⟨x / pageSize, List.mem_range.mpr hpage, rfl⟩,
    Nat.mod_lt _ (by decide), ?_⟩
  dsimp only
  rw [stackPage_phys hend hpage, Nat.add_assoc, hsplit]

theorem stackFrames_apart {p : ProcessData}
    (hend : p.procStackPhys + processDefaultStackSize ≤ 2 ^ 64) :
    ((stackPages p).map frameOf).Pairwise Block.Apart := by
  unfold stackPages
  rw [List.map_map, List.pairwise_map]
  refine List.pairwise_lt_range.imp_of_mem fun {i j} hi hj hlt => .inl ?_
  have hi := stackPage_phys hend (List.mem_range.mp hi)
  have hj := stackPage_phys hend (List.mem_range.mp hj)
  have hnext : (i + 1) * pageSize ≤ j * pageSize := Nat.mul_le_mul_right _ hlt
  rw [Nat.succ_mul] at hnext
  dsimp only [frameOf, Function.comp_apply]
  rw [hi, hj]
  omega

theorem stackFrame_covered {p : ProcessData}
    (hend : p.procStackPhys + processDefaultStackSize ≤ 2 ^ 64) {b : Block}
    (hb : b ∈ (stackPages p).map frameOf) :
    Block.Covers ⟨p.procStackPhys, processDefaultStackSize⟩ b := by
  obtain ⟨s, hs, rfl⟩ := List.mem_map.mp hb
  obtain ⟨i, hi, rfl⟩ := List.mem_map.mp hs
  have hphys := stackPage_phys hend (List.mem_range.mp hi)
  have hi : i + 1 ≤ processDefaultStackPages := List.mem_range.mp hi
  have hsize : (i + 1) * pageSize ≤ processDefaultStackSize := Nat.mul_le_mul_right _ hi
  rw [Nat.succ_mul] at hsize
  refine ⟨?_, ?_⟩ <;> dsimp only [frameOf] <;> rw [hphys] <;> omega

/-! ## The handler -/

/-- What the handler did with fresh pages: the child appended, its stack and
pages copied, the rest of memory as it was. -/
structure Forked (k k' : Kernel) (parent : ProcessData) (stack : Nat) (pages : List Nat)
    (data text : List ExecSection) : Prop where
  spawned : k' = spawn k (forkChild parent k.frame stack (kernelPhysical k stack) data text
    (newProcess k.pidNext)) k'.memory (UInt64.ofNat k.pidNext)
  outside : SameOutside k.memory k'.memory (blocks (kernelPhysical k) stack pages)
  stackCopied : ∀ x < processDefaultStackSize,
    k'.memory (kernelPhysical k stack + x) = k.memory (parent.procStackPhys + x)
  dataCopied : List.Forall₂ (CopyOf (kernelPhysical k) k.memory k'.memory) (dataPages parent) data
  textCopied : List.Forall₂ (CopyOf (kernelPhysical k) k.memory k'.memory) (textPages parent) text
  used : ((data ++ text).map frameOf).Sublist (pages.map (pageBlock (kernelPhysical k)))

theorem ParentRecorded.stack_separate {k : Kernel} {p : ProcessData} (h : ParentRecorded k p)
    {b : Block} (hb : ∀ c ∈ frames p, b.Apart c) {x : Nat} (hx : x < processDefaultStackSize) :
    ¬ b.Has (p.procStackPhys + x) := by
  obtain ⟨s, hs, hlt, hbyte⟩ := stack_byte h.stackEnd hx
  rw [← hbyte]
  exact (hb _ (List.mem_map_of_mem (List.mem_append_right _ hs))).not_has hlt

/-- The pages asked for, in order: a table and its pages, twice. -/
theorem split_pages {pages : List Nat} {d t : Nat} (h : d + t + 2 ≤ pages.length) :
    ∃ dataTable usedData textTable usedText rest, usedData.length = d ∧ usedText.length = t ∧
      pages = dataTable :: usedData ++ (textTable :: usedText ++ rest) := by
  obtain ⟨dataTable, pages, rfl⟩ := List.exists_cons_of_length_pos (l := pages) (by omega)
  rw [List.length_cons] at h
  have hd : d ≤ pages.length := by omega
  have hrest : (pages.drop d).length = pages.length - d := List.length_drop
  obtain ⟨textTable, tail, htail⟩ :=
    List.exists_cons_of_length_pos (l := pages.drop d) (by omega)
  rw [htail, List.length_cons] at hrest
  refine ⟨dataTable, pages.take d, textTable, tail.take t, tail.drop t,
    List.length_take_of_le hd, List.length_take_of_le (by omega), ?_⟩
  rw [List.cons_append, List.cons_append, List.take_append_drop, ← htail, List.take_append_drop]

theorem PidsInOrder.find_appended {k : Kernel} (hk : PidsInOrder k) :
    processGetDataFromPid k.withNew k.pidNext = some k.processList.length := by
  have hnew : (newProcess k.pidNext).pid == k.pidNext := beq_self_eq_true _
  have hsome : (processGetDataFromPid k.withNew k.pidNext).isSome := by
    rw [processGetDataFromPid, List.findIdx?_isSome, List.any_eq_true]
    exact ⟨_, List.mem_append_right _ (List.mem_singleton_self _), hnew⟩
  obtain ⟨i, hi⟩ := Option.isSome_iff_exists.mp hsome
  rw [hi, hk.find_new hi]

/-- The kernel in which the pages are allocated: the child is appended, the
parent's frame saved. -/
def Kernel.withChild (k : Kernel) : Kernel :=
  k.withNew.updateProc k.currentProcess (saveContext k.frame)

theorem forkSyscallHandler_eq {k : Kernel} {env : CallEnv} {parent : ProcessData} {stack : Nat}
    {pages pages' pages'' : List Nat} {data text : List ExecSection} {m₁ m₂ m₃ m₄ : Bytes}
    (hk : PidsInOrder k) (hparent : k.proc? k.currentProcess = some parent)
    (hpid : k.pidNext + 1 < 2 ^ 32)
    (hstack : pageAllocateKernel (k.withChild.withMemory k.memory) processDefaultStackPages
      env.pages = some (stack, k.withChild.withMemory m₁, pages))
    (hcopy : memcpyKernel (k.withChild.withMemory m₁) stack parent.procStackKvirt
      parent.stackSize = k.withChild.withMemory m₂)
    (hdata : copySections (k.withChild.withMemory m₂) parent.dataSections parent.dataSectionCount
      pages = some (data, k.withChild.withMemory m₃, pages'))
    (htext : copySections (k.withChild.withMemory m₃) parent.textSections parent.textSectionCount
      pages' = some (text, k.withChild.withMemory m₄, pages'')) :
    forkSyscallHandler k env = some (spawn k (forkChild parent k.frame stack
      (kernelPhysical k stack) data text (newProcess k.pidNext)) m₄ (UInt64.ofNat k.pidNext)) := by
  have hnew : processGetNewProcess k = some (k.pidNext, k.withNew) := if_neg (Nat.not_le.mpr hpid)
  rw [← spawn_eq hk]
  unfold forkSyscallHandler
  refine Option.bind_eq_some_iff.mpr ⟨parent, hparent, ?_⟩
  refine Option.bind_eq_some_iff.mpr ⟨_, hnew, ?_⟩
  refine Option.bind_eq_some_iff.mpr ⟨_, hk.find_appended, ?_⟩
  refine Option.bind_eq_some_iff.mpr ⟨_, hstack, ?_⟩
  dsimp only
  rw [hcopy]
  refine Option.bind_eq_some_iff.mpr ⟨_, hdata, ?_⟩
  exact Option.bind_eq_some_iff.mpr ⟨_, htext, rfl⟩

/-- The source of each copy is apart from all that is handed out. -/
theorem FreshPages.source_apart {k : Kernel} {p : ProcessData} {stack : Nat} {pages : List Nat}
    (h : FreshPages k p stack pages) (hrec : ParentRecorded k p) {s : ExecSection}
    (hs : s ∈ dataPages p ++ textPages p) {b : Block}
    (hb : b ∈ blocks (kernelPhysical k) stack pages) :
    b.Apart (pageBlock (kernelPhysical k) s.kernVirt) := by
  have hframe : frameOf s ∈ frames p :=
    List.mem_map_of_mem (List.mem_append_left _ (List.mem_append_left _ hs))
  have hapart := h.separate b hb _ hframe
  rw [frameOf, hrec.phys s hs] at hapart
  exact hapart

theorem FreshPages.freshFor {k : Kernel} {p : ProcessData} {stack : Nat} {pages used : List Nat}
    {sections : List ExecSection} (h : FreshPages k p stack pages) (hrec : ParentRecorded k p)
    (hused : used.Sublist pages) (hsub : ∀ s ∈ sections, s ∈ dataPages p ++ textPages p) :
    FreshFor (kernelPhysical k) used sections where
  apart := (List.pairwise_cons.mp h.apart).2.sublist (hused.map _)
  sources _ hv s hs := h.source_apart hrec (hsub s hs)
    (List.mem_cons_of_mem _ (List.mem_map_of_mem (hused.mem hv)))

/-- The parts of the pages that the data and the text of the child take: each
can be copied to, and no two of their frames meet. -/
structure Shares (k : Kernel) (p : ProcessData) (pages data text : List Nat) : Prop where
  freshData : FreshFor (kernelPhysical k) data (dataPages p)
  freshText : FreshFor (kernelPhysical k) text (textPages p)
  memData : ∀ b ∈ data.map (pageBlock (kernelPhysical k)),
    b ∈ pages.map (pageBlock (kernelPhysical k))
  memText : ∀ b ∈ text.map (pageBlock (kernelPhysical k)),
    b ∈ pages.map (pageBlock (kernelPhysical k))
  apart : ∀ b ∈ data.map (pageBlock (kernelPhysical k)),
    ∀ c ∈ text.map (pageBlock (kernelPhysical k)), b.Apart c

theorem FreshPages.shares {k : Kernel} {p : ProcessData} {stack : Nat}
    {pages data text rest : List Nat} (h : FreshPages k p stack pages) (hrec : ParentRecorded k p)
    (hpages : pages = data ++ (text ++ rest)) : Shares k p pages data text := by
  have hsubData : data.Sublist pages := by
    rw [hpages]
    exact List.sublist_append_left ..
  have hsubText : text.Sublist pages := by
    rw [hpages]
    exact (List.sublist_append_left ..).trans (List.sublist_append_right ..)
  refine ⟨h.freshFor hrec hsubData fun _ => List.mem_append_left _,
    h.freshFor hrec hsubText fun _ => List.mem_append_right _,
    fun b hb => (hsubData.map _).mem hb, fun b hb => (hsubText.map _).mem hb, fun b hb c hc => ?_⟩
  have hapart := (List.pairwise_cons.mp h.apart).2
  rw [hpages, List.map_append] at hapart
  exact (List.pairwise_append.mp hapart).2.2 b hb c (((List.sublist_append_left ..).map _).mem hc)

theorem forkSyscallHandler_fresh {k : Kernel} {env : CallEnv} {parent : ProcessData} {stack : Nat}
    {pages : List Nat} (hk : PidsInOrder k) (hparent : k.proc? k.currentProcess = some parent)
    (hpid : k.pidNext + 1 < 2 ^ 32) (henv : env.pages = stack :: pages)
    (hrec : ParentRecorded k parent) (hfresh : FreshPages k parent stack pages)
    (hdata : parent.dataSectionCount ≤ sectionsPerPage)
    (htext : parent.textSectionCount ≤ sectionsPerPage) :
    ∃ k' data text, forkSyscallHandler k env = some k' ∧
      Forked k k' parent stack pages data text := by
  obtain ⟨dataTable, usedData, textTable, usedText, rest, hlenData, hlenText, hpages⟩ :=
    split_pages hfresh.enough
  obtain ⟨hfreshData, hfreshText, hblocksData, hblocksText, hdataText⟩ := hfresh.shares hrec hpages
  have hphys : kernelPhysical k.withChild = kernelPhysical k := rfl
  obtain ⟨m₁, hm₁, hout₁⟩ := allocate_fresh hphys k.memory processDefaultStackPages stack
    pages
  obtain ⟨m₂, hm₂, hout₂, hstack⟩ :=
    memcpy_fresh hphys m₁ stack parent.procStackKvirt parent.stackSize
  rw [hrec.stackSize] at hout₂ hstack
  obtain ⟨data, m₃, hm₃, hout₃, hframesData, hallData⟩ := copySections_fresh hphys m₂
    (textTable :: usedText ++ rest) hdata hrec.arrays.1 hlenData hfreshData
  obtain ⟨text, m₄, hm₄, hout₄, hframesText, hallText⟩ := copySections_fresh hphys m₃
    rest htext hrec.arrays.2.1 hlenText hfreshText
  rw [← hpages] at hm₃
  rw [← henv] at hm₁
  have hstackApart := (List.pairwise_cons.mp hfresh.apart).1
  have hstackOut : SameOutside k.memory m₂ [stackBlock (kernelPhysical k) stack] := fun a ha => by
    rw [hout₂ a ha]
    exact hout₁ a ha
  refine ⟨_, data, text, forkSyscallHandler_eq hk hparent hpid hm₁ hm₂ hm₃ hm₄, rfl, ?_, ?_, ?_,
    ?_, ?_⟩
  · intro a ha
    have hstack := ha _ List.mem_cons_self
    have hrest := fun b hb => ha b (List.mem_cons_of_mem _ hb)
    refine (hout₄ a fun b hb => hrest b (hblocksText b hb)).trans ?_
    refine (hout₃ a fun b hb => hrest b (hblocksData b hb)).trans (hstackOut a fun b hb => ?_)
    obtain rfl := List.mem_singleton.mp hb
    exact hstack
  · intro x hx
    have hseparate := hrec.stack_separate (hfresh.separate _ List.mem_cons_self) hx
    rw [hrec.stackPhys] at hseparate ⊢
    have htext := hout₄.block (c := stackBlock (kernelPhysical k) stack)
      (fun b hb => (hstackApart b (hblocksText b hb)).symm) hx
    have hdata := hout₃.block (c := stackBlock (kernelPhysical k) stack)
      (fun b hb => (hstackApart b (hblocksData b hb)).symm) hx
    refine htext.trans (hdata.trans ((hstack x hx).trans (hout₁ _ fun b hb => ?_)))
    obtain rfl := List.mem_singleton.mp hb
    exact hseparate
  · refine forall₂_imp_mem hallData fun s hs t ht hcopy => ?_
    have hframe : frameOf t ∈ usedData.map (pageBlock (kernelPhysical k)) := by
      rw [← hframesData]
      exact List.mem_map_of_mem ht
    refine hcopy.widen hstackOut hout₄ (fun b hb => ?_) fun c hc => ?_
    · obtain rfl := List.mem_singleton.mp hb
      exact hfresh.source_apart hrec (List.mem_append_left _ hs) List.mem_cons_self
    · exact (hdataText _ (List.mem_cons_of_mem _ hframe) c hc).symm
  · refine forall₂_imp_mem hallText fun s hs t _ hcopy => ?_
    refine hcopy.widen (hstackOut.trans hout₃) (.refl m₄) (fun b hb => ?_)
      fun _ hc => absurd hc List.not_mem_nil
    refine hfresh.source_apart hrec (List.mem_append_right _ hs) ?_
    rcases List.mem_cons.mp hb with rfl | hb
    · exact List.mem_cons_self
    · exact List.mem_cons_of_mem _ (hblocksData b hb)
  · rw [List.map_append, hframesData, hframesText, ← List.map_append, hpages]
    refine List.Sublist.map _ (List.Sublist.append (List.sublist_cons_self ..) ?_)
    exact (List.sublist_cons_self ..).trans (List.sublist_append_left ..)

/-! ## When the child is an isolated copy -/

theorem Forked.pageCopied {k k' : Kernel} {parent : ProcessData} {stack : Nat} {pages : List Nat}
    {data text : List ExecSection} (h : Forked k k' parent stack pages data text)
    (hrec : ParentRecorded k parent) (hfresh : FreshPages k parent stack pages)
    {s t : ExecSection} (hs : s ∈ dataPages parent ++ textPages parent)
    (hcopy : CopyOf (kernelPhysical k) k.memory k'.memory s t) :
    PageCopied k.memory k'.memory s t := by
  have hframe : frameOf s ∈ frames parent :=
    List.mem_map_of_mem (List.mem_append_left _ (List.mem_append_left _ hs))
  refine ⟨hcopy.virt, fun x hx => ?_, fun x hx => ?_⟩
  · rw [hcopy.bytes x hx, hrec.phys s hs]
  · exact h.outside.block (fun b hb => hfresh.separate b hb _ hframe) hx

theorem Forked.stackPages_copied {k k' : Kernel} {parent child : ProcessData} {stack : Nat}
    {pages : List Nat} {data text : List ExecSection}
    (h : Forked k k' parent stack pages data text) (hrec : ParentRecorded k parent)
    (hfresh : FreshPages k parent stack pages) (hvirt : child.procStackVirt = 0xA0000000)
    (hphys : child.procStackPhys = kernelPhysical k stack) :
    List.Forall₂ (PageCopied k.memory k'.memory) (stackPages parent) (stackPages child) := by
  unfold stackPages
  rw [List.forall₂_map_left_iff, List.forall₂_map_right_iff, List.forall₂_same]
  intro i hi
  have hpage := List.mem_range.mp hi
  have hend : child.procStackPhys + processDefaultStackSize ≤ 2 ^ 64 := by
    rw [hphys]
    exact hfresh.stackEnd
  have hin : ∀ x < pageSize, i * pageSize + x < processDefaultStackSize := fun x hx => by
    have hsize : (i + 1) * pageSize ≤ processDefaultStackSize := Nat.mul_le_mul_right _ hpage
    rw [Nat.succ_mul] at hsize
    omega
  refine ⟨?_, fun x hx => ?_, fun x hx => ?_⟩
  · dsimp only
    rw [hvirt, hrec.stackVirt]
  · dsimp only
    rw [stackPage_phys hend hpage, stackPage_phys hrec.stackEnd hpage, hphys, Nat.add_assoc,
      Nat.add_assoc]
    exact h.stackCopied _ (hin x hx)
  · dsimp only
    rw [stackPage_phys hrec.stackEnd hpage, Nat.add_assoc]
    exact h.outside _ fun b hb => hrec.stack_separate (hfresh.separate b hb) (hin x hx)

/-- Each frame of the child lies in a block it was given, no two in a way
that they meet. -/
theorem Forked.frames_apart {k k' : Kernel} {parent : ProcessData} (child : ProcessData)
    {stack : Nat} {pages : List Nat} {data text : List ExecSection}
    (h : Forked k k' parent stack pages data text) (hfresh : FreshPages k parent stack pages)
    (hrecorded : recordedPages child = data ++ text)
    (hphys : child.procStackPhys = kernelPhysical k stack) :
    (frames child).Pairwise Block.Apart ∧
      ∀ b ∈ frames child, ∃ c ∈ blocks (kernelPhysical k) stack pages, c.Covers b := by
  have hend : child.procStackPhys + processDefaultStackSize ≤ 2 ^ 64 := by
    rw [hphys]
    exact hfresh.stackEnd
  obtain ⟨hstack, hpages⟩ := List.pairwise_cons.mp hfresh.apart
  have hcovered : ∀ b ∈ (stackPages child).map frameOf,
      (stackBlock (kernelPhysical k) stack).Covers b := fun b hb => by
    have := stackFrame_covered hend hb
    rw [hphys] at this
    exact this
  unfold frames
  rw [hrecorded, List.map_append]
  refine ⟨List.pairwise_append.mpr ⟨hpages.sublist h.used, stackFrames_apart hend, ?_⟩, ?_⟩
  · intro b hb c hc
    exact ((hstack b (h.used.mem hb)).of_covers (hcovered c hc)).symm
  · intro b hb
    rcases List.mem_append.mp hb with hb | hb
    · exact ⟨b, List.mem_cons_of_mem _ (h.used.mem hb), le_rfl, le_rfl⟩
    · exact ⟨_, List.mem_cons_self, hcovered b hb⟩

theorem Forked.isolated {k k' : Kernel} {parent : ProcessData} {stack : Nat} {pages : List Nat}
    {data text : List ExecSection} (h : Forked k k' parent stack pages data text)
    (hrec : ParentRecorded k parent) (hfresh : FreshPages k parent stack pages)
    (hheap : parent.heapPageCount = 0) :
    IsolatedCopy k k' parent (forkChild parent k.frame stack (kernelPhysical k stack) data text
      (newProcess k.pidNext)) := by
  set child := forkChild parent k.frame stack (kernelPhysical k stack) data text
    (newProcess k.pidNext) with hchild
  have hdata : dataPages child = data := by
    have hlen : data.length = parent.dataSectionCount :=
      h.dataCopied.length_eq.symm.trans (List.length_take_of_le hrec.arrays.1)
    exact List.take_of_length_le hlen.le
  have htext : textPages child = text := by
    have hlen : text.length = parent.textSectionCount :=
      h.textCopied.length_eq.symm.trans (List.length_take_of_le hrec.arrays.2.1)
    exact List.take_of_length_le hlen.le
  have hrecorded : recordedPages child = data ++ text := by
    unfold recordedPages
    rw [hdata, htext]
    exact List.append_nil _
  obtain ⟨hapart, hcovers⟩ := h.frames_apart child hfresh hrecorded rfl
  refine ⟨?_, ?_, ?_, h.stackPages_copied hrec hfresh rfl rfl, hapart, fun b hb c hc => ?_⟩
  · rw [hdata]
    exact forall₂_imp_mem h.dataCopied fun s hs _ _ hcopy =>
      h.pageCopied hrec hfresh (List.mem_append_left _ hs) hcopy
  · rw [htext]
    exact forall₂_imp_mem h.textCopied fun s hs _ _ hcopy =>
      h.pageCopied hrec hfresh (List.mem_append_right _ hs) hcopy
  · have : heapPagesOf parent = [] := by
      unfold heapPagesOf
      rw [hheap, List.take_zero]
    rw [this]
    exact .nil
  · obtain ⟨d, hd, hcov⟩ := hcovers b hb
    exact (hfresh.separate d hd c hc).of_covers hcov

/-! ### What the handler cannot copy -/

theorem copySections_fits {k : Kernel} {sections : List ExecSection} {count : Nat}
    {pages : List Nat} {r : List ExecSection × Kernel × List Nat}
    (h : copySections k sections count pages = some r) : count ≤ sectionsPerPage := by
  by_contra hlt
  unfold copySections at h
  rw [if_pos (Nat.not_le.mp hlt)] at h
  cases h

theorem fork_fits {k k' : Kernel} {env : CallEnv} {parent : ProcessData}
    (h : forkSyscallHandler k env = some k') (hparent : k.proc? k.currentProcess = some parent) :
    parent.dataSectionCount ≤ sectionsPerPage ∧ parent.textSectionCount ≤ sectionsPerPage := by
  unfold forkSyscallHandler at h
  simp only [Option.bind_eq_bind, Option.bind_eq_some_iff, Prod.exists] at h
  obtain ⟨p, hp, _, _, -, _, -, _, _, _, -, _, _, _, hdata, _, _, _, htext, -⟩ := h
  obtain rfl := Option.some.inj (hp.symm.trans hparent)
  exact ⟨copySections_fits hdata, copySections_fits htext⟩

theorem proc?_spawn_new (k : Kernel) (child : ProcessData) (memory : Bytes) (rax : UInt64) :
    (spawn k child memory rax).proc? k.processList.length = some child := by
  have hlen := List.length_modify (saveContext k.frame) k.processList k.currentProcess
  unfold Kernel.proc? spawn
  rw [List.getElem?_append_right hlen.le, hlen, Nat.sub_self]
  rfl

theorem fork_child_noHeap {k k' : Kernel} {env : CallEnv} {child : ProcessData}
    (hk : PidsInOrder k) (h : forkSyscallHandler k env = some k')
    (hchild : k'.proc? k.processList.length = some child) : heapPagesOf child = [] := by
  obtain ⟨_, _, _, _, _, _, -, -, -, rfl⟩ := fork_cases hk h
  rcases proc?_spawn hchild with ⟨-, rfl⟩ | ⟨q, hq, -⟩
  · rfl
  · exact absurd (proc?_lt hq) (Nat.lt_irrefl _)

/-- With fresh pages, the child of a fork is an isolated copy of its parent
exactly if each of the two section tables fits into a page and the parent has
no heap. A longer table is written over the end of its page, and no loop copies
the pages of a heap. -/
theorem fork_isolated_iff {k : Kernel} {env : CallEnv} {parent : ProcessData} {stack : Nat}
    {pages : List Nat} (hk : PidsInOrder k) (hparent : k.proc? k.currentProcess = some parent)
    (hpid : k.pidNext + 1 < 2 ^ 32) (henv : env.pages = stack :: pages)
    (hrec : ParentRecorded k parent) (hfresh : FreshPages k parent stack pages) :
    ForkIsolated k env parent ↔ parent.heapPageCount = 0 ∧
      parent.dataSectionCount ≤ sectionsPerPage ∧ parent.textSectionCount ≤ sectionsPerPage := by
  constructor
  · rintro ⟨k', child, hfork, hchild, hcopy⟩
    have hlen := hcopy.heap.length_eq
    rw [fork_child_noHeap hk hfork hchild, heapPagesOf,
      List.length_take_of_le hrec.arrays.2.2] at hlen
    exact ⟨hlen, fork_fits hfork hparent⟩
  · rintro ⟨hheap, hdata, htext⟩
    obtain ⟨k', data, text, hfork, hforked⟩ :=
      forkSyscallHandler_fresh hk hparent hpid henv hrec hfresh hdata htext
    refine ⟨k', _, hfork, ?_, hforked.isolated hrec hfresh hheap⟩
    rw [hforked.spawned]
    exact proc?_spawn_new ..

/-! ### A small program and a large one -/

/-- What a fork of the current process assumes, as a test. -/
def forkReady (k : Kernel) (p : ProcessData) (stack : Nat) (pages : List Nat) : Bool :=
  decide (p.dataSectionCount ≤ p.dataSections.length) &&
  decide (p.textSectionCount ≤ p.textSections.length) &&
  decide (p.heapPageCount ≤ p.heapPages.length) &&
  (dataPages p ++ textPages p).all (fun s => s.phys == kernelPhysical k s.kernVirt) &&
  p.procStackVirt == 0xA0000000 &&
  p.procStackPhys == kernelPhysical k p.procStackKvirt &&
  p.stackSize == processDefaultStackSize &&
  decide (p.procStackPhys + processDefaultStackSize ≤ 2 ^ 64) &&
  decide (p.dataSectionCount + p.textSectionCount + 2 ≤ pages.length) &&
  decide ((blocks (kernelPhysical k) stack pages).Pairwise Block.Apart) &&
  (blocks (kernelPhysical k) stack pages).all
    (fun b => (frames p).all fun c => decide (b.Apart c)) &&
  decide (kernelPhysical k stack + processDefaultStackSize ≤ 2 ^ 64)

theorem forkReady_sound {k : Kernel} {p : ProcessData} {stack : Nat} {pages : List Nat}
    (h : forkReady k p stack pages = true) :
    ParentRecorded k p ∧ FreshPages k p stack pages := by
  unfold forkReady at h
  simp only [Bool.and_eq_true, decide_eq_true_eq, beq_iff_eq, List.all_eq_true] at h
  obtain ⟨⟨⟨⟨⟨⟨⟨⟨⟨⟨⟨hd, ht⟩, hh⟩, hphys⟩, hvirt⟩, hstack⟩, hsize⟩, hend⟩, henough⟩, hapart⟩, hsep⟩,
    hend'⟩ := h
  exact ⟨⟨⟨hd, ht, hh⟩, hphys, hvirt, hstack, hsize, hend⟩, ⟨henough, hapart, hsep, hend'⟩⟩

instance (k : Kernel) (p : ProcessData) : Decidable (ParentRecorded k p) :=
  decidable_of_iff
    ((p.dataSectionCount ≤ p.dataSections.length ∧ p.textSectionCount ≤ p.textSections.length ∧
        p.heapPageCount ≤ p.heapPages.length) ∧
      (∀ s ∈ dataPages p ++ textPages p, s.phys = kernelPhysical k s.kernVirt) ∧
      p.procStackVirt = 0xA0000000 ∧ p.procStackPhys = kernelPhysical k p.procStackKvirt ∧
      p.stackSize = processDefaultStackSize ∧ p.procStackPhys + processDefaultStackSize ≤ 2 ^ 64)
    ⟨fun ⟨ha, hp, hv, hs, hz, he⟩ => ⟨ha, hp, hv, hs, hz, he⟩,
      fun h => ⟨h.arrays, h.phys, h.stackVirt, h.stackPhys, h.stackSize, h.stackEnd⟩⟩

/-- Pages in a row are fresh if no frame is in the area `w` they fill. -/
theorem FreshPages.of_row {k : Kernel} {p : ProcessData} {stack : Nat} {pages : List Nat}
    (w : Block) (henough : p.dataSectionCount + p.textSectionCount + 2 ≤ pages.length)
    (hrow : (blocks (kernelPhysical k) stack pages).IsChain Block.Before)
    (hin : ∀ b ∈ blocks (kernelPhysical k) stack pages, w.Covers b)
    (hout : ∀ c ∈ frames p, w.Apart c)
    (hend : kernelPhysical k stack + processDefaultStackSize ≤ 2 ^ 64) :
    FreshPages k p stack pages where
  enough := henough
  apart := Block.apart_of_row hrow
  separate b hb c hc := (hout c hc).of_covers (hin b hb)
  stackEnd := hend

theorem fork_isolated_iff_text : ∃ k parent, Run.exec step textKernel [callOf 4 0] = some k ∧
    k.proc? k.currentProcess = some parent ∧ parent.textSectionCount = 1 ∧
    ForkIsolated k { pages := [0x200000, 0x210000, 0x211000, 0x212000] } parent := by
  have hany : (Run.exec step textKernel [callOf 4 0]).any fun k =>
      (k.proc? k.currentProcess).any fun p =>
        forkReady k p 0x200000 [0x210000, 0x211000, 0x212000] && decide (k.pidNext + 1 < 2 ^ 32) &&
        p.heapPageCount == 0 && p.dataSectionCount == 0 && p.textSectionCount == 1 := by
    decide +kernel
  obtain ⟨k, hrun, hany⟩ := (Option.any_eq_true _ _).mp hany
  obtain ⟨p, hp, hany⟩ := (Option.any_eq_true _ _).mp hany
  simp only [Bool.and_eq_true, beq_iff_eq, decide_eq_true_eq] at hany
  obtain ⟨⟨⟨⟨hready, hpid⟩, hheap⟩, hdata⟩, htext⟩ := hany
  obtain ⟨hrec, hfresh⟩ := forkReady_sound hready
  have hreach : Reachable k := ⟨{}, _, 0, 0x100000, _, _, boot_text, hrun⟩
  refine ⟨k, p, hrun, hp, htext, (fork_isolated_iff (reachable_saved hreach).1 hp hpid rfl hrec
    hfresh).mpr ⟨hheap, ?_, ?_⟩⟩
  · rw [hdata]
    exact Nat.zero_le _
  · rw [htext]
    decide

/-- 171 pages of text, as `elf_loader_load` lays them out. -/
def largeText : List ExecSection :=
  (List.range 171).map fun i =>
    { phys := 0x500000 + i * 0x1000, virt := 0x400000 + i * 0x1000,
      kernVirt := 0x500000 + i * 0x1000 }

def largeKernel : Kernel := (boot {} { textSections := largeText } 0 0x100000).get (boot_isSome ..)

theorem boot_large : boot {} { textSections := largeText } 0 0x100000 = some largeKernel := rfl

def largePages : List Nat := (List.range 173).map fun i => 0x210000 + i * 0x1000

/-- The area that `largePages` and the stack before them fill. -/
def largeArea : Block := ⟨0x200000, 0x100000⟩

/-- The table of such a program leaves its page. -/
theorem large_not_isolated : ∃ k parent, Reachable k ∧
    k.proc? k.currentProcess = some parent ∧ k.pidNext + 1 < 2 ^ 32 ∧ ParentRecorded k parent ∧
    FreshPages k parent 0x200000 largePages ∧
    ¬ ForkIsolated k { pages := 0x200000 :: largePages } parent := by
  have hany : (Run.exec step largeKernel [callOf 4 0]).any fun k =>
      (k.proc? k.currentProcess).any fun p => decide (ParentRecorded k p ∧
        p.dataSectionCount + p.textSectionCount + 2 ≤ largePages.length ∧
        (blocks (kernelPhysical k) 0x200000 largePages).IsChain Block.Before ∧
        (∀ b ∈ blocks (kernelPhysical k) 0x200000 largePages, largeArea.Covers b) ∧
        (∀ c ∈ frames p, largeArea.Apart c) ∧
        kernelPhysical k 0x200000 + processDefaultStackSize ≤ 2 ^ 64 ∧
        k.pidNext + 1 < 2 ^ 32 ∧ p.textSectionCount = 171) := by
    decide +kernel
  obtain ⟨k, hrun, hany⟩ := (Option.any_eq_true _ _).mp hany
  obtain ⟨p, hp, hany⟩ := (Option.any_eq_true _ _).mp hany
  obtain ⟨hrec, henough, hrow, hin, hout, hend, hpid, htext⟩ := of_decide_eq_true hany
  refine ⟨k, p, ⟨{}, _, 0, 0x100000, _, _, boot_large, hrun⟩, hp, hpid, hrec,
    .of_row largeArea henough hrow hin hout hend, ?_⟩
  rintro ⟨k', child, hfork, -⟩
  have hfits := (fork_fits hfork hp).2
  rw [htext] at hfits
  exact absurd hfits (by decide)

end VersionSix.Process
