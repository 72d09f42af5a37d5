import VersionSix.AddrSpace

/-!
# The buffer of a woken reader

A waiting reader's buffer is an address in its own address space. The keyboard
interrupt stores the character there under the page tables in force, those of
whatever process is current when the key is pressed. Nothing maps the reader's
pages in between: the character is stored in the interrupt, and the yield that
brings the reader back comes later.

`woken_reader_iff` says when that is the reader's memory: exactly if the page
tables in force put the buffer where the reader's own address space does
(`Denotes`), and that byte belongs to no page of the current process. The first
part is the delivery, the second that nobody else sees the character.

For a buffer on the stack the address is the same in all processes, so the
character goes to the stack of the current one and is lost for the reader
(`stack_buffer_missed`). A run of a fork, a read and a key press shows it.
-/

namespace VersionSix.Process

/-! ## Memory of a process -/

/-- In the address space of `i` the address `v` is the physical address `b`. -/
def Denotes (k : Kernel) (i v b : Nat) : Prop :=
  ∃ s, OwnedPage k i s ∧ s.virt / pageSize = v / pageSize ∧ b = s.phys + v % pageSize

/-- The byte `a` of physical memory belongs to a page of `i`. -/
def MemoryOf (k : Kernel) (i a : Nat) : Prop :=
  ∃ s, OwnedPage k i s ∧ s.phys ≤ a ∧ a < s.phys + pageSize

/-- Where the page tables in force put `v`. -/
def translate (k : Kernel) (v : Nat) : Option Nat :=
  (k.vm (v / pageSize)).map (· + v % pageSize)

/-- The interrupt puts the character `c` where the buffer of `entry` is in the
address space of `i`, and nowhere into the memory of the current process. -/
def ReceivesOwn (k : Kernel) (scancode : UInt8) (entry : WaitQueueEntry) (i : Nat) (c : UInt8) :
    Prop :=
  ∃ b, Denotes k i entry.buff b ∧ ∀ memory, ∃ k',
    ps2KeyboardInterruptHandler { k with memory := memory } scancode = some k' ∧
      k'.memory b = c ∧ ∀ a, MemoryOf k k.currentProcess a → k'.memory a = memory a

/-! ## What the interrupt stores -/

/-- The interrupt hands the character of the oldest scancode to `entry`. -/
structure Delivers (k : Kernel) (scancode : UInt8) (entry : WaitQueueEntry) (i : Nat) (c : UInt8) :
    Prop where
  waiter : ∃ queue, dequeue k.wqPs2Keyboard = some (entry, queue)
  reader : processGetDataFromPid k entry.pid = some i
  char : ∃ d rest, dequeue (scancode :: k.scancodeQueue) = some (d, rest) ∧
    keyboardScancodeToChar d = some c

theorem Delivers.stored {k : Kernel} {scancode : UInt8} {entry : WaitQueueEntry} {i : Nat}
    {c : UInt8}
    (h : Delivers k scancode entry i c) (memory : ByteStore.Bytes) :
    (ps2KeyboardInterruptHandler { k with memory := memory } scancode).map Kernel.memory
      = (translate k entry.buff).map fun a => Function.update memory a c := by
  obtain ⟨queue, hqueue⟩ := h.waiter
  obtain ⟨d, rest, hd, hc⟩ := h.char
  have hreader := h.reader
  unfold processGetDataFromPid at hreader
  unfold ps2KeyboardInterruptHandler
  simp only [hqueue, hd, Option.bind_some, hc]
  unfold deliver processGetDataFromPid storeByte translate
  simp only [hreader, Option.bind_some, Option.map_map]
  rfl

/-! ## Whose memory it is -/

/-- A character that arrives in the reader's memory went through the page
tables in force. -/
theorem ReceivesOwn.translate_eq {k : Kernel} {scancode : UInt8} {entry : WaitQueueEntry} {i : Nat}
    {c : UInt8} (hown : ReceivesOwn k scancode entry i c) (h : Delivers k scancode entry i c) :
    ∃ b, Denotes k i entry.buff b ∧ translate k entry.buff = some b ∧
      ¬ MemoryOf k k.currentProcess b := by
  obtain ⟨b, hb, hown⟩ := hown
  refine ⟨b, hb, ?_⟩
  -- memory that holds another character everywhere tells where this one went
  obtain ⟨other, hne⟩ : ∃ other : UInt8, other ≠ c := by
    by_cases hc : c = 0
    · exact ⟨1, by rw [hc]; decide⟩
    · exact ⟨0, Ne.symm hc⟩
  obtain ⟨k', hk', hstored, hkept⟩ := hown fun _ => other
  have hmem := h.stored fun _ => other
  rw [hk', Option.map_some] at hmem
  obtain ⟨a, ha, hupdate⟩ := Option.map_eq_some_iff.mp hmem.symm
  have hab : b = a := by
    by_contra hba
    rw [← hupdate, Function.update_of_ne hba] at hstored
    exact hne hstored
  subst hab
  exact ⟨ha, fun hmine => hne ((hkept b hmine).symm.trans hstored)⟩

/-- **A woken reader receives its character** exactly if the page tables in
force put its buffer where its own address space does, and that is no memory of
the current process. Where the byte goes is a matter of the page tables alone;
the second half of the condition is that no page of the current process is
changed beside. -/
theorem woken_reader_iff {k : Kernel} {scancode : UInt8} {entry : WaitQueueEntry} {i : Nat}
    {c : UInt8} (h : Delivers k scancode entry i c) :
    ReceivesOwn k scancode entry i c ↔
      ∃ b, Denotes k i entry.buff b ∧ translate k entry.buff = some b ∧
        ¬ MemoryOf k k.currentProcess b := by
  constructor
  · exact fun hown => hown.translate_eq h
  · rintro ⟨b, hdenotes, hb, hmine⟩
    refine ⟨b, hdenotes, fun memory => ?_⟩
    have hmem := h.stored memory
    rw [hb, Option.map_some] at hmem
    obtain ⟨k', hk', hupdate⟩ := Option.map_eq_some_iff.mp hmem
    refine ⟨k', hk', by rw [hupdate, Function.update_self], fun a ha => ?_⟩
    have hab : a ≠ b := by
      rintro rfl
      exact hmine ha
    rw [hupdate, Function.update_of_ne hab]

def readerEntry : WaitQueueEntry := { pid := 1, fd := 0, buff := 0xA0000010, count := 1 }

def readStack : Event := .call { rax := 0, rdi := 0, rsi := 0xA0000010, rdx := 1 } {}

/-- The first process reads; the kernel's process, which becomes current, has
its stack elsewhere. -/
theorem woken_reader_iff_kernel :
    ∃ k, Run.exec step smallKernel [callOf 4 0, readStack] = some k ∧
      ReceivesOwn k 0x1E readerEntry 1 97 := by
  have hany : (Run.exec step smallKernel [callOf 4 0, readStack]).any fun k =>
      (k.proc? 1).any fun p => (k.proc? 0).any fun q =>
        k.currentProcess == 0 && q.pid == kernelProcessId && k.wqPs2Keyboard == [readerEntry] &&
        processGetDataFromPid k 1 == some 1 && k.scancodeQueue == [] &&
        translate k 0xA0000010 == some 0x100010 &&
        ((stackPages q).all fun t => decide (t.phys + pageSize ≤ 0x100000)) &&
        (stackPages p).any fun t => t.virt / pageSize == 0xA0000010 / pageSize &&
          t.phys == 0x100000 := by
    decide +kernel
  obtain ⟨k, hrun, hany⟩ := (Option.any_eq_true _ _).mp hany
  obtain ⟨p, hp, hany⟩ := (Option.any_eq_true _ _).mp hany
  obtain ⟨q, hq, hany⟩ := (Option.any_eq_true _ _).mp hany
  simp only [Bool.and_eq_true, List.any_eq_true, List.all_eq_true, beq_iff_eq,
    decide_eq_true_eq] at hany
  obtain ⟨⟨⟨⟨⟨⟨⟨hcur, hkernel⟩, hwait⟩, hpid⟩, hqueue⟩, hb⟩, hstack⟩, t, ht, hpage, hphys⟩ := hany
  have hdelivers : Delivers k 0x1E readerEntry 1 97 :=
    ⟨⟨[], by rw [hwait]; rfl⟩, hpid, 0x1E, [], by rw [hqueue]; rfl, by decide⟩
  have hrecorded := reachable_spacesRecorded (k := k) ⟨{}, {}, 0, 0x100000, _, _, boot_small, hrun⟩
  refine ⟨k, hrun, (woken_reader_iff hdelivers).mpr ⟨0x100010, ⟨t, .inl ⟨p, hp, ht⟩, hpage, ?_⟩, hb,
    ?_⟩⟩
  · rw [hphys]
    rfl
  · rw [hcur]
    rintro ⟨u, ⟨q', hq', hu⟩ | ⟨o, r, ho, -⟩, -, hlt⟩
    · obtain rfl := Option.some.inj (hq.symm.trans hq')
      have := hstack u hu
      omega
    · exact hrecorded.kernel_no_owner ho hq hkernel

/-- While a page `t` of the current process is mapped where the buffer lies,
its reader does not receive anything. All stacks lie at the same address. -/
theorem stack_buffer_missed {k : Kernel} {scancode : UInt8} {entry : WaitQueueEntry} {i : Nat}
    {c : UInt8} (h : Delivers k scancode entry i c) {t : ExecSection}
    (ht : OwnedPage k k.currentProcess t) (hpage : t.virt / pageSize = entry.buff / pageSize)
    (hmapped : k.vm (t.virt / pageSize) = some t.phys) : ¬ ReceivesOwn k scancode entry i c := by
  intro hown
  obtain ⟨b, -, hb, hmine⟩ := hown.translate_eq h
  rw [translate, ← hpage, hmapped, Option.map_some] at hb
  obtain rfl := Option.some.inj hb
  exact hmine ⟨t, ht, Nat.le_add_right .., Nat.add_lt_add_left (Nat.mod_lt _ (by decide)) _⟩

/-! ### Two stacks -/

/-- The first process forks 2 and reads; 2 becomes current. -/
def forkThenRead : List Event := [callOf 4 0, callOf 6 0 forkEnv, readStack]

theorem reader_misses_character :
    ∃ k p q, Reachable k ∧ k.proc? 1 = some p ∧ k.proc? k.currentProcess = some q ∧
      p.procStackVirt = 0xA0000000 ∧ q.procStackVirt = 0xA0000000 ∧
      p.procStackPhys ≠ q.procStackPhys ∧ Delivers k 0x1E readerEntry 1 97 ∧
      ¬ ReceivesOwn k 0x1E readerEntry 1 97 := by
  have hany : (Run.exec step smallKernel forkThenRead).any fun k =>
      (k.proc? 1).any fun p => (k.proc? k.currentProcess).any fun q =>
        p.procStackVirt == 0xA0000000 && q.procStackVirt == 0xA0000000 &&
        p.procStackPhys != q.procStackPhys && k.wqPs2Keyboard == [readerEntry] &&
        processGetDataFromPid k 1 == some 1 && k.scancodeQueue == [] &&
        (stackPages q).any fun t => t.virt / pageSize == 0xA0000010 / pageSize &&
          k.vm (t.virt / pageSize) == some t.phys := by
    decide +kernel
  obtain ⟨k, hrun, hany⟩ := (Option.any_eq_true _ _).mp hany
  obtain ⟨p, hp, hany⟩ := (Option.any_eq_true _ _).mp hany
  obtain ⟨q, hq, hany⟩ := (Option.any_eq_true _ _).mp hany
  simp only [Bool.and_eq_true, List.any_eq_true, beq_iff_eq, bne_iff_ne] at hany
  obtain ⟨⟨⟨⟨⟨⟨hpv, hqv⟩, hne⟩, hwait⟩, hpid⟩, hqueue⟩, t, ht, hpage, hmapped⟩ := hany
  have hdelivers : Delivers k 0x1E readerEntry 1 97 :=
    ⟨⟨[], by rw [hwait]; rfl⟩, hpid, 0x1E, [], by rw [hqueue]; rfl, by decide⟩
  exact ⟨k, p, q, ⟨{}, {}, 0, 0x100000, _, forkThenRead, boot_small, hrun⟩, hp, hq, hpv, hqv, hne,
    hdelivers, stack_buffer_missed hdelivers (.inl ⟨q, hq, ht⟩) hpage hmapped⟩

end VersionSix.Process
