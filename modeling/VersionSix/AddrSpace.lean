import Mathlib.Data.List.Induction
import VersionSix.Handlers

/-!
# Address spaces after a switch

Which pages `process_sched_yield` has to map for the process it makes current,
and when it does: the pages recorded in the process that owns the address space
(`OwnerOf`), and the process's own stack.

A process with its own address space always gets them. A thread gets the data
pages of its direct parent and its stack; the text and heap loops count with
the thread's own counts, which `clone` leaves 0, and no loop looks beyond the
direct parent. A thread of a thread has nothing of the owner's mapped.

`switch_mapsAddressSpace_iff` is the exact condition, for whatever was mapped
before: no two needed pages contradict each other, and what the loops leave out
is covered by what they map. It speaks of the records alone. That records have
the shape it assumes (`SpacesRecorded`) is an invariant of every run, and a run
of a fork, a clone and three yields ends in a thread without its text.
-/

namespace VersionSix.Process

/-! ## Pages of an address space -/

/-- `o` owns the address space of `i`: `i` itself if it has its own, else
the owner of its parent's. -/
inductive OwnerOf (k : Kernel) : Nat → Nat → Prop
  | own {i p} : k.proc? i = some p → p.hasOwnAddrSpace = true → OwnerOf k i i
  | parent {i j o p} : k.proc? i = some p → p.hasOwnAddrSpace = false →
      processGetDataFromPid k p.pidParent = some j → OwnerOf k j o → OwnerOf k i o

def dataPages (p : ProcessData) : List ExecSection := p.dataSections.take p.dataSectionCount
def textPages (p : ProcessData) : List ExecSection := p.textSections.take p.textSectionCount
def heapPagesOf (p : ProcessData) : List ExecSection := p.heapPages.take p.heapPageCount

def recordedPages (p : ProcessData) : List ExecSection :=
  dataPages p ++ textPages p ++ heapPagesOf p

/-- A page that has to be mapped while the process `i` runs. -/
def OwnedPage (k : Kernel) (i : Nat) (s : ExecSection) : Prop :=
  (∃ p, k.proc? i = some p ∧ s ∈ stackPages p) ∨
  ∃ o q, OwnerOf k i o ∧ k.proc? o = some q ∧ s ∈ recordedPages q

/-- Whatever was mapped before, a yield that makes `i` current maps every
page it needs to the recorded frame. -/
def MapsAddressSpace (k : Kernel) (i : Nat) : Prop :=
  ∀ vm, ∃ k', processSchedYield { k with vm := vm } = some k' ∧ k'.currentProcess = i ∧
    ∀ s, OwnedPage k i s → k'.vm (s.virt / pageSize) = some s.phys

/-! ### When they are all mapped -/

def SamePage (s t : ExecSection) : Prop := s.virt / pageSize = t.virt / pageSize

/-- No two pages the process needs give one virtual page two frames. -/
def NoConflict (k : Kernel) (i : Nat) : Prop :=
  ∀ s t, OwnedPage k i s → OwnedPage k i t → SamePage s t → s.phys = t.phys

/-- A page the loops leave out for the thread `p` with the direct parent `j`:
text and heap of an owner, and the data pages of an owner further up. -/
def SkippedPage (k : Kernel) (j : Nat) (s : ExecSection) : Prop :=
  ∃ o q, OwnerOf k j o ∧ k.proc? o = some q ∧
    s ∈ if o = j then textPages q ++ heapPagesOf q else recordedPages q

/-- If `i` is a thread, the pages left out lie on virtual pages of its stack
or of its direct parent's data. -/
def SkippedCovered (k : Kernel) (i : Nat) : Prop :=
  ∀ p j q, k.proc? i = some p → p.hasOwnAddrSpace = false →
    processGetDataFromPid k p.pidParent = some j → k.proc? j = some q →
    ∀ s, SkippedPage k j s → ∃ t ∈ dataPages q ++ stackPages p, SamePage s t

/-- What the creation of processes leaves in their records. -/
structure SpacesRecorded (k : Kernel) : Prop where
  arrays : ∀ {i p}, k.proc? i = some p → p.dataSectionCount ≤ p.dataSections.length ∧
    p.textSectionCount ≤ p.textSections.length ∧ p.heapPageCount ≤ p.heapPages.length
  threads : ∀ {i p}, k.proc? i = some p → p.hasOwnAddrSpace = false →
    p.dataSectionCount = 0 ∧ p.textSectionCount = 0 ∧ p.heapPageCount = 0
  parents : ∀ {i p}, k.proc? i = some p → p.hasOwnAddrSpace = false →
    ∃ j q, processGetDataFromPid k p.pidParent = some j ∧ k.proc? j = some q
  kernel : ∀ {i p}, k.proc? i = some p → p.pid = kernelProcessId →
    p.hasOwnAddrSpace = false ∧ processGetDataFromPid k p.pidParent = some i

/-! ## Owners -/

theorem OwnerOf.eq_of_own {k : Kernel} {i o : Nat} {p : ProcessData} (h : OwnerOf k i o)
    (hp : k.proc? i = some p) (hown : p.hasOwnAddrSpace = true) : o = i := by
  cases h with
  | own => rfl
  | parent hq hnot =>
      obtain rfl := Option.some.inj (hp.symm.trans hq)
      rw [hown] at hnot
      cases hnot

theorem OwnerOf.of_thread {k : Kernel} {i j o : Nat} {p : ProcessData} (h : OwnerOf k i o)
    (hp : k.proc? i = some p) (hthread : p.hasOwnAddrSpace = false)
    (hj : processGetDataFromPid k p.pidParent = some j) : OwnerOf k j o := by
  cases h with
  | own hq hown =>
      obtain rfl := Option.some.inj (hp.symm.trans hq)
      rw [hthread] at hown
      cases hown
  | parent hq _ hj' ho =>
      obtain rfl := Option.some.inj (hp.symm.trans hq)
      obtain rfl := Option.some.inj (hj.symm.trans hj')
      exact ho

theorem SpacesRecorded.kernel_no_owner {k : Kernel} (h : SpacesRecorded k) {i o : Nat}
    (ho : OwnerOf k i o) {p : ProcessData} (hp : k.proc? i = some p) : p.pid ≠ kernelProcessId := by
  intro hpid
  obtain ⟨hnot, hself⟩ := h.kernel hp hpid
  induction ho with
  | own hq hown =>
      obtain rfl := Option.some.inj (hp.symm.trans hq)
      rw [hnot] at hown
      cases hown
  | parent hq _ hj _ ih =>
      obtain rfl := Option.some.inj (hp.symm.trans hq)
      obtain rfl := Option.some.inj (hself.symm.trans hj)
      exact ih hp hself

/-! ## The pages of a switch -/

theorem mapPages_append (vm : Nat → Option Nat) (pages pages' : List ExecSection) :
    mapPages vm (pages ++ pages') = mapPages (mapPages vm pages) pages' :=
  List.foldl_append ..

/-- The last page of the list on a virtual page decides; without one the
translation stays. -/
theorem mapPages_cases (vm : Nat → Option Nat) (pages : List ExecSection) (n : Nat) :
    (∃ s ∈ pages, s.virt / pageSize = n ∧ mapPages vm pages n = some s.phys) ∨
    (∀ s ∈ pages, s.virt / pageSize ≠ n) ∧ mapPages vm pages n = vm n := by
  induction pages using List.reverseRecOn with
  | nil => exact .inr ⟨fun s hs => absurd hs List.not_mem_nil, rfl⟩
  | append_singleton pages s ih =>
      have hlast : mapPages vm (pages ++ [s]) = pageMap (mapPages vm pages) s.virt s.phys :=
        mapPages_append ..
      rw [hlast]
      unfold pageMap
      by_cases hs : s.virt / pageSize = n
      · refine .inl ⟨s, by simp, hs, ?_⟩
        rw [hs, Function.update_self]
      · rw [Function.update_of_ne (Ne.symm hs)]
        rcases ih with ⟨t, ht, hn, hmap⟩ | ⟨hno, hmap⟩
        · exact .inl ⟨t, List.mem_append_left _ ht, hn, hmap⟩
        · refine .inr ⟨fun t ht => ?_, hmap⟩
          rcases List.mem_append.mp ht with ht | ht
          · exact hno t ht
          · obtain rfl := List.mem_singleton.mp ht
            exact hs

theorem readSections_of_le {sections : List ExecSection} {n : Nat} (h : n ≤ sections.length) :
    readSections sections n = some (sections.take n) := if_pos h

/-- A process with its own address space gets all its recorded pages. -/
theorem SpacesRecorded.pagesMapped_own {k : Kernel} (h : SpacesRecorded k) {i : Nat}
    {p : ProcessData} (hp : k.proc? i = some p) (hown : p.hasOwnAddrSpace = true) :
    pagesMapped k p = some (recordedPages p ++ stackPages p) := by
  obtain ⟨hdata, htext, hheap⟩ := h.arrays hp
  have hpid := h.kernel_no_owner (.own hp hown) hp
  unfold pagesMapped addrSpaceToCopy sectionsToMap
  rw [if_pos hown, Option.bind_some, if_neg hpid, readSections_of_le hdata,
    readSections_of_le htext, readSections_of_le hheap]
  rfl

/-- A thread gets the data pages of its direct parent, and its stack. -/
theorem SpacesRecorded.pagesMapped_thread {k : Kernel} (h : SpacesRecorded k) {i j : Nat}
    {p q : ProcessData} (hp : k.proc? i = some p) (hthread : p.hasOwnAddrSpace = false)
    (hj : processGetDataFromPid k p.pidParent = some j) (hq : k.proc? j = some q)
    (hpid : p.pid ≠ kernelProcessId) :
    pagesMapped k p = some (dataPages q ++ stackPages p) := by
  obtain ⟨-, htext, hheap⟩ := h.threads hp hthread
  have hdata := readSections_of_le (h.arrays hq).1
  unfold pagesMapped addrSpaceToCopy sectionsToMap
  rw [if_neg (by rw [hthread]; exact Bool.false_ne_true), hj, Option.bind_some, hq,
    Option.bind_some, if_neg hpid, hdata, htext, hheap]
  simp only [readSections, Nat.zero_le, if_true, List.take_zero, Option.bind_eq_bind,
    Option.bind_some, List.append_nil, Option.pure_def, Option.map_some]
  rfl

theorem SpacesRecorded.pagesMapped_kernel {k : Kernel} (h : SpacesRecorded k) {i : Nat}
    {p : ProcessData} (hp : k.proc? i = some p) (hpid : p.pid = kernelProcessId) :
    pagesMapped k p = some (stackPages p) := by
  obtain ⟨hthread, hself⟩ := h.kernel hp hpid
  unfold pagesMapped addrSpaceToCopy sectionsToMap
  rw [if_neg (by rw [hthread]; exact Bool.false_ne_true), hself, Option.bind_some, hp,
    Option.bind_some, if_pos hpid]
  rfl

/-! ## The records of every run -/

/-- What one record must satisfy, when there are `n` of them. -/
structure SpaceOk (n i : Nat) (p : ProcessData) : Prop where
  arrays : p.dataSectionCount ≤ p.dataSections.length ∧
    p.textSectionCount ≤ p.textSections.length ∧ p.heapPageCount ≤ p.heapPages.length
  threads : p.hasOwnAddrSpace = false →
    p.dataSectionCount = 0 ∧ p.textSectionCount = 0 ∧ p.heapPageCount = 0
  parent : p.pidParent < n
  kernel : i = kernelProcessId → p.hasOwnAddrSpace = false ∧ p.pidParent = kernelProcessId

def SpacesOk (k : Kernel) : Prop :=
  ∀ i p, k.proc? i = some p → SpaceOk k.processList.length i p

theorem SpacesOk.recorded {k : Kernel} (h : SpacesOk k) (hk : PidsInOrder k) :
    SpacesRecorded k where
  arrays hp := (h _ _ hp).arrays
  threads hp := (h _ _ hp).threads
  parents hp _ := by
    obtain ⟨q, hq⟩ := exists_proc? (h _ _ hp).parent
    exact ⟨_, q, hk.find_eq hq, hq⟩
  kernel {i p} hp hpid := by
    have hi := (hk.pid_eq hp).symm.trans hpid
    obtain ⟨hnot, hparent⟩ := (h _ _ hp).kernel hi
    subst hi
    rw [hparent]
    exact ⟨hnot, hk.find_eq hp⟩

theorem SpacesOk.modify {k k' : Kernel} {i : Nat} {f : ProcessData → ProcessData} (h : SpacesOk k)
    (hl : k'.processList = k.processList.modify i f)
    (hf : ∀ n j p, SpaceOk n j p → SpaceOk n j (f p)) : SpacesOk k' := by
  intro j p hp
  have hlen : k'.processList.length = k.processList.length := by rw [hl, List.length_modify]
  rw [hlen]
  rcases proc?_of_modify hl hp with ⟨q, hq, rfl⟩
  split
  · exact hf _ _ _ (h _ _ hq)
  · exact h _ _ hq

theorem SpacesOk.spawn {k : Kernel} (h : SpacesOk k) {child : ProcessData}
    (hchild : SpaceOk (k.processList.length + 1) k.processList.length child)
    (memory : ByteStore.Bytes) (rax : UInt64) : SpacesOk (spawn k child memory rax) := by
  intro i p hp
  rw [length_spawn]
  rcases proc?_spawn hp with ⟨rfl, rfl⟩ | ⟨q, hq, rfl⟩
  · exact hchild
  · obtain ⟨harrays, hthreads, hparent, hkernel⟩ := h _ _ hq
    split <;> exact ⟨harrays, hthreads, hparent.trans (Nat.lt_succ_self _), hkernel⟩

theorem SpacesOk.setNextUp {k : Kernel} (h : SpacesOk k) (p : Nat) :
    SpacesOk (processSetNextUp k p) := h

theorem SpacesOk.yield {k k' : Kernel} (h : SpacesOk k) (hy : processSchedYield k = some k') :
    SpacesOk k' := by
  rcases yield_cases hy with ⟨-, rfl⟩ | ⟨new, newP, pages, -, -, -, -, rfl⟩
  · exact h
  · have hout : SpacesOk (k.updateProc k.currentProcess (switchOut k.frame)) :=
      h.modify rfl fun _ _ _ hp => ⟨hp.arrays, hp.threads, hp.parent, hp.kernel⟩
    exact hout.modify (f := switchIn) rfl fun _ _ _ hp =>
      ⟨hp.arrays, hp.threads, hp.parent, hp.kernel⟩

/-- An update of one record that does not touch the fields of `SpaceOk`. -/
theorem SpaceOk.congr {n i : Nat} {p q : ProcessData} (h : SpaceOk n i p)
    (hown : q.hasOwnAddrSpace = p.hasOwnAddrSpace := by rfl)
    (hparent : q.pidParent = p.pidParent := by rfl)
    (hdata : q.dataSectionCount = p.dataSectionCount ∧ q.dataSections = p.dataSections := by
      exact ⟨rfl, rfl⟩)
    (htext : q.textSectionCount = p.textSectionCount ∧ q.textSections = p.textSections := by
      exact ⟨rfl, rfl⟩)
    (hheap : q.heapPageCount = p.heapPageCount ∧ q.heapPages = p.heapPages := by
      exact ⟨rfl, rfl⟩) : SpaceOk n i q := by
  obtain ⟨harrays, hthreads, hp, hkernel⟩ := h
  refine ⟨?_, ?_, by rwa [hparent], by rwa [hown, hparent]⟩
  · rwa [hdata.1, hdata.2, htext.1, htext.2, hheap.1, hheap.2]
  · rwa [hown, hdata.1, htext.1, hheap.1]

/-- The child of a fork has as many sections as its parent, and no heap. -/
theorem SpacesOk.forkChild {k : Kernel} (hk : PidsInOrder k) (h : SpacesOk k)
    {parent : ProcessData} (hparent : k.proc? k.currentProcess = some parent)
    (frame : Registers) (stack stackPhys pid : Nat) {data text : List ExecSection}
    (hdata : data.length = parent.dataSectionCount)
    (htext : text.length = parent.textSectionCount) :
    SpaceOk (k.processList.length + 1) k.processList.length
      (forkChild parent frame stack stackPhys data text (newProcess pid)) where
  arrays := ⟨hdata.ge, htext.ge, Nat.zero_le _⟩
  threads hthread :=
    have hcounts := (h _ _ hparent).threads hthread
    ⟨hcounts.1, hcounts.2.1, rfl⟩
  parent := by
    rw [show (Process.forkChild parent frame stack stackPhys data text (newProcess pid)).pidParent
      = parent.pid from rfl, hk.pid_eq hparent]
    exact hk.current_lt.trans (Nat.lt_succ_self _)
  kernel h0 := absurd hk.current_lt (by rw [h0]; exact Nat.not_lt_zero _)

theorem SpacesOk.cloneChild {k : Kernel} (hk : PidsInOrder k) {parent : ProcessData}
    (hparent : k.proc? k.currentProcess = some parent) (frame : Registers) (start : UInt64)
    (stack stackPhys pid : Nat) :
    SpaceOk (k.processList.length + 1) k.processList.length
      (cloneChild parent frame start stack stackPhys (newProcess pid)) where
  arrays := ⟨Nat.zero_le _, Nat.zero_le _, Nat.zero_le _⟩
  threads _ := ⟨rfl, rfl, rfl⟩
  parent := by
    rw [show (Process.cloneChild parent frame start stack stackPhys (newProcess pid)).pidParent
      = parent.pid from rfl, hk.pid_eq hparent]
    exact hk.current_lt.trans (Nat.lt_succ_self _)
  kernel h0 := absurd hk.current_lt (by rw [h0]; exact Nat.not_lt_zero _)

theorem SpacesOk.effect {k k' : Kernel} (hk : PidsInOrder k) (h : SpacesOk k)
    (he : Effect k k') : SpacesOk k' := by
  have hfds : ∀ fds g, SpacesOk (fdChanged k fds g) := fun fds g =>
    h.modify (i := k.currentProcess) (f := setFds fds) rfl fun _ _ _ hp => hp.congr
  cases he with
  | read hf ht =>
      exact h.modify ht.processList (by rcases hf with rfl | rfl <;> exact fun _ _ _ hp => hp.congr)
  | wake hf ht =>
      exact h.modify ht.processList (by rcases hf with rfl | rfl <;> exact fun _ _ _ hp => hp.congr)
  | opened ho => exact keeps_of_fdsChanged (open_changed ho) h hfds
  | closed hc => exact keeps_of_fdsChanged (close_changed hc) h hfds
  | waits => exact h.modify (f := waitFor _) rfl fun _ _ _ hp => hp.congr
  | forked hparent hdata htext =>
      exact h.spawn (h.forkChild hk hparent _ _ _ _ hdata htext) _ _
  | cloned hparent =>
      exact SpacesOk.setNextUp (h.spawn (SpacesOk.cloneChild hk hparent _ _ _ _ _) _ _) _
  | @exited k₁ k₂ fds returnCode h₁ h₂ =>
      have hI₁ : SpacesOk k₁ := keeps_of_fdsChanged (closeFds_changed h₁) h hfds
      have hI₂ : SpacesOk k₂ := by
        obtain ⟨p, -, ⟨rfl, -⟩ | rfl⟩ := notify_cases (hk.closeFds h₁) h₂
        · exact hI₁
        · exact hI₁.modify (f := wakeParent) rfl fun _ _ _ hp => hp.congr
      exact hI₂.modify (f := endProcess returnCode) rfl fun _ _ _ hp => hp.congr

theorem boot_spacesOk {m : Machine} {program : LoadedProgram} {execSize stack : Nat} {k : Kernel}
    (h : boot m program execSize stack = some k) : SpacesOk k := by
  obtain ⟨stackPhys, hl, -⟩ := boot_cases h
  intro i p hp
  unfold Kernel.proc? at hp
  rw [hl] at hp ⊢
  match i with
  | 0 =>
      obtain rfl := Option.some.inj hp
      exact ⟨⟨Nat.zero_le _, Nat.zero_le _, Nat.zero_le _⟩, fun _ => ⟨rfl, rfl, rfl⟩,
        Nat.succ_pos _, fun _ => ⟨rfl, rfl⟩⟩
  | 1 =>
      obtain rfl := Option.some.inj hp
      exact ⟨⟨Nat.mod_le _ _, Nat.mod_le _ _, Nat.zero_le _⟩, (nomatch ·), Nat.succ_pos _,
        (nomatch ·)⟩
  | i + 2 => cases hp

theorem reachable_spacesRecorded {k : Kernel} (h : Reachable k) : SpacesRecorded k := by
  obtain ⟨m, program, execSize, stack, k₀, events, hboot, hrun⟩ := h
  have hI : PidsInOrder k ∧ SpacesOk k := by
    refine Run.exec_invariant (I := fun k => PidsInOrder k ∧ SpacesOk k) (P := fun _ _ => True)
      (fun k e k' hI _ hs => ?_) ⟨boot_pids hboot, boot_spacesOk hboot⟩ (Run.along_true _ _) hrun
    refine step_induct (I := SpacesOk) (G := fun _ => True) ?_ ?_ ?_ ?_ hI.1 hI.2 ?_ hs
    · exact fun _ _ h => h
    · exact fun hk h _ he => h.effect hk he
    · rintro k k' i f - h (rfl | rfl) ht <;> exact h.modify ht.processList fun _ _ _ hp => hp.congr
    · exact fun _ h hy => h.yield hy
    · exact fun _ _ _ => trivial
  exact hI.2.recorded hI.1

/-! ## When a switch maps the address space -/

/-- A switch maps what is needed iff every needed virtual page has a page of
the list, and the list has no other frame for it. -/
theorem mapsAddressSpace_iff {k : Kernel} {new : Nat} {newP : ProcessData}
    {pages : List ExecSection} (hsel : selectNext k = some new) (hne : new ≠ k.currentProcess)
    (hnew : k.proc? new = some newP) (hpages : pagesMapped k newP = some pages)
    (howned : ∀ t ∈ pages, OwnedPage k new t) :
    MapsAddressSpace k new ↔
      NoConflict k new ∧ ∀ s, OwnedPage k new s → ∃ t ∈ pages, SamePage s t := by
  have hyield : ∀ vm, processSchedYield { k with vm := vm } =
      some (switched { k with vm := vm } new newP pages) := fun vm => by
    rw [yield_switch (k := { k with vm := vm }) hsel hne hnew]
    exact congrArg (Option.map _) hpages
  constructor
  · intro h
    have hmap : ∀ s, OwnedPage k new s →
        mapPages (fun _ => none) pages (s.virt / pageSize) = some s.phys := fun s hs => by
      obtain ⟨k', hk', -, hall⟩ := h fun _ => none
      rw [hyield] at hk'
      obtain rfl := Option.some.inj hk'
      exact hall s hs
    refine ⟨fun s t hs ht hst => ?_, fun s hs => ?_⟩
    · have hs' := hmap s hs
      rw [show s.virt / pageSize = t.virt / pageSize from hst, hmap t ht] at hs'
      exact (Option.some.inj hs').symm
    · rcases mapPages_cases (fun _ => none) pages (s.virt / pageSize) with
        ⟨t, ht, hst, -⟩ | ⟨-, hnone⟩
      · exact ⟨t, ht, hst.symm⟩
      · rw [hmap s hs] at hnone
        cases hnone
  · rintro ⟨hcons, hcover⟩ vm
    refine ⟨_, hyield vm, rfl, fun s hs => ?_⟩
    rcases mapPages_cases vm pages (s.virt / pageSize) with ⟨t, ht, hst, hmap⟩ | ⟨hno, -⟩
    · rw [hcons s t hs (howned t ht) hst.symm]
      exact hmap
    · obtain ⟨t, ht, hst⟩ := hcover s hs
      exact absurd hst.symm (hno t ht)

/-- For a process with its own address space nothing is left out. -/
theorem SpacesRecorded.maps_own {k : Kernel} (h : SpacesRecorded k) {new : Nat}
    {newP : ProcessData} (hsel : selectNext k = some new) (hne : new ≠ k.currentProcess)
    (hnew : k.proc? new = some newP) (hown : newP.hasOwnAddrSpace = true) :
    MapsAddressSpace k new ↔ NoConflict k new := by
  rw [mapsAddressSpace_iff hsel hne hnew (h.pagesMapped_own hnew hown)]
  · refine and_iff_left fun s hs => ⟨s, ?_, rfl⟩
    rcases hs with ⟨p, hp, hs⟩ | ⟨o, q, ho, hq, hs⟩
    · obtain rfl := Option.some.inj (hnew.symm.trans hp)
      exact List.mem_append_right _ hs
    · obtain rfl := ho.eq_of_own hnew hown
      obtain rfl := Option.some.inj (hnew.symm.trans hq)
      exact List.mem_append_left _ hs
  · intro t ht
    rcases List.mem_append.mp ht with ht | ht
    · exact .inr ⟨new, newP, .own hnew hown, hnew, ht⟩
    · exact .inl ⟨newP, hnew, ht⟩

theorem SpacesRecorded.maps_kernel {k : Kernel} (h : SpacesRecorded k) {new : Nat}
    {newP : ProcessData} (hsel : selectNext k = some new) (hne : new ≠ k.currentProcess)
    (hnew : k.proc? new = some newP) (hpid : newP.pid = kernelProcessId) :
    MapsAddressSpace k new ↔ NoConflict k new := by
  rw [mapsAddressSpace_iff hsel hne hnew (h.pagesMapped_kernel hnew hpid)]
  · refine and_iff_left fun s hs => ⟨s, ?_, rfl⟩
    rcases hs with ⟨p, hp, hs⟩ | ⟨o, q, ho, -, -⟩
    · obtain rfl := Option.some.inj (hnew.symm.trans hp)
      exact hs
    · exact absurd hpid (h.kernel_no_owner ho hnew)
  · exact fun t ht => .inl ⟨newP, hnew, ht⟩

/-- The data pages of a direct parent are needed: a parent that owns nothing
has none. -/
theorem SpacesRecorded.owned_parentData {k : Kernel} (h : SpacesRecorded k) {i j : Nat}
    {p q : ProcessData} (hp : k.proc? i = some p) (hthread : p.hasOwnAddrSpace = false)
    (hj : processGetDataFromPid k p.pidParent = some j) (hq : k.proc? j = some q)
    {t : ExecSection} (ht : t ∈ dataPages q) : OwnedPage k i t := by
  cases hown : q.hasOwnAddrSpace with
  | true =>
      exact .inr ⟨j, q, .parent hp hthread hj (.own hq hown), hq,
        List.mem_append_left _ (List.mem_append_left _ ht)⟩
  | false =>
      unfold dataPages at ht
      rw [(h.threads hq hown).1, List.take_zero] at ht
      cases ht

theorem SpacesRecorded.maps_thread {k : Kernel} (h : SpacesRecorded k) {new j : Nat}
    {newP q : ProcessData} (hsel : selectNext k = some new) (hne : new ≠ k.currentProcess)
    (hnew : k.proc? new = some newP) (hthread : newP.hasOwnAddrSpace = false)
    (hpid : newP.pid ≠ kernelProcessId) (hj : processGetDataFromPid k newP.pidParent = some j)
    (hq : k.proc? j = some q) :
    MapsAddressSpace k new ↔ NoConflict k new ∧
      ∀ s, SkippedPage k j s → ∃ t ∈ dataPages q ++ stackPages newP, SamePage s t := by
  rw [mapsAddressSpace_iff hsel hne hnew (h.pagesMapped_thread hnew hthread hj hq hpid)]
  · refine and_congr_right fun _ => ⟨fun hall s hs => ?_, fun hall s hs => ?_⟩
    · obtain ⟨o, r, ho, hr, hs⟩ := hs
      refine hall s (.inr ⟨o, r, .parent hnew hthread hj ho, hr, ?_⟩)
      unfold recordedPages
      split at hs
      · rw [List.append_assoc]
        exact List.mem_append_right _ hs
      · exact hs
    · rcases hs with ⟨p, hp, hs⟩ | ⟨o, r, ho, hr, hs⟩
      · obtain rfl := Option.some.inj (hnew.symm.trans hp)
        exact ⟨s, List.mem_append_right _ hs, rfl⟩
      have ho := ho.of_thread hnew hthread hj
      by_cases hoj : o = j
      · subst hoj
        obtain rfl := Option.some.inj (hq.symm.trans hr)
        unfold recordedPages at hs
        rw [List.append_assoc] at hs
        rcases List.mem_append.mp hs with hs | hs
        · exact ⟨s, List.mem_append_left _ hs, rfl⟩
        · exact hall s ⟨o, q, ho, hr, by rwa [if_pos rfl]⟩
      · exact hall s ⟨o, r, ho, hr, by rwa [if_neg hoj]⟩
  · intro t ht
    rcases List.mem_append.mp ht with ht | ht
    · exact h.owned_parentData hnew hthread hj hq ht
    · exact .inl ⟨newP, hnew, ht⟩

/-- Exactly when a switch to `new` leaves the whole address space of `new`
mapped, whatever was mapped before: no virtual page is needed with two frames,
and the pages of a thread that the loops leave out lie on pages that they map.
For a process that is no thread the second part is empty. -/
theorem switch_mapsAddressSpace_iff {k : Kernel} {new : Nat} {newP : ProcessData}
    (h : SpacesRecorded k) (hsel : selectNext k = some new) (hne : new ≠ k.currentProcess)
    (hnew : k.proc? new = some newP) :
    MapsAddressSpace k new ↔ NoConflict k new ∧ SkippedCovered k new := by
  cases hown : newP.hasOwnAddrSpace with
  | true =>
      refine (h.maps_own hsel hne hnew hown).trans (and_iff_left fun p j q hp hthread => ?_).symm
      obtain rfl := Option.some.inj (hnew.symm.trans hp)
      rw [hown] at hthread
      cases hthread
  | false =>
      obtain ⟨j, q, hj, hq⟩ := h.parents hnew hown
      by_cases hpid : newP.pid = kernelProcessId
      · refine (h.maps_kernel hsel hne hnew hpid).trans (and_iff_left ?_).symm
        rintro p j q hp hthread hj - s ⟨o, -, ho, -⟩
        obtain rfl := Option.some.inj (hnew.symm.trans hp)
        exact absurd hpid (h.kernel_no_owner (.parent hnew hthread hj ho) hnew)
      · refine (h.maps_thread hsel hne hnew hown hpid hj hq).trans (and_congr_right fun _ => ?_)
        refine ⟨fun hall p j' q' hp _ hj' hq' => ?_, fun hall => hall newP j q hnew hown hj hq⟩
        obtain rfl := Option.some.inj (hnew.symm.trans hp)
        obtain rfl := Option.some.inj (hj.symm.trans hj')
        obtain rfl := Option.some.inj (hq.symm.trans hq')
        exact hall

/-! ### A thread that loses its text -/

def textPage : ExecSection := { phys := 0x500000, virt := 0x400000, kernVirt := 0x500000 }

def textKernel : Kernel := (boot {} { textSections := [textPage] } 0 0x100000).get (boot_isSome ..)

theorem boot_text : boot {} { textSections := [textPage] } 0 0x100000 = some textKernel := rfl

theorem switch_mapsAddressSpace_iff_firstProcess :
    MapsAddressSpace textKernel 1 ↔ NoConflict textKernel 1 ∧ SkippedCovered textKernel 1 :=
  switch_mapsAddressSpace_iff (reachable_spacesRecorded ⟨{}, _, 0, 0x100000, _, [], boot_text, rfl⟩)
    (by decide +kernel) (by decide +kernel) rfl

/-- The first process forks 2 and clones 3; all yield in turn until 2 does. -/
def forkThenClone : List Event :=
  [callOf 4 0, callOf 6 0 { pages := [0x200000, 0x210000, 0x211000, 0x212000] },
    callOf 11 0x400000 { pages := [0x220000] }, callOf 4 0, callOf 4 0, callOf 4 0]

theorem thread_loses_text :
    ∃ k k', Reachable k ∧ processSchedYield k = some k' ∧ k'.currentProcess = 3 ∧
      ∃ s, OwnedPage k 3 s ∧ k'.vm (s.virt / pageSize) ≠ some s.phys := by
  have hany : (Run.exec step textKernel forkThenClone).any fun k =>
      (processSchedYield k).any fun k' =>
        (k.proc? 3).any (fun p => !p.hasOwnAddrSpace &&
          processGetDataFromPid k p.pidParent == some 1) &&
        (k.proc? 1).any (fun q => q.hasOwnAddrSpace && decide (textPage ∈ recordedPages q)) &&
        k'.currentProcess == 3 && k'.vm (textPage.virt / pageSize) != some textPage.phys := by
    decide +kernel
  obtain ⟨k, hrun, hany⟩ := (Option.any_eq_true _ _).mp hany
  obtain ⟨k', hyield, hany⟩ := (Option.any_eq_true _ _).mp hany
  simp only [Bool.and_eq_true, Option.any_eq_true, Bool.not_eq_true', beq_iff_eq,
    decide_eq_true_eq, bne_iff_ne] at hany
  obtain ⟨⟨⟨⟨p, hp, hthread, hparent⟩, q, hq, hown, htext⟩, hcur⟩, hvm⟩ := hany
  refine ⟨k, k', ⟨{}, _, 0, 0x100000, _, forkThenClone, boot_text, hrun⟩, hyield, hcur,
    textPage, ?_, hvm⟩
  exact .inr ⟨1, q, .parent hp hthread hparent (.own hq hown), hq, htext⟩

end VersionSix.Process
