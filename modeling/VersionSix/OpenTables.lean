import VersionSix.Descriptors

/-!
# What `open` reports

`open_syscall_handler` takes the first free descriptor of the process and the
last free entry of the global table. `process_alloc_fd` returns 0 when there is
no free descriptor and also when descriptor 0 is free, and 0 is what the
handler returns in both cases and when the global table is full: failures that
a caller cannot tell from descriptor 0.

`open_reports_iff` says for every state that calls of `open` and `close` lead
to when the answer tells what happened. The states are those of all processes
together, since the global table is shared: a call may find it full because of
somebody else.

`OpenOutcome` lists all that a call can come to, with the state it leaves; each
of its cases is then reported or not. The states reached matter only through
two facts that the calls keep (`TablesOk`): some process is current, and the
entries of the global table carry their indexes.
-/

namespace VersionSix.Process

/-! ## Runs of `open` and `close` -/

inductive TableCall
  /-- another process is running -/
  | run (p : Nat)
  | open (env : CallEnv) (flags : Nat)
  | close (fd : Int)

def tableStep (k : Kernel) : TableCall → Option Kernel
  | .run p => if p < k.processList.length then some { k with currentProcess := p } else none
  | .open env flags => (openSyscallHandler k env flags).map Prod.snd
  | .close fd => (closeSyscallHandler k fd).map Prod.snd

/-- The tables as `process_get_new_process` and `vfs_fd_setup` leave them. -/
structure FreshTables (k : Kernel) : Prop where
  current : k.currentProcess < k.processList.length
  processes : ∀ p ∈ k.processList, p.fileDescriptors = newFileDescriptors
  globals : k.globalFds = vfsFdSetup

/-- Reachable by calls of `open` and `close`, whoever makes them. -/
def ReachedByCalls (k : Kernel) : Prop :=
  ∃ k₀ calls, FreshTables k₀ ∧ Run.exec tableStep k₀ calls = some k

/-! ## Reports -/

/-- Descriptor `n` of the current process was free and refers to the global
entry `v`, which was free too; nothing else has changed. -/
structure Opened (k : Kernel) (path : List UInt8) (n v : Nat) (k' : Kernel) : Prop where
  descriptor : ∃ d d', k.fd? k.currentProcess n = some d ∧ d.inUse = false ∧
    k'.fd? k.currentProcess n = some d' ∧ d'.inUse = true ∧ d'.pos = 0 ∧ d'.vfsFd = v
  entry : ∃ e e' : VfsFd, k.globalFds[v]? = some e ∧ e.inUse = false ∧
    k'.globalFds[v]? = some e' ∧ e'.inUse = true ∧ e'.path = path
  otherDescriptors : ∀ i m, ¬ (i = k.currentProcess ∧ m = n) → k'.fd? i m = k.fd? i m
  otherEntries : ∀ w, w ≠ v → k'.globalFds[w]? = k.globalFds[w]?

/-- What `open` with this path has to report. -/
inductive OpenReports (k : Kernel) (path : List UInt8) : Int → Kernel → Prop
  | opened {n v : Nat} {k' : Kernel} (h : Opened k path n v k') : OpenReports k path n k'
  | failed {r : Int} {k' : Kernel} (hr : r < 0) (hfds : ∀ i m, k'.fd? i m = k.fd? i m)
      (hglobals : k'.globalFds = k.globalFds) : OpenReports k path r k'

/-- Both tables have a free entry, descriptor 0 is not one, and the path fits:
or the file is not there. -/
def OpenCondition (k : Kernel) (env : CallEnv) : Prop :=
  env.getattr < 0 ∨
    env.getattr = 0 ∧ env.path.length < 255 ∧
      (∃ d, k.fd? k.currentProcess 0 = some d ∧ d.inUse = true) ∧
      (∃ n d, k.fd? k.currentProcess n = some d ∧ d.inUse = false) ∧
      ∃ (v : Nat) (e : VfsFd), k.globalFds[v]? = some e ∧ e.inUse = false

/-! ## The allocators -/

theorem processAllocFd_cases (fds : List FdProcess) :
    (∃ i d, fds[i]? = some d ∧ d.inUse = false ∧
      (∀ j (e : FdProcess), j < i → fds[j]? = some e → e.inUse = true) ∧
      processAllocFd fds = (i, fds.modify i fun d => { d with pos := 0 })) ∨
    ((∀ d ∈ fds, d.inUse = true) ∧ processAllocFd fds = (0, fds)) := by
  unfold processAllocFd
  cases hfind : fds.findIdx? fun d => !d.inUse with
  | none =>
      refine Or.inr ⟨fun d hd => ?_, rfl⟩
      simpa using List.findIdx?_eq_none_iff.mp hfind d hd
  | some i =>
      obtain ⟨hi, hfree, hbefore⟩ := List.findIdx?_eq_some_iff_getElem.mp hfind
      refine Or.inl ⟨i, fds[i], List.getElem?_eq_getElem hi, by simpa using hfree,
        fun j e hj he => ?_, rfl⟩
      obtain ⟨hjlt, rfl⟩ := List.getElem?_eq_some_iff.mp he
      simpa using hbefore j hj

theorem vfsAllocFd_none {g : List VfsFd} (h : vfsAllocFd g = none) {v : Nat} {e : VfsFd}
    (he : g[v]? = some e) : e.inUse = true := by
  have hfold : ∀ (l : List Nat) (acc : Option Nat),
      l.foldl (fun fdFree i => if (g[i]?).any fun d => !d.inUse then some i else fdFree) acc
        = none → acc = none ∧ ∀ i ∈ l, (g[i]?).any (fun d => !d.inUse) = false := by
    intro l
    induction l with
    | nil => exact fun acc hacc => ⟨hacc, fun i hi => absurd hi List.not_mem_nil⟩
    | cons i l ih =>
        intro acc hacc
        obtain ⟨hnext, hrest⟩ := ih _ hacc
        dsimp only at hnext
        by_cases hfree : (g[i]?).any (fun d => !d.inUse) = true
        · rw [if_pos hfree] at hnext
          cases hnext
        · rw [if_neg hfree] at hnext
          refine ⟨hnext, fun j hj => ?_⟩
          rcases List.mem_cons.mp hj with rfl | hj
          · simpa using hfree
          · exact hrest j hj
  have hmem : v ∈ List.range g.length := by
    rw [List.mem_range]
    exact (List.getElem?_eq_some_iff.mp he).1
  have hused := (hfold _ none h).2 v hmem
  rw [he] at hused
  simpa using hused

/-! ## One call -/

section Call

variable {k k' : Kernel} {p : ProcessData} {env : CallEnv} {flags : Nat}

theorem fd?_fdChanged (hp : k.proc? k.currentProcess = some p) (fds : List FdProcess)
    (g : List VfsFd) (i m : Nat) :
    (fdChanged k fds g).fd? i m = if i = k.currentProcess then fds[m]? else k.fd? i m := by
  have hproc : (fdChanged k fds g).proc? i
      = (k.updateProc k.currentProcess (setFds fds)).proc? i := rfl
  unfold Kernel.fd?
  rw [hproc, Kernel.proc?_updateProc]
  by_cases hi : i = k.currentProcess
  · rw [if_pos hi.symm, if_pos hi, hi, hp]
    rfl
  · rw [if_neg (Ne.symm hi), if_neg hi]

theorem fd?_current (hp : k.proc? k.currentProcess = some p) (m : Nat) :
    k.fd? k.currentProcess m = p.fileDescriptors[m]? := by
  unfold Kernel.fd?
  rw [hp, Option.bind_some]

/-- The global table shows whether a file was opened. -/
theorem Opened.globals_ne {path : List UInt8} {n v : Nat} (h : Opened k path n v k') :
    k'.globalFds ≠ k.globalFds := by
  intro hsame
  obtain ⟨e, e', he, hfree, he', hused, -⟩ := h.entry
  rw [hsame, he] at he'
  obtain rfl := Option.some.inj he'
  rw [hfree] at hused
  cases hused

/-- A report without a change of the global table is a negative one. -/
theorem OpenReports.neg {path : List UInt8} {r : Int} (h : OpenReports k path r k')
    (hglobals : k'.globalFds = k.globalFds) : r < 0 := by
  cases h with
  | opened h => exact absurd hglobals h.globals_ne
  | failed hr => exact hr

/-- The state after a call that finds a free entry in both tables. -/
def afterOpen (k : Kernel) (p : ProcessData) (path : List UInt8) (flags n v : Nat) (e : VfsFd) :
    Kernel :=
  fdChanged k
    ((p.fileDescriptors.modify n fun d => { d with pos := 0 }).modify n fun d =>
      { d with inUse := true, vfsFd := e.id })
    (k.globalFds.modify v (openVfsFd path n flags))

theorem afterOpen_globalFds (k : Kernel) (p : ProcessData) (path : List UInt8) (flags n v : Nat)
    (e : VfsFd) : (afterOpen k p path flags n v e).globalFds
      = k.globalFds.modify v (openVfsFd path n flags) := rfl

theorem afterOpen_opened (hp : k.proc? k.currentProcess = some p) (hids : IdsInOrder k.globalFds)
    {n v : Nat} {d : FdProcess} {e : VfsFd} (hd : p.fileDescriptors[n]? = some d)
    (hfree : d.inUse = false) (he : k.globalFds[v]? = some e) (hefree : e.inUse = false) :
    Opened k env.path n v (afterOpen k p env.path flags n v e) := by
  refine ⟨⟨d, { d with pos := 0, inUse := true, vfsFd := v }, ?_, hfree, ?_, rfl, rfl, rfl⟩,
    ⟨e, openVfsFd env.path n flags e, he, hefree, ?_, rfl, rfl⟩, fun i m hne => ?_, fun w hw => ?_⟩
  · rw [fd?_current hp, hd]
  · rw [afterOpen, fd?_fdChanged hp, if_pos rfl, List.getElem?_modify, List.getElem?_modify, hd,
      hids v e he]
    simp
  · rw [afterOpen_globalFds, List.getElem?_modify, he]
    simp
  · rw [afterOpen, fd?_fdChanged hp]
    by_cases hi : i = k.currentProcess
    · have hm : ¬ n = m := fun hnm => hne ⟨hi, hnm.symm⟩
      rw [if_pos hi, hi, fd?_current hp, List.getElem?_modify, List.getElem?_modify]
      simp [hm]
    · rw [if_neg hi]
  · rw [afterOpen_globalFds, List.getElem?_modify]
    simp [Ne.symm hw]

/-- All that a call can come to. -/
inductive OpenOutcome (k : Kernel) (p : ProcessData) (env : CallEnv) (flags : Nat) :
    Option (Int × Kernel) → Prop
  | noFile (hattr : env.getattr ≠ 0) : OpenOutcome k p env flags (some (env.getattr, k))
  | zero {k' : Kernel} (hattr : env.getattr = 0) (hglobals : k'.globalFds = k.globalFds)
      (hnone : (∀ d, p.fileDescriptors[0]? = some d → d.inUse = false) ∨
        (∀ d ∈ p.fileDescriptors, d.inUse = true) ∨ ∀ e ∈ k.globalFds, e.inUse = true) :
      OpenOutcome k p env flags (some (0, k'))
  | overrun (hattr : env.getattr = 0) (hpath : 255 ≤ env.path.length) :
      OpenOutcome k p env flags none
  | opened {n v : Nat} {d d₀ : FdProcess} {e : VfsFd} (hattr : env.getattr = 0)
      (hpath : env.path.length < 255) (hd₀ : p.fileDescriptors[0]? = some d₀)
      (hused : d₀.inUse = true) (hd : p.fileDescriptors[n]? = some d) (hfree : d.inUse = false)
      (he : k.globalFds[v]? = some e) (hefree : e.inUse = false) :
      OpenOutcome k p env flags (some ((n : Int), afterOpen k p env.path flags n v e))

theorem open_outcome (hp : k.proc? k.currentProcess = some p) :
    OpenOutcome k p env flags (openSyscallHandler k env flags) := by
  unfold openSyscallHandler
  by_cases hattr : env.getattr = 0
  · rw [if_neg (Decidable.not_not.mpr hattr), hp, Option.bind_some]
    rcases processAllocFd_cases p.fileDescriptors with
      ⟨n, d, hd, hfree, hbefore, halloc⟩ | ⟨hall, halloc⟩
    · simp only [halloc]
      by_cases hn : n = 0
      · subst hn
        rw [if_pos rfl]
        refine .zero hattr rfl (Or.inl fun d' hd' => ?_)
        obtain rfl := Option.some.inj (hd.symm.trans hd')
        exact hfree
      · rw [if_neg hn]
        cases hv : vfsAllocFd k.globalFds with
        | none =>
            refine .zero hattr rfl (Or.inr (Or.inr fun e he => ?_))
            obtain ⟨v, hv'⟩ := List.mem_iff_getElem?.mp he
            exact vfsAllocFd_none hv hv'
        | some v =>
            dsimp only
            by_cases hpath : 255 ≤ env.path.length
            · rw [if_pos hpath]
              exact .overrun hattr hpath
            · rw [if_neg hpath]
              have hany := vfsAllocFd_free hv
              cases he : k.globalFds[v]? with
              | none =>
                  rw [he] at hany
                  cases hany
              | some e =>
                  rw [he] at hany
                  have hlt : 0 < p.fileDescriptors.length :=
                    Nat.lt_of_le_of_lt (Nat.zero_le n) (List.getElem?_eq_some_iff.mp hd).1
                  have hd₀ := List.getElem?_eq_getElem hlt
                  exact .opened hattr (Nat.lt_of_not_le hpath) hd₀
                    (hbefore 0 _ (Nat.pos_of_ne_zero hn) hd₀) hd hfree he (by simpa using hany)
    · simp only [halloc]
      rw [if_true]
      exact .zero hattr rfl (Or.inr (Or.inl hall))
  · rw [if_pos hattr]
    exact .noFile hattr

theorem OpenOutcome.reports_iff {x : Option (Int × Kernel)} (h : OpenOutcome k p env flags x)
    (hp : k.proc? k.currentProcess = some p) (hids : IdsInOrder k.globalFds) :
    (∃ r k', x = some (r, k') ∧ OpenReports k env.path r k') ↔ OpenCondition k env := by
  unfold OpenCondition
  simp only [fd?_current hp]
  cases h with
  | noFile hattr =>
      constructor
      · rintro ⟨r, k', hx, hrep⟩
        obtain ⟨rfl, rfl⟩ := Prod.mk.inj (Option.some.inj hx)
        exact Or.inl (hrep.neg rfl)
      · rintro (hneg | ⟨hzero, -⟩)
        · exact ⟨_, _, rfl, .failed hneg (fun _ _ => rfl) rfl⟩
        · exact absurd hzero hattr
  | zero hattr hglobals hnone =>
      constructor
      · rintro ⟨r, k', hx, hrep⟩
        obtain ⟨rfl, rfl⟩ := Prod.mk.inj (Option.some.inj hx)
        exact absurd (hrep.neg hglobals) (Int.lt_irrefl 0)
      · rintro (hneg | ⟨-, -, ⟨d₀, hd₀, hused⟩, ⟨n, d, hd, hfree⟩, v, e, he, hefree⟩)
        · exact absurd hattr (Int.ne_of_lt hneg)
        · rcases hnone with hnone | hnone | hnone
          · rw [hnone d₀ hd₀] at hused
            cases hused
          · rw [hnone d (List.mem_of_getElem? hd)] at hfree
            cases hfree
          · rw [hnone e (List.mem_of_getElem? he)] at hefree
            cases hefree
  | overrun hattr hpath =>
      constructor
      · rintro ⟨r, k', hx, -⟩
        cases hx
      · rintro (hneg | ⟨-, hlt, -⟩)
        · exact absurd hattr (Int.ne_of_lt hneg)
        · exact absurd hpath (Nat.not_le_of_lt hlt)
  | opened hattr hpath hd₀ hused hd hfree he hefree =>
      refine iff_of_true ⟨_, _, rfl, .opened (afterOpen_opened hp hids hd hfree he hefree)⟩ ?_
      exact Or.inr ⟨hattr, hpath, ⟨_, hd₀, hused⟩, ⟨_, _, hd, hfree⟩, _, _, he, hefree⟩

end Call

/-! ## Runs -/

/-- What the calls keep: a current process, and the ids of the global table. -/
structure TablesOk (k : Kernel) : Prop where
  current : k.currentProcess < k.processList.length
  ids : IdsInOrder k.globalFds

theorem TablesOk.fresh {k : Kernel} (h : FreshTables k) : TablesOk k :=
  ⟨h.current, h.globals ▸ idsInOrder_setup⟩

theorem boot_fresh {m : Machine} {program : LoadedProgram} {execSize stack : Nat} {k : Kernel}
    (h : boot m program execSize stack = some k) : FreshTables k := by
  obtain ⟨stackPhys, hl, -, hcur, -, hg, -⟩ := boot_cases h
  refine ⟨?_, fun p hp => ?_, hg⟩
  · rw [hcur, hl]
    exact Nat.zero_lt_succ 1
  · rw [hl, List.mem_cons, List.mem_singleton] at hp
    rcases hp with rfl | rfl
    · rfl
    · rfl

theorem TablesOk.fdChanged {k : Kernel} (h : TablesOk k) (fds : List FdProcess) {g : List VfsFd}
    (hg : IdsInOrder g) : TablesOk (fdChanged k fds g) := by
  refine ⟨?_, hg⟩
  have hlen := Kernel.length_updateProc k k.currentProcess (setFds fds)
  exact Nat.lt_of_lt_of_eq h.current hlen.symm

theorem TablesOk.step {k k' : Kernel} {c : TableCall} (h : TablesOk k)
    (hs : tableStep k c = some k') :
    TablesOk k' := by
  cases c with
  | run p =>
      simp only [tableStep] at hs
      split at hs
      · next hp =>
          obtain rfl := Option.some.inj hs
          exact ⟨hp, h.ids⟩
      · cases hs
  | «open» env flags =>
      obtain ⟨⟨r, k₁⟩, ho, rfl⟩ := Option.map_eq_some_iff.mp hs
      rcases open_cases ho with rfl | ⟨p, newFd, fds, -, -, rfl | rfl | ⟨v, sys, -, -, -, rfl⟩⟩
      · exact h
      · exact h.fdChanged _ h.ids
      · exact h.fdChanged _ h.ids
      · exact h.fdChanged _ (h.ids.modify v fun _ => rfl)
  | close fd =>
      obtain ⟨⟨r, k₁⟩, hc, rfl⟩ := Option.map_eq_some_iff.mp hs
      rcases close_cases hc with rfl | ⟨p, d, -, -, -, -, rfl⟩
      · exact h
      · refine h.fdChanged _ ?_
        unfold releaseGlobal
        cases vfsGetFdData d.vfsFd with
        | none => exact h.ids
        | some v => exact h.ids.modify v fun _ => rfl

theorem ReachedByCalls.tablesOk {k : Kernel} (h : ReachedByCalls k) : TablesOk k := by
  obtain ⟨k₀, calls, hfresh, hrun⟩ := h
  exact Run.exec_invariant (P := fun _ _ => True) (fun _ _ _ hk _ hs => hk.step hs)
    (TablesOk.fresh hfresh) (Run.along_true _ _) hrun

/-- **`open` reports what it did** exactly when the file is not there, or both
tables have a free entry, descriptor 0 is in use and the path fits. A result of
0 means a new descriptor 0 as well as either kind of failure, so an answer that
is right by chance does not count as a report. -/
theorem open_reports_iff {k : Kernel} (h : ReachedByCalls k) (env : CallEnv) (flags : Nat) :
    (∃ r k', openSyscallHandler k env flags = some (r, k') ∧ OpenReports k env.path r k') ↔
      OpenCondition k env := by
  have hok := h.tablesOk
  obtain ⟨p, hp⟩ := exists_proc? hok.current
  exact (open_outcome hp).reports_iff hp hok.ids

theorem open_reports_iff_small : ∃ r k',
    openSyscallHandler smallKernel { path := chars "/a" } 0 = some (r, k') ∧
      OpenReports smallKernel (chars "/a") r k' := by
  have hreached : ReachedByCalls smallKernel := ⟨_, [], boot_fresh boot_small, rfl⟩
  refine (open_reports_iff hreached { path := chars "/a" } 0).mpr (Or.inr ⟨rfl, ?_, ?_, ?_, ?_⟩)
  · decide
  · exact ⟨_, rfl, rfl⟩
  · exact ⟨3, _, rfl, rfl⟩
  · exact ⟨3, _, rfl, rfl⟩

def stdinClosed : Kernel :=
  fdChanged smallKernel (newFileDescriptors.modify 0 closeFd) (vfsFdSetup.modify 0 releaseFd)

/-- Then opening a file returns 0, and descriptor 0 is still free. -/
theorem open_returns_zero : ReachedByCalls stdinClosed ∧
    (∃ k', openSyscallHandler stdinClosed { path := chars "/a" } 0 = some (0, k') ∧
      k'.globalFds = stdinClosed.globalFds ∧
      ∃ d, k'.fd? stdinClosed.currentProcess 0 = some d ∧ d.inUse = false) ∧
    ¬ ∃ r k', openSyscallHandler stdinClosed { path := chars "/a" } 0 = some (r, k') ∧
      OpenReports stdinClosed (chars "/a") r k' := by
  have hrun : Run.exec tableStep smallKernel [.close 0] = some stdinClosed := rfl
  have hopen : ∃ k', openSyscallHandler stdinClosed { path := chars "/a" } 0 = some (0, k') ∧
      k'.globalFds = stdinClosed.globalFds ∧
      ∃ d, k'.fd? stdinClosed.currentProcess 0 = some d ∧ d.inUse = false :=
    ⟨_, rfl, rfl, _, rfl, rfl⟩
  refine ⟨⟨_, _, boot_fresh boot_small, hrun⟩, hopen, ?_⟩
  rintro ⟨r, k', hr, hrep⟩
  obtain ⟨k₁, h₁, hglobals, -⟩ := hopen
  obtain ⟨rfl, rfl⟩ := Prod.mk.inj (Option.some.inj (h₁.symm.trans hr))
  exact absurd (hrep.neg hglobals) (Int.lt_irrefl 0)

end VersionSix.Process
