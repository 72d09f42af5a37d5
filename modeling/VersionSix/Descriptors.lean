import VersionSix.Handlers

/-!
# File descriptors

Every process starts with descriptors 0, 1 and 2 for the standard streams.
`process_get_new_process` sets `vfs_fd` for the first two and then, meaning
descriptor 2, for descriptor 1 a second time: descriptor 2 is left referring to
entry 0.

A program could close descriptor 2 and open it again, or inherit another one,
so that the slip is wrong in a new process does not make it wrong for ever. But
no run repairs it. `StderrUnused` says that entry 2 of the global table is in
use and that no descriptor of any process refers to it: entries are released
only through a descriptor that refers to them, and only free ones are handed
out. It holds when the machine has started, and every handler keeps it.

`FdTablesConsistent` states the whole of what the tables are for. Since a part
of it always fails, the whole fails in every state of every run
(`fdTables_never_consistent`).
-/

namespace VersionSix.Process

/-! ## Consistent tables -/

/-- The descriptor `n` of process `i`. -/
def Kernel.fd? (k : Kernel) (i n : Nat) : Option FdProcess :=
  (k.proc? i).bind fun p => p.fileDescriptors[n]?

def Kernel.entry? (k : Kernel) (d : FdProcess) : Option VfsFd :=
  (vfsGetFdData d.vfsFd).bind fun v => k.globalFds[v]?

/-- Descriptors in use refer to entries in use, 0, 1 and 2 to the standard
ones, and a step takes no entry away from a descriptor that still refers to
it: the entry is neither freed nor given another file. -/
structure FdTablesConsistent (k : Kernel) : Prop where
  inUse : ∀ {i n d}, k.fd? i n = some d → d.inUse = true →
    ∃ v, k.entry? d = some v ∧ v.inUse = true
  standard : ∀ {i p} (n : Nat), k.proc? i = some p → n < 3 →
    ∃ d, k.fd? i n = some d ∧ d.vfsFd = n
  kept : ∀ {e k' i n d d'}, step k e = some k' → k.fd? i n = some d → k'.fd? i n = some d' →
    d.inUse = true → d'.inUse = true → d'.vfsFd = d.vfsFd →
    (k'.entry? d').map (fun v => (v.inUse, v.path)) = (k.entry? d).map fun v => (v.inUse, v.path)

/-! ## What descriptors refer to -/

theorem modify_vfsFd {fds : List FdProcess} {n : Nat} {f : FdProcess → FdProcess}
    {d : FdProcess} (hd : d ∈ fds.modify n f) (hf : ∀ d, (f d).vfsFd = d.vfsFd) :
    ∃ d₀ ∈ fds, d₀.vfsFd = d.vfsFd := by
  obtain ⟨i, hi⟩ := List.mem_iff_getElem?.mp hd
  rw [List.getElem?_modify] at hi
  obtain ⟨d₀, hd₀, rfl⟩ := Option.map_eq_some_iff.mp hi
  refine ⟨d₀, List.mem_of_getElem? hd₀, ?_⟩
  split
  · exact (hf d₀).symm
  · rfl

theorem processAllocFd_vfsFd {fds fds' : List FdProcess} {n : Nat}
    (h : processAllocFd fds = (n, fds')) {d : FdProcess} (hd : d ∈ fds') :
    ∃ d₀ ∈ fds, d₀.vfsFd = d.vfsFd := by
  unfold processAllocFd at h
  split at h
  · obtain ⟨-, rfl⟩ := Prod.mk.inj h
    exact modify_vfsFd hd fun _ => rfl
  · obtain ⟨-, rfl⟩ := Prod.mk.inj h
    exact ⟨d, hd, rfl⟩

/-- Every descriptor of every process refers to a `Q`. -/
structure VfsFds (Q : Int → Prop) (k : Kernel) : Prop where
  all : ∀ {i p d}, k.proc? i = some p → d ∈ p.fileDescriptors → Q d.vfsFd

section VfsFds

variable {Q : Int → Prop} {k k' : Kernel}

theorem VfsFds.modify (h : VfsFds Q k) {i : Nat} {f : ProcessData → ProcessData}
    (hl : k'.processList = k.processList.modify i f)
    (hf : ∀ p, (f p).fileDescriptors = p.fileDescriptors) : VfsFds Q k' := by
  refine ⟨fun {j p d} hp hd => ?_⟩
  obtain ⟨q, hq, rfl⟩ := proc?_of_modify hl hp
  refine h.all hq ?_
  split at hd
  · rwa [hf] at hd
  · exact hd

theorem VfsFds.setNextUp (h : VfsFds Q k) (p : Nat) : VfsFds Q (processSetNextUp k p) := ⟨h.all⟩

theorem VfsFds.fdChanged (h : VfsFds Q k) {fds : List FdProcess} (g : List VfsFd)
    (hfds : ∀ d ∈ fds, Q d.vfsFd) : VfsFds Q (fdChanged k fds g) := by
  refine ⟨fun {i p d} hp hd => ?_⟩
  obtain ⟨q, hq, rfl⟩ := proc?_of_modify (k := k) (f := setFds fds) rfl hp
  split at hd
  · exact hfds d hd
  · exact h.all hq hd

/-- `open` takes what a new descriptor refers to from a free global entry. -/
theorem VfsFds.opened (h : VfsFds Q k)
    (halloc : ∀ {v sys}, vfsAllocFd k.globalFds = some v → k.globalFds[v]? = some sys → Q sys.id)
    {env : CallEnv} {flags : Nat} {r : Int} (ho : openSyscallHandler k env flags = some (r, k')) :
    VfsFds Q k' := by
  rcases open_cases ho with rfl | ⟨p, newFd, fds, hp, hfd, hcase⟩
  · exact h
  have hold : ∀ d ∈ fds, Q d.vfsFd := by
    intro d hd
    obtain ⟨d₀, hd₀, heq⟩ := processAllocFd_vfsFd hfd hd
    rw [← heq]
    exact h.all hp hd₀
  rcases hcase with rfl | rfl | ⟨v, sys, -, hv, hsys, rfl⟩
  · exact h.fdChanged _ hold
  · refine h.fdChanged _ fun d hd => ?_
    unfold processFreeFd at hd
    split at hd
    · obtain ⟨d₀, hd₀, heq⟩ := modify_vfsFd hd fun _ => rfl
      rw [← heq]
      exact hold d₀ hd₀
    · exact hold d hd
  · refine h.fdChanged _ fun d hd => ?_
    obtain ⟨i, hi⟩ := List.mem_iff_getElem?.mp hd
    rw [List.getElem?_modify] at hi
    obtain ⟨d₀, hd₀, rfl⟩ := Option.map_eq_some_iff.mp hi
    split
    · exact halloc hv hsys
    · exact hold d₀ (List.mem_of_getElem? hd₀)

theorem VfsFds.closed (h : VfsFds Q k) {fd r : Int} (hc : closeSyscallHandler k fd = some (r, k')) :
    VfsFds Q k' := by
  rcases close_cases hc with rfl | ⟨p, d, -, hp, -, -, rfl⟩
  · exact h
  refine h.fdChanged _ fun d' hd' => ?_
  obtain ⟨d₀, hd₀, heq⟩ := modify_vfsFd hd' fun _ => rfl
  rw [← heq]
  exact h.all hp hd₀

theorem VfsFds.spawn (h : VfsFds Q k) (hnew : ∀ d ∈ newFileDescriptors, Q d.vfsFd)
    {child : ProcessData} (hchild : child.fileDescriptors = newFileDescriptors)
    (memory : ByteStore.Bytes) (rax : UInt64) : VfsFds Q (spawn k child memory rax) := by
  refine ⟨fun {i p d} hp hd => ?_⟩
  rcases proc?_spawn hp with ⟨-, rfl⟩ | ⟨q, hq, rfl⟩
  · rw [hchild] at hd
    exact hnew d hd
  · refine h.all hq ?_
    split at hd <;> exact hd

theorem VfsFds.yield (h : VfsFds Q k) (hy : processSchedYield k = some k') : VfsFds Q k' := by
  rcases yield_cases hy with ⟨-, rfl⟩ | ⟨new, newP, pages, -, -, -, -, rfl⟩
  · exact ⟨h.all⟩
  · have hout : VfsFds Q (k.updateProc k.currentProcess (switchOut k.frame)) :=
      h.modify rfl fun _ => rfl
    exact hout.modify (f := switchIn) rfl fun _ => rfl

theorem yield_globalFds (hy : processSchedYield k = some k') : k'.globalFds = k.globalFds := by
  rcases yield_cases hy with ⟨-, rfl⟩ | ⟨new, newP, pages, -, -, -, -, rfl⟩ <;> rfl

theorem VfsFds.effect (hk : PidsInOrder k) (h : VfsFds Q k)
    (hnew : ∀ d ∈ newFileDescriptors, Q d.vfsFd)
    (halloc : ∀ {v sys}, vfsAllocFd k.globalFds = some v → k.globalFds[v]? = some sys → Q sys.id)
    (he : Effect k k') : VfsFds Q k' := by
  cases he with
  | read hf ht => exact h.modify ht.processList (by rcases hf with rfl | rfl <;> intro p <;> rfl)
  | wake hf ht => exact h.modify ht.processList (by rcases hf with rfl | rfl <;> intro p <;> rfl)
  | opened ho => exact h.opened halloc ho
  | closed hc => exact h.closed hc
  | waits => exact h.modify (f := waitFor _) rfl fun _ => rfl
  | forked => exact h.spawn hnew rfl _ _
  | cloned => exact VfsFds.setNextUp (h.spawn hnew rfl _ _) _
  | @exited k₁ k₂ fds returnCode h₁ h₂ =>
      have hI₁ : VfsFds Q k₁ :=
        closeFds_induct (P := VfsFds Q) (fun _ h hc => VfsFds.closed h hc) h h₁
      have hI₂ : VfsFds Q k₂ := by
        obtain ⟨p, -, ⟨rfl, -⟩ | rfl⟩ := notify_cases (hk.closeFds h₁) h₂
        · exact hI₁
        · exact hI₁.modify (f := wakeParent) rfl fun _ => rfl
      exact hI₂.modify (f := endProcess returnCode) rfl fun _ => rfl

theorem boot_vfsFds (hnew : ∀ d ∈ newFileDescriptors, Q d.vfsFd) {m : Machine}
    {program : LoadedProgram} {execSize stack : Nat} (h : boot m program execSize stack = some k) :
    VfsFds Q k := by
  obtain ⟨stackPhys, hl, -⟩ := boot_cases h
  refine ⟨fun {i p d} hp hd => ?_⟩
  unfold Kernel.proc? at hp
  rw [hl] at hp
  have hfds : p.fileDescriptors = newFileDescriptors := by
    match i with
    | 0 => exact (Option.some.inj hp) ▸ rfl
    | 1 => exact (Option.some.inj hp) ▸ rfl
    | i + 2 => cases hp
  rw [hfds] at hd
  exact hnew d hd

end VfsFds

/-! ## Nothing refers to the entry of stderr -/

/-- Each entry of the global table carries its index. -/
def IdsInOrder (g : List VfsFd) : Prop :=
  ∀ (i : Nat) (v : VfsFd), g[i]? = some v → v.id = i

theorem IdsInOrder.modify {g : List VfsFd} (h : IdsInOrder g) (v : Nat) {f : VfsFd → VfsFd}
    (hf : ∀ e, (f e).id = e.id) : IdsInOrder (g.modify v f) := by
  intro i e he
  rw [List.getElem?_modify] at he
  obtain ⟨e₀, he₀, rfl⟩ := Option.map_eq_some_iff.mp he
  rw [← h i e₀ he₀]
  split
  · exact hf e₀
  · rfl

theorem idsInOrder_setup : IdsInOrder vfsFdSetup := by
  have hrange : IdsInOrder ((List.range vfsFdMax).map fun (i : Nat) => ({ id := i } : VfsFd)) := by
    intro i v hv
    rw [List.getElem?_map] at hv
    obtain ⟨w, hw, rfl⟩ := Option.map_eq_some_iff.mp hv
    obtain ⟨hlt, rfl⟩ := List.getElem?_eq_some_iff.mp hw
    simp
  unfold vfsFdSetup
  refine IdsInOrder.modify (IdsInOrder.modify (IdsInOrder.modify hrange 0 ?_) 1 ?_) 2 ?_
  all_goals exact fun _ => rfl

structure StderrUnused (k : Kernel) : Prop where
  inUse : ∃ v, k.globalFds[2]? = some v ∧ v.inUse = true
  ids : IdsInOrder k.globalFds
  unused : ∀ {i p d}, k.proc? i = some p → d ∈ p.fileDescriptors → d.vfsFd ≠ 2

theorem StderrUnused.vfsFds {k : Kernel} (h : StderrUnused k) : VfsFds (· ≠ 2) k := ⟨h.unused⟩

theorem StderrUnused.of_globals {k k' : Kernel} (h : StderrUnused k)
    (hg : k'.globalFds = k.globalFds) (hv : VfsFds (· ≠ 2) k') : StderrUnused k' :=
  ⟨hg ▸ h.inUse, hg ▸ h.ids, hv.all⟩

theorem StderrUnused.inUse_modify {k : Kernel} (h : StderrUnused k) {v : Nat} (hv : v ≠ 2)
    (f : VfsFd → VfsFd) : ∃ e, (k.globalFds.modify v f)[2]? = some e ∧ e.inUse = true := by
  rw [List.getElem?_modify]
  simp only [if_neg hv]
  simpa using h.inUse

theorem vfsAllocFd_free {g : List VfsFd} {v : Nat} (h : vfsAllocFd g = some v) :
    (g[v]?).any (fun e => !e.inUse) = true := by
  have hfold : ∀ (l : List Nat) (acc : Option Nat),
      (∀ w, acc = some w → (g[w]?).any (fun e => !e.inUse) = true) →
      ∀ w, l.foldl (fun fdFree i => if (g[i]?).any fun d => !d.inUse then some i else fdFree) acc
        = some w → (g[w]?).any (fun e => !e.inUse) = true := by
    intro l
    induction l with
    | nil => exact fun acc hacc => hacc
    | cons i l ih =>
        intro acc hacc
        refine ih _ fun w hw => ?_
        dsimp only at hw
        split at hw
        · obtain rfl := Option.some.inj hw
          assumption
        · exact hacc w hw
  exact hfold _ none (by simp) v h

theorem StderrUnused.alloc_ne {k : Kernel} (h : StderrUnused k) {v : Nat}
    (hv : vfsAllocFd k.globalFds = some v) : v ≠ 2 := by
  rintro rfl
  obtain ⟨e, he, hin⟩ := h.inUse
  have := vfsAllocFd_free hv
  rw [he] at this
  simp [hin] at this

theorem StderrUnused.alloc_id {k : Kernel} (h : StderrUnused k) {v : Nat} {sys : VfsFd}
    (hv : vfsAllocFd k.globalFds = some v) (hsys : k.globalFds[v]? = some sys) : sys.id ≠ 2 := by
  rw [h.ids v sys hsys]
  exact_mod_cast h.alloc_ne hv

theorem StderrUnused.opened {k k' : Kernel} (h : StderrUnused k) {env : CallEnv} {flags : Nat}
    {r : Int} (ho : openSyscallHandler k env flags = some (r, k')) : StderrUnused k' := by
  have hfds := h.vfsFds.opened h.alloc_id ho
  rcases open_cases ho with rfl | ⟨p, newFd, fds, -, -, rfl | rfl | ⟨v, sys, -, hv, -, rfl⟩⟩
  · exact h
  · exact h.of_globals rfl hfds
  · exact h.of_globals rfl hfds
  · exact ⟨h.inUse_modify (h.alloc_ne hv) _, h.ids.modify v fun _ => rfl, hfds.all⟩

theorem StderrUnused.closed {k k' : Kernel} (h : StderrUnused k) {fd r : Int}
    (hc : closeSyscallHandler k fd = some (r, k')) : StderrUnused k' := by
  have hfds := h.vfsFds.closed hc
  rcases close_cases hc with rfl | ⟨p, d, -, hp, hd, -, rfl⟩
  · exact h
  have hd2 := h.unused hp (List.mem_of_getElem? hd)
  unfold releaseGlobal at hfds ⊢
  cases hv : vfsGetFdData d.vfsFd with
  | none =>
      rw [hv] at hfds
      exact h.of_globals rfl hfds
  | some v =>
      rw [hv] at hfds
      have hne : v ≠ 2 := by
        unfold vfsGetFdData at hv
        split at hv
        · cases hv
        split at hv
        · cases hv
        obtain rfl := Option.some.inj hv
        omega
      exact ⟨h.inUse_modify hne releaseFd, h.ids.modify v fun _ => rfl, hfds.all⟩

theorem newFileDescriptors_ne_stderr : ∀ d ∈ newFileDescriptors, d.vfsFd ≠ 2 := by decide

theorem StderrUnused.effect {k k' : Kernel} (hk : PidsInOrder k) (h : StderrUnused k)
    (he : Effect k k') : StderrUnused k' := by
  have hfds := h.vfsFds.effect hk newFileDescriptors_ne_stderr h.alloc_id he
  cases he with
  | read hf ht => exact h.of_globals ht.globalFds hfds
  | wake hf ht => exact h.of_globals ht.globalFds hfds
  | opened ho => exact h.opened ho
  | closed hc => exact h.closed hc
  | waits => exact h.of_globals rfl hfds
  | forked => exact h.of_globals rfl hfds
  | cloned => exact h.of_globals rfl hfds
  | @exited k₁ k₂ fds returnCode h₁ h₂ =>
      have hI₁ : StderrUnused k₁ := closeFds_induct (fun _ h hc => h.closed hc) h h₁
      obtain ⟨p, -, ⟨rfl, -⟩ | rfl⟩ := notify_cases (hk.closeFds h₁) h₂
      · exact hI₁.of_globals rfl hfds
      · exact hI₁.of_globals rfl hfds

theorem boot_stderrUnused {m : Machine} {program : LoadedProgram} {execSize stack : Nat}
    {k : Kernel} (h : boot m program execSize stack = some k) : StderrUnused k := by
  have hfds := boot_vfsFds (Q := (· ≠ 2)) newFileDescriptors_ne_stderr h
  obtain ⟨stackPhys, -, -, -, -, hg, -⟩ := boot_cases h
  refine ⟨?_, ?_, hfds.all⟩
  · rw [hg]
    exact ⟨_, rfl, rfl⟩
  · rw [hg]
    exact idsInOrder_setup

theorem reachable_stderrUnused {k : Kernel} (h : Reachable k) : PidsInOrder k ∧ StderrUnused k := by
  obtain ⟨m, program, execSize, stack, k₀, events, hboot, hrun⟩ := h
  refine Run.exec_invariant (I := fun k => PidsInOrder k ∧ StderrUnused k) (P := fun _ _ => True)
    (fun k e k' hI _ hs => ?_) ⟨boot_pids hboot, boot_stderrUnused hboot⟩ (Run.along_true _ _) hrun
  refine step_induct (I := StderrUnused) (G := fun _ => True) ?_ ?_ ?_ ?_ hI.1 hI.2 ?_ hs
  · exact fun k frame h => ⟨h.inUse, h.ids, h.unused⟩
  · exact fun hk h _ he => h.effect hk he
  · exact fun _ h hf ht => h.of_globals ht.globalFds (h.vfsFds.modify ht.processList
      (by rcases hf with rfl | rfl <;> intro p <;> rfl))
  · exact fun _ h hy => h.of_globals (yield_globalFds hy) (h.vfsFds.yield hy)
  · exact fun _ _ _ => trivial

/-! ## The tables are never consistent -/

/-- In no state of any run are the tables consistent: descriptor 2 of the
current process does not refer to the entry of stderr. The entry stays in use
and nobody refers to it, from the first process on; what `open` takes is always
a free entry, and `close` frees one that is referred to. -/
theorem fdTables_never_consistent {k : Kernel} (h : Reachable k) : ¬ FdTablesConsistent k := by
  intro hcons
  obtain ⟨hpids, hunused⟩ := reachable_stderrUnused h
  obtain ⟨p, hp⟩ := exists_proc? hpids.current_lt
  obtain ⟨d, hd, h2⟩ := hcons.standard 2 hp (by omega)
  obtain ⟨q, hq, hd⟩ := Option.bind_eq_some_iff.mp hd
  exact hunused.unused hq (List.mem_of_getElem? hd) h2

theorem fdTables_never_consistent_fork : ∃ k,
    Run.exec step smallKernel [callOf 4 0, callOf 6 0 forkEnv] = some k ∧ ¬ FdTablesConsistent k :=
  have hrun : (Run.exec step smallKernel [callOf 4 0, callOf 6 0 forkEnv]).isSome := by
    decide +kernel
  ⟨_, (Option.some_get hrun).symm, fdTables_never_consistent
    ⟨{}, {}, 0, 0x100000, _, _, boot_small, (Option.some_get hrun).symm⟩⟩

theorem smallKernel_not_consistent : Reachable smallKernel ∧ ¬ FdTablesConsistent smallKernel := by
  refine ⟨⟨{}, {}, 0, 0x100000, _, [], boot_small, rfl⟩, fun hcons => ?_⟩
  obtain ⟨d, hd, h2⟩ := hcons.standard (i := 0) 2 rfl (by omega)
  obtain rfl := Option.some.inj hd
  cases h2

end VersionSix.Process
