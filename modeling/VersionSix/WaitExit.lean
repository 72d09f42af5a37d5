import VersionSix.Handlers

/-!
# Waiting for a child

`wait_syscall_handler` makes its caller wait for a pid without looking at the
process: a parent that waits for a child that has already ended is never woken.
`lost_wakeUp` is such a run: the parent yields between its `fork` and its
`wait`, and the child ends in the meantime.

As long as every `wait` is for a process that has not ended, no wake-up is lost
(`no_lost_wakeUp`). The condition is one on the step (`WaitOk`), and reads
nothing but the frame of the call and the status of the process it names.

The invariant is `NoStaleWait`: no process is set to wait for an ended child of
its own, whatever its own status. It is stronger than the property, which
speaks of processes in wait status, because a process keeps the field while it
runs on. An ending child clears the field of its parent in the same call, and
only then is it marked as ended.
-/

namespace VersionSix.Process

/-! ## The property -/

def Exited (status : ProcessStatus) : Prop := status = .dead ∨ status = .waitingForDeath

instance (status : ProcessStatus) : Decidable (Exited status) :=
  inferInstanceAs (Decidable (_ ∨ _))

/-- A process waits for a child that has ended. -/
def LostWakeUp (k : Kernel) : Prop :=
  ∃ p ∈ k.processList, ∃ c ∈ k.processList, p.status = .waiting ∧ p.waitForPid = c.pid ∧
    c.pidParent = p.pid ∧ Exited c.status

instance (k : Kernel) : Decidable (LostWakeUp k) := inferInstanceAs (Decidable (∃ _ ∈ _, _))

/-- A `wait` found in the frame is for a process that has not ended. -/
def WaitsOnLiving (k : Kernel) : Prop :=
  syscallOf k.frame.rax = .wait →
    ∀ c ∈ k.processList, c.pid = pidOf k.frame.rdi → ¬ Exited c.status

instance (k : Kernel) : Decidable (WaitsOnLiving k) := inferInstanceAs (Decidable (_ → _))

/-- The condition on a step: its call, if it is a `wait`, is for a process
that has not ended. -/
def WaitOk (k : Kernel) : Event → Prop
  | .call frame _ => WaitsOnLiving { k with frame := frame }
  | _ => True

instance (k : Kernel) : ∀ e, Decidable (WaitOk k e)
  | .call _ _ => inferInstanceAs (Decidable (WaitsOnLiving _))
  | .keyboard _ | .serial _ => isTrue trivial

/-! ## The invariant -/

structure NoStaleWait (k : Kernel) : Prop where
  stale : ∀ {i j c p}, k.proc? i = some c → k.proc? j = some p → i ≠ j → Exited c.status →
    c.pidParent = j → p.waitForPid ≠ i
  kernelParent : ∀ {p}, k.proc? 0 = some p → p.pidParent = 0

/-- The kernel process is nobody else's child, so 0 is no pid to wait for. -/
theorem NoStaleWait.child_ne_zero {k : Kernel} (h : NoStaleWait k) {i j : Nat} {c : ProcessData}
    (hc : k.proc? i = some c) (hij : i ≠ j) (hparent : c.pidParent = j) : i ≠ 0 := by
  rintro rfl
  rw [h.kernelParent hc] at hparent
  exact hij hparent

theorem NoStaleWait.modify {k k' : Kernel} (h : NoStaleWait k) {i : Nat}
    {f : ProcessData → ProcessData} (hl : k'.processList = k.processList.modify i f)
    (hparent : ∀ p, (f p).pidParent = p.pidParent)
    (hwait : ∀ p, (f p).waitForPid = p.waitForPid ∨ (f p).waitForPid = 0)
    (hexit : ∀ p, Exited (f p).status → Exited p.status) : NoStaleWait k' where
  stale {a b c p} hc hp hne hex hpar := by
    obtain ⟨c₀, hc₀, rfl⟩ := proc?_of_modify hl hc
    obtain ⟨p₀, hp₀, rfl⟩ := proc?_of_modify hl hp
    have hpar₀ : c₀.pidParent = b := by
      split at hpar
      · rwa [hparent] at hpar
      · exact hpar
    have hex₀ : Exited c₀.status := by
      split at hex
      · exact hexit _ hex
      · exact hex
    have hstale := h.stale hc₀ hp₀ hne hex₀ hpar₀
    split
    · rcases hwait p₀ with hw | hw
      · rwa [hw]
      · rw [hw]
        exact (h.child_ne_zero hc₀ hne hpar₀).symm
    · exact hstale
  kernelParent hp := by
    obtain ⟨p₀, hp₀, rfl⟩ := proc?_of_modify hl hp
    split
    · rw [hparent]
      exact h.kernelParent hp₀
    · exact h.kernelParent hp₀

theorem NoStaleWait.of_eq {k k' : Kernel} (h : NoStaleWait k)
    (hl : k'.processList = k.processList) : NoStaleWait k' := by
  refine h.modify (i := 0) (f := id) ?_ (fun _ => rfl) (fun _ => .inl rfl) fun _ => id
  rw [hl, List.modify_id]

theorem NoStaleWait.setNextUp {k : Kernel} (h : NoStaleWait k) (p : Nat) :
    NoStaleWait (processSetNextUp k p) := h.of_eq rfl

theorem NoStaleWait.yield {k k' : Kernel} (h : NoStaleWait k)
    (hy : processSchedYield k = some k') : NoStaleWait k' := by
  rcases yield_cases hy with ⟨-, rfl⟩ | ⟨new, newP, pages, -, -, -, -, rfl⟩
  · exact h.of_eq rfl
  · have hout : NoStaleWait (k.updateProc k.currentProcess (switchOut k.frame)) := by
      refine h.modify rfl (fun _ => rfl) (fun _ => .inl rfl) fun p hp => ?_
      revert hp
      simp only [switchOut]
      cases p.status <;> simp [Exited, statusAfterSwitch]
    exact hout.modify (f := switchIn) rfl (fun _ => rfl) (fun _ => .inl rfl)
      (by simp [Exited, switchIn])

theorem NoStaleWait.spawn {k : Kernel} (hk : PidsInOrder k) (h : NoStaleWait k)
    {child : ProcessData} {memory : ByteStore.Bytes} {rax : UInt64}
    (hstatus : ¬ Exited child.status) (hwait : child.waitForPid = 0) :
    NoStaleWait (spawn k child memory rax) where
  stale {a b c p} hc hp hne hex hpar := by
    have hpos : 0 < k.processList.length := by have := hk.current_lt; omega
    rcases proc?_spawn hc with ⟨rfl, rfl⟩ | ⟨c₀, hc₀, rfl⟩
    · exact absurd hex hstatus
    have hc₀' : c₀.pidParent = b ∧ Exited c₀.status := by
      split at hex <;> split at hpar <;> exact ⟨hpar, hex⟩
    rcases proc?_spawn hp with ⟨rfl, rfl⟩ | ⟨p₀, hp₀, rfl⟩
    · rw [hwait]
      exact (h.child_ne_zero hc₀ hne hc₀'.1).symm
    · have hstale := h.stale hc₀ hp₀ hne hc₀'.2 hc₀'.1
      split <;> exact hstale
  kernelParent hp := by
    rcases proc?_spawn hp with ⟨hz, -⟩ | ⟨p₀, hp₀, rfl⟩
    · have := hk.current_lt
      omega
    · rw [← h.kernelParent hp₀]
      split <;> rfl

theorem NoStaleWait.wait {k : Kernel} (hk : PidsInOrder k) (h : NoStaleWait k)
    (hliving : ∀ c ∈ k.processList, c.pid = pidOf k.frame.rdi → ¬ Exited c.status) :
    NoStaleWait (waitSyscallHandler k (pidOf k.frame.rdi)) where
  stale {a b c p} hc hp hne hex hpar := by
    obtain ⟨c₀, hc₀, rfl⟩ := proc?_of_modify rfl hc
    obtain ⟨p₀, hp₀, rfl⟩ := proc?_of_modify rfl hp
    have hc₀' : c₀.pidParent = b ∧ Exited c₀.status := by
      split at hex
      · simp [Exited, waitFor] at hex
      · split at hpar <;> exact ⟨hpar, hex⟩
    split
    · rintro rfl
      exact hliving c₀ (List.mem_of_getElem? hc₀) (hk.pid_eq hc₀) hc₀'.2
    · exact h.stale hc₀ hp₀ hne hc₀'.2 hc₀'.1
  kernelParent hp := by
    obtain ⟨p₀, hp₀, rfl⟩ := proc?_of_modify rfl hp
    rw [← h.kernelParent hp₀]
    split <;> rfl

theorem notified_wait_ne {k k' : Kernel} (hk : PidsInOrder k) (h : NoStaleWait k)
    (hn : notifyParent k = some k') {c p : ProcessData} {j : Nat}
    (hc : k'.proc? k.currentProcess = some c) (hp : k'.proc? j = some p)
    (hne : k.currentProcess ≠ j) (hparent : c.pidParent = j) : p.waitForPid ≠ k.currentProcess := by
  obtain ⟨c₀, hc₀, ⟨rfl, hnot⟩ | rfl⟩ := notify_cases hk hn
  · obtain rfl : c₀ = c := Option.some.inj (hc₀.symm.trans hc)
    rw [hparent] at hnot
    rw [← hk.pid_eq hc₀]
    exact hnot p hp
  · obtain ⟨c₁, hc₁, rfl⟩ := proc?_of_modify (k := k) (f := wakeParent) rfl hc
    obtain rfl : c₀ = c₁ := Option.some.inj (hc₀.symm.trans hc₁)
    have hpar : c₀.pidParent = j := by
      split at hparent <;> exact hparent
    obtain ⟨p₀, -, rfl⟩ := proc?_of_modify (k := k) (f := wakeParent) rfl hp
    rw [if_pos hpar]
    exact (h.child_ne_zero hc₀ hne hpar).symm

theorem NoStaleWait.notify {k k' : Kernel} (hk : PidsInOrder k) (h : NoStaleWait k)
    (hn : notifyParent k = some k') : NoStaleWait k' := by
  obtain ⟨c₀, -, ⟨rfl, -⟩ | rfl⟩ := notify_cases hk hn
  · exact h
  · exact h.modify (f := wakeParent) rfl (fun _ => rfl) (fun _ => .inr rfl)
      (by simp [Exited, wakeParent])

theorem NoStaleWait.fdChanged {k : Kernel} (h : NoStaleWait k) (fds : List FdProcess)
    (g : List VfsFd) : NoStaleWait (fdChanged k fds g) :=
  h.modify (f := setFds fds) rfl (fun _ => rfl) (fun _ => .inl rfl) fun _ => id

theorem NoStaleWait.exit {k k₁ k₂ : Kernel} {fds : List Nat} {returnCode : Int}
    (hk : PidsInOrder k) (h : NoStaleWait k) (h₁ : closeFds k fds = some k₁)
    (h₂ : notifyParent k₁ = some k₂) :
    NoStaleWait (k₂.updateProc k₂.currentProcess (endProcess returnCode)) := by
  have hk₁ := hk.closeFds h₁
  have hI₁ : NoStaleWait k₁ := keeps_of_fdsChanged (closeFds_changed h₁) h h.fdChanged
  have hI₂ := hI₁.notify hk₁ h₂
  have hcur : k₂.currentProcess = k₁.currentProcess := by
    obtain ⟨p, -, ⟨rfl, -⟩ | rfl⟩ := notify_cases hk₁ h₂ <;> rfl
  refine ⟨fun {a b c p} hc hp hne hex hpar => ?_, fun {p} hp => ?_⟩
  · obtain ⟨c₀, hc₀, rfl⟩ := proc?_of_modify (k := k₂) rfl hc
    obtain ⟨p₀, hp₀, rfl⟩ := proc?_of_modify (k := k₂) rfl hp
    have hpar₀ : c₀.pidParent = b := by
      split at hpar <;> exact hpar
    have hgoal : p₀.waitForPid ≠ a := by
      by_cases hca : k₂.currentProcess = a
      · -- the process that ends now
        rw [hcur] at hca
        subst hca
        exact notified_wait_ne hk₁ hI₁ h₂ hc₀ hp₀ hne hpar₀
      · rw [if_neg hca] at hex
        exact hI₂.stale hc₀ hp₀ hne hex hpar₀
    split <;> exact hgoal
  · obtain ⟨p₀, hp₀, rfl⟩ := proc?_of_modify (k := k₂) rfl hp
    rw [← hI₂.kernelParent hp₀]
    split <;> rfl

/-! ## Every step keeps it -/

theorem NoStaleWait.effect {k k' : Kernel} (hk : PidsInOrder k) (h : NoStaleWait k)
    (hG : WaitsOnLiving k) (he : Effect k k') : NoStaleWait k' := by
  cases he with
  | read hf ht =>
      rcases hf with rfl | rfl
      · exact h.modify ht.processList (fun _ => rfl) (fun _ => .inl rfl) fun _ => id
      · exact h.modify ht.processList (fun _ => rfl) (fun _ => .inl rfl)
          (by simp [Exited, setStatus])
  | wake hf ht =>
      rcases hf with rfl | rfl
      · exact h.modify ht.processList (fun _ => rfl) (fun _ => .inl rfl) fun _ => id
      · exact h.modify ht.processList (fun _ => rfl) (fun _ => .inl rfl)
          (by simp [Exited, setStatus])
  | opened ho => exact keeps_of_fdsChanged (open_changed ho) h h.fdChanged
  | closed hc => exact keeps_of_fdsChanged (close_changed hc) h h.fdChanged
  | waits hw => exact h.wait hk (hG hw)
  | forked => exact h.spawn hk (by simp [Exited, forkChild]) rfl
  | cloned => exact NoStaleWait.setNextUp (h.spawn hk (by simp [Exited, cloneChild]) rfl) _
  | exited h₁ h₂ => exact h.exit hk h₁ h₂

theorem noStaleWait_step {k k' : Kernel} {e : Event} (hk : PidsInOrder k) (h : NoStaleWait k)
    (hG : WaitOk k e) (hs : step k e = some k') : PidsInOrder k' ∧ NoStaleWait k' := by
  refine step_induct (I := NoStaleWait) (G := WaitsOnLiving) ?_ ?_ ?_ ?_ hk h ?_ hs
  · exact fun k frame h => h.of_eq rfl
  · exact fun hk h hG he => h.effect hk hG he
  · rintro k k' i f - h (rfl | rfl) ht
    · exact h.modify ht.processList (fun _ => rfl) (fun _ => .inl rfl) fun _ => id
    · exact h.modify ht.processList (fun _ => rfl) (fun _ => .inl rfl) (by simp [Exited, setStatus])
  · exact fun _ h hy => h.yield hy
  · rintro frame env rfl
    exact hG

theorem boot_noStaleWait {m : Machine} {program : LoadedProgram} {execSize stack : Nat}
    {k : Kernel} (h : boot m program execSize stack = some k) : NoStaleWait k := by
  obtain ⟨stackPhys, hl, -⟩ := boot_cases h
  have hproc : ∀ {i p}, k.proc? i = some p → p.pidParent = 0 ∧ ¬ Exited p.status := by
    intro i p hp
    unfold Kernel.proc? at hp
    rw [hl] at hp
    match i with
    | 0 => exact (Option.some.inj hp) ▸ ⟨rfl, by simp [Exited, initKernelProcess]⟩
    | 1 => exact (Option.some.inj hp) ▸ ⟨rfl, by simp [Exited, initRootProcess]⟩
    | i + 2 => cases hp
  exact ⟨fun hc _ _ hex _ => absurd hex (hproc hc).2, fun hp => (hproc hp).1⟩

/-! ## No wake-up is lost, and how one is -/

/-- In every state that a run reaches whose `wait`s are all for processes that
have not ended, nobody waits for an ended child. The invariant is `NoStaleWait`
together with the order of the pids, and each step keeps both; a step that is a
`wait` is the only one that needs the condition. -/
theorem no_lost_wakeUp {m : Machine} {program : LoadedProgram} {execSize stack : Nat}
    {k₀ k : Kernel} {events : List Event} (hboot : boot m program execSize stack = some k₀)
    (hwait : Run.Along step WaitOk k₀ events) (hrun : Run.exec step k₀ events = some k) :
    ¬ LostWakeUp k := by
  have hI : PidsInOrder k ∧ NoStaleWait k :=
    Run.exec_invariant (I := fun k => PidsInOrder k ∧ NoStaleWait k) (P := WaitOk)
      (fun k e k' hI hG hs => noStaleWait_step hI.1 hI.2 hG hs)
      ⟨boot_pids hboot, boot_noStaleWait hboot⟩ hwait hrun
  rintro ⟨p, hp, c, hc, hstatus, hwaits, hparent, hex⟩
  obtain ⟨j, hj⟩ := List.mem_iff_getElem?.mp hp
  obtain ⟨i, hi⟩ := List.mem_iff_getElem?.mp hc
  have hne : i ≠ j := by
    rintro rfl
    obtain rfl := Option.some.inj (hi.symm.trans hj)
    rw [hstatus] at hex
    simp [Exited] at hex
  rw [hI.1.pid_eq hj] at hparent
  rw [hI.1.pid_eq hi] at hwaits
  exact hI.2.stale hi hj hne hex hparent hwaits

/-- The first process forks 2 and waits for it while it still runs. -/
def waitThenExit : List Event :=
  [callOf 4 0, callOf 6 0 forkEnv, callOf 8 2, callOf 7 0]

theorem no_lost_wakeUp_waitThenExit :
    ∃ k, Run.exec step smallKernel waitThenExit = some k ∧ ¬ LostWakeUp k :=
  have hrun : (Run.exec step smallKernel waitThenExit).isSome := by decide +kernel
  ⟨_, (Option.some_get hrun).symm,
    no_lost_wakeUp boot_small (by decide +kernel) (Option.some_get hrun).symm⟩

/-- The first process forks 2 and yields; 2 ends before it is waited for. -/
def exitThenWait : List Event :=
  [callOf 4 0, callOf 6 0 forkEnv, callOf 4 0, callOf 7 0, callOf 4 0, callOf 8 2]

theorem lost_wakeUp : ∃ k, Reachable k ∧ LostWakeUp k := by
  have hlost : (Run.exec step smallKernel exitThenWait).any fun k => decide (LostWakeUp k) := by
    decide +kernel
  obtain ⟨k, hrun, hk⟩ := (Option.any_eq_true _ _).mp hlost
  exact ⟨k, ⟨{}, {}, 0, 0x100000, _, exitThenWait, boot_small, hrun⟩, of_decide_eq_true hk⟩

end VersionSix.Process
