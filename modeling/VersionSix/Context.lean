import VersionSix.Handlers

/-!
# Saved contexts

The live frame is one variable that every handler writes to; a process that
is not current has its registers in its record. The history tells the two
apart from what they should be: `lastFrame` is the frame with which a
process last stopped being current, or the one it was created with.

`Saved` says that the record of every process that is not current holds its
last frame. It is kept by every step (`saved_step`), and so a switch loads
exactly that frame (`contexts_survive`). The second half of the argument is
that one step switches at most once (`step_cases`): the process switched to
is active, so the check at the end of `syscall_handler` lets it go.
-/

namespace VersionSix.Process

/-! ## The last frame of a process -/

/-- The frame of the newest event of the process `i`. -/
def lastFrame : List FrameEvent → Nat → Option Registers
  | [], _ => none
  | .created p frame :: events, i => if p = i then some frame else lastFrame events i
  | .stopped p frame :: events, i => if p = i then some frame else lastFrame events i

/-- Processes that are not current have their last frame in their record. -/
def Saved (k : Kernel) : Prop :=
  ∀ i p, i ≠ k.currentProcess → k.proc? i = some p → lastFrame k.history i = some p.context

/-! ## Effects and yields keep it -/

/-- Updates that keep the contexts, or change that of the current process. -/
theorem Saved.modify {k k' : Kernel} (h : Saved k) {i : Nat} {f : ProcessData → ProcessData}
    (hl : k'.processList = k.processList.modify i f) (hcur : k'.currentProcess = k.currentProcess)
    (hhist : k'.history = k.history) (hf : ∀ p, (f p).context = p.context) : Saved k' := by
  intro j p hj hp
  obtain ⟨q, hq, rfl⟩ := proc?_of_modify hl hp
  rw [hcur] at hj
  rw [hhist, h j q hj hq]
  split
  · rw [hf]
  · rfl

theorem Saved.touch {k k' : Kernel} (h : Saved k) {i : Nat} {f : ProcessData → ProcessData}
    (ht : Touch k k' i f) (hf : ∀ p, (f p).context = p.context) : Saved k' :=
  h.modify ht.processList ht.currentProcess ht.history hf

theorem Saved.setNextUp {k : Kernel} (h : Saved k) (p : Nat) : Saved (processSetNextUp k p) := h

theorem Saved.fdChanged {k : Kernel} (h : Saved k) (fds : List FdProcess) (g : List VfsFd) :
    Saved (fdChanged k fds g) := h.modify (f := setFds fds) rfl rfl rfl fun _ => rfl

theorem Saved.spawn {k : Kernel} (h : Saved k) (child : ProcessData)
    (memory : ByteStore.Bytes) (rax : UInt64) : Saved (spawn k child memory rax) := by
  intro i p hi hp
  have hi' : i ≠ k.currentProcess := hi
  rcases proc?_spawn hp with ⟨rfl, rfl⟩ | ⟨q, hq, rfl⟩
  · exact if_pos rfl
  · have hlt := proc?_lt hq
    rw [if_neg hi'.symm]
    have hne : k.processList.length ≠ i := by omega
    exact (if_neg hne).trans (h i q hi' hq)

theorem Saved.yield {k k' : Kernel} (h : Saved k) (hy : processSchedYield k = some k') :
    Saved k' ∧ (k'.currentProcess ≠ k.currentProcess →
      lastFrame k'.history k'.currentProcess = some k'.frame) := by
  rcases yield_cases hy with ⟨-, rfl⟩ | ⟨new, newP, pages, -, hne, hnew, -, rfl⟩
  · exact ⟨h, fun hc => absurd rfl hc⟩
  · constructor
    · intro i p hi hp
      have hi' : i ≠ new := hi
      unfold Kernel.proc? switched at hp
      simp only [List.getElem?_modify, if_neg hi'.symm] at hp
      rw [show (switched k new newP pages).history
        = .stopped k.currentProcess k.frame :: k.history from rfl, lastFrame]
      by_cases hold : k.currentProcess = i
      · rw [if_pos hold]
        obtain ⟨q, -, rfl⟩ := Option.map_eq_some_iff.mp (by simpa [if_pos hold] using hp)
        rfl
      · rw [if_neg hold]
        refine h i p (Ne.symm hold) ?_
        unfold Kernel.proc?
        simpa [if_neg hold] using hp
    · intro _
      exact (if_neg hne.symm).trans (h new newP hne hnew)

theorem Saved.effect {k k' : Kernel} (hk : PidsInOrder k) (h : Saved k) (he : Effect k k') :
    Saved k' := by
  cases he with
  | read hf ht => exact h.touch ht (by rcases hf with rfl | rfl <;> intro p <;> rfl)
  | wake hf ht => exact h.touch ht (by rcases hf with rfl | rfl <;> intro p <;> rfl)
  | opened ho => exact keeps_of_fdsChanged (open_changed ho) h h.fdChanged
  | closed hc => exact keeps_of_fdsChanged (close_changed hc) h h.fdChanged
  | waits => exact h.modify (f := waitFor _) rfl rfl rfl fun _ => rfl
  | forked => exact h.spawn _ _ _
  | cloned => exact Saved.setNextUp (h.spawn _ _ _) _
  | @exited k₁ k₂ fds returnCode h₁ h₂ =>
      have hk₁ := hk.closeFds h₁
      have hI₁ : Saved k₁ := keeps_of_fdsChanged (closeFds_changed h₁) h h.fdChanged
      have hI₂ : Saved k₂ := by
        obtain ⟨p, -, ⟨rfl, -⟩ | rfl⟩ := notify_cases hk₁ h₂
        · exact hI₁
        · exact hI₁.modify (f := wakeParent) rfl rfl rfl fun _ => rfl
      exact hI₂.modify (f := endProcess returnCode) rfl rfl rfl fun _ => rfl

theorem saved_step {k k' : Kernel} {e : Event} (hk : PidsInOrder k) (h : Saved k)
    (hs : step k e = some k') : PidsInOrder k' ∧ Saved k' := by
  refine step_induct (I := Saved) (G := fun _ => True) ?_ ?_ ?_ ?_ hk h ?_ hs
  · exact fun k frame h => h
  · exact fun hk h _ he => h.effect hk he
  · exact fun _ h hf ht => h.touch ht (by rcases hf with rfl | rfl <;> intro p <;> rfl)
  · exact fun _ h hy => (h.yield hy).1
  · exact fun _ _ _ => trivial

theorem boot_saved {m : Machine} {program : LoadedProgram} {execSize stack : Nat} {k : Kernel}
    (h : boot m program execSize stack = some k) : Saved k := by
  obtain ⟨stackPhys, hl, -, hcur, -, -, hhist⟩ := boot_cases h
  intro i p hi hp
  unfold Kernel.proc? at hp
  rw [hl] at hp
  rw [hcur] at hi
  rw [hhist]
  match i with
  | 0 => exact absurd rfl hi
  | 1 =>
      rw [← Option.some.inj hp]
      rfl
  | i + 2 => cases hp

theorem reachable_saved {k : Kernel} (h : Reachable k) : PidsInOrder k ∧ Saved k := by
  obtain ⟨m, program, execSize, stack, k₀, events, hboot, hrun⟩ := h
  exact Run.exec_invariant (I := fun k => PidsInOrder k ∧ Saved k) (P := fun _ _ => True)
    (fun k e k' hI _ hs => saved_step hI.1 hI.2 hs) ⟨boot_pids hboot, boot_saved hboot⟩
    (Run.along_true _ _) hrun

/-! ## One step switches at most once -/

theorem yield_active {k k' : Kernel} (h : processSchedYield k = some k')
    (hne : k'.currentProcess ≠ k.currentProcess) {p : ProcessData}
    (hp : k'.proc? k'.currentProcess = some p) : p.status = .active := by
  rcases yield_cases h with ⟨-, rfl⟩ | ⟨new, newP, pages, -, -, -, -, rfl⟩
  · exact absurd rfl hne
  · unfold Kernel.proc? switched at hp
    rw [List.getElem?_modify] at hp
    obtain ⟨q, -, rfl⟩ := Option.map_eq_some_iff.mp hp
    rw [if_pos rfl]
    rfl

theorem yield_same {k k' : Kernel} (h : processSchedYield k = some k')
    (heq : k'.currentProcess = k.currentProcess) : k' = { k with processNextUp := none } := by
  rcases yield_cases h with ⟨-, rfl⟩ | ⟨new, newP, pages, -, hne, -, -, rfl⟩
  · rfl
  · exact absurd heq hne

theorem step_cases {k k' : Kernel} {frame : Registers} {env : CallEnv} (hk : PidsInOrder k)
    (h : step k (.call frame env) = some k') :
    ∃ k₁ k₂, Effect { k with frame := frame } k₁ ∧
      (k₂ = k₁ ∨ k₂ = { k₁ with processNextUp := none }) ∧
      (k' = k₂ ∨ processSchedYield k₂ = some k') := by
  have hk₀ : PidsInOrder { k with frame := frame } := ⟨hk.pid_eq, hk.pidNext_eq, hk.current_lt⟩
  obtain ⟨k₂, h₂, h⟩ := Option.bind_eq_some_iff.mp h
  obtain ⟨k₁, heff, hrest⟩ := dispatch_cases hk₀ h₂
  obtain ⟨p, hp, h⟩ := Option.bind_eq_some_iff.mp h
  rcases hrest with rfl | hy
  · refine ⟨k₂, k₂, heff, .inl rfl, ?_⟩
    split at h
    · exact .inr h
    · exact .inl (Option.some.inj h).symm
  · by_cases heq : k₂.currentProcess = k₁.currentProcess
    · refine ⟨k₁, k₂, heff, .inr (yield_same hy heq), ?_⟩
      split at h
      · exact .inr h
      · exact .inl (Option.some.inj h).symm
    · rw [yield_active hy heq hp, if_neg (by decide)] at h
      obtain rfl := Option.some.inj h
      exact ⟨k₁, k₁, heff, .inl rfl, .inr hy⟩

/-! ## What is left unchanged -/

/-- `k'` has the records of `k` with the same contexts, except at `i`. -/
def KeepsContexts (k k' : Kernel) (i : Nat) : Prop :=
  ∀ j p, j ≠ i → k.proc? j = some p → ∃ p', k'.proc? j = some p' ∧ p'.context = p.context

theorem KeepsContexts.trans {k k₁ k' : Kernel} {i : Nat} (h : KeepsContexts k k₁ i)
    (h' : KeepsContexts k₁ k' i) : KeepsContexts k k' i := by
  intro j p hj hp
  obtain ⟨p₁, hp₁, hc₁⟩ := h j p hj hp
  obtain ⟨p', hp', hc'⟩ := h' j p₁ hj hp₁
  exact ⟨p', hp', hc'.trans hc₁⟩

theorem KeepsContexts.setNextUp {k k' : Kernel} {i : Nat} (h : KeepsContexts k k' i) (p : Nat) :
    KeepsContexts k (processSetNextUp k' p) i := h

theorem keepsContexts_of_modify {k k' : Kernel} {i c : Nat} {f : ProcessData → ProcessData}
    (hl : k'.processList = k.processList.modify i f) (hf : i = c ∨ ∀ p, (f p).context = p.context) :
    KeepsContexts k k' c := by
  intro j p hj hp
  unfold Kernel.proc? at hp ⊢
  rw [hl, List.getElem?_modify, hp]
  refine ⟨_, rfl, ?_⟩
  split
  · rcases hf with rfl | hf
    · exact absurd ‹i = j›.symm hj
    · exact hf p
  · rfl

theorem keepsContexts_fdChanged (k : Kernel) (fds : List FdProcess) (g : List VfsFd) (c : Nat) :
    KeepsContexts k (fdChanged k fds g) c :=
  keepsContexts_of_modify (f := setFds fds) rfl (.inr fun _ => rfl)

theorem keepsContexts_spawn (k : Kernel) (child : ProcessData) (memory : ByteStore.Bytes)
    (rax : UInt64) : KeepsContexts k (spawn k child memory rax) k.currentProcess := by
  intro j p hj hp
  refine ⟨p, ?_, rfl⟩
  unfold Kernel.proc? spawn at *
  have hlt := (List.getElem?_eq_some_iff.mp hp).1
  rw [List.getElem?_append_left (by simpa using hlt), List.getElem?_modify, hp]
  simp only [if_neg hj.symm]
  rfl

theorem keepsContexts_refl (k : Kernel) (c : Nat) : KeepsContexts k k c :=
  fun _ p _ hp => ⟨p, hp, rfl⟩

theorem Effect.keepsContexts {k k' : Kernel} (hk : PidsInOrder k) (h : Effect k k') :
    k'.currentProcess = k.currentProcess ∧ KeepsContexts k k' k.currentProcess := by
  have hfds : ∀ {k₁}, (k₁ = k ∨ ∃ fds g, k₁ = fdChanged k fds g) →
      k₁.currentProcess = k.currentProcess ∧ KeepsContexts k k₁ k.currentProcess := by
    rintro k₁ (rfl | ⟨fds, g, rfl⟩)
    · exact ⟨rfl, keepsContexts_refl _ _⟩
    · exact ⟨rfl, keepsContexts_fdChanged k fds g _⟩
  cases h with
  | read hf ht =>
      exact ⟨ht.currentProcess, keepsContexts_of_modify ht.processList (.inl rfl)⟩
  | wake hf ht =>
      refine ⟨ht.currentProcess, keepsContexts_of_modify ht.processList (.inr ?_)⟩
      rcases hf with rfl | rfl <;> intro p <;> rfl
  | opened ho => exact hfds (open_changed ho)
  | closed hc => exact hfds (close_changed hc)
  | waits => exact ⟨rfl, keepsContexts_of_modify (f := waitFor _) rfl (.inl rfl)⟩
  | forked => exact ⟨rfl, keepsContexts_spawn k _ _ _⟩
  | cloned => exact ⟨rfl, KeepsContexts.setNextUp (keepsContexts_spawn k _ _ _) _⟩
  | @exited k₁ k₂ fds returnCode h₁ h₂ =>
      have hstep₁ : k₁.currentProcess = k.currentProcess ∧ KeepsContexts k k₁ k.currentProcess :=
        hfds (closeFds_changed h₁)
      have hstep₂ : k₂.currentProcess = k₁.currentProcess ∧
        KeepsContexts k₁ k₂ k.currentProcess := by
        obtain ⟨p, -, ⟨rfl, -⟩ | rfl⟩ := notify_cases (hk.closeFds h₁) h₂
        · exact ⟨rfl, keepsContexts_refl _ _⟩
        · exact ⟨rfl, keepsContexts_of_modify (f := wakeParent) rfl (.inr fun _ => rfl)⟩
      refine ⟨hstep₂.1.trans hstep₁.1, (hstep₁.2.trans hstep₂.2).trans ?_⟩
      exact keepsContexts_of_modify (f := endProcess returnCode) rfl (.inr fun _ => rfl)

theorem yield_keepsContexts {k k' : Kernel} (h : processSchedYield k = some k') :
    KeepsContexts k k' k.currentProcess := by
  rcases yield_cases h with ⟨-, rfl⟩ | ⟨new, newP, pages, -, -, -, -, rfl⟩
  · exact keepsContexts_refl k _
  · have hout : KeepsContexts k (k.updateProc k.currentProcess (switchOut k.frame))
        k.currentProcess := keepsContexts_of_modify rfl (.inl rfl)
    exact hout.trans (keepsContexts_of_modify (f := switchIn) rfl (.inr fun _ => rfl))

/-! ## Contexts survive scheduling -/

/-- A step that makes another process current loads the frame with which it
last stopped being current, or with which it was created; and a step changes
no saved context but that of the process that was current before it. -/
theorem contexts_survive {k k' : Kernel} {e : Event} (hk : Reachable k)
    (hs : step k e = some k') :
    (k'.currentProcess ≠ k.currentProcess →
      lastFrame k'.history k'.currentProcess = some k'.frame) ∧
    ∀ i p, i ≠ k.currentProcess → k.proc? i = some p →
      ∃ p', k'.proc? i = some p' ∧ p'.context = p.context := by
  obtain ⟨hpids, hsaved⟩ := reachable_saved hk
  cases e with
  | call frame env =>
      obtain ⟨k₁, k₂, heff, hk₂, hrest⟩ := step_cases hpids hs
      have hk₀ : PidsInOrder { k with frame := frame } :=
        ⟨hpids.pid_eq, hpids.pidNext_eq, hpids.current_lt⟩
      have hI₁ : Saved k₁ := Saved.effect hk₀ hsaved heff
      obtain ⟨hcur₁, hkeep₁⟩ := heff.keepsContexts hk₀
      have hI₂ : Saved k₂ ∧ k₂.currentProcess = k₁.currentProcess ∧
          KeepsContexts k₁ k₂ k.currentProcess := by
        rcases hk₂ with rfl | rfl
        · exact ⟨hI₁, rfl, keepsContexts_refl _ _⟩
        · exact ⟨hI₁, rfl, keepsContexts_refl k₁ _⟩
      have hcur₂ : k₂.currentProcess = k.currentProcess := hI₂.2.1.trans hcur₁
      rcases hrest with rfl | hy
      · exact ⟨fun hne => absurd hcur₂ hne, hkeep₁.trans hI₂.2.2⟩
      · refine ⟨fun hne => (hI₂.1.yield hy).2 (by rwa [hcur₂]), ?_⟩
        have hkeep := yield_keepsContexts hy
        rw [hcur₂] at hkeep
        exact (hkeep₁.trans hI₂.2.2).trans hkeep
  | keyboard scancode =>
      obtain ⟨i, f, hf, ht⟩ := wake_touch (keyboard_cases hpids hs)
      refine ⟨fun hne => absurd ht.currentProcess hne, ?_⟩
      exact keepsContexts_of_modify ht.processList
        (.inr (by rcases hf with rfl | rfl <;> intro p <;> rfl))
  | serial byte =>
      obtain ⟨i, f, hf, ht⟩ := wake_touch (serial_cases hpids hs)
      refine ⟨fun hne => absurd ht.currentProcess hne, ?_⟩
      exact keepsContexts_of_modify ht.processList
        (.inr (by rcases hf with rfl | rfl <;> intro p <;> rfl))

/-- The first process forks, gives way to its child, which gives way to the
kernel. -/
def forkAndYield : List Event := [callOf 4 0, callOf 6 0 forkEnv, callOf 4 7, callOf 4 0]

/-- When the kernel yields after that, the first process gets the frame of its
own yield back. -/
theorem contexts_survive_forkAndYield :
    ∃ k k', Run.exec step smallKernel forkAndYield = some k ∧ step k (callOf 4 0) = some k' ∧
      k'.currentProcess = 1 ∧ lastFrame k'.history 1 = some k'.frame := by
  have hany : (Run.exec step smallKernel forkAndYield).any fun k =>
      (step k (callOf 4 0)).any fun k' => k.currentProcess == 0 && k'.currentProcess == 1 := by
    decide +kernel
  obtain ⟨k, hrun, hany⟩ := (Option.any_eq_true _ _).mp hany
  obtain ⟨k', hstep, hcur⟩ := (Option.any_eq_true _ _).mp hany
  simp only [Bool.and_eq_true, beq_iff_eq] at hcur
  have hlast := (contexts_survive
    ⟨{}, {}, 0, 0x100000, _, forkAndYield, boot_small, hrun⟩ hstep).1 (by omega)
  rw [hcur.2] at hlast
  exact ⟨k, k', hrun, hstep, hcur.2, hlast⟩

end VersionSix.Process
