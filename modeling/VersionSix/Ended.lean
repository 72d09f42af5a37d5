import VersionSix.WaitExit

/-!
# Processes that have ended

`exit` and `kbugs_kill` mark a process as waiting for death; the next yield
makes it dead. Four other places write the status of a process without
looking at it: the two ready functions of the input devices, the notification
of a parent, and the end of a yield. A process that is killed while it is in
a wait queue, or while it waits for a child, comes back to life there.

`dead_stays_dead` says that these are the only ways: a process that is killed
in neither state, or that ends by itself, is never runnable again. What
carries it is `RecordOk`, one condition on each record, which a process has to
meet when it ends and which nothing breaks afterwards.
-/

namespace VersionSix.Process

/-! ## `kbugs_kill` -/

/-- The parent with pid `pidParent` is woken if it waits for `pid`. -/
def notifyOf (k : Kernel) (pidParent pid : Nat) : Kernel :=
  match processGetDataFromPid k pidParent with
  | none => k
  | some pParent =>
      if (k.proc? pParent).any fun parent => parent.waitForPid == pid then
        processSetNextUp (k.updateProc pParent wakeParent) pParent
      else k

/-- `kbugs_kill` up to its yield; a pid that no process has is a `NULL`
pointer that is followed. -/
def kbugsKill (k : Kernel) (pid : Nat) : Option Kernel :=
  (processGetDataFromPid k pid).bind fun p =>
    (k.proc? p).map fun victim =>
      notifyOf (k.updateProc p (endProcess (-1))) victim.pidParent pid

/-- What happens to the kernel: a system call or an interrupt, or a kill in the
kernel debugger. `k_yield_in_int` enters the system call stub with 4 in `rax`. -/
inductive KernelEvent
  | event (e : Event)
  | kill (pid : Nat) (frame : Registers) (env : CallEnv)

def kernelStep (k : Kernel) : KernelEvent → Option Kernel
  | .event e => step k e
  | .kill pid frame env =>
      (kbugsKill k pid).bind fun k => step k (.call { frame with rax := 4 } env)

/-! ## Records that are in order -/

/-- What the state of a process says of the places that may write to it. -/
structure RecordOk (k : Kernel) (i : Nat) (p : ProcessData) : Prop where
  queued : i ∈ queuedPids k → p.status = .waiting ∧ p.waitForPid = 0
  waits : p.waitForPid ≠ 0 → p.status = .waiting ∨ Exited p.status
  childless : Exited p.status → ∀ {j c}, k.proc? j = some c → c.pidParent = i → p.waitForPid ≠ j
  nextUp : k.processNextUp = some i → p.status = .inactive
  notDead : k.currentProcess = i → p.status ≠ .dead

/-- Parents come first, a process is in one queue at most, and all records are
in order. This holds also in the middle of a call. -/
structure RecordsOk (k : Kernel) : Prop where
  pids : PidsInOrder k
  parents : ∀ {i p}, k.proc? i = some p → p.pidParent < i ∨ (i = 0 ∧ p.pidParent = 0)
  nodup : (queuedPids k).Nodup
  inList : ∀ {i}, i ∈ queuedPids k → i < k.processList.length
  records : ∀ {i p}, k.proc? i = some p → RecordOk k i p

/-- No process is set to be next and the current one has not ended. -/
structure Resting (k : Kernel) : Prop extends RecordsOk k where
  noNextUp : k.processNextUp = none
  living : ∀ {p}, k.proc? k.currentProcess = some p → ¬ Exited p.status

/-- Between two events; the current process does not wait either. -/
structure Between (k : Kernel) : Prop extends Resting k where
  running : ∀ {p}, k.proc? k.currentProcess = some p → p.status ≠ .waiting

/-- Who has ended in `k` has ended in `k'`. -/
def EndedStay (k k' : Kernel) : Prop :=
  ∀ ⦃i p⦄, k.proc? i = some p → Exited p.status → ∃ p', k'.proc? i = some p' ∧ Exited p'.status

theorem EndedStay.refl (k : Kernel) : EndedStay k k := fun _ _ hp hex => ⟨_, hp, hex⟩

theorem EndedStay.trans {k k₁ k' : Kernel} (h : EndedStay k k₁) (h' : EndedStay k₁ k') :
    EndedStay k k' := by
  intro i p hp hex
  obtain ⟨p₁, hp₁, hex₁⟩ := h hp hex
  exact h' hp₁ hex₁

/-- The condition on a step: the kernel's own process does not `exit`, and who
is killed is in no wait queue and waits for none of its children. -/
def EndsInOrder (k : Kernel) : KernelEvent → Prop
  | .event (.call frame _) => syscallOf frame.rax = .exit → k.currentProcess ≠ 0
  | .event _ => True
  | .kill pid _ _ => pid ∉ queuedPids k ∧
      ∀ p ∈ k.processList, p.pid = pid → ∀ c ∈ k.processList, c.pidParent = pid →
        p.waitForPid ≠ c.pid

instance (k : Kernel) : ∀ e, Decidable (EndsInOrder k e)
  | .event (.call _ _) => inferInstanceAs (Decidable (_ → _))
  | .event (.keyboard _) | .event (.serial _) => isTrue trivial
  | .kill _ _ _ => inferInstanceAs (Decidable (_ ∧ _))

/-! ## One record changes -/

theorem proc?_modify {k k' : Kernel} {i j : Nat} {f : ProcessData → ProcessData} {p : ProcessData}
    (hl : k'.processList = k.processList.modify i f) (hp : k.proc? j = some p) :
    k'.proc? j = some (if i = j then f p else p) := by
  unfold Kernel.proc? at hp ⊢
  rw [hl, List.getElem?_modify, hp]
  rfl

theorem proc?_updated {k : Kernel} {j : Nat} {p : ProcessData} (hp : k.proc? j = some p) (i : Nat)
    (f : ProcessData → ProcessData) :
    (k.updateProc i f).proc? j = some (if i = j then f p else p) :=
  proc?_modify rfl hp

/-- An update of the record `i`: the other records stay in order, so only that
one has to be looked at. -/
theorem RecordsOk.update {k k' : Kernel} (h : RecordsOk k) {i : Nat} {f : ProcessData → ProcessData}
    (hl : k'.processList = k.processList.modify i f) (hpids : PidsInOrder k')
    (hparent : ∀ p, (f p).pidParent = p.pidParent) (hnodup : (queuedPids k').Nodup)
    (hqueue : ∀ j ∈ queuedPids k', j ∈ queuedPids k ∨ j = k.currentProcess ∧ j = i)
    (hnext : ∀ j, j ≠ i → k'.processNextUp = some j → k.processNextUp = some j)
    (hcur : k'.currentProcess = k.currentProcess ∨
      ∀ p, k.proc? k'.currentProcess = some p → p.status ≠ .dead)
    (hrec : ∀ p, k.proc? i = some p → RecordOk k' i (f p)) : RecordsOk k' where
  pids := hpids
  parents {j p} hp := by
    obtain ⟨q, hq, rfl⟩ := proc?_of_modify hl hp
    split
    · rw [hparent]
      exact h.parents hq
    · exact h.parents hq
  nodup := hnodup
  inList {j} hj := by
    rw [hl, List.length_modify]
    rcases hqueue j hj with hj | ⟨rfl, -⟩
    · exact h.inList hj
    · exact h.pids.current_lt
  records {j p} hp := by
    obtain ⟨q, hq, rfl⟩ := proc?_of_modify hl hp
    by_cases hij : i = j
    · subst hij
      rw [if_pos rfl]
      exact hrec q hq
    · rw [if_neg hij]
      have hrec := h.records hq
      refine ⟨fun hj => ?_, hrec.waits, fun hex {a c} hc hpar => ?_,
        fun hj => hrec.nextUp (hnext j (Ne.symm hij) hj), fun hj => ?_⟩
      · rcases hqueue j hj with hj | ⟨-, rfl⟩
        · exact hrec.queued hj
        · exact absurd rfl hij
      · obtain ⟨c₀, hc₀, rfl⟩ := proc?_of_modify hl hc
        refine hrec.childless hex hc₀ ?_
        split at hpar
        · rwa [hparent] at hpar
        · exact hpar
      · rcases hcur with hcur | hcur
        · exact hrec.notDead (hcur ▸ hj)
        · subst hj
          exact hcur q hq

theorem EndedStay.update {k k' : Kernel} {i : Nat} {f : ProcessData → ProcessData}
    (hl : k'.processList = k.processList.modify i f)
    (hf : ∀ p, k.proc? i = some p → Exited p.status → Exited (f p).status) : EndedStay k k' := by
  intro j p hp hex
  refine ⟨_, proc?_modify hl hp, ?_⟩
  split
  · rename_i hij
    subst hij
    exact hf p hp hex
  · exact hex

/-- `k` and `k'` have the same records, wait queues and choice of the next process. -/
structure SameRecords (k k' : Kernel) : Prop where
  processList : k'.processList = k.processList
  pidNext : k'.pidNext = k.pidNext
  currentProcess : k'.currentProcess = k.currentProcess
  processNextUp : k'.processNextUp = k.processNextUp
  queued : queuedPids k' = queuedPids k

section Same

variable {k k' : Kernel}

theorem SameRecords.proc? (h : SameRecords k k') (i : Nat) : k'.proc? i = k.proc? i := by
  unfold Kernel.proc?
  rw [h.processList]

theorem SameRecords.endedStay (h : SameRecords k k') : EndedStay k k' :=
  fun _ _ hp hex => ⟨_, (h.proc? _).trans hp, hex⟩

theorem SameRecords.records (hs : SameRecords k k') (h : RecordsOk k) : RecordsOk k' where
  pids := by
    obtain ⟨h1, h2, h3⟩ := h.pids
    refine ⟨fun {i p} hp => h1 (hs.proc? i ▸ hp), ?_, ?_⟩
    · rw [hs.pidNext, hs.processList]
      exact h2
    · rw [hs.currentProcess, hs.processList]
      exact h3
  parents hp := h.parents (hs.proc? _ ▸ hp)
  nodup := hs.queued ▸ h.nodup
  inList hi := by
    rw [hs.processList]
    exact h.inList (hs.queued ▸ hi)
  records {i p} hp := by
    obtain ⟨h1, h2, h3, h4, h5⟩ := h.records (hs.proc? i ▸ hp)
    exact ⟨fun hi => h1 (hs.queued ▸ hi), h2, fun hex _ _ hc => h3 hex (hs.proc? _ ▸ hc),
      fun hi => h4 (hs.processNextUp ▸ hi), fun hi => h5 (hs.currentProcess ▸ hi)⟩

theorem SameRecords.resting (hs : SameRecords k k') (h : Resting k) : Resting k' where
  toRecordsOk := hs.records h.toRecordsOk
  noNextUp := hs.processNextUp.trans h.noNextUp
  living hp := by
    rw [hs.proc?, hs.currentProcess] at hp
    exact h.living hp

theorem SameRecords.between (hs : SameRecords k k') (h : Between k) : Between k' where
  toResting := hs.resting h.toResting
  running hp := by
    rw [hs.proc?, hs.currentProcess] at hp
    exact h.running hp

theorem Untouched.same (h : Untouched k k') : SameRecords k k' :=
  have hq := h.quiet 0
  ⟨by rw [hq.processList, List.modify_id], hq.pidNext, hq.currentProcess, hq.processNextUp,
    h.queued⟩

end Same

/-! ## Handlers that end nobody -/

section Keeps

variable {k k' : Kernel}

theorem Resting.not_nextUp (h : Resting k) {i : Nat} {P : Prop}
    (hn : k.processNextUp = some i) : P := by
  rw [h.noNextUp] at hn
  cases hn

/-- The current process between two events: it is in no queue and waits for nobody. -/
theorem Between.current (h : Between k) {p : ProcessData} (hp : k.proc? k.currentProcess = some p) :
    k.currentProcess ∉ queuedPids k ∧ p.waitForPid = 0 := by
  have hrec := h.records hp
  refine ⟨fun hq => h.running hp (hrec.queued hq).1, ?_⟩
  by_contra hne
  rcases hrec.waits hne with hw | hex
  · exact h.running hp hw
  · exact h.living hp hex

/-- An update that a record's place does not depend on. -/
structure Mild (f : ProcessData → ProcessData) : Prop where
  pid : ∀ p, (f p).pid = p.pid
  pidParent : ∀ p, (f p).pidParent = p.pidParent
  status : ∀ p, (f p).status = p.status
  waitForPid : ∀ p, (f p).waitForPid = p.waitForPid

theorem mild_setFds (fds : List FdProcess) : Mild (setFds fds) :=
  ⟨fun _ => rfl, fun _ => rfl, fun _ => rfl, fun _ => rfl⟩

theorem RecordOk.mild {f : ProcessData → ProcessData} (hf : Mild f) {i : Nat} {p : ProcessData}
    (h : RecordOk k i p) : RecordOk k i (f p) := by
  obtain ⟨h1, h2, h3, h4, h5⟩ := h
  constructor
  all_goals
    simp only [hf.status, hf.waitForPid]
    assumption

/-- A mild update of the current record, other fields of the kernel as they are. -/
theorem RecordsOk.mild {f : ProcessData → ProcessData} (hf : Mild f) (h : RecordsOk k)
    (hl : k'.processList = k.processList.modify k.currentProcess f)
    (hpid : k'.pidNext = k.pidNext) (hcur : k'.currentProcess = k.currentProcess)
    (hnext : k'.processNextUp = k.processNextUp) (hq : queuedPids k' = queuedPids k) :
    RecordsOk k' ∧ EndedStay k k' := by
  have hsame : SameRecords (k.updateProc k.currentProcess f) k' := ⟨hl, hpid, hcur, hnext, hq⟩
  have hpids := h.pids.updateProc k.currentProcess hf.pid
  refine ⟨hsame.records (h.update (i := k.currentProcess) (f := f) rfl hpids hf.pidParent h.nodup
    (fun j hj => .inl hj) (fun j _ hj => hj) (.inl rfl) fun p hp => ?_), ?_⟩
  · have hrec := (h.records hp).mild hf
    refine ⟨hrec.queued, hrec.waits, fun hex {j c} hc hpar => ?_, hrec.nextUp, hrec.notDead⟩
    obtain ⟨c₀, hc₀, rfl⟩ := proc?_of_modify rfl hc
    refine hrec.childless hex hc₀ ?_
    split at hpar
    · rwa [hf.pidParent] at hpar
    · exact hpar
  · refine EndedStay.update hl fun p _ hex => ?_
    rwa [hf.status]

theorem Between.mild {f : ProcessData → ProcessData} (hf : Mild f) (h : Between k)
    (hl : k'.processList = k.processList.modify k.currentProcess f)
    (hpid : k'.pidNext = k.pidNext) (hcur : k'.currentProcess = k.currentProcess)
    (hnext : k'.processNextUp = k.processNextUp) (hq : queuedPids k' = queuedPids k) :
    Between k' ∧ EndedStay k k' := by
  obtain ⟨hrec, hstay⟩ := h.toRecordsOk.mild hf hl hpid hcur hnext hq
  refine ⟨⟨⟨hrec, hnext.trans h.noNextUp, fun hp => ?_⟩, fun hp => ?_⟩, hstay⟩
  all_goals
    rw [hcur] at hp
    obtain ⟨q, hq, rfl⟩ := proc?_of_modify hl hp
    rw [if_pos rfl, hf.status]
  · exact h.living hq
  · exact h.running hq

theorem Between.fdChanged (h : Between k) (fds : List FdProcess) (g : List VfsFd) :
    Between (fdChanged k fds g) ∧ EndedStay k (fdChanged k fds g) :=
  h.mild (mild_setFds fds) rfl rfl rfl rfl rfl

theorem Blocks.rests (hb : Blocks k k') (h : Between k) : Resting k' ∧ EndedStay k k' := by
  obtain ⟨p, hp⟩ := exists_proc? h.pids.current_lt
  obtain ⟨hout, hwait⟩ := h.current hp
  have ht := hb.touch
  have hnodup : (queuedPids k').Nodup :=
    hb.queued.nodup_iff.mpr (List.nodup_cons.mpr ⟨hout, h.nodup⟩)
  have hrest : RecordsOk k' := by
    refine h.toRecordsOk.update ht.processList (ht.pids h.pids fun _ => rfl) (fun _ => rfl) hnodup
      (fun j hj => ?_) (fun j _ hj => ht.processNextUp ▸ hj) (.inl ht.currentProcess) fun q hq => ?_
    · rcases List.mem_cons.mp (hb.queued.mem_iff.mp hj) with rfl | hj
      · exact .inr ⟨rfl, rfl⟩
      · exact .inl hj
    · obtain rfl := Option.some.inj (hp.symm.trans hq)
      refine ⟨fun _ => ⟨rfl, hwait⟩, fun _ => .inl rfl, fun hex => ?_, fun hn => ?_, fun _ => ?_⟩
      · rcases hex with hex | hex <;> cases hex
      · exact h.not_nextUp (ht.processNextUp ▸ hn)
      · exact ProcessStatus.noConfusion
  refine ⟨⟨hrest, ht.processNextUp.trans h.noNextUp, fun {q} hq => ?_⟩, ?_⟩
  · rw [ht.currentProcess] at hq
    obtain ⟨q₀, -, rfl⟩ := proc?_of_modify ht.processList hq
    rw [if_pos rfl]
    rintro (hex | hex) <;> cases hex
  · exact EndedStay.update ht.processList fun q hq hex => absurd hex (h.living hq)

theorem Wakes.between {i : Nat} (hw : Wakes k k' i) (h : Between k) :
    Between k' ∧ EndedStay k k' := by
  have ht := hw.touch
  have hin : i ∈ queuedPids k := hw.queued.mem_iff.mpr List.mem_cons_self
  obtain ⟨hout, hnodup⟩ := List.nodup_cons.mp (hw.queued.nodup_iff.mp h.nodup)
  have hrec : RecordsOk k' := by
    refine h.toRecordsOk.update ht.processList (ht.pids h.pids fun _ => rfl) (fun _ => rfl) hnodup
      (fun j hj => .inl (hw.queued.mem_iff.mpr (List.mem_cons_of_mem _ hj)))
      (fun j _ hj => ht.processNextUp ▸ hj) (.inl ht.currentProcess) fun p hp => ?_
    have hzero := ((h.records hp).queued hin).2
    refine ⟨fun hq => absurd hq hout, fun hne => absurd hzero hne, fun hex => ?_, fun _ => rfl,
      fun _ => ?_⟩
    · rcases hex with hex | hex <;> cases hex
    · exact ProcessStatus.noConfusion
  have hcur : ∀ {p}, k'.proc? k'.currentProcess = some p → k.proc? k.currentProcess = some p := by
    intro p hp
    rw [ht.currentProcess] at hp
    obtain ⟨q, hq, rfl⟩ := proc?_of_modify ht.processList hp
    have hne : i ≠ k.currentProcess := by
      rintro rfl
      exact (h.current hq).1 hin
    rw [if_neg hne]
    exact hq
  refine ⟨⟨⟨hrec, ht.processNextUp.trans h.noNextUp, fun hp => h.living (hcur hp)⟩,
    fun hp => h.running (hcur hp)⟩, EndedStay.update ht.processList fun p hp hex => ?_⟩
  rw [((h.records hp).queued hin).1] at hex
  rcases hex with hex | hex <;> cases hex

theorem Between.waits (h : Between k) (pid : Nat) :
    Resting (waitSyscallHandler k pid) ∧ EndedStay k (waitSyscallHandler k pid) := by
  obtain ⟨p, hp⟩ := exists_proc? h.pids.current_lt
  have hout := (h.current hp).1
  have hrec : RecordsOk (waitSyscallHandler k pid) := by
    refine h.toRecordsOk.update (f := waitFor pid) rfl (h.pids.updateProc _ fun _ => rfl)
      (fun _ => rfl) h.nodup (fun j hj => .inl hj) (fun j _ hj => hj) (.inl rfl) fun q _ => ?_
    refine ⟨fun hq => absurd hq hout, fun _ => .inl rfl, fun hex => ?_, fun hn => h.not_nextUp hn,
      fun _ => ?_⟩
    · rcases hex with hex | hex <;> cases hex
    · exact ProcessStatus.noConfusion
  refine ⟨⟨hrec, h.noNextUp, fun {q} hq => ?_⟩, ?_⟩
  · obtain ⟨q₀, -, rfl⟩ := proc?_of_modify (k := k) (f := waitFor pid) rfl hq
    rw [if_pos (show k.currentProcess = (waitSyscallHandler k pid).currentProcess from rfl)]
    rintro (hex | hex) <;> cases hex
  · exact EndedStay.update (f := waitFor pid) rfl fun q hq hex => absurd hex (h.living hq)

end Keeps

/-! ## The scheduler -/

section Yield

variable {k k' : Kernel}

theorem nextProcess_schedulable {l : List ProcessData} {fuel node i : Nat}
    (h : nextProcess l fuel node = some i) : ∃ p, l[i]? = some p ∧ schedulable p.status = true := by
  induction fuel generalizing node with
  | zero => cases h
  | succ fuel ih =>
      unfold nextProcess at h
      dsimp only at h
      generalize (if node + 1 < l.length then node + 1 else 0) = next at h
      cases hp : l[next]? with
      | none =>
          rw [hp] at h
          cases h
      | some p =>
          rw [hp] at h
          dsimp only at h
          split at h
          · obtain rfl := Option.some.inj h
            exact ⟨p, hp, ‹_›⟩
          · exact ih h

theorem RecordsOk.selected (h : RecordsOk k) {i : Nat} (hsel : selectNext k = some i)
    {p : ProcessData} (hp : k.proc? i = some p) : schedulable p.status = true := by
  unfold selectNext at hsel
  cases hn : k.processNextUp with
  | some j =>
      rw [hn] at hsel
      obtain rfl := Option.some.inj hsel
      rw [(h.records hp).nextUp hn]
      rfl
  | none =>
      rw [hn] at hsel
      obtain ⟨q, hq, hs⟩ := nextProcess_schedulable hsel
      obtain rfl := Option.some.inj (hq.symm.trans hp)
      exact hs

theorem schedulable_cases {s : ProcessStatus} (h : schedulable s = true) :
    s ≠ .waiting ∧ ¬ Exited s := by
  revert h
  cases s <;> decide

theorem statusAfterSwitch_cases (s : ProcessStatus) :
    (s = .waiting → statusAfterSwitch s = .waiting) ∧
      (Exited s → s ≠ .dead → Exited (statusAfterSwitch s)) ∧
      (Exited (statusAfterSwitch s) → Exited s) := by
  cases s <;> decide

/-- The first half of a switch: the outgoing process is dead if it waited for
death. -/
theorem RecordsOk.outgoing (h : RecordsOk k) (k' : Kernel) {new : Nat}
    (hne : new ≠ k.currentProcess)
    {newP : ProcessData} (hnew : k.proc? new = some newP) (hs : schedulable newP.status = true)
    (hl : k'.processList = k.processList.modify k.currentProcess (switchOut k.frame))
    (hpid : k'.pidNext = k.pidNext) (hcur : k'.currentProcess = new)
    (hnext : k'.processNextUp = none) (hq : queuedPids k' = queuedPids k) :
    RecordsOk k' ∧ EndedStay k k' := by
  have hpids : PidsInOrder k' := by
    obtain ⟨h1, h2, h3⟩ := h.pids.updateProc k.currentProcess (switchOut_keepsLayout k.frame).pid
    refine ⟨fun {i p} hp => h1 (i := i) ?_, ?_, ?_⟩
    · unfold Kernel.proc? at hp ⊢
      rwa [hl] at hp
    · rw [hpid, hl]
      exact h2
    · rw [hcur, hl, List.length_modify]
      exact proc?_lt hnew
  refine ⟨h.update hl hpids (fun _ => rfl) (hq ▸ h.nodup) (fun j hj => .inl (hq ▸ hj))
    (fun j _ hj => by rw [hnext] at hj; cases hj) (.inr fun p hp => ?_) fun p hp => ?_, ?_⟩
  · rw [hcur] at hp
    obtain rfl := Option.some.inj (hnew.symm.trans hp)
    rintro hdead
    exact (schedulable_cases hs).2 (.inl hdead)
  · have hrec := h.records hp
    obtain ⟨hwaiting, hexited, hback⟩ := statusAfterSwitch_cases p.status
    refine ⟨fun hi => ?_, fun hw => ?_, fun hex {j c} hc hpar => ?_, fun hn => ?_, fun hi => ?_⟩
    · obtain ⟨hst, hz⟩ := hrec.queued (hq ▸ hi)
      exact ⟨hwaiting hst, hz⟩
    · exact (hrec.waits hw).imp hwaiting fun hex => hexited hex (hrec.notDead rfl)
    · obtain ⟨c₀, hc₀, rfl⟩ := proc?_of_modify hl hc
      refine hrec.childless (hback hex) hc₀ ?_
      split at hpar <;> exact hpar
    · rw [hnext] at hn
      cases hn
    · exact absurd (hcur.symm.trans hi) hne
  · exact EndedStay.update hl fun p hp hex =>
      (statusAfterSwitch_cases p.status).2.1 hex ((h.records hp).notDead rfl)

theorem RecordsOk.yield (h : RecordsOk k) (hy : processSchedYield k = some k') :
    Between k' ∧ EndedStay k k' := by
  rcases yield_cases hy with ⟨hsel, rfl⟩ | ⟨new, newP, pages, hsel, hne, hnew, -, rfl⟩
  · have hrec : RecordsOk { k with processNextUp := none } := by
      refine ⟨⟨h.pids.pid_eq, h.pids.pidNext_eq, h.pids.current_lt⟩, h.parents, h.nodup, h.inList,
        fun hp => ?_⟩
      obtain ⟨h1, h2, h3, -, h5⟩ := h.records hp
      exact ⟨h1, h2, h3, fun hn => (by cases hn), h5⟩
    refine ⟨⟨⟨hrec, rfl, fun hp => ?_⟩, fun hp => ?_⟩, EndedStay.refl k⟩
    · exact (schedulable_cases (h.selected hsel hp)).2
    · exact (schedulable_cases (h.selected hsel hp)).1
  · have hs := h.selected hsel hnew
    obtain ⟨hout, hstay⟩ := h.outgoing { k.updateProc k.currentProcess (switchOut k.frame)
      with processNextUp := none, currentProcess := new } hne hnew hs rfl rfl rfl rfl rfl
    have hnew' := proc?_updated hnew k.currentProcess (switchOut k.frame)
    rw [if_neg (Ne.symm hne)] at hnew'
    have hin : RecordsOk (switched k new newP pages) := by
      refine hout.update (i := new) (f := switchIn) rfl (h.pids.switched hnew) (fun _ => rfl)
        hout.nodup (fun j hj => .inl hj) (fun j _ hj => hj) (.inl rfl) fun p hp => ?_
      obtain rfl := Option.some.inj (hnew'.symm.trans hp)
      have hrec := hout.records hp
      obtain ⟨hwait, hliving⟩ := schedulable_cases hs
      refine ⟨fun hi => absurd (hrec.queued hi).1 hwait, fun hw => ?_, fun hex => ?_,
        fun hn => (by cases hn), fun _ => ?_⟩
      · exact ((hrec.waits hw).elim hwait hliving).elim
      · rcases hex with hex | hex <;> cases hex
      · exact ProcessStatus.noConfusion
    have hactive : ∀ {p}, (switched k new newP pages).proc? new = some p → p.status = .active := by
      intro p hp
      obtain ⟨q, -, rfl⟩ := proc?_of_modify
        (k := k.updateProc k.currentProcess (switchOut k.frame)) (f := switchIn) rfl hp
      rw [if_pos rfl]
      rfl
    refine ⟨⟨⟨hin, rfl, fun hp => ?_⟩, fun hp => ?_⟩, hstay.trans (EndedStay.update
      (f := switchIn) (i := new) rfl fun p hp hex => ?_)⟩
    · rw [hactive hp]
      decide
    · rw [hactive hp]
      decide
    · obtain rfl := Option.some.inj (hnew'.symm.trans hp)
      exact absurd hex (schedulable_cases hs).2

end Yield

/-! ## New children -/

theorem Between.spawn {k : Kernel} (h : Between k) (child : ProcessData)
    (hpid : child.pid = k.pidNext) (hparent : child.pidParent = k.currentProcess)
    (hstatus : child.status = .inactive) (hwait : child.waitForPid = 0) (memory : ByteStore.Bytes)
    (rax : UInt64) : Between (spawn k child memory rax) ∧
    EndedStay k (spawn k child memory rax) := by
  have hold : ∀ {i q}, (Process.spawn k child memory rax).proc? i = some q →
      i < k.processList.length → ∃ q₀, k.proc? i = some q₀ ∧ q.pidParent = q₀.pidParent ∧
        q.status = q₀.status ∧ q.waitForPid = q₀.waitForPid := by
    intro i q hq hi
    rcases proc?_spawn hq with ⟨rfl, -⟩ | ⟨q₀, hq₀, rfl⟩
    · omega
    · refine ⟨q₀, hq₀, ?_⟩
      split <;> exact ⟨rfl, rfl, rfl⟩
  have hchild : ∀ {i q}, (Process.spawn k child memory rax).proc? i = some q →
      ¬ i < k.processList.length → i = k.processList.length ∧ q = child := by
    intro i q hq hi
    rcases proc?_spawn hq with hnew | ⟨q₀, hq₀, -⟩
    · exact hnew
    · exact absurd (proc?_lt hq₀) hi
  have hrec : RecordsOk (Process.spawn k child memory rax) := by
    refine ⟨h.pids.spawn hpid memory rax, fun {i q} hq => ?_, h.nodup, fun {i} hi => ?_,
      fun {i q} hq => ?_⟩
    · by_cases hi : i < k.processList.length
      · obtain ⟨q₀, hq₀, hpar, -⟩ := hold hq hi
        rw [hpar]
        exact h.parents hq₀
      · obtain ⟨rfl, rfl⟩ := hchild hq hi
        rw [hparent]
        exact .inl h.pids.current_lt
    · rw [length_spawn]
      exact (h.inList hi).trans (Nat.lt_succ_self _)
    · by_cases hi : i < k.processList.length
      · obtain ⟨q₀, hq₀, -, hst, hw⟩ := hold hq hi
        obtain ⟨h1, h2, h3, h4, h5⟩ := h.records hq₀
        refine ⟨?_, ?_, fun hex {j c} hc hpar => ?_, fun hn => h.not_nextUp hn, ?_⟩
        · rwa [hst, hw]
        · rwa [hst, hw]
        · rw [hst] at hex
          rw [hw]
          by_cases hj : j < k.processList.length
          · obtain ⟨c₀, hc₀, hpar₀, -⟩ := hold hc hj
            exact h3 hex hc₀ (hpar₀.symm.trans hpar)
          · -- the new process is a child of the one that runs
            obtain ⟨-, rfl⟩ := hchild hc hj
            rw [hparent] at hpar
            subst hpar
            exact absurd hex (h.living hq₀)
        · rwa [hst]
      · obtain ⟨rfl, rfl⟩ := hchild hq hi
        refine ⟨fun hin => absurd (h.inList hin) (lt_irrefl _), fun hne => absurd hwait hne,
          fun hex => ?_, fun hn => h.not_nextUp hn, fun _ => ?_⟩
        · rw [hstatus] at hex
          rcases hex with hex | hex <;> cases hex
        · rw [hstatus]
          decide
  refine ⟨⟨⟨hrec, h.noNextUp, fun hp => ?_⟩, fun hp => ?_⟩, fun i p hp hex => ?_⟩
  · obtain ⟨q₀, hq₀, -, hst, -⟩ := hold hp h.pids.current_lt
    rw [hst]
    exact h.living hq₀
  · obtain ⟨q₀, hq₀, -, hst, -⟩ := hold hp h.pids.current_lt
    rw [hst]
    exact h.running hq₀
  · obtain ⟨q, hq⟩ := exists_proc? (k := Process.spawn k child memory rax) (i := i)
      (by rw [length_spawn]; exact (proc?_lt hp).trans (Nat.lt_succ_self _))
    obtain ⟨q₀, hq₀, -, hst, -⟩ := hold hq (proc?_lt hp)
    obtain rfl := Option.some.inj (hp.symm.trans hq₀)
    exact ⟨q, hq, hst ▸ hex⟩

/-! ## The end of a process -/

section Ends

variable {k k' : Kernel}

theorem notifyParent_eq (h : notifyParent k = some k') :
    ∃ p, k.proc? k.currentProcess = some p ∧ k' = notifyOf k p.pidParent p.pid := by
  obtain ⟨p, hp, rfl⟩ := Option.map_eq_some_iff.mp h
  exact ⟨p, hp, rfl⟩

theorem notifyOf_cases (hk : PidsInOrder k) (pidParent pid : Nat) :
    notifyOf k pidParent pid = k ∨ ∃ parent, k.proc? pidParent = some parent ∧
      parent.waitForPid = pid ∧ notifyOf k pidParent pid =
        processSetNextUp (k.updateProc pidParent wakeParent) pidParent := by
  unfold notifyOf
  split
  · exact .inl rfl
  · rename_i pParent hfind
    obtain ⟨rfl, parent, hparent⟩ := hk.find_some hfind
    split
    · rename_i hwait
      rw [hparent, Option.any_some, beq_iff_eq] at hwait
      exact .inr ⟨parent, hparent, hwait, rfl⟩
    · exact .inl rfl

/-- Telling the parent of `i` wakes nobody who has ended, and nobody who is in
a wait queue. -/
theorem RecordsOk.notify (h : RecordsOk k) {i : Nat} {p : ProcessData} (hp : k.proc? i = some p)
    (hi : i ≠ 0 ∨ Exited p.status) :
    RecordsOk (notifyOf k p.pidParent i) ∧ EndedStay k (notifyOf k p.pidParent i) := by
  rcases notifyOf_cases h.pids p.pidParent i with heq | ⟨parent, hparent, hwait, heq⟩
  · rw [heq]
    exact ⟨h, EndedStay.refl k⟩
  rw [heq]
  have hparentOk := h.records hparent
  have hliving : ¬ Exited parent.status := fun hex => hparentOk.childless hex hp rfl hwait
  have hzero : i ≠ 0 := by
    rintro rfl
    rcases hi with hi | hi
    · exact hi rfl
    · rcases h.parents hp with hlt | ⟨-, hself⟩
      · exact absurd hlt (Nat.not_lt_zero _)
      · rw [hself] at hparent
        obtain rfl := Option.some.inj (hp.symm.trans hparent)
        exact hliving hi
  have hout : p.pidParent ∉ queuedPids k := fun hin => hzero (hwait ▸ (hparentOk.queued hin).2)
  refine ⟨h.update (i := p.pidParent) (f := wakeParent) rfl
    (PidsInOrder.setNextUp (h.pids.updateProc p.pidParent (f := wakeParent) fun _ => rfl) _)
    (fun _ => rfl) h.nodup (fun j hj => .inl hj)
    (fun j hj hn => absurd (Option.some.inj hn).symm hj) (.inl rfl) fun q _ => ?_, ?_⟩
  · refine ⟨fun hin => absurd hin hout, fun hne => absurd rfl hne, fun hex => ?_, fun _ => rfl,
      fun _ => ?_⟩
    · rcases hex with hex | hex <;> cases hex
    · exact ProcessStatus.noConfusion
  · refine EndedStay.update (i := p.pidParent) (f := wakeParent) rfl fun q hq hex => ?_
    obtain rfl := Option.some.inj (hparent.symm.trans hq)
    exact absurd hex hliving

theorem exited_endProcess (returnCode : Int) (p : ProcessData) :
    Exited (endProcess returnCode p).status := .inr rfl

theorem Between.exits (h : Between k) (hzero : k.currentProcess ≠ 0) {k₁ : Kernel}
    (hn : notifyParent k = some k₁) (returnCode : Int) :
    RecordsOk (k₁.updateProc k₁.currentProcess (endProcess returnCode)) ∧
      EndedStay k (k₁.updateProc k₁.currentProcess (endProcess returnCode)) ∧
      k₁.currentProcess = k.currentProcess := by
  obtain ⟨p, hp, rfl⟩ := notifyParent_eq hn
  rw [h.pids.pid_eq hp]
  have hout := h.current hp
  obtain ⟨hrec, hstay⟩ := h.toRecordsOk.notify hp (.inl hzero)
  have hself : p.pidParent ≠ k.currentProcess := by
    rcases h.parents hp with hlt | ⟨hz, -⟩
    · exact hlt.ne
    · exact absurd hz hzero
  -- the parent is somebody else: the record of the caller is as it was
  have hsame : (notifyOf k p.pidParent k.currentProcess).currentProcess = k.currentProcess ∧
      queuedPids (notifyOf k p.pidParent k.currentProcess) = queuedPids k ∧
      (notifyOf k p.pidParent k.currentProcess).proc? k.currentProcess = some p ∧
      (notifyOf k p.pidParent k.currentProcess).processNextUp ≠ some k.currentProcess := by
    rcases notifyOf_cases h.pids p.pidParent k.currentProcess with heq | ⟨parent, -, -, heq⟩
    · rw [heq]
      exact ⟨rfl, rfl, hp, fun hn => h.not_nextUp hn⟩
    · rw [heq]
      refine ⟨rfl, rfl, ?_, fun hn => hself (Option.some.inj hn)⟩
      have := proc?_updated hp p.pidParent wakeParent
      rwa [if_neg hself] at this
  obtain ⟨hcur, hqueue, hproc, hnot⟩ := hsame
  refine ⟨?_, hstay.trans (EndedStay.update rfl fun q _ _ => exited_endProcess returnCode q), hcur⟩
  refine hrec.update (f := endProcess returnCode) rfl (hrec.pids.updateProc _ fun _ => rfl)
    (fun _ => rfl) hrec.nodup (fun j hj => .inl hj) (fun j _ hj => hj) (.inl rfl) fun q hq => ?_
  rw [hcur, hproc] at hq
  obtain rfl := Option.some.inj hq
  rw [hcur]
  refine ⟨fun hin => ?_, fun _ => .inr (exited_endProcess returnCode _), fun _ {j c} hc hpar => ?_,
    fun hn => absurd hn hnot, fun _ => ?_⟩
  · exact absurd (show k.currentProcess ∈ queuedPids k from hqueue ▸ hin) hout.1
  · rw [show (endProcess returnCode p).waitForPid = 0 from hout.2]
    rintro rfl
    obtain ⟨c₀, hc₀, rfl⟩ := proc?_of_modify (f := endProcess returnCode) rfl hc
    have hpar₀ : c₀.pidParent = k.currentProcess := by
      split at hpar <;> exact hpar
    rcases hrec.parents hc₀ with hlt | ⟨-, hz⟩
    · exact absurd hlt (Nat.not_lt_zero _)
    · exact hzero (hpar₀.symm.trans hz)
  · exact ProcessStatus.noConfusion

/-- Somebody who is killed in no wait queue and without a child it waits for. -/
theorem Between.killed (h : Between k) {pid : Nat} (hout : pid ∉ queuedPids k)
    (hchildless : ∀ p ∈ k.processList, p.pid = pid → ∀ c ∈ k.processList, c.pidParent = pid →
      p.waitForPid ≠ c.pid) (hkill : kbugsKill k pid = some k') :
    RecordsOk k' ∧ EndedStay k k' ∧ ∃ p, k'.proc? pid = some p ∧ Exited p.status := by
  obtain ⟨i, hi, hkill⟩ := Option.bind_eq_some_iff.mp hkill
  obtain ⟨rfl, -⟩ := h.pids.find_some hi
  obtain ⟨p, hp, rfl⟩ := Option.map_eq_some_iff.mp hkill
  have hpids := h.pids.updateProc i (f := endProcess (-1)) fun _ => rfl
  have hend : RecordsOk (k.updateProc i (endProcess (-1))) := by
    refine h.toRecordsOk.update (f := endProcess (-1)) rfl hpids (fun _ => rfl) h.nodup
      (fun j hj => .inl hj) (fun j _ hj => hj) (.inl rfl) fun q hq => ?_
    refine ⟨fun hin => absurd hin hout, fun _ => .inr (exited_endProcess _ _),
      fun _ {j c} hc hpar => ?_, fun hn => h.not_nextUp hn, fun _ => ?_⟩
    · obtain ⟨c₀, hc₀, rfl⟩ := proc?_of_modify (f := endProcess (-1)) rfl hc
      have hpar₀ : c₀.pidParent = i := by
        split at hpar <;> exact hpar
      rw [← h.pids.pid_eq hc₀]
      exact hchildless q (List.mem_of_getElem? hq) (h.pids.pid_eq hq) c₀
        (List.mem_of_getElem? hc₀) hpar₀
    · exact ProcessStatus.noConfusion
  have hp' := proc?_updated hp i (endProcess (-1))
  rw [if_pos rfl] at hp'
  obtain ⟨hrec, hstay⟩ := hend.notify hp' (.inr (exited_endProcess _ _))
  refine ⟨hrec, EndedStay.trans (EndedStay.update rfl fun q _ _ => exited_endProcess _ q) hstay, ?_⟩
  exact hstay hp' (exited_endProcess _ _)

end Ends

/-! ## Steps -/

section Steps

variable {k k' : Kernel}

theorem Resting.leave (h : Resting k) (hl : ((k.proc? k.currentProcess).bind fun p =>
    if p.status = .waiting then processSchedYield k else some k) = some k') :
    Between k' ∧ EndedStay k k' := by
  obtain ⟨p, hp, hl⟩ := Option.bind_eq_some_iff.mp hl
  split at hl
  · exact h.toRecordsOk.yield hl
  · rename_i hrun
    obtain rfl := Option.some.inj hl
    refine ⟨⟨h, fun hq => ?_⟩, EndedStay.refl k⟩
    obtain rfl := Option.some.inj (hp.symm.trans hq)
    exact hrun

theorem Between.exit (h : Between k) (hzero : k.currentProcess ≠ 0) {returnCode : Int}
    (hx : exitSyscallHandler k returnCode = some k') :
    Between k' ∧ EndedStay k k' ∧ ∃ p, k'.proc? k.currentProcess = some p ∧ Exited p.status := by
  obtain ⟨k₁, h₁, hx⟩ := Option.bind_eq_some_iff.mp hx
  obtain ⟨k₂, h₂, hy⟩ := Option.bind_eq_some_iff.mp hx
  have hclosed : Between k₁ ∧ EndedStay k k₁ ∧ k₁.currentProcess = k.currentProcess := by
    rcases closeFds_changed h₁ with rfl | ⟨fds, g, rfl⟩
    · exact ⟨h, EndedStay.refl _, rfl⟩
    · exact ⟨(h.fdChanged fds g).1, (h.fdChanged fds g).2, rfl⟩
  obtain ⟨hb₁, hs₁, hcur₁⟩ := hclosed
  obtain ⟨hrec, hs₂, hcur₂⟩ := hb₁.exits (by rwa [hcur₁]) h₂ returnCode
  obtain ⟨hb, hs⟩ := hrec.yield hy
  refine ⟨hb, (hs₁.trans hs₂).trans hs, ?_⟩
  obtain ⟨p, hp⟩ := exists_proc? (k := k₂) (i := k₂.currentProcess)
    (by have := hrec.pids.current_lt; rwa [Kernel.length_updateProc] at this)
  have hp' := proc?_updated hp k₂.currentProcess (endProcess returnCode)
  rw [if_pos rfl] at hp'
  obtain ⟨q, hq, hex⟩ := hs hp' (exited_endProcess returnCode p)
  rw [hcur₂, hcur₁] at hq
  exact ⟨q, hq, hex⟩

theorem RecordsOk.setNextUp (h : RecordsOk k) {i : Nat} {p : ProcessData} (hp : k.proc? i = some p)
    (hstatus : p.status = .inactive) : RecordsOk (processSetNextUp k i) := by
  refine ⟨h.pids.setNextUp i, h.parents, h.nodup, h.inList, fun {j q} hq => ?_⟩
  obtain ⟨h1, h2, h3, -, h5⟩ := h.records hq
  refine ⟨h1, h2, h3, fun hn => ?_, h5⟩
  obtain rfl := Option.some.inj hn
  obtain rfl := Option.some.inj (hp.symm.trans hq)
  exact hstatus

theorem Between.clone (h : Between k) {env : CallEnv} {start : UInt64}
    (hc : cloneSyscallHandler k env start = some k') : Between k' ∧ EndedStay k k' := by
  obtain ⟨parent, stack, stackPhys, m, hparent, hy⟩ := clone_cases h.pids hc
  obtain ⟨hspawn, hstay⟩ := h.spawn (cloneChild parent k.frame start stack stackPhys
    (newProcess k.pidNext)) rfl (h.pids.pid_eq hparent) rfl rfl m (UInt64.ofNat env.processAddr)
  have hchild : (Process.spawn k (cloneChild parent k.frame start stack stackPhys
      (newProcess k.pidNext)) m (UInt64.ofNat env.processAddr)).proc? k.processList.length =
      some (cloneChild parent k.frame start stack stackPhys (newProcess k.pidNext)) := by
    simp [Kernel.proc?, Process.spawn]
  obtain ⟨hb, hs⟩ := (hspawn.toRecordsOk.setNextUp hchild rfl).yield hy
  exact ⟨hb, EndedStay.trans (fun i p hp => hstay hp) hs⟩

/-- What a call does before the caller may have to give way. -/
theorem Between.dispatch (h : Between k) {env : CallEnv}
    (hexit : syscallOf k.frame.rax = .exit → k.currentProcess ≠ 0)
    (hd : dispatch k env = some k') : Resting k' ∧ EndedStay k k' := by
  have hfds : ∀ {k₁}, (k₁ = k ∨ ∃ fds g, k₁ = Process.fdChanged k fds g) →
      Resting k₁ ∧ EndedStay k k₁ := by
    rintro k₁ (rfl | ⟨fds, g, rfl⟩)
    · exact ⟨h.toResting, EndedStay.refl _⟩
    · exact ⟨(h.fdChanged fds g).1.toResting, (h.fdChanged fds g).2⟩
  cases hc : syscallOf k.frame.rax with
  | exit =>
      simp only [Process.dispatch, hc] at hd
      obtain ⟨hb, hst, -⟩ := h.exit (hexit hc) hd
      exact ⟨hb.toResting, hst⟩
  | fork =>
      simp only [Process.dispatch, hc] at hd
      obtain ⟨parent, stack, stackPhys, data, text, m, hparent, -, -, rfl⟩ := fork_cases h.pids hd
      obtain ⟨hb, hst⟩ := h.spawn (forkChild parent k.frame stack stackPhys data text
        (newProcess k.pidNext)) rfl (h.pids.pid_eq hparent) rfl rfl m (UInt64.ofNat k.pidNext)
      exact ⟨hb.toResting, hst⟩
  | clone =>
      simp only [Process.dispatch, hc] at hd
      obtain ⟨hb, hst⟩ := h.clone hd
      exact ⟨hb.toResting, hst⟩
  | schedYield =>
      simp only [Process.dispatch, hc] at hd
      obtain ⟨hb, hst⟩ := h.toRecordsOk.yield hd
      exact ⟨hb.toResting, hst⟩
  | wait =>
      simp only [Process.dispatch, hc] at hd
      obtain rfl := Option.some.inj hd
      exact h.waits _
  | «open» =>
      simp only [Process.dispatch, hc] at hd
      obtain ⟨⟨r, k₂⟩, ho, rfl⟩ := Option.map_eq_some_iff.mp hd
      exact hfds (open_changed ho)
  | close =>
      simp only [Process.dispatch, hc] at hd
      obtain ⟨⟨r, k₂⟩, ho, rfl⟩ := Option.map_eq_some_iff.mp hd
      exact hfds (close_changed ho)
  | read =>
      simp only [Process.dispatch, hc] at hd
      obtain ⟨⟨r, k₂⟩, ho, rfl⟩ := Option.map_eq_some_iff.mp hd
      rcases read_cases h.pids ho with hu | hb
      · exact ⟨hu.same.resting h.toResting, hu.same.endedStay⟩
      · exact hb.rests h
  | statfs =>
      simp only [Process.dispatch, hc] at hd
      have hsame := (storeBytes_untouched hd).same
      exact ⟨hsame.resting h.toResting, hsame.endedStay⟩
  | write =>
      simp only [Process.dispatch, hc] at hd
      exact hfds (.inl (write_eq hd))
  | conOut | unhandled =>
      simp only [Process.dispatch, hc] at hd
      exact hfds (.inl (Option.some.inj hd).symm)
  | execve | execm =>
      simp only [Process.dispatch, hc] at hd
      cases hd

theorem Between.call (h : Between k) {env : CallEnv}
    (hexit : syscallOf k.frame.rax = .exit → k.currentProcess ≠ 0)
    (hs : syscallHandler k env = some k') :
    Between k' ∧ EndedStay k k' ∧ (syscallOf k.frame.rax = .exit →
      ∃ p, k'.proc? k.currentProcess = some p ∧ Exited p.status) := by
  obtain ⟨k₁, hd, hl⟩ := Option.bind_eq_some_iff.mp hs
  obtain ⟨hr, hst⟩ := h.dispatch hexit hd
  obtain ⟨hb, hst'⟩ := hr.leave hl
  refine ⟨hb, hst.trans hst', fun hc => ?_⟩
  simp only [Process.dispatch, hc] at hd
  obtain ⟨-, -, p, hp, hex⟩ := h.exit (hexit hc) hd
  exact hst' hp hex

def Ends (k : Kernel) (i : Nat) : KernelEvent → Prop
  | .event (.call frame _) => syscallOf frame.rax = .exit ∧ k.currentProcess = i
  | .event _ => False
  | .kill pid _ _ => pid = i

theorem Between.step (h : Between k) {e : KernelEvent} (hok : EndsInOrder k e)
    (hs : kernelStep k e = some k') :
    Between k' ∧ EndedStay k k' ∧
      ∀ i, Ends k i e → ∃ p, k'.proc? i = some p ∧ Exited p.status := by
  have hframe : ∀ frame, SameRecords k { k with frame := frame } :=
    fun _ => ⟨rfl, rfl, rfl, rfl, rfl⟩
  match e with
  | .event (.call frame env) =>
      obtain ⟨hb, hst, hex⟩ := ((hframe frame).between h).call hok hs
      refine ⟨hb, hst, fun i hi => ?_⟩
      obtain ⟨hc, rfl⟩ := hi
      exact hex hc
  | .event (.keyboard scancode) =>
      rcases keyboard_cases h.pids hs with hu | ⟨i, hw⟩
      · exact ⟨hu.same.between h, hu.same.endedStay, fun _ hi => hi.elim⟩
      · exact ⟨(hw.between h).1, (hw.between h).2, fun _ hi => hi.elim⟩
  | .event (.serial byte) =>
      rcases serial_cases h.pids hs with hu | ⟨i, hw⟩
      · exact ⟨hu.same.between h, hu.same.endedStay, fun _ hi => hi.elim⟩
      · exact ⟨(hw.between h).1, (hw.between h).2, fun _ hi => hi.elim⟩
  | .kill pid frame env =>
      obtain ⟨k₁, hkill, hs⟩ := Option.bind_eq_some_iff.mp hs
      obtain ⟨hrec, hst, p, hp, hex⟩ := h.killed hok.1 hok.2 hkill
      have hsame : SameRecords k₁ { k₁ with frame := { frame with rax := 4 } } :=
        ⟨rfl, rfl, rfl, rfl, rfl⟩
      obtain ⟨k₂, hd, hl⟩ := Option.bind_eq_some_iff.mp hs
      have hy : processSchedYield { k₁ with frame := { frame with rax := 4 } } = some k₂ := hd
      obtain ⟨hb₂, hst₂⟩ := (hsame.records hrec).yield hy
      obtain ⟨hb, hst'⟩ := hb₂.toResting.leave hl
      refine ⟨hb, (hst.trans hst₂).trans hst', fun i hi => ?_⟩
      obtain rfl : pid = i := hi
      exact (hst₂.trans hst') hp hex

end Steps

/-! ## Runs -/

theorem boot_between {m : Machine} {program : LoadedProgram} {execSize stack : Nat} {k : Kernel}
    (h : boot m program execSize stack = some k) : Between k := by
  have hqueue : queuedPids k = [] := by
    obtain ⟨k₁, h₁, h₂⟩ := Option.bind_eq_some_iff.mp h
    obtain rfl := Option.some.inj h₁
    obtain rfl := Option.some.inj h₂
    rfl
  have hpids := boot_pids h
  obtain ⟨stackPhys, hl, -, hcur, hnext, -⟩ := boot_cases h
  have hproc : ∀ {i p}, k.proc? i = some p →
      p.pidParent = 0 ∧ p.waitForPid = 0 ∧ schedulable p.status = true := by
    intro i p hp
    unfold Kernel.proc? at hp
    rw [hl] at hp
    match i with
    | 0 => exact (Option.some.inj hp) ▸ ⟨rfl, rfl, rfl⟩
    | 1 => exact (Option.some.inj hp) ▸ ⟨rfl, rfl, rfl⟩
    | i + 2 => cases hp
  have hempty : ∀ {i} {P : Prop}, i ∈ queuedPids k → P := by
    intro i P hi
    rw [hqueue] at hi
    exact absurd hi List.not_mem_nil
  refine ⟨⟨⟨hpids, fun {i p} hp => ?_, ?_, fun hi => hempty hi, fun {i p} hp => ?_⟩, hnext,
    fun hp => (schedulable_cases (hproc hp).2.2).2⟩, fun hp => (schedulable_cases (hproc hp).2.2).1⟩
  · rw [(hproc hp).1]
    rcases Nat.eq_zero_or_pos i with rfl | hi
    · exact .inr ⟨rfl, rfl⟩
    · exact .inl hi
  · rw [hqueue]
    exact List.nodup_nil
  · obtain ⟨-, hwait, hs⟩ := hproc hp
    have hliving := (schedulable_cases hs).2
    refine ⟨fun hi => hempty hi, fun hne => absurd hwait hne, fun hex => absurd hex hliving,
      fun hn => ?_, fun _ hdead => hliving (.inl hdead)⟩
    rw [hnext] at hn
    cases hn

/-- **Who has ended stays dead:** in every run whose steps end processes in
order, a process that an event ends is not current in any later state, and its
status is that of a process that has ended. What could bring it back is a
wake-up: from a wait queue it still stands in, or by a child of its own that it
waits for. -/
theorem dead_stays_dead {m : Machine} {program : LoadedProgram} {execSize stack : Nat}
    {k₀ k₁ k : Kernel} {before after : List KernelEvent} {e : KernelEvent} {i : Nat}
    (hboot : boot m program execSize stack = some k₀)
    (hok : Run.Along kernelStep EndsInOrder k₀ (before ++ e :: after))
    (hbefore : Run.exec kernelStep k₀ before = some k₁) (hend : Ends k₁ i e)
    (hafter : Run.exec kernelStep k₁ (e :: after) = some k) :
    k.currentProcess ≠ i ∧ ∃ p, k.proc? i = some p ∧ Exited p.status := by
  obtain ⟨hok₁, hok₂⟩ := hok.of_append hbefore
  have hb₁ : Between k₁ := Run.exec_invariant (I := Between) (P := EndsInOrder)
    (fun _ _ _ hb hok hs => (hb.step hok hs).1) (boot_between hboot) hok₁ hbefore
  obtain ⟨k₂, hs, hrest⟩ := Run.exec_cons hafter
  obtain ⟨hb₂, -, hex⟩ := hb₁.step hok₂.1 hs
  obtain ⟨hb, p, hp, hdead⟩ := Run.exec_invariant
    (I := fun k => Between k ∧ ∃ p, k.proc? i = some p ∧ Exited p.status) (P := EndsInOrder)
    (fun _ _ _ hI hok hs => by
      obtain ⟨hb, p, hp, hdead⟩ := hI
      obtain ⟨hb', hstay, -⟩ := hb.step hok hs
      exact ⟨hb', hstay hp hdead⟩)
    ⟨hb₂, hex i hend⟩ (hok₂.2 k₂ hs) hrest
  refine ⟨?_, p, hp, hdead⟩
  rintro rfl
  exact hb.living hp hdead

/-- Process 2 ends while its parent waits for it; the parent yields. -/
theorem dead_stays_dead_child : ∃ k, Run.exec kernelStep smallKernel
      [.event (callOf 4 0), .event (callOf 6 0 forkEnv), .event (callOf 8 2),
        .event (callOf 7 0), .event (callOf 4 0)] = some k ∧
    k.currentProcess ≠ 2 ∧ ∃ p, k.proc? 2 = some p ∧ Exited p.status := by
  have hbefore : (Run.exec kernelStep smallKernel [.event (callOf 4 0),
      .event (callOf 6 0 forkEnv), .event (callOf 8 2)]).any
        fun k => decide (k.currentProcess = 2) := by decide +kernel
  obtain ⟨k₁, h₁, hcur⟩ := (Option.any_eq_true _ _).mp hbefore
  have hrun : (Run.exec kernelStep smallKernel ([.event (callOf 4 0),
      .event (callOf 6 0 forkEnv), .event (callOf 8 2)] ++
        .event (callOf 7 0) :: [.event (callOf 4 0)])).isSome := by decide +kernel
  obtain ⟨k, hk⟩ := Option.isSome_iff_exists.mp hrun
  have h₂ := hk
  rw [Run.exec_append, h₁, Option.bind_some] at h₂
  have hend : Ends k₁ 2 (.event (callOf 7 0)) := ⟨rfl, of_decide_eq_true hcur⟩
  exact ⟨k, hk, dead_stays_dead boot_small (by decide +kernel) h₁ hend h₂⟩

/-- Process 1 waits for the keyboard when it is killed. The next key wakes it,
and it runs again. -/
theorem killed_reader_runs :
    (Run.exec kernelStep smallKernel [.event (callOf 4 0),
      .event (.call { rax := 0, rdi := 0, rsi := 0xA0000010, rdx := 1 } {})]).isSome = true ∧
    (Run.exec kernelStep smallKernel [.event (callOf 4 0),
      .event (.call { rax := 0, rdi := 0, rsi := 0xA0000010, rdx := 1 } {}), .kill 1 {} {}]).any
        (fun k => (k.proc? 1).any fun p => decide (Exited p.status)) = true ∧
    (Run.exec kernelStep smallKernel [.event (callOf 4 0),
      .event (.call { rax := 0, rdi := 0, rsi := 0xA0000010, rdx := 1 } {}), .kill 1 {} {},
      .event (.keyboard 0x1E)]).any
        (fun k => (k.proc? 1).any fun p => decide (p.status = .inactive)) = true ∧
    (Run.exec kernelStep smallKernel [.event (callOf 4 0),
      .event (.call { rax := 0, rdi := 0, rsi := 0xA0000010, rdx := 1 } {}), .kill 1 {} {},
      .event (.keyboard 0x1E), .event (callOf 4 0)]).any
        (fun k => decide (k.currentProcess = 1)) = true := by
  refine ⟨?_, ?_, ?_, ?_⟩ <;> decide +kernel

end VersionSix.Process
