import VersionSix.Descriptors
import VersionSix.FileCursor

/-!
# Descriptor arguments

`read`, `write`, `close` and `lseek` take a descriptor from the caller and
index `file_descriptors` with it. Each handler is run here once more, with a
record of what it touches: a descriptor outside the array is whatever the
memory around the array reads as, or a page fault.

`read` and `lseek` look at both bounds and at `in_use`. `close` leaves out the
lower bound, `write` all three. What `read` then does about a descriptor that it
refuses is no better: it calls `klog` without a level, so that the descriptor is
taken for the address of the message, and the call never comes back with its `-1`.
The same happens for a descriptor that was opened for writing only.

`descriptor_checked_iff` has the exact condition for each handler. That no `NULL`
is followed rests on an invariant of all runs: every `vfs_fd` of a descriptor is an
index of the global table.
-/

namespace VersionSix.Process

/-! ## What a handler touches -/

inductive Access
  /-- `in_use` of a descriptor is read -/
  | test (fd : Int)
  /-- another field of it is read -/
  | use (fd : Int)
  /-- it is written -/
  | write (fd : Int)
  /-- the pointer `vfs_get_fd_data` gave is followed, `none` for `NULL` -/
  | follow (vFd : Option Nat)
  /-- `klog` follows the descriptor itself, as the address of its message -/
  | message (fd : Int)
deriving DecidableEq

/-- The accesses of one call, and its value if it returns one. -/
structure Outcome where
  accesses : List Access
  returned : Option Int

/-- `file_descriptors[fd]`, with what lies `around` the array. -/
def fileDescriptor (p : ProcessData) (around : Int → Option FdProcess) (fd : Int) :
    Option FdProcess :=
  if 0 ≤ fd ∧ fd < processMaxFds then p.fileDescriptors[fd.toNat]? else around fd

section Handlers

variable (k : Kernel) (p : ProcessData) (around : Int → Option FdProcess) (fd : Int)

def readOutcome (env : CallEnv) (buff count : Nat) : Outcome :=
  if fd < 0 then ⟨[.message fd], none⟩
  else if (processMaxFds : Int) ≤ fd then ⟨[.message fd], none⟩
  else
    match fileDescriptor p around fd with
    | none => ⟨[.test fd], none⟩
    | some d =>
        if !d.inUse then ⟨[.test fd, .message fd], none⟩
        else
          let returned := (readSyscallHandler k env fd buff count).map Prod.fst
          let file : List Access := [.test fd, .use fd, .follow (vfsGetFdData d.vfsFd)]
          if fd = 0 then ⟨[.test fd], returned⟩
          else if (vfsFdOf k d).any VfsFd.writeOnly then ⟨file ++ [.message fd], none⟩
          else ⟨file ++ [.use fd], returned⟩

/-- `void`; the buffer goes to the device, or is logged. -/
def writeOutcome : Outcome :=
  if fd = 1 ∨ fd = 2 then ⟨[], none⟩
  else
    match fileDescriptor p around fd with
    | none => ⟨[.use fd], none⟩
    | some d =>
        let file : List Access := [.use fd, .follow (vfsGetFdData d.vfsFd)]
        if (vfsFdOf k d).any VfsFd.readOnly then ⟨file ++ [.message fd], none⟩ else ⟨file, none⟩

def closeOutcome : Outcome :=
  if (processMaxFds : Int) ≤ fd then ⟨[], some (-1)⟩
  else
    match fileDescriptor p around fd with
    | none => ⟨[.test fd], none⟩
    | some d =>
        if !d.inUse then ⟨[.test fd], some (-1)⟩
        else
          match vfsGetFdData d.vfsFd with
          | none => ⟨[.test fd, .write fd, .use fd], some (-1)⟩
          | some v => ⟨[.test fd, .write fd, .use fd, .follow (some v)], some 1⟩

def lseekOutcome (vfs : Vfs) (offset : Nat) (whence : Int) : Outcome :=
  let returned := (lseekSyscallHandler k vfs fd offset whence).map fun x => (x.1 : Int)
  if fd < 0 then ⟨[], returned⟩
  else if (processMaxFds : Int) ≤ fd then ⟨[], returned⟩
  else
    match fileDescriptor p around fd with
    | none => ⟨[.test fd], none⟩
    | some d =>
        if d.inUse = false then ⟨[.test fd], returned⟩
        else if whence = seekSet then ⟨[.test fd, .write fd], returned⟩
        else if whence = seekCur then ⟨[.test fd, .write fd], returned⟩
        else if whence = seekEnd then
          let stat : List Access := [.test fd, .use fd, .follow (vfsGetFdData d.vfsFd)]
          if (processGetFdPath k d).any fun path => (vfs.vfsGetattr path).1 = -1 then
            ⟨stat, returned⟩
          else ⟨stat ++ [.write fd], returned⟩
        else ⟨[.test fd], returned⟩

/-- A call with the arguments that go with the descriptor. -/
inductive FdCall
  | read (env : CallEnv) (buff count : Nat)
  | write
  | close
  | lseek (vfs : Vfs) (offset : Nat) (whence : Int)

def outcome : FdCall → Outcome
  | .read env buff count => readOutcome k p around fd env buff count
  | .write => writeOutcome k p around fd
  | .close => closeOutcome p around fd
  | .lseek vfs offset whence => lseekOutcome k p around fd vfs offset whence

end Handlers

/-! ### The same handlers -/

section Same

variable {k k' : Kernel} {p : ProcessData} (around : Int → Option FdProcess) {fd : Int}

theorem fileDescriptor_inside (h : 0 ≤ fd ∧ fd < processMaxFds) :
    fileDescriptor p around fd = p.fileDescriptors[fd.toNat]? := if_pos h

theorem fileDescriptor_below (h : fd < 0) : fileDescriptor p around fd = around fd :=
  if_neg fun hin => absurd hin.1 (not_le.mpr h)

theorem readOutcome_returned (hp : k.proc? k.currentProcess = some p) (env : CallEnv)
    (buff count : Nat) : (readOutcome k p around fd env buff count).returned =
      (readSyscallHandler k env fd buff count).map Prod.fst := by
  unfold readOutcome
  split
  · rw [readSyscallHandler, if_pos ‹_›]
    rfl
  split
  · rw [readSyscallHandler, if_neg ‹_›, if_pos ‹_›]
    rfl
  rw [fileDescriptor_inside around (by omega)]
  cases hd : p.fileDescriptors[fd.toNat]? with
  | none =>
      rw [readSyscallHandler, if_neg ‹_›, if_neg ‹_›, hp, Option.bind_some, hd]
      rfl
  | some d =>
      dsimp only
      split
      · rw [readSyscallHandler, if_neg ‹_›, if_neg ‹_›, hp, Option.bind_some, hd,
          Option.bind_some, if_pos ‹_›]
        rfl
      split
      · rfl
      split
      · next hwrite =>
          obtain ⟨vFd, hv, hwrite⟩ := (Option.any_eq_true _ _).mp hwrite
          rw [readSyscallHandler, if_neg ‹_›, if_neg ‹_›, hp, Option.bind_some, hd,
            Option.bind_some, if_neg ‹_›, if_neg ‹_›, hv, Option.bind_some, if_pos hwrite]
          rfl
      · rfl

theorem closeOutcome_returned (hp : k.proc? k.currentProcess = some p) (hpos : 0 ≤ fd) :
    (closeOutcome p around fd).returned = (closeSyscallHandler k fd).map Prod.fst := by
  unfold closeOutcome closeSyscallHandler
  split
  · rfl
  rw [if_neg (not_lt.mpr hpos), fileDescriptor_inside around (by omega), hp, Option.bind_some]
  cases p.fileDescriptors[fd.toNat]? with
  | none => rfl
  | some d =>
      dsimp only [Option.map_some]
      split
      · rfl
      · cases vfsGetFdData d.vfsFd <;> rfl

theorem closeOutcome_unchanged (hp : k.proc? k.currentProcess = some p) {r : Int}
    (h : closeSyscallHandler k fd = some (r, k'))
    (hlog : .write fd ∉ (closeOutcome p around fd).accesses) : k' = k := by
  rcases close_cases h with rfl | ⟨q, d, hpos, hq, hd, huse, -⟩
  · rfl
  obtain rfl := Option.some.inj (hp.symm.trans hq)
  unfold closeSyscallHandler at h
  unfold closeOutcome at hlog
  split at h
  · exact (Prod.mk.inj (Option.some.inj h)).2.symm
  rw [if_neg ‹_›, fileDescriptor_inside around (by omega), hd] at hlog
  dsimp only at hlog
  rw [huse, if_neg (by decide)] at hlog
  split at hlog <;> simp at hlog

theorem lseekOutcome_unchanged (hp : k.proc? k.currentProcess = some p) {vfs : Vfs} {offset r : Nat}
    {whence : Int} (h : lseekSyscallHandler k vfs fd offset whence = some (r, k'))
    (hlog : .write fd ∉ (lseekOutcome k p around fd vfs offset whence).accesses) : k' = k := by
  unfold lseekOutcome at hlog
  unfold lseekSyscallHandler at h
  split at h
  · exact (Prod.mk.inj (Option.some.inj h)).2.symm
  split at h
  · exact (Prod.mk.inj (Option.some.inj h)).2.symm
  obtain ⟨q, hq, h⟩ := Option.bind_eq_some_iff.mp h
  obtain rfl := Option.some.inj (hp.symm.trans hq)
  obtain ⟨d, hd, h⟩ := Option.bind_eq_some_iff.mp h
  dsimp only at hlog
  rw [if_neg ‹_›, if_neg ‹_›, fileDescriptor_inside around (by omega), hd] at hlog
  dsimp only at hlog
  split at h
  · exact (Prod.mk.inj (Option.some.inj h)).2.symm
  rw [if_neg ‹_›] at hlog
  split at h
  · rw [if_pos ‹_›] at hlog
    simp at hlog
  rw [if_neg ‹_›] at hlog
  split at h
  · rw [if_pos ‹_›] at hlog
    simp at hlog
  rw [if_neg ‹_›] at hlog
  split at h
  · rw [if_pos ‹_›] at hlog
    obtain ⟨path, hpath, h⟩ := Option.map_eq_some_iff.mp h
    rw [hpath, Option.any_some] at hlog
    rcases vfs.vfsGetattr path with ⟨statErr, stSize⟩
    dsimp only at h hlog
    split at h
    · exact (Prod.mk.inj h).2.symm
    · rw [decide_eq_false ‹_›, if_neg Bool.false_ne_true] at hlog
      simp at hlog
  · exact (Prod.mk.inj (Option.some.inj h)).2.symm

end Same

/-! ## Checked -/

/-- The access is inside the array, and behind the check of `in_use` at a
descriptor in use. A descriptor is no address. -/
def Access.Allowed (p : ProcessData) : Access → Prop
  | .test fd => 0 ≤ fd ∧ fd < processMaxFds
  | .use fd | .write fd =>
      (0 ≤ fd ∧ fd < processMaxFds) ∧ (p.fileDescriptors[fd.toNat]?).any (·.inUse) = true
  | .follow _ => True
  | .message _ => False

/-- The call returns an error and writes no descriptor, or touches only what
it may; it follows no `NULL`. -/
structure Checked (p : ProcessData) (o : Outcome) : Prop where
  access : (o.returned = some (-1) ∧ ∀ fd, .write fd ∉ o.accesses) ∨
    ∀ a ∈ o.accesses, a.Allowed p
  notNull : .follow none ∉ o.accesses

/-- What makes a descriptor argument safe: anything for `lseek`. -/
def CheckedWhen (k : Kernel) (p : ProcessData) (around : Int → Option FdProcess) (fd : Int) :
    FdCall → Prop
  | .read .. => (0 ≤ fd ∧ fd < processMaxFds) ∧ ∀ d, p.fileDescriptors[fd.toNat]? = some d →
      d.inUse = true ∧ (fd ≠ 0 → (vfsFdOf k d).any VfsFd.writeOnly = false)
  | .lseek .. => True
  | .write => fd = 1 ∨ fd = 2 ∨
      ((0 ≤ fd ∧ fd < processMaxFds) ∧ (p.fileDescriptors[fd.toNat]?).any (·.inUse) = true)
  | .close => 0 ≤ fd ∨ (around fd).any (fun d => !d.inUse) = true

/-! ## Valid `vfs_fd`s -/

def ValidVfsFd (v : Int) : Prop := 0 ≤ v ∧ v < vfsFdMax

/-- Every entry of the global table has its index as id, none is read-only (the test for
`O_RDONLY`, which is 0, never holds), and every descriptor refers to one of them. -/
structure VfsFdsValid (k : Kernel) : Prop where
  ids : k.globalFds.map VfsFd.id = (List.range vfsFdMax).map Int.ofNat
  readable : ∀ e ∈ k.globalFds, e.readOnly = false
  valid : VfsFds ValidVfsFd k

theorem VfsFdsValid.id_valid {k : Kernel} (h : VfsFdsValid k) {v : Nat} {sys : VfsFd}
    (hsys : k.globalFds[v]? = some sys) : ValidVfsFd sys.id := by
  have hid : (k.globalFds.map VfsFd.id)[v]? = some sys.id := by
    rw [List.getElem?_map, hsys, Option.map_some]
  rw [h.ids, List.getElem?_map] at hid
  obtain ⟨w, hw, hid⟩ := Option.map_eq_some_iff.mp hid
  obtain ⟨hlt, rfl⟩ := List.getElem?_eq_some_iff.mp hw
  rw [List.getElem_range] at hid
  rw [List.length_range] at hlt
  rw [← hid]
  exact ⟨Int.natCast_nonneg v, Int.ofNat_lt.mpr hlt⟩

theorem modify_ids (g : List VfsFd) (v : Nat) {f : VfsFd → VfsFd} (hf : ∀ e, (f e).id = e.id) :
    (g.modify v f).map VfsFd.id = g.map VfsFd.id := by
  refine List.ext_getElem? fun i => ?_
  rw [List.getElem?_map, List.getElem?_map, List.getElem?_modify]
  split
  · cases g[i]? with
    | none => rfl
    | some e => exact congrArg some (hf e)
  · simp

theorem modify_readable {g : List VfsFd} {f : VfsFd → VfsFd}
    (hf : ∀ e, e.readOnly = false → (f e).readOnly = false) (v : Nat)
    (h : ∀ e ∈ g, e.readOnly = false) : ∀ e ∈ g.modify v f, e.readOnly = false := by
  intro e he
  obtain ⟨i, hi⟩ := List.getElem?_of_mem he
  rw [List.getElem?_modify] at hi
  obtain ⟨e₀, h₀, rfl⟩ := Option.map_eq_some_iff.mp hi
  split
  · exact hf e₀ (h e₀ (List.mem_of_getElem? h₀))
  · exact h e₀ (List.mem_of_getElem? h₀)

/-- What `open` and `close` keep of the global table. -/
structure KeptByFds (I : List VfsFd → Prop) : Prop where
  opened : ∀ {g v path newFd flags}, I g → I (g.modify v (openVfsFd path newFd flags))
  released : ∀ {g v}, I g → I (g.modify v releaseFd)

theorem ids_kept (ids : List Int) : KeptByFds fun g => g.map VfsFd.id = ids :=
  ⟨fun {_ v path newFd flags} h =>
      (modify_ids (f := openVfsFd path newFd flags) _ v fun _ => rfl).trans h,
    fun {_ v} h => (modify_ids (f := releaseFd) _ v fun _ => rfl).trans h⟩

theorem readable_kept : KeptByFds fun g => ∀ e ∈ g, e.readOnly = false :=
  ⟨fun {_ _ path newFd flags} h =>
      modify_readable (f := openVfsFd path newFd flags) (fun _ _ => rfl) _ h,
    fun h => modify_readable (f := releaseFd) (fun _ he => he) _ h⟩

section Kept

variable {I : List VfsFd → Prop} (hI : KeptByFds I) {k k' : Kernel}

include hI

theorem close_kept {fd r : Int} (h : closeSyscallHandler k fd = some (r, k'))
    (hg : I k.globalFds) : I k'.globalFds := by
  rcases close_cases h with rfl | ⟨p, d, -, -, -, -, rfl⟩
  · exact hg
  · unfold fdChanged releaseGlobal
    cases vfsGetFdData d.vfsFd with
    | none => exact hg
    | some v => exact hI.released hg

theorem effect_kept (hk : PidsInOrder k) (h : Effect k k') (hg : I k.globalFds) :
    I k'.globalFds := by
  cases h with
  | read hf ht => rwa [ht.globalFds]
  | wake hf ht => rwa [ht.globalFds]
  | opened ho =>
      rcases open_cases ho with rfl | ⟨p, newFd, fds, -, -, rfl | rfl | ⟨v, sys, -, -, -, rfl⟩⟩
      · exact hg
      · exact hg
      · exact hg
      · exact hI.opened hg
  | closed hc => exact close_kept hI hc hg
  | waits => exact hg
  | forked => exact hg
  | cloned => exact hg
  | @exited k₁ k₂ fds returnCode h₁ h₂ =>
      have hfds : I k₁.globalFds := closeFds_induct (P := fun k => I k.globalFds)
        (fun _ h hc => close_kept hI hc h) hg h₁
      obtain ⟨p, -, ⟨rfl, -⟩ | rfl⟩ := notify_cases (hk.closeFds h₁) h₂
      · exact hfds
      · exact hfds

end Kept

theorem newFileDescriptors_valid : ∀ d ∈ newFileDescriptors, ValidVfsFd d.vfsFd := by
  unfold ValidVfsFd
  decide

theorem VfsFdsValid.touched {k k' : Kernel} {i : Nat} {f : ProcessData → ProcessData}
    (h : VfsFdsValid k) (hf : WakeUpdate f) (ht : Touch k k' i f) : VfsFdsValid k' := by
  have hfds : ∀ p, (f p).fileDescriptors = p.fileDescriptors := by
    intro p
    rcases hf with rfl | rfl <;> rfl
  exact ⟨ht.globalFds ▸ h.ids, ht.globalFds ▸ h.readable, h.valid.modify ht.processList hfds⟩

theorem reachable_vfsFdsValid {k : Kernel} (h : Reachable k) : VfsFdsValid k := by
  obtain ⟨m, program, execSize, stack, k₀, events, hboot, hrun⟩ := h
  have hboot₀ : VfsFdsValid k₀ := by
    obtain ⟨stackPhys, -, -, -, -, hg, -⟩ := boot_cases hboot
    refine ⟨?_, ?_, boot_vfsFds newFileDescriptors_valid hboot⟩
    · rw [hg]
      decide +kernel
    · rw [hg]
      exact fun e he => of_decide_eq_true (List.all_eq_true.mp
        (show vfsFdSetup.all (fun e => decide (e.readOnly = false)) = true by decide +kernel) e he)
  have hrun' := Run.exec_invariant (I := fun k => PidsInOrder k ∧ VfsFdsValid k)
    (P := fun _ _ => True) (fun k e k' hI _ hs => ?_) ⟨boot_pids hboot, hboot₀⟩
    (Run.along_true _ _) hrun
  · exact hrun'.2
  refine step_induct (I := VfsFdsValid) (G := fun _ => True) ?_ ?_ ?_ ?_ hI.1 hI.2 ?_ hs
  · exact fun k frame h => ⟨h.ids, h.readable, ⟨h.valid.all⟩⟩
  · exact fun hk h _ he => ⟨effect_kept (ids_kept _) hk he h.ids,
      effect_kept readable_kept hk he h.readable,
      h.valid.effect hk newFileDescriptors_valid (fun _ hsys => h.id_valid hsys) he⟩
  · exact fun _ h hf ht => h.touched hf ht
  · exact fun _ h hy => ⟨yield_globalFds hy ▸ h.ids, yield_globalFds hy ▸ h.readable,
      h.valid.yield hy⟩
  · exact fun _ _ _ => trivial

/-! ## The handlers -/

section Handlers

variable {k : Kernel} {p : ProcessData} {around : Int → Option FdProcess} {fd : Int}

theorem vfsGetFdData_valid {v : Int} (h : ValidVfsFd v) : vfsGetFdData v = some v.toNat := by
  unfold vfsGetFdData
  rw [if_neg (not_le.mpr h.2), if_neg (not_lt.mpr h.1)]

abbrev Refers (p : ProcessData) : Prop := ∀ d ∈ p.fileDescriptors, ValidVfsFd d.vfsFd

/-- A log of a call that stays with the descriptor it was given, which is in
the array. -/
theorem checked_inside {o : Outcome} (hin : 0 ≤ fd ∧ fd < processMaxFds)
    (h : ∀ a ∈ o.accesses, a = .test fd ∨ (∃ v, a = .follow (some v)) ∨
      ((a = .use fd ∨ a = .write fd) ∧ (p.fileDescriptors[fd.toNat]?).any (·.inUse) = true)) :
    Checked p o := by
  refine ⟨.inr fun a ha => ?_, fun ha => ?_⟩
  · rcases h a ha with rfl | ⟨v, rfl⟩ | ⟨rfl | rfl, huse⟩
    · exact hin
    · trivial
    · exact ⟨hin, huse⟩
    · exact ⟨hin, huse⟩
  · rcases h _ ha with h | ⟨v, h⟩ | ⟨h | h, -⟩ <;> cases h

theorem checked_nil (returned : Option Int) : Checked p ⟨[], returned⟩ :=
  ⟨.inr fun _ ha => absurd ha List.not_mem_nil, List.not_mem_nil⟩

/-- A call that tests the descriptor of the array, and goes on with `f` when it is
in use. -/
theorem checked_tested (hp : Refers p) (hin : 0 ≤ fd ∧ fd < processMaxFds)
    {free : FdProcess → Prop} [DecidablePred free] {returned : Option Int}
    {f : FdProcess → Outcome} (hfree : ∀ d, free d ↔ d.inUse = false)
    (hused : ∀ d, vfsGetFdData d.vfsFd = some d.vfsFd.toNat →
      (p.fileDescriptors[fd.toNat]?).any (·.inUse) = true → Checked p (f d)) :
    Checked p (match fileDescriptor p around fd with
      | none => ⟨[.test fd], none⟩
      | some d => if free d then ⟨[.test fd], returned⟩ else f d) := by
  rw [fileDescriptor_inside around hin]
  cases hd : p.fileDescriptors[fd.toNat]? with
  | none => exact checked_inside hin (by simp)
  | some d =>
      dsimp only
      rcases Bool.eq_false_or_eq_true d.inUse with huse | huse
      · rw [if_neg (by simp [hfree, huse])]
        exact hused d (vfsGetFdData_valid (hp d (List.mem_of_getElem? hd))) (by simp [hd, huse])
      · rw [if_pos ((hfree d).mpr huse)]
        exact checked_inside hin (by simp)

theorem not_checked_message {o : Outcome} (hmem : .message fd ∈ o.accesses)
    (hret : o.returned = none) : ¬ Checked p o := by
  intro h
  rcases h.access with ⟨herr, -⟩ | hall
  · rw [hret] at herr
    cases herr
  · exact hall _ hmem

theorem readOutcome_checked_iff (hp : Refers p) (env : CallEnv) (buff count : Nat) :
    Checked p (readOutcome k p around fd env buff count) ↔
      CheckedWhen k p around fd (.read env buff count) := by
  unfold readOutcome CheckedWhen
  split
  · exact iff_of_false (not_checked_message List.mem_cons_self rfl) fun h => by omega
  split
  · exact iff_of_false (not_checked_message List.mem_cons_self rfl) fun h => by omega
  have hin : 0 ≤ fd ∧ fd < processMaxFds := by omega
  rw [fileDescriptor_inside around hin, and_iff_right hin]
  cases hd : p.fileDescriptors[fd.toNat]? with
  | none => exact iff_of_true (checked_inside hin (by simp)) nofun
  | some d =>
      have hcond : (∀ e, some d = some e → e.inUse = true ∧
          (fd ≠ 0 → (vfsFdOf k e).any VfsFd.writeOnly = false)) ↔
          d.inUse = true ∧ (fd ≠ 0 → (vfsFdOf k d).any VfsFd.writeOnly = false) :=
        ⟨fun h => h d rfl, fun h e he => Option.some.inj he ▸ h⟩
      have hused : (p.fileDescriptors[fd.toNat]?).any (·.inUse) = d.inUse := by
        rw [hd, Option.any_some]
      rw [hcond]
      dsimp only
      rw [vfsGetFdData_valid (hp d (List.mem_of_getElem? hd))]
      cases huse : d.inUse with
      | false =>
          rw [if_pos (by decide)]
          have hfault : Access.message fd ∈ [Access.test fd, .message fd] := by simp
          exact iff_of_false (not_checked_message hfault rfl) fun h => by cases h.1
      | true =>
          rw [huse] at hused
          rw [if_neg (by decide), eq_self_iff_true, true_and]
          split
          · next hzero => exact iff_of_true (checked_inside hin (by simp)) fun h => absurd hzero h
          split
          · next hfd hwrite =>
              have hfault : Access.message fd ∈
                  [.test fd, .use fd, .follow (some d.vfsFd.toNat)] ++ [.message fd] := by simp
              refine iff_of_false (not_checked_message hfault rfl) fun h => ?_
              rw [h hfd] at hwrite
              cases hwrite
          · next hwrite =>
              exact iff_of_true (checked_inside hin (by simp [hused])) fun _ => by
                simpa using hwrite

theorem lseekOutcome_checked (hp : Refers p) (vfs : Vfs) (offset : Nat) (whence : Int) :
    Checked p (lseekOutcome k p around fd vfs offset whence) := by
  unfold lseekOutcome
  dsimp only
  split
  · exact checked_nil _
  split
  · exact checked_nil _
  have hin : 0 ≤ fd ∧ fd < processMaxFds := by omega
  refine checked_tested hp hin (fun _ => Iff.rfl) fun d hfile huse => ?_
  rw [hfile]
  split
  · exact checked_inside hin (by simp [huse])
  split
  · exact checked_inside hin (by simp [huse])
  split
  · split <;> exact checked_inside hin (by simp [huse])
  · exact checked_inside hin (by simp)

theorem writeOutcome_checked_iff (hp : Refers p)
    (hreadable : ∀ e ∈ k.globalFds, e.readOnly = false) :
    Checked p (writeOutcome k p around fd) ↔ CheckedWhen k p around fd .write := by
  unfold writeOutcome
  split
  case isTrue hdev => exact ⟨fun _ => hdev.imp_right .inl, fun _ => checked_nil _⟩
  case isFalse hdev =>
  constructor
  · intro h
    refine .inr (.inr ?_)
    -- the value is lost, so the array is what decides
    have hallowed : (Access.use fd).Allowed p := by
      cases hd : fileDescriptor p around fd with
      | none =>
          rw [hd] at h
          exact (h.access.resolve_left fun herr => by cases herr.1) _ List.mem_cons_self
      | some d =>
          rw [hd] at h
          dsimp only at h
          split at h <;>
            exact (h.access.resolve_left fun herr => by cases herr.1) _ List.mem_cons_self
    exact hallowed
  · rintro (rfl | rfl | ⟨hin, huse⟩)
    · exact absurd (.inl rfl) hdev
    · exact absurd (.inr rfl) hdev
    · rw [fileDescriptor_inside around hin]
      obtain ⟨d, hd, -⟩ := (Option.any_eq_true _ _).mp huse
      rw [hd]
      have hwritable : (vfsFdOf k d).any VfsFd.readOnly = false := by
        rw [Option.any_eq_false]
        intro e he
        obtain ⟨v, -, he⟩ := Option.bind_eq_some_iff.mp he
        exact hreadable e (List.mem_of_getElem? he)
      dsimp only
      rw [vfsGetFdData_valid (hp d (List.mem_of_getElem? hd)), hwritable,
        if_neg Bool.false_ne_true]
      exact checked_inside hin (by simpa using huse)

/-- In front of the array only a descriptor that reads as free is safe: its
`in_use` is all `close` looks at then. -/
theorem closeOutcome_below_iff (hneg : fd < 0) :
    Checked p (closeOutcome p around fd) ↔ (around fd).any (fun d => !d.inUse) = true := by
  have hout : ¬ (Access.test fd).Allowed p := fun h => absurd h.1 (not_le.mpr hneg)
  unfold closeOutcome
  rw [if_neg (by have : (0 : Int) ≤ processMaxFds := Int.natCast_nonneg _; omega),
    fileDescriptor_below around hneg]
  cases around fd with
  | none =>
      refine ⟨fun h => ?_, fun h => by cases h⟩
      rcases h.access with ⟨herr, -⟩ | hall
      · cases herr
      · exact absurd (hall _ List.mem_cons_self) hout
  | some d =>
      rw [Option.any_some]
      cases huse : d.inUse with
      | false =>
          refine ⟨fun _ => rfl, fun _ => ⟨.inl ⟨?_, ?_⟩, ?_⟩⟩ <;> simp [huse]
      | true =>
          refine ⟨fun h => ?_, fun h => by cases h⟩
          dsimp only at h
          rw [huse, if_neg (by decide)] at h
          have hlog : ∀ {o : Outcome}, Checked p o → .test fd ∈ o.accesses →
              .write fd ∉ o.accesses := fun ho htest hwrite =>
            ho.access.elim (fun herr => herr.2 fd hwrite) fun hall => hout (hall _ htest)
          split at h
          · exact absurd (by simp) (hlog h (by simp))
          · exact absurd (by simp) (hlog h (by simp))

theorem closeOutcome_checked (hp : Refers p) (hpos : 0 ≤ fd) :
    Checked p (closeOutcome p around fd) := by
  unfold closeOutcome
  split
  · exact checked_nil _
  have hin : 0 ≤ fd ∧ fd < processMaxFds := by omega
  refine checked_tested hp hin (fun d => by simp) fun d hfile huse => ?_
  rw [hfile]
  exact checked_inside hin (by simp [huse])

theorem closeOutcome_checked_iff (hp : Refers p) :
    Checked p (closeOutcome p around fd) ↔ CheckedWhen k p around fd .close := by
  by_cases hneg : fd < 0
  · rw [closeOutcome_below_iff hneg]
    exact (or_iff_right (not_le.mpr hneg)).symm
  · exact iff_of_true (closeOutcome_checked hp (not_lt.mp hneg)) (.inl (not_lt.mp hneg))

end Handlers

/-- **A descriptor argument is checked** by `lseek`, by `read` only when it
names a descriptor in use that can be read, by `write` when it names an output
or a descriptor in use, and by `close` when it is not negative (or memory in
front of the array reads as not in use). A refusal in `read` ends in `klog`,
which takes the descriptor for its format. -/
theorem descriptor_checked_iff {k : Kernel} (h : Reachable k) {p : ProcessData}
    (hp : k.proc? k.currentProcess = some p) (around : Int → Option FdProcess) (fd : Int)
    (call : FdCall) :
    Checked p (outcome k p around fd call) ↔ CheckedWhen k p around fd call := by
  have hvalid := reachable_vfsFdsValid h
  have hrefers : Refers p := fun d hd => hvalid.valid.all hp hd
  cases call with
  | read env buff count => exact readOutcome_checked_iff hrefers env buff count
  | write => exact writeOutcome_checked_iff hrefers hvalid.readable
  | close => exact closeOutcome_checked_iff hrefers
  | lseek vfs offset whence => exact iff_true_intro (lseekOutcome_checked hrefers vfs offset whence)

theorem descriptor_checked_iff_kernel : ∃ p,
    smallKernel.proc? smallKernel.currentProcess = some p ∧
      Checked p (outcome smallKernel p (fun _ => none) 0 .write) ∧
      Checked p (outcome smallKernel p (fun _ => none) 1 (.read {} 0x1000 1)) := by
  have hreach : Reachable smallKernel := ⟨{}, {}, 0, 0x100000, _, [], boot_small, rfl⟩
  refine ⟨_, rfl, (descriptor_checked_iff hreach rfl _ 0 .write).mpr (.inr (.inr (by decide))),
    (descriptor_checked_iff hreach rfl _ 1 (.read {} 0x1000 1)).mpr ⟨by decide, fun d hd => ?_⟩⟩
  obtain rfl := Option.some.inj hd
  exact ⟨rfl, fun _ => by decide⟩

/-- After start-up descriptor 3 is free: `write` reads it all the same, and `read` makes an
address of it. `close` with `-1` writes in front of the array when the byte there is not
zero. -/
theorem descriptor_unchecked : Reachable smallKernel ∧ ∃ p,
    smallKernel.proc? smallKernel.currentProcess = some p ∧
      ¬ Checked p (outcome smallKernel p (fun _ => none) 3 .write) ∧
      ¬ Checked p (outcome smallKernel p (fun _ => none) 3 (.read {} 0x1000 1)) ∧
      ¬ Checked p (outcome smallKernel p (fun _ => some { id := 0, inUse := true })
        (-1) .close) := by
  refine ⟨⟨{}, {}, 0, 0x100000, _, [], boot_small, rfl⟩, _, rfl, fun h => ?_, ?_, fun h => ?_⟩
  · have huse := (h.access.resolve_left fun herr => by cases herr.1) (.use 3) List.mem_cons_self
    exact absurd huse.2 (by decide)
  · exact not_checked_message (show Access.message 3 ∈ _ by decide) rfl
  · have hbelow : (-1 : Int) < 0 := by decide
    rw [outcome, closeOutcome_below_iff hbelow] at h
    cases h

end VersionSix.Process
