import VersionSix.Handlers

/-!
# `read` and `lseek` on one open file

A descriptor is meant to be a cursor: `read` returns the bytes at `pos` and
moves `pos` past them, `lseek` moves it to or by an offset. `lseek.c` is in
the kernel, the dispatcher does not know it; the two handlers are run here
one after the other on one descriptor.

Neither handler moves the cursor as it should. `read_syscall_handler` leaves
`pos` as it is, `SEEK_CUR` assigns the offset (`=+`) and `SEEK_END` takes it
off the size. A descriptor opened with `O_WRONLY` can be moved, but a read of it
faults in `klog`, where the error is to be logged. `file_is_cursor` says which
calls get away with all this.
-/

namespace VersionSix.Process

/-! ## `lseek` -/

/-- The file system as the two handlers call it: `vfs_read` with a path, a
size and an offset, its result and what it puts into the buffer;
`vfs_getattr` with a path, its result and `st_size`. -/
structure Vfs where
  vfsRead : List UInt8 → Nat → Nat → Int × List UInt8
  vfsGetattr : List UInt8 → Int × Nat

def setPos (pos : Nat) (d : FdProcess) : FdProcess := { d with pos := pos }

/-- The current process with `f` applied to one of its descriptors. -/
def modifyFd (k : Kernel) (p : ProcessData) (fd : Nat) (f : FdProcess → FdProcess) : Kernel :=
  k.updateProc k.currentProcess (setFds (p.fileDescriptors.modify fd f))

/-- `process_get_fd_path` of a descriptor of the current process. -/
def processGetFdPath (k : Kernel) (d : FdProcess) : Option (List UInt8) :=
  (vfsFdOf k d).map VfsFd.path

def seekSet : Int := 0
def seekCur : Int := 1
def seekEnd : Int := 2

/-- `-1` as an `off_t` -/
def offError : Nat := 2 ^ 32 - 1

/-- The offset is an `off_t`, which is unsigned and has 32 bits, as `st_size`. -/
def lseekSyscallHandler (k : Kernel) (vfs : Vfs) (fd : Int) (offset : Nat) (whence : Int) :
    Option (Nat × Kernel) :=
  if fd < 0 then some (0, k)
  else if (processMaxFds : Int) ≤ fd then some (0, k)
  else (k.proc? k.currentProcess).bind fun p =>
    (p.fileDescriptors[fd.toNat]?).bind fun d =>
      if d.inUse = false then some (0, k)
      else if whence = seekSet then some (0, modifyFd k p fd.toNat (setPos offset))
      else if whence = seekCur then
        -- `pos =+ offset` is `pos = +offset`
        some (0, modifyFd k p fd.toNat (setPos offset))
      else if whence = seekEnd then
        (processGetFdPath k d).map fun path =>
          let (statErr, stSize) := vfs.vfsGetattr path
          if statErr = -1 then (offError, k)
          else (0, modifyFd k p fd.toNat (setPos ((stSize + 2 ^ 32 - offset) % 2 ^ 32)))
      else some (offError, k)

/-! ## Calls on one descriptor -/

inductive Whence
  | set | cur | fromEnd
deriving DecidableEq

def Whence.toInt : Whence → Int
  | .set => seekSet
  | .cur => seekCur
  | .fromEnd => seekEnd

/-- A read, or a seek by a signed offset. -/
inductive FileOp
  | read (buff count : Nat)
  | lseek (offset : Int) (whence : Whence)
deriving DecidableEq

/-- What `vfs_read` answers the read of a descriptor; the position is cut to
the 32 bits of an `off_t`. -/
def readAnswer (vfs : Vfs) (path : List UInt8) (pos count : Nat) : Int × List UInt8 :=
  vfs.vfsRead path count (pos % 2 ^ 32)

def currentFd (k : Kernel) (fd : Nat) : Option FdProcess :=
  (k.proc? k.currentProcess).bind fun p => p.fileDescriptors[fd]?

/-- One call; a read gives its result and the bytes stored. -/
def fileStep (vfs : Vfs) (fd : Nat) (k : Kernel) : FileOp →
    Option (Kernel × Option (Int × List UInt8))
  | .read buff count =>
      (currentFd k fd).bind fun d =>
        (processGetFdPath k d).bind fun path =>
          let answer := readAnswer vfs path d.pos count
          let env : CallEnv := { readResult := answer.1, readBytes := answer.2 }
          (readSyscallHandler k env fd buff count).map fun (r, k) => (k, some (r, answer.2))
  | .lseek offset whence =>
      (lseekSyscallHandler k vfs fd (offset % 2 ^ 32).toNat whence.toInt).map fun (_, k) =>
        (k, none)

/-! ## The cursor -/

/-- How many bytes a read of `count` gets at a position. -/
def available (content : List UInt8) (pos : Int) (count : Nat) : Nat :=
  min count ((content.length : Int) - pos).toNat

/-- The bytes of a file from a position on. -/
def bytesAt (content : List UInt8) (pos : Int) (n : Nat) : List UInt8 :=
  (content.drop pos.toNat).take n

/-- What an open file is for: a position in its bytes. -/
def cursor (content : List UInt8) (pos : Int) : FileOp → Int × Option (Int × List UInt8)
  | .read _ count =>
      let n := available content pos count
      (pos + n, some (n, bytesAt content pos n))
  | .lseek offset .set => (offset, none)
  | .lseek offset .cur => (pos + offset, none)
  | .lseek offset .fromEnd => (content.length + offset, none)

/-- The file system serves the file: requests inside its bytes are answered
with them, and `st_size` is its length as far as an `off_t` holds it. -/
structure Serves (vfs : Vfs) (path content : List UInt8) : Prop where
  read : ∀ {size offset}, offset + size ≤ content.length →
    vfs.vfsRead path size offset = ((size : Int), bytesAt content offset size)
  getattr : vfs.vfsGetattr path = (0, content.length % 2 ^ 32)

/-- The descriptor of the current process is open on the path, for writing only or not,
at a position. -/
structure OpenAt (k : Kernel) (fd : Nat) (path : List UInt8) (writeOnly : Bool) (pos : Int) :
    Prop where
  fd_pos : 0 < fd
  fd_lt : fd < processMaxFds
  isOpen : ∃ p d vFd, k.proc? k.currentProcess = some p ∧ p.fileDescriptors[fd]? = some d ∧
    d.inUse = true ∧ (d.pos : Int) = pos ∧ vfsFdOf k d = some vFd ∧ vFd.path = path ∧
    vFd.writeOnly = writeOnly

/-- The calls after which position and result are those of the cursor. A read
has to be one that gets nothing, of a descriptor that can be read; a seek one to an
offset that is not negative. The seek from the position has to start at 0, the one
from the end must not notice that the offset is taken off. -/
def CursorStep (vfs : Vfs) (path content : List UInt8) (writeOnly : Bool) (pos : Int) :
    FileOp → Prop
  | .read _ count => writeOnly = false ∧
      ((count = 0 ∧ pos ≤ content.length) ∨
        (content.length ≤ pos ∧ readAnswer vfs path pos.toNat count = (0, [])))
  | .lseek offset .set => 0 ≤ offset ∧ offset < 2 ^ 32
  | .lseek offset .cur => pos = 0 ∧ 0 ≤ offset ∧ offset < 2 ^ 32
  | .lseek offset .fromEnd =>
      offset % 2 ^ 31 = 0 ∧ 0 ≤ content.length + offset ∧ content.length + offset < 2 ^ 32

/-! ## One call -/

section Step

variable {k : Kernel} {vfs : Vfs} {fd : Nat} {path content : List UInt8} {writeOnly : Bool}
  {pos : Int}

theorem OpenAt.moved (h : OpenAt k fd path writeOnly pos) {p : ProcessData}
    (hp : k.proc? k.currentProcess = some p) (n : Nat) :
    OpenAt (modifyFd k p fd (setPos n)) fd path writeOnly n := by
  obtain ⟨hpos, hlt, q, d, vFd, hq, hd, huse, -, hfile⟩ := h
  obtain rfl := Option.some.inj (hp.symm.trans hq)
  refine ⟨hpos, hlt, setFds (p.fileDescriptors.modify fd (setPos n)) p, setPos n d, vFd, ?_, ?_,
    huse, rfl, hfile⟩
  · unfold modifyFd
    rw [Kernel.proc?_updateProc]
    simp only [Kernel.updateProc, if_pos, hp, Option.map_some]
  · simp [setFds, hd]

def seekTarget (stSize offset : Nat) : Whence → Nat
  | .set => offset
  | .cur => offset
  | .fromEnd => (stSize + 2 ^ 32 - offset) % 2 ^ 32

theorem seek_open (h : OpenAt k fd path writeOnly pos) {stSize : Nat}
    (hget : vfs.vfsGetattr path = (0, stSize))
    (offset : Int) (whence : Whence) :
    ∃ p, k.proc? k.currentProcess = some p ∧ fileStep vfs fd k (.lseek offset whence) =
      some (modifyFd k p fd (setPos (seekTarget stSize (offset % 2 ^ 32).toNat whence)), none) := by
  obtain ⟨-, hlt, p, d, vFd, hp, hd, huse, -, hfile, rfl, -⟩ := h
  have hpath : processGetFdPath k d = some vFd.path := by
    rw [processGetFdPath, hfile, Option.map_some]
  refine ⟨p, hp, ?_⟩
  dsimp only [fileStep]
  unfold lseekSyscallHandler
  rw [if_neg (by omega), if_neg (by exact_mod_cast not_le.mpr hlt), hp, Option.bind_some,
    Int.toNat_natCast, hd, Option.bind_some, if_neg (by simp [huse])]
  cases whence with
  | set => rfl
  | cur => rfl
  | fromEnd =>
      rw [hpath]
      simp only [Whence.toInt, seekSet, seekCur, seekEnd, Option.map_some, hget]
      rfl

theorem readSyscallHandler_open (h : OpenAt k fd path writeOnly pos) (env : CallEnv)
    (buff count : Nat) :
    readSyscallHandler k env fd buff count = if writeOnly then none else
      (storeBytes k buff env.readBytes).map fun k => (env.readResult, k) := by
  obtain ⟨hpos, hlt, p, d, vFd, hp, hd, huse, -, hfile, -, rfl⟩ := h
  unfold readSyscallHandler
  rw [if_neg (by omega), if_neg (by exact_mod_cast not_le.mpr hlt), hp, Option.bind_some,
    Int.toNat_natCast, hd, Option.bind_some, if_neg (by simp [huse]),
    if_neg (by exact_mod_cast hpos.ne'), hfile, Option.bind_some]

/-- A read of an open descriptor stores what `vfs_read` answers, and leaves
the descriptor as it is; one that is write-only faults. -/
theorem read_open (h : OpenAt k fd path writeOnly pos) (buff count : Nat) :
    fileStep vfs fd k (.read buff count) = if writeOnly then none else
      (storeBytes k buff (readAnswer vfs path pos.toNat count).2).map fun k' =>
        (k', some (readAnswer vfs path pos.toNat count)) := by
  have hread := fun env => readSyscallHandler_open h env buff count
  obtain ⟨-, -, p, d, vFd, hp, hd, -, rfl, hfile, rfl, -⟩ := h
  have hpath : processGetFdPath k d = some vFd.path := by
    rw [processGetFdPath, hfile, Option.map_some]
  simp only [fileStep, currentFd, hp, hd, hpath, hread, Option.bind_some, Int.toNat_natCast]
  cases writeOnly
  · simp only [Bool.false_eq_true, if_false, Option.map_map]
    rfl
  · rfl

theorem OpenAt.stored (h : OpenAt k fd path writeOnly pos) {k' : Kernel} {buff : Nat}
    {bytes : List UInt8} (hs : storeBytes k buff bytes = some k') :
    OpenAt k' fd path writeOnly pos := by
  obtain ⟨hpos, hlt, p, d, vFd, hp, hd, huse, hat, hfile⟩ := h
  have hq := (storeBytes_untouched hs).quiet 0
  refine ⟨hpos, hlt, p, d, vFd, ?_, hd, huse, hat, ?_⟩
  · unfold Kernel.proc? at hp ⊢
    rw [hq.processList, List.modify_id, hq.currentProcess, hp]
  · unfold vfsFdOf at hfile ⊢
    rwa [hq.globalFds]

theorem OpenAt.pos_unique (h : OpenAt k fd path writeOnly pos) {pos' : Int}
    (h' : OpenAt k fd path writeOnly pos') : pos = pos' := by
  obtain ⟨-, -, p, d, -, hp, hd, -, rfl, -⟩ := h
  obtain ⟨-, -, p', d', -, hp', hd', -, rfl, -⟩ := h'
  obtain rfl := Option.some.inj (hp.symm.trans hp')
  obtain rfl := Option.some.inj (hd.symm.trans hd')
  rfl

theorem OpenAt.nonneg (h : OpenAt k fd path writeOnly pos) : 0 ≤ pos := by
  obtain ⟨-, -, p, d, -, -, -, -, rfl, -⟩ := h
  exact Int.natCast_nonneg _

theorem seekTarget_eq {offset : Int} {whence : Whence}
    (hok : CursorStep vfs path content writeOnly pos (.lseek offset whence)) :
    (seekTarget (content.length % 2 ^ 32) (offset % 2 ^ 32).toNat whence : Int) =
      (cursor content pos (.lseek offset whence)).1 := by
  cases whence <;> simp only [seekTarget, cursor, CursorStep] at hok ⊢ <;> omega

/-- **One call.** A `CursorStep` does to the descriptor what the cursor does. -/
theorem fileStep_cursor (hvfs : Serves vfs path content) (h : OpenAt k fd path writeOnly pos)
    {op : FileOp} (hok : CursorStep vfs path content writeOnly pos op) :
    ∃ k', fileStep vfs fd k op = some (k', (cursor content pos op).2) ∧
      OpenAt k' fd path writeOnly (cursor content pos op).1 := by
  cases op with
  | read buff count =>
      have hans : readAnswer vfs path pos.toNat count = (0, []) := by
        rcases hok.2 with ⟨rfl, hle⟩ | ⟨-, hans⟩
        · unfold readAnswer
          rw [hvfs.read (by omega)]
          rfl
        · exact hans
      have hn : available content pos count = 0 := by
        unfold available
        rcases hok.2 with ⟨rfl, -⟩ | ⟨hle, -⟩ <;> omega
      refine ⟨k, ?_, ?_⟩
      · rw [read_open h, hans, hok.1]
        simp [cursor, hn, bytesAt, storeBytes]
      · simpa [cursor, hn] using h
  | lseek offset whence =>
      obtain ⟨p, hp, hstep⟩ := seek_open h hvfs.getattr offset whence
      have hout : (cursor content pos (.lseek offset whence)).2 = none := by cases whence <;> rfl
      refine ⟨_, hout ▸ hstep, ?_⟩
      rw [← seekTarget_eq hok]
      exact h.moved hp _

/-- The condition is exact: no other call agrees with the cursor, as long as
the position fits an `off_t`. -/
theorem cursorStep_of_fileStep (h : OpenAt k fd path writeOnly pos) (hlt : pos < 2 ^ 32)
    (hget : vfs.vfsGetattr path = (0, content.length % 2 ^ 32)) {op : FileOp} {k' : Kernel}
    (hstep : fileStep vfs fd k op = some (k', (cursor content pos op).2))
    (hopen : OpenAt k' fd path writeOnly (cursor content pos op).1) :
    CursorStep vfs path content writeOnly pos op := by
  have hnonneg := h.nonneg
  cases op with
  | read buff count =>
      rw [read_open h] at hstep
      split at hstep
      · cases hstep
      refine ⟨by simpa using ‹¬ writeOnly = true›, ?_⟩
      obtain ⟨k₁, hs, hk⟩ := Option.map_eq_some_iff.mp hstep
      obtain ⟨rfl, hans⟩ := Prod.mk.inj hk
      have hn : available content pos count = 0 := by
        have := (h.stored hs).pos_unique hopen
        simp only [cursor] at this
        omega
      simp only [cursor, hn, bytesAt, List.take_zero, Option.some.injEq] at hans
      by_cases hend : (content.length : Int) ≤ pos
      · exact .inr ⟨hend, hans⟩
      · refine .inl ⟨?_, by omega⟩
        unfold available at hn
        omega
  | lseek offset whence =>
      obtain ⟨p, hp, hseek⟩ := seek_open h hget offset whence
      obtain ⟨rfl, -⟩ := Prod.mk.inj (Option.some.inj (hseek.symm.trans hstep))
      have heq := (h.moved hp _).pos_unique hopen
      cases whence <;> simp only [seekTarget, cursor, CursorStep] at heq ⊢ <;> omega

end Step

/-! ## Runs -/

/-- **A run of calls that are all `CursorStep`s returns what the cursor
returns,** and leaves the descriptor at the position of the cursor. The file
system is any that serves the file. `fileStep_cursor` is the step, and its
converse `cursorStep_of_fileStep` says that no call could be added to the
condition. -/
theorem file_is_cursor {vfs : Vfs} {path content : List UInt8} (hvfs : Serves vfs path content)
    {k : Kernel} {fd : Nat} {writeOnly : Bool} {pos : Int} (h : OpenAt k fd path writeOnly pos)
    {ops : List FileOp}
    (hok : Run.Guarded (fileStep vfs fd) (cursor content)
      (fun _ pos op => CursorStep vfs path content writeOnly pos op) k pos ops) :
    ∃ k', Run.trace (fileStep vfs fd) k ops =
        some (k', (Run.outputs (cursor content) pos ops).2) ∧
      OpenAt k' fd path writeOnly (Run.outputs (cursor content) pos ops).1 := by
  have hstep : ∀ k pos op, OpenAt k fd path writeOnly pos →
      CursorStep vfs path content writeOnly pos op →
      ∃ k', fileStep vfs fd k op = some (k', (cursor content pos op).2) ∧
        OpenAt k' fd path writeOnly (cursor content pos op).1 :=
    fun _ _ _ h hok => fileStep_cursor hvfs h hok
  exact Run.trace_refines hstep h hok

/-! ### A file of two bytes -/

def twoBytes : List UInt8 := [65, 66]

def twoBytesVfs : Vfs where
  vfsRead _ size offset := (size, bytesAt twoBytes offset size)
  vfsGetattr _ := (0, 2)

def openTwoBytes : Option Kernel :=
  (boot { vm := fun _ => some 0 } {} 0 0x100000).bind fun k =>
    step k (callOf 2 0 { path := chars "/a" })

theorem openTwoBytes_isSome : openTwoBytes.isSome := by decide +kernel

/-- The kernel process has the file open as descriptor 3. -/
def twoBytesKernel : Kernel := openTwoBytes.get openTwoBytes_isSome

theorem twoBytes_serves : Serves twoBytesVfs (chars "/a") twoBytes := ⟨fun _ => rfl, rfl⟩

theorem twoBytes_open : OpenAt twoBytesKernel 3 (chars "/a") false 0 := by
  have hopen : (twoBytesKernel.proc? twoBytesKernel.currentProcess).any (fun p =>
      (p.fileDescriptors[3]?).any fun d => (vfsFdOf twoBytesKernel d).any fun vFd =>
        decide (d.inUse = true ∧ (d.pos : Int) = 0 ∧ vFd.path = chars "/a" ∧
          vFd.writeOnly = false)) = true := by decide +kernel
  obtain ⟨p, hp, hfd⟩ := (Option.any_eq_true _ _).mp hopen
  obtain ⟨d, hd, hfile⟩ := (Option.any_eq_true _ _).mp hfd
  obtain ⟨vFd, hv, hstate⟩ := (Option.any_eq_true _ _).mp hfile
  obtain ⟨huse, hpos, hpath, hwrite⟩ := of_decide_eq_true hstate
  exact ⟨by decide, by decide, p, d, vFd, hp, hd, huse, hpos, hv, hpath, hwrite⟩

theorem file_is_cursor_seeks : ∃ k',
    Run.trace (fileStep twoBytesVfs 3) twoBytesKernel
        [.lseek 1 .cur, .lseek 0 .fromEnd, .lseek 1 .set, .read 0x1000 0] =
      some (k', [none, none, none, some (0, [])]) ∧ OpenAt k' 3 (chars "/a") false 1 := by
  refine file_is_cursor twoBytes_serves twoBytes_open ?_
  refine ⟨⟨rfl, by decide, by decide⟩, fun _ _ _ => ⟨?_, fun _ _ _ => ⟨?_, fun _ _ _ =>
    ⟨⟨rfl, .inl ⟨rfl, ?_⟩⟩, fun _ _ _ => trivial⟩⟩⟩⟩
  all_goals simp [CursorStep, cursor, twoBytes]

theorem read_stays_in_place : Serves twoBytesVfs (chars "/a") twoBytes ∧
    OpenAt twoBytesKernel 3 (chars "/a") false 0 ∧
    (Run.trace (fileStep twoBytesVfs 3) twoBytesKernel [.read 0x1000 1, .read 0x1001 1]).map
      Prod.snd = some [some (1, [65]), some (1, [65])] ∧
    (Run.outputs (cursor twoBytes) 0 [.read 0x1000 1, .read 0x1001 1]).2 =
      [some (1, [65]), some (1, [66])] := by
  refine ⟨twoBytes_serves, twoBytes_open, ?_, by decide⟩
  decide +kernel

end VersionSix.Process
