import VersionSix.Sched
import VersionSix.Run

/-!
# System calls and input interrupts

The handlers of `kernel/syscalls/` that create, end and block processes or work
on descriptors, the two input devices a read can block on (`ps2.c`, `serial.c`,
`wait_queue.c`), and the dispatch (`syscall.c`).

A run of the machine is a sequence of `Event`s: the current process runs in
user mode until it makes a system call with some register frame, or an input
device interrupts it. Nothing is assumed about the registers a process arrives
with, nor about what memory and file system answer (`CallEnv`). Programs are
loaded elsewhere: `execve` and `execm` are no part of the runs considered here.

The handlers keep their slips. A read or write that is refused logs without a
level and faults in `klog`; the results of `open`, `close` and `read` are
dropped in the `switch`; and `wait` does not look at the process it waits for.
A handler that faults ends the run: the state behind it is `none`, and only
states of runs are spoken of (`Reachable`).
-/

namespace VersionSix.Process

/-! ## `fork` and `clone` -/

/-- The loop that copies the pages of one section table. -/
def copyPages (k : Kernel) : List ExecSection → List Nat →
    Option (List ExecSection × Kernel × List Nat)
  | [], pages => some ([], k, pages)
  | s :: sections, pages =>
      (pageAllocateKernel k 1 pages).bind fun (v, k, pages) =>
        let k := memcpyKernel k v s.kernVirt pageSize
        (copyPages k sections pages).map fun (copied, k, pages) =>
          ({ kernVirt := v, virt := s.virt, phys := kernelPhysical k v } :: copied, k, pages)

/-- One section table of the child: a page for the table, then the copies.
A table with more entries than a page holds runs over its end. -/
def copySections (k : Kernel) (sections : List ExecSection) (count : Nat) (pages : List Nat) :
    Option (List ExecSection × Kernel × List Nat) :=
  if sectionsPerPage < count then none
  else (pageAllocateKernel k 1 pages).bind fun (_, k, pages) =>
    (readSections sections count).bind fun sections => copyPages k sections pages

/-- What `fork_syscall_handler` writes into the child's record. -/
def forkChild (parent : ProcessData) (frame : Registers) (stack stackPhys : Nat)
    (data text : List ExecSection) (child : ProcessData) : ProcessData :=
  { child with
    argc := parent.argc
    argv := parent.argv
    binaryFormatData := parent.binaryFormatData
    execSize := parent.execSize
    hasOwnAddrSpace := parent.hasOwnAddrSpace
    pidParent := parent.pid
    firstRun := true
    path := parent.path
    name := parent.name
    workingDir := parent.workingDir
    context := { frame with rax := 0 }
    procStackVirt := 0xA0000000
    procStackKvirt := stack
    procStackPhys := stackPhys
    stackSize := processDefaultStackSize
    dataSectionCount := parent.dataSectionCount
    dataSections := data
    dataSectionVirtStart := parent.dataSectionVirtStart
    textSectionCount := parent.textSectionCount
    textSections := text
    textSectonVirtStart := parent.textSectonVirtStart
    relaSymIndex := parent.relaSymIndex
    dynSymIndex := parent.dynSymIndex
    numDynSyms := parent.numDynSyms
    status := .inactive }

def saveContext (frame : Registers) (p : ProcessData) : ProcessData := { p with context := frame }

def forkSyscallHandler (k : Kernel) (env : CallEnv) : Option Kernel := do
  let pParent := k.currentProcess
  let parent ← k.proc? pParent
  let (pidChild, k) ← processGetNewProcess k
  let pChild ← processGetDataFromPid k pidChild
  let frame := k.frame
  let k := k.updateProc pParent (saveContext frame)
  let (stack, k, pages) ← pageAllocateKernel k processDefaultStackPages env.pages
  let stackPhys := kernelPhysical k stack
  let k := memcpyKernel k stack parent.procStackKvirt parent.stackSize
  let (data, k, pages) ← copySections k parent.dataSections parent.dataSectionCount pages
  let (text, k, _) ← copySections k parent.textSections parent.textSectionCount pages
  let k := k.updateProc pChild (forkChild parent frame stack stackPhys data text)
  return { k with
    frame := { frame with rax := UInt64.ofNat pidChild }
    history := .created pChild { frame with rax := 0 } :: k.history }

def cloneContext (frame : Registers) (start : UInt64) : Registers :=
  { frame with
    rip := start
    rsp := UInt64.ofNat (0xA0000000 + processDefaultStackSize - 8) }

/-- What `clone_syscall_handler` writes into the child's record. -/
def cloneChild (parent : ProcessData) (frame : Registers) (start : UInt64) (stack stackPhys : Nat)
    (child : ProcessData) : ProcessData :=
  { child with
    argc := parent.argc
    argv := parent.argv
    binaryFormatData := parent.binaryFormatData
    execSize := parent.execSize
    hasOwnAddrSpace := false
    pidParent := parent.pid
    firstRun := true
    type := .thread
    path := parent.path
    name := parent.name
    workingDir := parent.workingDir
    context := cloneContext frame start
    procStackVirt := 0xA0000000
    procStackKvirt := stack
    procStackPhys := stackPhys
    stackSize := processDefaultStackSize
    relaSymIndex := parent.relaSymIndex
    dynSymIndex := parent.dynSymIndex
    numDynSyms := parent.numDynSyms
    status := .inactive }

def cloneSyscallHandler (k : Kernel) (env : CallEnv) (start : UInt64) : Option Kernel := do
  let pParent := k.currentProcess
  let parent ← k.proc? pParent
  let (pidChild, k) ← processGetNewProcess k
  let pChild ← processGetDataFromPid k pidChild
  let frame := k.frame
  let k := k.updateProc pParent (saveContext frame)
  let (stack, k, _) ← pageAllocateKernel k processDefaultStackPages env.pages
  let stackPhys := kernelPhysical k stack
  let k := memcpyKernel k stack parent.procStackKvirt parent.stackSize
  let k := k.updateProc pChild (cloneChild parent frame start stack stackPhys)
  let k := { k with
    frame := { frame with rax := UInt64.ofNat env.processAddr }
    history := .created pChild (cloneContext frame start) :: k.history }
  processSchedYield (processSetNextUp k pChild)

/-! ## Descriptors: `open` and `close` -/

def closeFd (d : FdProcess) : FdProcess := { d with inUse := false, wasUsed := true, pos := 0 }

def releaseFd (d : VfsFd) : VfsFd :=
  { d with inUse := false, closeOnExec := false, inodeId := 0, refCount := d.refCount - 1 }

def setFds (fds : List FdProcess) (p : ProcessData) : ProcessData :=
  { p with fileDescriptors := fds }

/-- The result and the state; a negative descriptor reads before the array. -/
def closeSyscallHandler (k : Kernel) (fd : Int) : Option (Int × Kernel) :=
  if (processMaxFds : Int) ≤ fd then some (-1, k)
  else if fd < 0 then none
  else (k.proc? k.currentProcess).bind fun p =>
    (p.fileDescriptors[fd.toNat]?).map fun d =>
      if !d.inUse then (-1, k)
      else
        let fds := p.fileDescriptors.modify fd.toNat closeFd
        let k := k.updateProc k.currentProcess (setFds fds)
        match vfsGetFdData d.vfsFd with
        | none => (-1, k)
        | some v => (1, { k with globalFds := k.globalFds.modify v releaseFd })

/-- What `open_syscall_handler` writes into the global entry; `O_RDONLY` is 0,
so its test never holds. -/
def openVfsFd (path : List UInt8) (newFd : Nat) (flags : Nat) (d : VfsFd) : VfsFd :=
  { d with
    path := path
    inUse := true
    processFd := newFd
    refCount := d.refCount + 1
    closeOnExec := flags &&& 0o2000000 ≠ 0
    readOnly := false
    writeOnly := flags &&& 1 ≠ 0 }

/-- A path that does not fit `vfs_fd.path` runs over the entry. -/
def openSyscallHandler (k : Kernel) (env : CallEnv) (flags : Nat) : Option (Int × Kernel) :=
  if env.getattr ≠ 0 then some (env.getattr, k)
  else (k.proc? k.currentProcess).bind fun p =>
    let (newFd, fds) := processAllocFd p.fileDescriptors
    if newFd = 0 then some (0, k.updateProc k.currentProcess (setFds fds))
    else
      match vfsAllocFd k.globalFds with
      | none => some (0, k.updateProc k.currentProcess (setFds (processFreeFd fds newFd)))
      | some v =>
          if 255 ≤ env.path.length then none
          else (k.globalFds[v]?).map fun newFdSys =>
            let fds := fds.modify newFd fun d => { d with inUse := true, vfsFd := newFdSys.id }
            let k := k.updateProc k.currentProcess (setFds fds)
            (newFd, { k with globalFds := k.globalFds.modify v (openVfsFd env.path newFd flags) })

/-! ## `wait` and `exit` -/

def waitFor (pid : Nat) (p : ProcessData) : ProcessData :=
  { p with status := .waiting, waitForPid := pid }

def waitSyscallHandler (k : Kernel) (pid : Nat) : Kernel :=
  k.updateProc k.currentProcess (waitFor pid)

/-- The loop of `exit_syscall_handler` over the descriptors; the first three
stay open. -/
def closeFds (k : Kernel) : List Nat → Option Kernel
  | [] => some k
  | i :: rest =>
      (k.proc? k.currentProcess).bind fun p =>
        (p.fileDescriptors[i]?).bind fun d =>
          if d.inUse = true ∧ ¬ i < 3 then
            (closeSyscallHandler k i).bind fun (_, k) => closeFds k rest
          else closeFds k rest

def wakeParent (p : ProcessData) : ProcessData := { p with status := .inactive, waitForPid := 0 }

/-- A parent that waits for the current process is woken and set to be next. -/
def notifyParent (k : Kernel) : Option Kernel :=
  (k.proc? k.currentProcess).map fun p =>
    match processGetDataFromPid k p.pidParent with
    | none => k
    | some pParent =>
        if (k.proc? pParent).any fun parent => parent.waitForPid == p.pid then
          processSetNextUp (k.updateProc pParent wakeParent) pParent
        else k

def endProcess (returnCode : Int) (p : ProcessData) : ProcessData :=
  { p with exitCode := returnCode, status := .waitingForDeath }

def exitSyscallHandler (k : Kernel) (returnCode : Int) : Option Kernel :=
  (closeFds k (List.range processMaxFds)).bind fun k =>
    (notifyParent k).bind fun k =>
      processSchedYield (k.updateProc k.currentProcess (endProcess returnCode))

/-! ## Input devices -/

def keyboardMap : List UInt8 :=
  (chars "\x00\x001234567890-=\x08\tqwertyuiop[]\n\x00asdfghjkl;'\x60\x00\\zxcvbnm,./\x00*\x00 "
    ++ List.replicate 16 0 ++ chars "-" ++ List.replicate 3 0 ++ chars "+"
    ++ List.replicate 49 0)

/-- `keyboard_scancode_to_char`; scancode 0x80 passes the test and is one
past the table. -/
def keyboardScancodeToChar (scancode : UInt8) : Option UInt8 :=
  if scancode < 0x81 then keyboardMap[scancode.toNat]? else some 0

def setStatus (status : ProcessStatus) (p : ProcessData) : ProcessData :=
  { p with status := status }

/-- `wq_add` of the current process: `p->status = WAITING`. The entry goes to
the head of the queue. -/
def wqAdd (k : Kernel) (queue : List WaitQueueEntry) (fd buff count : Nat) :
    Option (List WaitQueueEntry × Kernel) :=
  (k.proc? k.currentProcess).bind fun cur =>
    (processGetDataFromPid k cur.pid).map fun p =>
      ({ pid := cur.pid, fd := fd, buff := buff, count := count } :: queue,
        k.updateProc p (setStatus .waiting))

/-- `avs_list_dequeue`: the tail of the list. -/
def dequeue {α : Type} (queue : List α) : Option (α × List α) :=
  queue.getLast?.map fun a => (a, queue.dropLast)

def ps2KeyboardRead (k : Kernel) (fd buff count : Nat) : Option (UInt8 × Kernel) :=
  match dequeue k.scancodeQueue with
  | none =>
      (wqAdd k k.wqPs2Keyboard fd buff count).map fun (queue, k) =>
        (0, { k with wqPs2Keyboard := queue })
  | some (scancode, rest) =>
      (keyboardScancodeToChar scancode).map fun c => (c, { k with scancodeQueue := rest })

def nextSerialIndex (i : Nat) : Nat := if i + 1 = 50 then 0 else i + 1

def serial3Read (k : Kernel) (fd buff count : Nat) : Option (UInt8 × Kernel) :=
  if k.serial3BufferRIndex < k.serial3BufferWIndex then
    (k.serial3Buffer[k.serial3BufferRIndex]?).map fun c =>
      (c, { k with serial3BufferRIndex := nextSerialIndex k.serial3BufferRIndex })
  else
    (wqAdd k k.wqSerial3 fd buff count).map fun (queue, k) => (0, { k with wqSerial3 := queue })

/-- `stdin_read`: the device's character is stored, also when the reader blocks. -/
def stdinRead (k : Kernel) (fd buff count : Nat) : Option (UInt8 × Kernel) :=
  let read := match k.dUseAsStdin with
    | .ps2Keyboard => ps2KeyboardRead k fd buff count
    | .serial3 => serial3Read k fd buff count
  read.bind fun (c, k) => (storeByte k buff c).map fun k => (c, k)

/-- What a ready function does once it has the character: it goes to the
buffer through the current page tables, and the process can run again. -/
def deliver (k : Kernel) (entry : WaitQueueEntry) (c : UInt8) : Option Kernel :=
  (processGetDataFromPid k entry.pid).bind fun p =>
    (storeByte k entry.buff c).map fun k => k.updateProc p (setStatus .inactive)

/-- `ps2_keyboard_interrupt_handler` with the scancode it reads from the port. -/
def ps2KeyboardInterruptHandler (k : Kernel) (scancode : UInt8) : Option Kernel :=
  let k := { k with scancodeQueue := scancode :: k.scancodeQueue }
  match dequeue k.wqPs2Keyboard with
  | none => some k
  | some (entry, queue) =>
      (dequeue k.scancodeQueue).bind fun (scancode, rest) =>
        (keyboardScancodeToChar scancode).bind fun c =>
          deliver { k with wqPs2Keyboard := queue, scancodeQueue := rest } entry c

/-- `serial3_interrupt_handler` with the byte it reads from the port. -/
def serial3InterruptHandler (k : Kernel) (byte : UInt8) : Option Kernel :=
  let k := { k with
    serial3Buffer := k.serial3Buffer.set k.serial3BufferWIndex byte
    serial3BufferWIndex := nextSerialIndex k.serial3BufferWIndex }
  match dequeue k.wqSerial3 with
  | none => some k
  | some (entry, queue) =>
      (k.serial3Buffer[k.serial3BufferRIndex]?).bind fun c =>
        let rIndex := nextSerialIndex k.serial3BufferRIndex
        deliver { k with wqSerial3 := queue, serial3BufferRIndex := rIndex } entry c

/-! ## `read` and `write` -/

/-- The entry of the global table that a descriptor refers to. -/
def vfsFdOf (k : Kernel) (d : FdProcess) : Option VfsFd :=
  (vfsGetFdData d.vfsFd).bind fun v => k.globalFds[v]?

/-- A descriptor that is refused is a fault. `klog` is called without its level there: the
text is taken for the level, for which `klog_levels` has no entry, and the descriptor for the
text. The `-1` behind it is never returned. -/
def readSyscallHandler (k : Kernel) (env : CallEnv) (fd : Int) (buff count : Nat) :
    Option (Int × Kernel) :=
  if fd < 0 then none
  else if (processMaxFds : Int) ≤ fd then none
  else (k.proc? k.currentProcess).bind fun p =>
    (p.fileDescriptors[fd.toNat]?).bind fun d =>
      if !d.inUse then none
      else if fd = 0 then (stdinRead k fd.toNat buff count).map fun (c, k) => (c.toNat, k)
      else (vfsFdOf k d).bind fun vFd =>
        if vFd.writeOnly then none
        else (storeBytes k buff env.readBytes).map fun k => (env.readResult, k)

/-- `write_syscall_handler` writes to devices only; on other descriptors it
looks at the global entry and logs, without a level if that is read-only. -/
def writeSyscallHandler (k : Kernel) (fd : Int) : Option Kernel :=
  if fd = 1 ∨ fd = 2 then some k
  else if fd < 0 then none
  else (k.proc? k.currentProcess).bind fun p =>
    (p.fileDescriptors[fd.toNat]?).bind fun d =>
      (vfsFdOf k d).bind fun vFd => if vFd.readOnly then none else some k

/-! ## Dispatch -/

inductive Syscall
  | read | write | open | close | schedYield | execve | fork | exit | wait | execm | statfs
  | clone | conOut | unhandled
deriving DecidableEq

def syscallOf (rax : UInt64) : Syscall :=
  match rax.toNat with
  | 0 => .read
  | 1 => .write
  | 2 => .open
  | 3 => .close
  | 4 => .schedYield
  | 5 => .execve
  | 6 => .fork
  | 7 => .exit
  | 8 => .wait
  | 9 => .execm
  | 10 => .statfs
  | 11 => .clone
  | 16 => .conOut
  | _ => .unhandled

/-- The `switch` of `syscall_handler`. The results of `open`, `close` and
`read` are dropped there. -/
def dispatch (k : Kernel) (env : CallEnv) : Option Kernel :=
  match syscallOf k.frame.rax with
  | .fork => forkSyscallHandler k env
  | .schedYield => processSchedYield k
  | .exit => exitSyscallHandler k (intOf k.frame.rdi)
  | .wait => some (waitSyscallHandler k (pidOf k.frame.rdi))
  | .open => (openSyscallHandler k env (k.frame.rsi.toNat % 2 ^ 32)).map Prod.snd
  | .close => (closeSyscallHandler k (intOf k.frame.rdi)).map Prod.snd
  | .read =>
      (readSyscallHandler k env (intOf k.frame.rdi) k.frame.rsi.toNat k.frame.rdx.toNat).map
        Prod.snd
  | .write => writeSyscallHandler k (intOf k.frame.rdi)
  | .statfs => storeBytes k k.frame.rsi.toNat env.readBytes
  | .clone => cloneSyscallHandler k env k.frame.rdi
  | .conOut | .unhandled => some k
  | .execve | .execm => none

/-- A caller that is left in wait status gives way at once. -/
def syscallHandler (k : Kernel) (env : CallEnv) : Option Kernel :=
  (dispatch k env).bind fun k =>
    (k.proc? k.currentProcess).bind fun p =>
      if p.status = .waiting then processSchedYield k else some k

/-! ## Runs -/

inductive Event
  | call (frame : Registers) (env : CallEnv)
  | keyboard (scancode : UInt8)
  | serial (byte : UInt8)

def step (k : Kernel) : Event → Option Kernel
  | .call frame env => syscallHandler { k with frame := frame } env
  | .keyboard scancode => ps2KeyboardInterruptHandler k scancode
  | .serial byte => serial3InterruptHandler k byte

/-- The states runs lead to from a machine that has just set up its first
two processes. -/
def Reachable (k : Kernel) : Prop :=
  ∃ m program execSize stack k₀ events,
    boot m program execSize stack = some k₀ ∧ Run.exec step k₀ events = some k

end VersionSix.Process
