import Mathlib.Logic.Function.Basic
import VersionSix.Bytes

/-!
# Processes

The records of `process.h` and `vfs.h` and the functions that create and
look up processes and file descriptors (`process.c`, `vfs.c`).

A `process_data *` is a position in `process_list`: records are appended
and never removed, so the position is fixed when the record is made. All
handlers work on one `Kernel`, which holds `global_proc_data`, the table
`global_fds`, the input queues and the interrupt frame of the running
process.

What lies outside is passed in: `CallEnv` gives, for one system call, the
addresses `kmalloc` and `page_allocate_kernel` hand out and what the file
system answers. A result `none` is a fault of the kernel: a `NULL` pointer
followed, an array left, a loop that does not end.
-/

namespace VersionSix.Process

open ByteStore (Bytes)

/-! ## Constants -/

def kernelProcessId : Nat := 0
def rootProcessId : Nat := 1
def processDefaultStackSize : Nat := 65536
def processDefaultStackPages : Nat := 16
def processMaxFds : Nat := 25
def vfsFdMax : Nat := 255
def pageSize : Nat := 4096

/-- How many `process_exec_section` (24 bytes) one page holds. -/
def sectionsPerPage : Nat := pageSize / 24

/-! ## Records -/

/-- `registers`: the frame the entry stub pushes. -/
structure Registers where
  rax : UInt64 := 0
  rbx : UInt64 := 0
  rcx : UInt64 := 0
  rdx : UInt64 := 0
  rsi : UInt64 := 0
  rdi : UInt64 := 0
  rbp : UInt64 := 0
  r8 : UInt64 := 0
  r9 : UInt64 := 0
  r10 : UInt64 := 0
  r11 : UInt64 := 0
  r12 : UInt64 := 0
  r13 : UInt64 := 0
  r14 : UInt64 := 0
  r15 : UInt64 := 0
  interruptNo : UInt64 := 0
  errorNo : UInt64 := 0
  rip : UInt64 := 0
  cs : UInt64 := 0
  rflags : UInt64 := 0
  rsp : UInt64 := 0
  ss : UInt64 := 0
deriving DecidableEq

inductive ProcessStatus
  | inSetup | active | inactive | waiting | sleep | waitingForDeath | dead
deriving DecidableEq

inductive ProcessType
  | userProc | thread | proc
deriving DecidableEq

structure ExecSection where
  phys : Nat
  virt : Nat
  kernVirt : Nat
deriving DecidableEq

/-- `fd_process`: a descriptor of one process. -/
structure FdProcess where
  id : Nat
  inUse : Bool := false
  wasUsed : Bool := false
  closeOnExec : Bool := false
  pos : Nat := 0
  vfsFd : Int := 0
deriving DecidableEq

/-- `vfs_fd`: an entry of the global table. -/
structure VfsFd where
  id : Int
  processFd : Int := 0
  refCount : Int := 0
  inUse : Bool := false
  path : List UInt8 := []
  inodeId : Nat := 0
  closeOnExec : Bool := false
  readOnly : Bool := false
  writeOnly : Bool := false
deriving DecidableEq

structure ProcessData where
  pid : Nat
  pidParent : Nat := 0
  status : ProcessStatus := .inSetup
  exitCode : Int := 0
  name : List UInt8 := []
  context : Registers := {}
  firstRun : Bool := true
  waitForPid : Nat := 0
  type : ProcessType := .userProc
  fileDescriptors : List FdProcess
  procStackKvirt : Nat := 0
  procStackVirt : Nat := 0
  procStackPhys : Nat := 0
  stackSize : Nat := 0
  argc : Int := 0
  argv : Nat := 0
  workingDir : List UInt8 := []
  entry : Nat := 0
  path : List UInt8 := []
  execSize : Nat := 0
  hasOwnAddrSpace : Bool := false
  textSectionCount : Nat := 0
  textSections : List ExecSection := []
  textSectonVirtStart : Nat := 0
  dataSectionCount : Nat := 0
  dataSections : List ExecSection := []
  dataSectionVirtStart : Nat := 0
  heapPageCount : Nat := 0
  heapPages : List ExecSection := []
  heapTop : Nat := 0
  relaSymIndex : Nat := 0
  dynSymIndex : Nat := 0
  numDynSyms : Nat := 0
  binaryFormatData : Nat := 0
deriving DecidableEq

/-- `ps2_keyboard_wq_data` and `serial3_wq_data`, with the pid of the
`wait_queue_entry` that holds them. -/
structure WaitQueueEntry where
  pid : Nat
  fd : Nat
  buff : Nat
  count : Nat
deriving DecidableEq

/-- The device `d_use_as_stdin` points to. -/
inductive StdinDevice
  | ps2Keyboard | serial3
deriving DecidableEq

/-- What happened to the frame of a process: it was `created` with one, or
`stopped` being current with one. -/
inductive FrameEvent
  | created (p : Nat) (frame : Registers)
  | stopped (p : Nat) (frame : Registers)
deriving DecidableEq

structure Kernel where
  processList : List ProcessData
  pidNext : Nat
  currentProcess : Nat
  processNextUp : Option Nat
  /-- the live interrupt frame, `**context` in every handler -/
  frame : Registers
  globalFds : List VfsFd
  /-- what the page tables translate a virtual page number to -/
  vm : Nat → Option Nat
  /-- physical memory -/
  memory : Bytes
  kernelVirtualAllocationBase : Nat
  kernelPhysicalAllocationBase : Nat
  dUseAsStdin : StdinDevice
  /-- scancodes, head of the list first -/
  scancodeQueue : List UInt8
  wqPs2Keyboard : List WaitQueueEntry
  serial3Buffer : List UInt8
  serial3BufferWIndex : Nat
  serial3BufferRIndex : Nat
  wqSerial3 : List WaitQueueEntry
  /-- history variable: no function reads it; newest event first -/
  history : List FrameEvent

/-- What one system call gets from outside the process code. -/
structure CallEnv where
  /-- address of the block `kmalloc` returns for a process record -/
  processAddr : Nat := 0
  /-- results of `page_allocate_kernel`, in the order of the calls -/
  pages : List Nat := []
  /-- the string at the path argument and what `vfs_getattr` says of it -/
  path : List UInt8 := []
  getattr : Int := 0
  /-- result of `vfs_read` and the bytes it puts into the buffer -/
  readResult : Int := 0
  readBytes : List UInt8 := []

/-! ## Register contents as C values -/

/-- `(pid_t) r` -/
def pidOf (r : UInt64) : Nat := r.toNat % 2 ^ 32

/-- `(int) r` -/
def intOf (r : UInt64) : Int :=
  if r.toNat % 2 ^ 32 < 2 ^ 31 then (r.toNat % 2 ^ 32 : Nat) else (r.toNat % 2 ^ 32 : Nat) - 2 ^ 32

/-- The bytes of a string constant, without the terminator. -/
def chars (s : String) : List UInt8 := s.toList.map fun c => UInt8.ofNat c.toNat

/-! ## Records by position -/

namespace Kernel

def proc? (k : Kernel) (i : Nat) : Option ProcessData := k.processList[i]?

def updateProc (k : Kernel) (i : Nat) (f : ProcessData → ProcessData) : Kernel :=
  { k with processList := k.processList.modify i f }

@[simp] theorem proc?_updateProc (k : Kernel) (i j : Nat) (f : ProcessData → ProcessData) :
    (k.updateProc i f).proc? j = if i = j then (k.proc? j).map f else k.proc? j := by
  simp only [proc?, updateProc, List.getElem?_modify]
  split <;> simp

@[simp] theorem length_updateProc (k : Kernel) (i : Nat) (f : ProcessData → ProcessData) :
    (k.updateProc i f).processList.length = k.processList.length := List.length_modify ..

end Kernel

/-! ## Memory -/

/-- `paging_virtual_to_physical` of an address in a page that
`page_allocate_kernel` returned. -/
def kernelPhysical (k : Kernel) (v : Nat) : Nat :=
  (v + 2 ^ 64 - k.kernelVirtualAllocationBase + k.kernelPhysicalAllocationBase) % 2 ^ 64

/-- `memcpy` between kernel pages. -/
def memcpyKernel (k : Kernel) (dst src n : Nat) : Kernel :=
  let bytes := ByteStore.read k.memory (kernelPhysical k src) n
  { k with memory := ByteStore.write k.memory (kernelPhysical k dst) n bytes }

/-- `page_allocate_kernel`: the next of the pages the environment has, zeroed. -/
def pageAllocateKernel (k : Kernel) (n : Nat) : List Nat → Option (Nat × Kernel × List Nat)
  | [] => none
  | v :: rest =>
      let zeroed := ByteStore.write k.memory (kernelPhysical k v) (n * pageSize) fun _ => 0
      some (v, { k with memory := zeroed }, rest)

/-- `*buff = c` through the current page tables; `none` is a page fault. -/
def storeByte (k : Kernel) (buff : Nat) (c : UInt8) : Option Kernel :=
  (k.vm (buff / pageSize)).map fun frame =>
    { k with memory := Function.update k.memory (frame + buff % pageSize) c }

def storeBytes (k : Kernel) (buff : Nat) : List UInt8 → Option Kernel
  | [] => some k
  | c :: cs => (storeByte k buff c).bind fun k => storeBytes k (buff + 1) cs

/-- `page_map` on the translation the page tables describe. -/
def pageMap (vm : Nat → Option Nat) (virt phys : Nat) : Nat → Option Nat :=
  Function.update vm (virt / pageSize) (some phys)

/-! ## `process.c`: creating and finding processes -/

/-- The descriptors `process_get_new_process` sets up. -/
def newFileDescriptors : List FdProcess :=
  let fds := (List.range processMaxFds).map fun i => ({ id := i } : FdProcess)
  let fds := fds.modify 0 fun d => { d with inUse := true, vfsFd := 0 }
  let fds := fds.modify 1 fun d => { d with inUse := true, vfsFd := 1 }
  let fds := fds.modify 2 fun d => { d with inUse := true }
  fds.modify 1 fun d => { d with vfsFd := 1 }

/-- The record `process_get_new_process` appends; `memset` clears the rest. -/
def newProcess (pid : Nat) : ProcessData :=
  { pid := pid, status := .inSetup, firstRun := true, fileDescriptors := newFileDescriptors,
    heapPageCount := 0, heapPages := [], heapTop := 0xB0000000 }

/-- `process_get_new_process`. `pid_next` is a `uint32_t`. It does not come
round: memory for the stacks of so many processes runs out long before
(`page.c`: "we support a max of 16gb memory"). -/
def processGetNewProcess (k : Kernel) : Option (Nat × Kernel) :=
  if 2 ^ 32 ≤ k.pidNext + 1 then none
  else
    let processList := k.processList ++ [newProcess k.pidNext]
    some (k.pidNext, { k with processList := processList, pidNext := k.pidNext + 1 })

/-- `process_get_data_from_pid`: the first record with the pid. -/
def processGetDataFromPid (k : Kernel) (pid : Nat) : Option Nat :=
  k.processList.findIdx? fun p => p.pid == pid

def processSetNextUp (k : Kernel) (p : Nat) : Kernel := { k with processNextUp := some p }

/-! ## File descriptors -/

/-- `process_alloc_fd`: the first free descriptor, 0 if there is none. -/
def processAllocFd (fds : List FdProcess) : Nat × List FdProcess :=
  match fds.findIdx? fun d => !d.inUse with
  | some i => (i, fds.modify i fun d => { d with pos := 0 })
  | none => (0, fds)

def processFreeFd (fds : List FdProcess) (fd : Nat) : List FdProcess :=
  if 0 < fd ∧ fd < processMaxFds then fds.modify fd fun d => { d with inUse := false } else fds

/-- `vfs_alloc_fd`: the loop goes on after a hit, so it is the last free entry. -/
def vfsAllocFd (fds : List VfsFd) : Option Nat :=
  (List.range fds.length).foldl
    (fun fdFree i => if (fds[i]?).any fun d => !d.inUse then some i else fdFree) none

def vfsGetFdData (fd : Int) : Option Nat :=
  if (vfsFdMax : Int) ≤ fd then none else if fd < 0 then none else some fd.toNat

/-- The table `vfs_fd_setup` leaves. -/
def vfsFdSetup : List VfsFd :=
  let fds := (List.range vfsFdMax).map fun (i : Nat) => ({ id := i } : VfsFd)
  let fds := fds.modify 0 fun d => { d with inUse := true, path := chars "/dev/stdin" }
  let fds := fds.modify 1 fun d => { d with inUse := true, path := chars "/dev/stdout" }
  fds.modify 2 fun d => { d with inUse := true, path := chars "/dev/stderr" }

/-! ## The first two processes -/

/-- What `elf_loader_load` finds in a program file. -/
structure LoadedProgram where
  entry : Nat := 0
  textSections : List ExecSection := []
  textSectonVirtStart : Nat := 0
  dataSections : List ExecSection := []
  dataSectionVirtStart : Nat := 0
  relaSymIndex : Nat := 0
  dynSymIndex : Nat := 0
  numDynSyms : Nat := 0
  binaryFormatData : Nat := 0

/-- `elf_loader_load`; the section counts are `uint16_t`. -/
def elfLoaderLoad (program : LoadedProgram) (p : ProcessData) : ProcessData :=
  { p with
    entry := program.entry
    textSectionCount := program.textSections.length % 2 ^ 16
    textSections := program.textSections
    textSectonVirtStart := program.textSectonVirtStart
    dataSectionCount := program.dataSections.length % 2 ^ 16
    dataSections := program.dataSections
    dataSectionVirtStart := program.dataSectionVirtStart
    relaSymIndex := program.relaSymIndex
    dynSymIndex := program.dynSymIndex
    numDynSyms := program.numDynSyms
    binaryFormatData := program.binaryFormatData }

/-- Memory and devices as `process_initalize` finds them. -/
structure Machine where
  vm : Nat → Option Nat := fun _ => none
  memory : Bytes := fun _ => 0
  kernelVirtualAllocationBase : Nat := 0
  kernelPhysicalAllocationBase : Nat := 0
  dUseAsStdin : StdinDevice := .ps2Keyboard

/-- The kernel's variables before `process_initalize`; `vfs_fd_setup` has run. -/
def Kernel.start (m : Machine) : Kernel :=
  { processList := [], pidNext := 0, currentProcess := 0, processNextUp := none, frame := {},
    globalFds := vfsFdSetup, vm := m.vm, memory := m.memory,
    kernelVirtualAllocationBase := m.kernelVirtualAllocationBase,
    kernelPhysicalAllocationBase := m.kernelPhysicalAllocationBase,
    dUseAsStdin := m.dUseAsStdin, scancodeQueue := [], wqPs2Keyboard := [],
    serial3Buffer := List.replicate 50 0, serial3BufferWIndex := 0, serial3BufferRIndex := 0,
    wqSerial3 := [], history := [] }

def initKernelProcess (p : ProcessData) : ProcessData :=
  { p with
    status := .active
    name := chars "Kernel"
    path := chars "/boot/versionvi.bin"
    context := {} }

/-- `process_initalize`: the kernel's own process becomes current. -/
def processInitalize (k : Kernel) : Option Kernel :=
  (processGetNewProcess { k with pidNext := 0, processList := [] }).bind fun (pid, k) =>
    if pid ≠ kernelProcessId then none
    else (processGetDataFromPid k pid).map fun kernelPd =>
      { k.updateProc kernelPd initKernelProcess with
        currentProcess := kernelPd
        processNextUp := none
        history := .created kernelPd {} :: k.history }

/-- The context `process_setup_init` gives the first user process. -/
def initContext (program : LoadedProgram) : Registers :=
  { cs := 0x28, rflags := 0x200, ss := 0x30,
    rsp := UInt64.ofNat (0xA0000000 + processDefaultStackSize), rip := UInt64.ofNat program.entry }

def initRootProcess (program : LoadedProgram) (execSize stack stackPhys : Nat) (p : ProcessData) :
    ProcessData :=
  { elfLoaderLoad program p with
    path := chars "/bin/first"
    name := chars "first"
    workingDir := chars "/"
    hasOwnAddrSpace := true
    execSize := execSize
    context := initContext program
    stackSize := processDefaultStackSize
    procStackVirt := 0xA0000000
    procStackKvirt := stack
    procStackPhys := stackPhys
    status := .inactive }

/-- `process_setup_init`: `/bin/first` is loaded into a second process. -/
def processSetupInit (k : Kernel) (program : LoadedProgram) (execSize stack : Nat) :
    Option Kernel :=
  (processGetNewProcess k).bind fun (pid, k) =>
    if pid ≠ rootProcessId then none
    else (processGetDataFromPid k pid).bind fun rootPd =>
      (pageAllocateKernel k processDefaultStackPages [stack]).map fun (stack, k, _) =>
        let k := k.updateProc rootPd
          (initRootProcess program execSize stack (kernelPhysical k stack))
        let loaded := elfLoaderLoad program (newProcess pid)
        let data := loaded.dataSections.take loaded.dataSectionCount
        let text := loaded.textSections.take loaded.textSectionCount
        let vm := (data ++ text).foldl (fun vm s => pageMap vm s.virt s.phys) k.vm
        { k with vm := vm, history := .created rootPd (initContext program) :: k.history }

/-- The kernel after `process_initalize` and `process_setup_init`. -/
def boot (m : Machine) (program : LoadedProgram) (execSize stack : Nat) : Option Kernel :=
  (processInitalize (Kernel.start m)).bind fun k => processSetupInit k program execSize stack

end VersionSix.Process
