import VersionSix.ElfLoader
import VersionSix.SyscallResults

/-!
# Replacing the program of a process

`execve_syscall_handler` (`execve.c`) and `elf_loader_load` (`elf_loader.c`).
The handler looks at one result only, that of `vfs_getattr`. What the read and
the loader return is dropped: the record of the process is overwritten before
they run, and its stack, mappings and interrupt frame after them, whatever they
return.

So a program that cannot be loaded is found out when there is nothing left to
go back to. `execve_atomic_iff` says which failures leave the process as it
was: the ones of `vfs_getattr`, and no others. The proof has two halves. Before
the record is touched, nothing is changed (`execve_returns`); behind that point
the process runs something else on a new stack, and the call ends without a
result (`execve_enters`).

What memory, file system and page tables answer is taken as given for one call
(`ExecEnv`), with no assumption about it.
-/

namespace VersionSix.Execve

open ByteStore (Bytes)
open Process
open Elf (Loader elfHeader elfFileInitalize elfLoaderLoadSegments)

/-! ## `elf_loader_load` -/

def kerrElfInavlid : Int := -4

/-- What one call gets from outside. -/
structure ExecEnv where
  /-- the string at `path`, and what `vfs_getattr` returns and finds -/
  path : List UInt8
  getattr : Int
  stSize : Nat
  /-- what `vfs_read` returns, and the block for the file after it -/
  bytesRead : Int
  buff : Bytes
  /-- `argv` and the strings before its `NULL` -/
  argv : Nat
  args : List (List UInt8)
  /-- the block for the `elf_file` -/
  elfFile : Nat
  /-- what is in the return register after `elf_load_symbols`, which has no `return` -/
  symbolsLoaded : Int
  /-- what `kern_virt` of an entry holds that was not written -/
  uninitialized : Nat
  dataSectionAva : Nat
  /-- the end of `elf_loader_load_binary`, which makes the tables of the dynamic linker -/
  buildTables : Bytes → Loader → Option Loader
  /-- the page `page_allocate_kernel` hands out next -/
  nextPage : Nat
  /-- the blocks for `argv_new` and for its strings -/
  argvNew : Nat
  argBlock : Nat → Nat

def HasMagic (data : Bytes) : Prop :=
  data 0 = 0x7F ∧ (List.range 3).map (fun i => data (1 + i)) = chars "ELF"

instance (data : Bytes) : Decidable (HasMagic data) := inferInstanceAs (Decidable (_ ∧ _))

/-- `elf_loader_load`; a file without the magic is no error. -/
def elfLoaderLoad (env : ExecEnv) (loader : Elf.Env) (data : Bytes) (s : Loader) :
    Option (Int × Loader) :=
  if HasMagic data then
    (elfFileInitalize data).bind fun _ =>
      let s := { s with process := { s.process with binaryFormatData := env.elfFile } }
      if env.symbolsLoaded = 0 then some (kerrElfInavlid, s)
      else
        let (loaded, s) := elfLoaderLoadSegments loader data s
        (if loaded.isSome then some s else env.buildTables data s).map fun s =>
          (0, { s with process := { s.process with entry := (elfHeader data).eEntry } })
  else some (0, s)

/-! ## `execve.c` -/

def kernelMemory (k : Kernel) : Bytes := fun v => k.memory (kernelPhysical k v)

def kernelVirtual (k : Kernel) (a : Nat) : Nat :=
  (a + 2 ^ 64 - k.kernelPhysicalAllocationBase + k.kernelVirtualAllocationBase) % 2 ^ 64

def setKernelMemory (k : Kernel) (memory : Bytes) : Kernel :=
  { k with memory := fun a => if a < 2 ^ 64 then memory (kernelVirtual k a) else k.memory a }

def loaderOf (env : ExecEnv) (k : Kernel) (p : ProcessData) : Loader where
  process := p
  dataSectionAva := env.dataSectionAva
  memory := kernelMemory k
  nextPage := env.nextPage
  copies := []

def loaderEnv (env : ExecEnv) (k : Kernel) : Elf.Env where
  physical := kernelPhysical k
  uninitialized := env.uninitialized

/-- The administrative variables; the path is in arrays of 256 bytes. -/
def setupAdmin (env : ExecEnv) (p : ProcessData) : Option ProcessData :=
  if 256 ≤ env.path.length then none
  else some { p with
    status := .inSetup
    execSize := env.stSize
    path := env.path
    name := env.path
    argv := env.argv
    argc := 1
    workingDir := chars "/"
    hasOwnAddrSpace := true }

/-- `argc` after the loop over `argv`. -/
def countArgs (env : ExecEnv) : Nat :=
  if env.argv = 0 then 0 else if env.args.length = 20 then 0 else env.args.length

/-- `argv_new[i]` and the string it points to. -/
def copyArg (env : ExecEnv) (i : Nat) (arg : List UInt8) (k : Kernel) : Kernel :=
  let memory := ByteStore.setLe 8 k.memory (kernelPhysical k (env.argvNew + 8 * i))
    (env.argBlock i)
  { k with memory := ByteStore.putStr memory (kernelPhysical k (env.argBlock i)) arg }

def copyArgs (env : ExecEnv) (args : List (List UInt8)) (k : Kernel) : Kernel :=
  args.zipIdx.foldl (fun k arg => copyArg env arg.2 arg.1 k) k

def stackVirt : Nat := 0xA0000000

def setupStack (stack stackPhys : Nat) (p : ProcessData) : ProcessData :=
  { p with
    procStackVirt := stackVirt
    procStackKvirt := stack
    procStackPhys := stackPhys
    stackSize := processDefaultStackSize }

/-- The mappings of the stack, the text and the data. -/
def mapProgram (p : ProcessData) (vm : Nat → Option Nat) : Nat → Option Nat :=
  let vm := pageMap vm p.procStackVirt p.procStackPhys
  let sections := p.textSections.take p.textSectionCount ++ p.dataSections.take p.dataSectionCount
  let vm := sections.foldl (fun vm s => pageMap vm s.virt s.phys) vm
  (List.range processDefaultStackPages).foldl
    (fun vm i => pageMap vm (p.procStackVirt + i * pageSize) (p.procStackPhys + i * pageSize)) vm

def newContext (p : ProcessData) (argc argvNew : Nat) : Registers :=
  { rip := UInt64.ofNat p.entry
    rsp := UInt64.ofNat (p.procStackVirt + p.stackSize)
    cs := 0x28
    rflags := 0x200
    ss := 0x30
    rdi := UInt64.ofNat argc
    rsi := UInt64.ofNat argvNew }

def startProgram (env : ExecEnv) (stack stackPhys : Nat) (p : ProcessData) : ProcessData :=
  let p := setupStack stack stackPhys p
  { p with
    context := newContext p (countArgs env) env.argvNew
    status := .active }

/-- The record, the mappings and the frame of the current process. -/
def installProgram (p : ProcessData) (k : Kernel) : Kernel :=
  { k.updateProc k.currentProcess fun _ => p with
    vm := mapProgram p k.vm
    frame := p.context }

/-- The handler from the copies of the arguments on. -/
def enterProgram (env : ExecEnv) (p : ProcessData) (nextPage : Nat) (k : Kernel) : Option Kernel :=
  let k := copyArgs env (env.args.take (countArgs env)) k
  (pageAllocateKernel k processDefaultStackPages [nextPage]).map fun (stack, k, _) =>
    installProgram (startProgram env stack (kernelPhysical k stack) p) k

/-- `execve_syscall_handler`. Of the result, `none` is the end of the function, where it
returns no value. -/
def execveSyscallHandler (env : ExecEnv) (k : Kernel) : Option (Option Int × Kernel) :=
  if env.getattr ≠ 0 then some (some (-1), k)
  else
    (k.proc? k.currentProcess).bind fun p =>
      (setupAdmin env p).bind fun p =>
        (elfLoaderLoad env (loaderEnv env k) env.buff (loaderOf env k p)).bind fun (_, s) =>
          (enterProgram env s.process s.nextPage (setKernelMemory k s.memory)).map fun k =>
            (none, k)

/-! ## What is to hold -/

/-- The ways in which the program of a call is not loaded. -/
inductive LoadFails (env : ExecEnv) (k : Kernel) : Prop
  | noFile : env.getattr ≠ 0 → LoadFails env k
  | shortRead : env.bytesRead < env.stSize → LoadFails env k
  | noMagic : ¬ HasMagic env.buff → LoadFails env k
  | loader {s s' : Loader} {r : Int} : r ≠ 0 →
      elfLoaderLoad env (loaderEnv env k) env.buff s = some (r, s') → LoadFails env k
  | binary {s s' : Loader} {r : Int} : r ≠ 0 →
      elfLoaderLoadSegments (loaderEnv env k) env.buff s = (some r, s') → LoadFails env k

/-- What a failed call leaves of a process. -/
structure SameProcess (p p' : ProcessData) : Prop where
  status : p'.status = p.status
  path : p'.path = p.path
  text : (p'.textSections, p'.textSectionCount) = (p.textSections, p.textSectionCount)
  data : (p'.dataSections, p'.dataSectionCount) = (p.dataSections, p.dataSectionCount)
  entry : p'.entry = p.entry
  stack : (p'.procStackVirt, p'.procStackKvirt, p'.procStackPhys, p'.stackSize) =
    (p.procStackVirt, p.procStackKvirt, p.procStackPhys, p.stackSize)

/-- The call returns an error and leaves the calling process and its frame as they were. -/
def Atomic (env : ExecEnv) (k : Kernel) : Prop :=
  ∃ r k', execveSyscallHandler env k = some (some r, k') ∧ r < 0 ∧ k'.frame = k.frame ∧
    ∀ p, k.proc? k.currentProcess = some p →
      ∃ p', k'.proc? k.currentProcess = some p' ∧ SameProcess p p'

/-! ## Failures -/

variable {env : ExecEnv} {k k' : Kernel}

/-- Only a file that is not there is reported, and before anything is changed. -/
theorem execve_returns {r : Int} : execveSyscallHandler env k = some (some r, k') ↔
    env.getattr ≠ 0 ∧ r = -1 ∧ k' = k := by
  rw [execveSyscallHandler]
  constructor
  · intro h
    split at h
    · next hattr =>
      obtain ⟨hr, rfl⟩ := Prod.mk.inj (Option.some.inj h)
      exact ⟨hattr, (Option.some.inj hr).symm, rfl⟩
    · obtain ⟨p, -, h⟩ := Option.bind_eq_some_iff.mp h
      obtain ⟨p', -, h⟩ := Option.bind_eq_some_iff.mp h
      obtain ⟨⟨err, s⟩, -, h⟩ := Option.bind_eq_some_iff.mp h
      obtain ⟨k₁, -, h⟩ := Option.map_eq_some_iff.mp h
      cases h
  · rintro ⟨hattr, rfl, rfl⟩
    rw [if_pos hattr]

theorem copyArg_kept (i : Nat) (arg : List UInt8) (k : Kernel) :
    (copyArg env i arg k).processList = k.processList ∧
      (copyArg env i arg k).currentProcess = k.currentProcess := by
  unfold copyArg
  exact ⟨rfl, rfl⟩

theorem copyArgs_kept (args : List (List UInt8)) (k : Kernel) :
    (copyArgs env args k).processList = k.processList ∧
      (copyArgs env args k).currentProcess = k.currentProcess := by
  unfold copyArgs
  induction args.zipIdx generalizing k with
  | nil => exact ⟨rfl, rfl⟩
  | cons arg args ih =>
      obtain ⟨hlist, hcur⟩ := copyArg_kept arg.2 arg.1 k
      obtain ⟨hlist', hcur'⟩ := ih (copyArg env arg.2 arg.1 k)
      rw [List.foldl_cons]
      exact ⟨hlist'.trans hlist, hcur'.trans hcur⟩

theorem pageAllocateKernel_kept {n v stack : Nat} {rest : List Nat}
    (h : pageAllocateKernel k n [v] = some (stack, k', rest)) :
    k'.processList = k.processList ∧ k'.currentProcess = k.currentProcess := by
  unfold pageAllocateKernel at h
  obtain ⟨-, hk⟩ := Prod.mk.inj (Option.some.inj h)
  obtain ⟨rfl, -⟩ := Prod.mk.inj hk
  exact ⟨rfl, rfl⟩

/-- The process `i` runs the new program. -/
structure Entered (env : ExecEnv) (i : Nat) (k' : Kernel) (p' : ProcessData) : Prop where
  process : k'.proc? i = some p'
  status : p'.status = .active
  stack : p'.procStackVirt = stackVirt ∧ p'.stackSize = processDefaultStackSize
  context : p'.context = newContext p' (countArgs env) env.argvNew
  frame : k'.frame = p'.context

theorem installProgram_process (p : ProcessData) (hcur : (k.proc? k.currentProcess).isSome) :
    (installProgram p k).proc? k.currentProcess = some p := by
  obtain ⟨q, hq⟩ := Option.isSome_iff_exists.mp hcur
  have hupdated := Kernel.proc?_updateProc k k.currentProcess k.currentProcess fun _ => p
  rw [if_pos rfl, hq] at hupdated
  exact hupdated

theorem enterProgram_spec {p : ProcessData} {nextPage : Nat}
    (hcur : (k.proc? k.currentProcess).isSome) (h : enterProgram env p nextPage k = some k') :
    ∃ p', Entered env k.currentProcess k' p' := by
  unfold enterProgram at h
  obtain ⟨⟨stack, k₁, rest⟩, halloc, rfl⟩ := Option.map_eq_some_iff.mp h
  obtain ⟨hlist, hindex⟩ := copyArgs_kept (env.args.take (countArgs env)) k
  obtain ⟨hlist₁, hindex₁⟩ := pageAllocateKernel_kept halloc
  have hcurrent : k₁.currentProcess = k.currentProcess := hindex₁.trans hindex
  have hsame : k₁.proc? k₁.currentProcess = k.proc? k.currentProcess := by
    rw [hcurrent, Kernel.proc?, Kernel.proc?, hlist₁, hlist]
  have hprocess := installProgram_process
    (startProgram env stack (kernelPhysical k₁ stack) p) (hsame ▸ hcur)
  rw [hcurrent] at hprocess
  exact ⟨_, hprocess, rfl, ⟨rfl, rfl⟩, rfl, rfl⟩

theorem setKernelMemory_kept (memory : Bytes) :
    (setKernelMemory k memory).processList = k.processList ∧
      (setKernelMemory k memory).currentProcess = k.currentProcess := by
  unfold setKernelMemory
  exact ⟨rfl, rfl⟩

/-- A file that is there replaces stack, status and frame of the process, whatever the loader
makes of it, and the call ends without a result. -/
theorem execve_enters {r : Option Int} (hattr : env.getattr = 0)
    (h : execveSyscallHandler env k = some (r, k')) :
    r = none ∧ ∃ p', Entered env k.currentProcess k' p' := by
  rw [execveSyscallHandler, if_neg (fun hne => hne hattr)] at h
  obtain ⟨p, hp, h⟩ := Option.bind_eq_some_iff.mp h
  obtain ⟨p', -, h⟩ := Option.bind_eq_some_iff.mp h
  obtain ⟨⟨err, s⟩, -, h⟩ := Option.bind_eq_some_iff.mp h
  obtain ⟨k₁, hk₁, hpair⟩ := Option.map_eq_some_iff.mp h
  obtain ⟨rfl, rfl⟩ := Prod.mk.inj hpair
  refine ⟨rfl, ?_⟩
  obtain ⟨hlist, hindex⟩ := setKernelMemory_kept (k := k) s.memory
  have hcur : ((setKernelMemory k s.memory).proc?
      (setKernelMemory k s.memory).currentProcess).isSome := by
    rw [hindex, Kernel.proc?, hlist]
    exact Option.isSome_of_eq_some hp
  exact hindex ▸ enterProgram_spec hcur hk₁

theorem handlerValue_execve {call : CallEnv} (hcall : syscallOf k.frame.rax = .execve)
    (hattr : call.getattr = env.getattr) : handlerValue k call =
      (execveSyscallHandler env k).bind fun result => result.1.map fun r => (r, result.2) := by
  simp only [handlerValue, hcall, hattr]
  by_cases hzero : env.getattr = 0
  · rw [if_neg (fun hne => hne hzero)]
    cases h : execveSyscallHandler env k with
    | none => rfl
    | some result =>
        obtain ⟨hr, -⟩ := execve_enters hzero h
        rw [Option.bind_some, hr]
        rfl
  · rw [if_pos hzero, execve_returns.mpr ⟨hzero, rfl, rfl⟩]
    rfl

/-- A call that fails is atomic if and only if it fails at `vfs_getattr`. The
failures are all ways in which the program of the call is not loaded; those
after `vfs_getattr` are not looked at, and by then the process has another
stack, other mappings and another frame. -/
theorem execve_atomic_iff (env : ExecEnv) (k : Kernel) :
    LoadFails env k → (Atomic env k ↔ env.getattr ≠ 0) := by
  intro _
  constructor
  · rintro ⟨r, k', h, -⟩
    exact (execve_returns.mp h).1
  · intro hattr
    refine ⟨-1, k, execve_returns.mpr ⟨hattr, rfl, rfl⟩, by decide, rfl, fun p hp => ?_⟩
    exact ⟨p, hp, rfl, rfl, rfl, rfl, rfl, rfl⟩

/-! ## Two calls -/

/-- A call for a file of four zero bytes. -/
def zeroFile (getattr : Int) : ExecEnv where
  path := chars "/a"
  getattr := getattr
  stSize := 4
  bytesRead := 4
  buff := fun _ => 0
  argv := 0
  args := []
  elfFile := 0
  symbolsLoaded := 1
  uninitialized := 0
  dataSectionAva := 0
  buildTables := fun _ s => some s
  nextPage := 0x10000
  argvNew := 0x20000
  argBlock := fun i => 0x30000 + 256 * i

/-- One process, which has come to the address 0x400123. -/
def shellKernel : Kernel :=
  { Kernel.start {} with
    processList := [{ pid := 0, status := .active, path := chars "/bin/sh", entry := 0x400000,
                      fileDescriptors := [] }]
    frame := { rip := 0x400123, rax := 5 } }

/-- Nothing has happened after a call for a file that is not there. -/
theorem execve_atomic_iff_noFile : Atomic (zeroFile (-2)) shellKernel :=
  (execve_atomic_iff (zeroFile (-2)) shellKernel (.noFile (by decide))).mpr (by decide)

/-- A file that is no program restarts the old one on a new stack, and nothing is returned. -/
theorem zero_file_restarts : LoadFails (zeroFile 0) shellKernel ∧
    (execveSyscallHandler (zeroFile 0) shellKernel).map (fun r => (r.1, r.2.frame.rip)) =
      some (none, 0x400000) ∧ ¬ Atomic (zeroFile 0) shellKernel := by
  refine ⟨.noMagic (by decide), rfl, ?_⟩
  rintro ⟨r, k', h, -⟩
  exact (execve_returns.mp h).1 rfl

end VersionSix.Execve
