import VersionSix.Process
import VersionSix.RoundRobin

/-!
# The scheduler

`process_sched_yield` (`process.c`) in its three parts: the choice of the next
process, the exchange of frames and statuses, and the mapping of the new
process's pages.

The candidate loop goes round the process list from the node behind the current
process and stops at the first process that is not waiting, ended or inactive.
It has no end when there is none; it runs on fuel here, and as many turns as
there are nodes show that a loop that has not stopped by then never will. The
mapping is a list of pages in the order of the three loops, because two of them
may name one virtual page and the later one then decides.

`yield_cases` says once what a yield can do: forget the process that was set to
be next, or switch to the process the loop chose. Every later argument about
the scheduler starts from it and never unfolds the function again.
`KeepsLayout` is for what happens to a record in between: a change of the
fields the mapping does not read maps the same pages.
-/

namespace VersionSix.Process

/-! ## Choosing the next process -/

def schedulable : ProcessStatus → Bool
  | .inactive | .active | .sleep => true
  | _ => false

/-- The `while` loop, from the node `node`; the fuel bounds its turns. -/
def nextProcess (l : List ProcessData) : Nat → Nat → Option Nat
  | 0, _ => none
  | fuel + 1, node =>
      -- the end of the list is followed by its head
      let nextProcessNode := if node + 1 < l.length then node + 1 else 0
      match l[nextProcessNode]? with
      | none => none
      | some pCandidate =>
          if schedulable pCandidate.status then some nextProcessNode
          else nextProcess l fuel nextProcessNode

/-- `new_p`. Without a candidate the loop does not end, and as many turns as
there are nodes show that (`nextProcess_stuck`). -/
def selectNext (k : Kernel) : Option Nat :=
  match k.processNextUp with
  | some p => some p
  | none => nextProcess k.processList k.processList.length k.currentProcess

/-! ## Frames and statuses -/

def statusAfterSwitch : ProcessStatus → ProcessStatus
  | .waitingForDeath => .dead
  | .waiting => .waiting
  | _ => .inactive

/-- What the yield does to the record of the outgoing process. -/
def switchOut (frame : Registers) (p : ProcessData) : ProcessData :=
  { p with context := frame, status := statusAfterSwitch p.status }

/-- What the yield does to the record of the incoming process. -/
def switchIn (p : ProcessData) : ProcessData :=
  { p with firstRun := false, status := .active }

/-! ## Address space -/

/-- The first `n` elements of an array; `none` if it is shorter. -/
def readSections (sections : List ExecSection) (n : Nat) : Option (List ExecSection) :=
  if n ≤ sections.length then some (sections.take n) else none

/-- `addr_space_to_copy`: the process itself or, for a thread, its parent. -/
def addrSpaceToCopy (k : Kernel) (newP : ProcessData) : Option ProcessData :=
  if newP.hasOwnAddrSpace then some newP
  else (processGetDataFromPid k newP.pidParent).bind k.proc?

/-- The pages the three loops map, in order. The text and heap loops count
with `new_p` and read the arrays of `addr_space_to_copy`. -/
def sectionsToMap (newP copy : ProcessData) : Option (List ExecSection) :=
  if newP.pid = kernelProcessId then some []
  else do
    let data ← readSections copy.dataSections copy.dataSectionCount
    let text ← readSections copy.textSections newP.textSectionCount
    let heap ← readSections copy.heapPages newP.heapPageCount
    return data ++ text ++ heap

def stackPages (p : ProcessData) : List ExecSection :=
  (List.range processDefaultStackPages).map fun i =>
    { virt := (p.procStackVirt + i * pageSize) % 2 ^ 64,
      phys := (p.procStackPhys + i * pageSize) % 2 ^ 64,
      kernVirt := (p.procStackKvirt + i * pageSize) % 2 ^ 64 }

/-- `page_map` for each page of a list, in order. -/
def mapPages (vm : Nat → Option Nat) (pages : List ExecSection) : Nat → Option Nat :=
  pages.foldl (fun vm s => pageMap vm s.virt s.phys) vm

/-- All the pages a switch to `newP` maps, in order. -/
def pagesMapped (k : Kernel) (newP : ProcessData) : Option (List ExecSection) :=
  (addrSpaceToCopy k newP).bind fun copy =>
    (sectionsToMap newP copy).map fun sections => sections ++ stackPages newP

/-! ## `process_sched_yield` -/

def switchTo (k : Kernel) (new : Nat) : Option Kernel :=
  let old := k.currentProcess
  (k.proc? new).bind fun newP =>
    let k' : Kernel :=
      { k.updateProc old (switchOut k.frame) with
        frame := newP.context
        currentProcess := new
        history := .stopped old k.frame :: k.history }
    (pagesMapped k' newP).map fun pages =>
      { k'.updateProc new switchIn with vm := mapPages k'.vm pages }

def processSchedYield (k : Kernel) : Option Kernel :=
  (selectNext k).bind fun new =>
    let k := { k with processNextUp := none }
    if new = k.currentProcess then some k else switchTo k new

/-! ## Changes the mapping does not see -/

/-- `f` keeps the fields the pages of a switch are taken from. -/
structure KeepsLayout (f : ProcessData → ProcessData) : Prop where
  pid : ∀ p, (f p).pid = p.pid
  own : ∀ p, (f p).hasOwnAddrSpace = p.hasOwnAddrSpace
  parent : ∀ p, (f p).pidParent = p.pidParent
  sections : ∀ p q, sectionsToMap (f p) q = sectionsToMap p q
  copied : ∀ p q, sectionsToMap p (f q) = sectionsToMap p q
  stack : ∀ p, stackPages (f p) = stackPages p

theorem switchOut_keepsLayout (frame : Registers) : KeepsLayout (switchOut frame) :=
  ⟨fun _ => rfl, fun _ => rfl, fun _ => rfl, fun _ _ => rfl, fun _ _ => rfl, fun _ => rfl⟩

theorem switchIn_keepsLayout : KeepsLayout switchIn :=
  ⟨fun _ => rfl, fun _ => rfl, fun _ => rfl, fun _ _ => rfl, fun _ _ => rfl, fun _ => rfl⟩

theorem processGetDataFromPid_updateProc (k : Kernel) (i pid : Nat)
    {f : ProcessData → ProcessData} (hf : ∀ p, (f p).pid = p.pid) :
    processGetDataFromPid (k.updateProc i f) pid = processGetDataFromPid k pid := by
  unfold processGetDataFromPid Kernel.updateProc
  dsimp only
  induction k.processList generalizing i with
  | nil => simp
  | cons p ps ih =>
      cases i with
      | zero => simp [List.findIdx?_cons, hf]
      | succ i => rw [List.modify_succ_cons, List.findIdx?_cons, List.findIdx?_cons, ih]

theorem KeepsLayout.pagesMapped_self {f : ProcessData → ProcessData} (hf : KeepsLayout f)
    (k : Kernel) (p : ProcessData) : pagesMapped k (f p) = pagesMapped k p := by
  unfold pagesMapped addrSpaceToCopy
  rw [hf.own, hf.parent, hf.stack]
  split
  · simp only [Option.bind_some, hf.sections, hf.copied]
  · simp only [hf.sections]

theorem KeepsLayout.pagesMapped_updateProc {f : ProcessData → ProcessData} (hf : KeepsLayout f)
    (k : Kernel) (i : Nat) (p : ProcessData) :
    pagesMapped (k.updateProc i f) p = pagesMapped k p := by
  unfold pagesMapped addrSpaceToCopy
  split
  · rfl
  · rw [processGetDataFromPid_updateProc k i _ hf.pid]
    cases processGetDataFromPid k p.pidParent with
    | none => rfl
    | some j =>
        simp only [Option.bind_some, Kernel.proc?_updateProc]
        split
        · cases k.proc? j with
          | none => rfl
          | some q => simp only [Option.map_some, Option.bind_some, hf.copied]
        · rfl

/-! ## What a yield does -/

/-- The state after the switch from the current process to `new`. -/
def switched (k : Kernel) (new : Nat) (newP : ProcessData) (pages : List ExecSection) : Kernel :=
  { k with
    processNextUp := none
    processList := (k.processList.modify k.currentProcess (switchOut k.frame)).modify new switchIn
    frame := newP.context
    currentProcess := new
    vm := mapPages k.vm pages
    history := .stopped k.currentProcess k.frame :: k.history }

theorem yield_switch {k : Kernel} {new : Nat} {newP : ProcessData} (hsel : selectNext k = some new)
    (hne : new ≠ k.currentProcess) (hnew : k.proc? new = some newP) :
    processSchedYield k = (pagesMapped k newP).map (switched k new newP) := by
  have hpages := (switchOut_keepsLayout k.frame).pagesMapped_updateProc k k.currentProcess newP
  unfold processSchedYield
  rw [hsel]
  simp only [Option.bind_some]
  rw [if_neg hne, ← hpages]
  unfold switchTo
  rw [show ({ k with processNextUp := none } : Kernel).proc? new = some newP from hnew]
  rfl

theorem yield_self {k : Kernel} (hsel : selectNext k = some k.currentProcess) :
    processSchedYield k = some { k with processNextUp := none } := by
  unfold processSchedYield
  rw [hsel]
  simp

/-- What a yield can do: nothing but forget the next-up process, or switch
to the process chosen by `selectNext`. -/
theorem yield_cases {k k' : Kernel} (h : processSchedYield k = some k') :
    (selectNext k = some k.currentProcess ∧ k' = { k with processNextUp := none }) ∨
    ∃ new newP pages, selectNext k = some new ∧ new ≠ k.currentProcess ∧
      k.proc? new = some newP ∧ pagesMapped k newP = some pages ∧
      k' = switched k new newP pages := by
  obtain ⟨new, hsel, hrest⟩ := Option.bind_eq_some_iff.mp h
  by_cases hne : new = k.currentProcess
  · subst hne
    rw [yield_self hsel] at h
    exact .inl ⟨hsel, (Option.some.inj h).symm⟩
  · dsimp only at hrest
    rw [if_neg hne] at hrest
    obtain ⟨newP, hnew, -⟩ := Option.bind_eq_some_iff.mp hrest
    rw [yield_switch hsel hne hnew] at h
    obtain ⟨pages, hpages, rfl⟩ := Option.map_eq_some_iff.mp h
    exact .inr ⟨new, newP, pages, hsel, hne, hnew, hpages, rfl⟩

end VersionSix.Process
