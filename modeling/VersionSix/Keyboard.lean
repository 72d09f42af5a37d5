import VersionSix.AvsRefines
import VersionSix.Syscall

/-!
# The keyboard queue

`ps2.c` and `wait_queue.c`, down to the lists in memory. Scancodes that
nobody waits for are queued; a reader that finds no scancode waits, in a
second queue. Both are `avs_list`s: what comes in first is at the tail.

An interrupt and a read are one step each. The driver is judged by what can be
seen of it from outside (`Seen`): the character that a read returns, or that its
caller is made to wait; and after an interrupt the process that was made runnable
again, with the character that is now in its buffer. The scancodes that arrived are
those of the interrupts. `Delivered` compares the two: what was seen are the
characters of the first scancodes, in the order in which they arrived, and the rest
is still in the queue.
-/

namespace VersionSix.Ps2

open Avs
open Process (ProcessStatus WaitQueueEntry)

/-! ## State -/

structure WaitQueue where
  queue : Avs.State WaitQueueEntry
  isReady : Bool

/-- The keyboard driver with what it works on: the process records by pid,
and the memory the buffers of the readers are in. -/
structure Driver where
  scancodeQueue : Avs.State UInt8
  wqPs2Keyboard : WaitQueue
  status : Nat → Option ProcessStatus
  memory : Nat → UInt8
  /-- the byte behind `keyboard_map` -/
  keyboardMapEnd : UInt8

/-- `p->status = status` for the record of `pid`. -/
def Driver.setStatus (s : Driver) (pid : Nat) (status : ProcessStatus) : Option Driver :=
  (s.status pid).map fun _ => { s with status := Function.update s.status pid (some status) }

/-! ## Functions -/

/-- Scancode 0x80 passes the test and is one past the table. -/
def keyboardScancodeToChar (s : Driver) (scancode : UInt8) : UInt8 :=
  (Process.keyboardScancodeToChar scancode).getD s.keyboardMapEnd

def wqAdd (s : Driver) (entry : WaitQueueEntry) (node : Nat) : Option Driver := do
  let queue ← avsListEnqueue s.wqPs2Keyboard.queue entry node
  let s := { s with wqPs2Keyboard := { s.wqPs2Keyboard with queue := queue } }
  s.setStatus entry.pid .waiting

def wqMakeReady (s : Driver) : Driver :=
  { s with wqPs2Keyboard := { s.wqPs2Keyboard with isReady := true } }

/-- The character, and the state after `ps2_keyboard_wq_ready`. -/
def ps2KeyboardWqReady (s : Driver) (entry : WaitQueueEntry) : Option (UInt8 × Driver) := do
  let (queue, d) ← avsListDequeue s.scancodeQueue
  let scancode ← d
  let c := keyboardScancodeToChar s scancode
  let s := { s with
    scancodeQueue := queue
    memory := Function.update s.memory entry.buff c }
  let s ← s.setStatus entry.pid .inactive
  some (c, s)

def wqCallNextReady (s : Driver) : Option Driver := do
  if s.wqPs2Keyboard.queue.list.size > 0 then
    let (queue, wqe) ← avsListDequeue s.wqPs2Keyboard.queue
    let entry ← wqe
    let s := { s with wqPs2Keyboard := { s.wqPs2Keyboard with queue := queue } }
    let (_, s) ← ps2KeyboardWqReady s entry
    some s
  else some s

/-- What `ps2_keyboard_read` returns to the process `pid`, and the state after
it. -/
def ps2KeyboardRead (s : Driver) (pid fd buff count node : Nat) : Option (UInt8 × Driver) := do
  if s.scancodeQueue.list.size = 0 then
    let s ← wqAdd s { pid := pid, fd := fd, buff := buff, count := count } node
    some (0, s)
  else
    let n := s.scancodeQueue.list.tail
    let d ← s.scancodeQueue.nodes n
    let c := keyboardScancodeToChar s d.data
    let queue ← avsListFree s.scancodeQueue n
    some (c, { s with scancodeQueue := queue })

/-- `status` and `newScancode` are what the two ports return. -/
def ps2KeyboardInterruptHandler (s : Driver) (status newScancode : UInt8) (node : Nat) :
    Option Driver := do
  if status &&& 0x01 ≠ 0 then
    let queue ← avsListEnqueue s.scancodeQueue newScancode node
    wqCallNextReady (wqMakeReady { s with scancodeQueue := queue })
  else some s

/-! ## Runs -/

/-- `node` is the address `avs_allocate` hands out for a list node. -/
inductive Event
  | interrupt (status newScancode : UInt8) (node : Nat)
  | read (pid fd buff count node : Nat)

/-- What a step shows: the character that a read returns, or that the reader waits in the
queue; the process that an interrupt took from the queue and made runnable, with the
character in its buffer. -/
inductive Seen
  | returned (c : UInt8)
  | waits (entry : WaitQueueEntry)
  | woken (entry : WaitQueueEntry) (c : UInt8)
  | nothing
deriving DecidableEq

/-- After a read that returned `c`. A reader that is not both in the queue and waiting has
the character. -/
def seenRead (queue queue' : Avs.State WaitQueueEntry) (status : Nat → Option ProcessStatus)
    (entry : WaitQueueEntry) (c : UInt8) : Seen :=
  if queue.list.size < queue'.list.size ∧ status entry.pid = some .waiting then .waits entry
  else .returned c

/-- After an interrupt. The entry that waits longest is at the tail of the queue. -/
def seenInterrupt (queue queue' : Avs.State WaitQueueEntry) (status : Nat → Option ProcessStatus)
    (memory : Nat → UInt8) : Seen :=
  match queue.nodes queue.list.tail with
  | some n =>
      if queue'.list.size < queue.list.size ∧ status n.data.pid = some .inactive then
        .woken n.data (memory n.data.buff)
      else .nothing
  | none => .nothing

def step (s : Driver) : Event → Option (Driver × Seen)
  | .interrupt status newScancode node =>
      (ps2KeyboardInterruptHandler s status newScancode node).map fun s' =>
        (s', seenInterrupt s.wqPs2Keyboard.queue s'.wqPs2Keyboard.queue s'.status s'.memory)
  | .read pid fd buff count node =>
      (ps2KeyboardRead s pid fd buff count node).map fun (c, s') =>
        (s', seenRead s.wqPs2Keyboard.queue s'.wqPs2Keyboard.queue s'.status
          { pid := pid, fd := fd, buff := buff, count := count } c)

/-- The two queues as `device_register_ps2_keyboard` sets them up. -/
def start (status : Nat → Option ProcessStatus) (memory : Nat → UInt8) (mapEnd : UInt8) :
    Driver where
  scancodeQueue := avsListInit fun _ => none
  wqPs2Keyboard := { queue := avsListInit fun _ => none, isReady := false }
  status := status
  memory := memory
  keyboardMapEnd := mapEnd

/-- `kmalloc` succeeds, and the reader is a process. -/
def Event.Ok (s : Driver) : Event → Prop
  | .interrupt _ _ node => Fresh s.scancodeQueue node
  | .read pid _ _ _ node => Fresh s.wqPs2Keyboard.queue node ∧ s.status pid ≠ none

/-! ## What is seen -/

def arrived (events : List Event) : List UInt8 :=
  events.filterMap fun
    | .interrupt status newScancode _ => if status &&& 0x01 ≠ 0 then some newScancode else none
    | .read .. => none

/-- The characters that readers got, directly or in their buffer. -/
def obtained (seen : List Seen) : List UInt8 :=
  seen.filterMap fun
    | .returned c | .woken _ c => some c
    | _ => none

def waited (seen : List Seen) : List WaitQueueEntry :=
  seen.filterMap fun | .waits w => some w | _ => none

def served (seen : List Seen) : List WaitQueueEntry :=
  seen.filterMap fun | .woken w _ => some w | _ => none

/-- The two lists hold the scancodes `qs` and the waiters `ws`. There is no scancode while
somebody waits. -/
structure Queues (s : Driver) (qs : List (Linked.Cell UInt8))
    (ws : List (Linked.Cell WaitQueueEntry)) : Prop where
  scancodes : Rep s.scancodeQueue qs
  waiters : Rep s.wqPs2Keyboard.queue ws
  idle : qs = [] ∨ ws = []
  alive : ∀ w ∈ ws, s.status w.2.pid ≠ none

/-- The scancodes that were taken, whose characters were seen, and those that are queued
are those that arrived, in this order. So are the waiters that were woken and those that
still wait, in the order in which they began to wait. -/
structure Delivered (s : Driver) (events : List Event) (seen : List Seen)
    (qs : List (Linked.Cell UInt8)) (ws : List (Linked.Cell WaitQueueEntry)) : Prop where
  queues : Queues s qs ws
  once : ∃ taken, taken ++ (qs.map Prod.snd).reverse = arrived events ∧
    obtained seen = taken.map (keyboardScancodeToChar s)
  order : served seen ++ (ws.map Prod.snd).reverse = waited seen

variable {s : Driver} {qs : List (Linked.Cell UInt8)} {ws : List (Linked.Cell WaitQueueEntry)}

theorem setStatus_of_alive {pid : Nat} (h : s.status pid ≠ none) (status : ProcessStatus) :
    s.setStatus pid status
      = some { s with status := Function.update s.status pid (some status) } := by
  obtain ⟨old, hold⟩ := Option.ne_none_iff_exists'.mp h
  rw [Driver.setStatus, hold, Option.map_some]

theorem update_status_ne_none {f : Nat → Option ProcessStatus} {pid pid' : Nat}
    (h : f pid' ≠ none) (status : ProcessStatus) :
    Function.update f pid (some status) pid' ≠ none := by
  by_cases heq : pid' = pid
  · rw [heq, Function.update_self]
    exact Option.some_ne_none _
  · rwa [Function.update_of_ne heq]

/-! ## The functions, one by one -/

theorem wqAdd_spec (h : Rep s.wqPs2Keyboard.queue ws) {node : Nat}
    (hnode : Fresh s.wqPs2Keyboard.queue node) (entry : WaitQueueEntry)
    (halive : s.status entry.pid ≠ none) :
    ∃ queue, Rep queue ((node, entry) :: ws) ∧ wqAdd s entry node
      = some { s with
          wqPs2Keyboard := { s.wqPs2Keyboard with queue := queue }
          status := Function.update s.status entry.pid (some .waiting) } := by
  obtain ⟨queue, hqueue, hrep⟩ := prepend_spec h hnode entry
  refine ⟨queue, hrep, ?_⟩
  unfold wqAdd avsListEnqueue
  simp only [hqueue, Option.bind_eq_bind, Option.bind_some]
  rw [setStatus_of_alive]
  exact halive

/-- The callback hands the oldest scancode to the waiter it is called for. -/
theorem wqReady_spec {q : Linked.Cell UInt8} (h : Rep s.scancodeQueue (qs ++ [q]))
    {entry : WaitQueueEntry} (halive : s.status entry.pid ≠ none) :
    ∃ queue, Rep queue qs ∧ ps2KeyboardWqReady s entry
      = some (keyboardScancodeToChar s q.2, { s with
          scancodeQueue := queue
          memory := Function.update s.memory entry.buff (keyboardScancodeToChar s q.2)
          status := Function.update s.status entry.pid (some .inactive) }) := by
  obtain ⟨queue, hqueue, hrep⟩ := dequeue_spec h (by simp)
  rw [List.getLast?_concat, Option.map_some] at hqueue
  rw [List.dropLast_concat] at hrep
  refine ⟨queue, hrep, ?_⟩
  unfold ps2KeyboardWqReady
  simp only [hqueue, Option.bind_eq_bind, Option.bind_some]
  rw [setStatus_of_alive]
  · rfl
  · exact halive

theorem wqCallNextReady_idle (h : Rep s.wqPs2Keyboard.queue []) : wqCallNextReady s = some s := by
  have hsize : ¬ s.wqPs2Keyboard.queue.list.size > 0 := by
    rw [h.size]
    exact lt_irrefl 0
  rw [wqCallNextReady, if_neg hsize]

theorem wqCallNextReady_spec {q : Linked.Cell UInt8} {w : Linked.Cell WaitQueueEntry}
    (hqs : Rep s.scancodeQueue (qs ++ [q])) (hws : Rep s.wqPs2Keyboard.queue (ws ++ [w]))
    (halive : s.status w.2.pid ≠ none) :
    ∃ scancodes queue, Rep scancodes qs ∧ Rep queue ws ∧ wqCallNextReady s = some { s with
      scancodeQueue := scancodes
      wqPs2Keyboard := { s.wqPs2Keyboard with queue := queue }
      memory := Function.update s.memory w.2.buff (keyboardScancodeToChar s q.2)
      status := Function.update s.status w.2.pid (some .inactive) } := by
  obtain ⟨queue, hqueue, hrep⟩ := dequeue_spec hws (by simp)
  rw [List.getLast?_concat, Option.map_some] at hqueue
  rw [List.dropLast_concat] at hrep
  have hsize : s.wqPs2Keyboard.queue.list.size > 0 := by
    rw [hws.size]
    simp
  obtain ⟨scancodes, hscancodes, hready⟩ :=
    wqReady_spec (s := { s with wqPs2Keyboard := { s.wqPs2Keyboard with queue := queue } }) hqs
      halive
  refine ⟨scancodes, queue, hscancodes, hrep, ?_⟩
  unfold wqCallNextReady
  rw [if_pos hsize]
  simp only [hqueue, hready, Option.bind_eq_bind, Option.bind_some]
  rfl

/-! ## The two steps -/

section Seen

variable {queue queue' : Avs.State WaitQueueEntry} {status : Nat → Option ProcessStatus}

theorem seenRead_waits {entry : WaitQueueEntry} {node : Nat} (hws : Rep queue ws)
    (hrep : Rep queue' ((node, entry) :: ws)) (hwaits : status entry.pid = some .waiting)
    (c : UInt8) : seenRead queue queue' status entry c = .waits entry := by
  refine if_pos ⟨?_, hwaits⟩
  rw [hws.size, hrep.size, List.length_cons]
  omega

theorem seenRead_returned (entry : WaitQueueEntry) (c : UInt8) :
    seenRead queue queue status entry c = .returned c :=
  if_neg fun hwaits => absurd hwaits.1 (lt_irrefl _)

theorem seenInterrupt_nothing (hsame : queue.list.size ≤ queue'.list.size)
    (memory : Nat → UInt8) : seenInterrupt queue queue' status memory = .nothing := by
  unfold seenInterrupt
  split
  · exact if_neg fun hwoken => absurd hwoken.1 (not_lt.mpr hsame)
  · rfl

theorem seenInterrupt_woken {w : Linked.Cell WaitQueueEntry} (hws : Rep queue (ws ++ [w]))
    (hrep : Rep queue' ws) (hrun : status w.2.pid = some .inactive) (memory : Nat → UInt8) :
    seenInterrupt queue queue' status memory = .woken w.2 (memory w.2.buff) := by
  have htail : queue.nodes queue.list.tail = some ⟨w.2, Linked.last 0 ws, 0⟩ := by
    rw [hws.tail, Linked.last_concat]
    exact (Linked.seg_concat.mp hws.chain.seg).2
  unfold seenInterrupt
  rw [htail]
  refine if_pos ⟨?_, hrun⟩
  rw [hws.size, hrep.size, List.length_append, List.length_singleton]
  omega

end Seen

/-- The branch of `ps2_keyboard_read` for a queue that is not empty. -/
def takeScancode (s : Driver) : Option (UInt8 × Driver) := do
  let n := s.scancodeQueue.list.tail
  let d ← s.scancodeQueue.nodes n
  let c := keyboardScancodeToChar s d.data
  let queue ← avsListFree s.scancodeQueue n
  some (c, { s with scancodeQueue := queue })

theorem ps2KeyboardRead_eq (s : Driver) (pid fd buff count node : Nat) :
    ps2KeyboardRead s pid fd buff count node =
      if s.scancodeQueue.list.size = 0 then
        (wqAdd s { pid := pid, fd := fd, buff := buff, count := count } node).map fun s => (0, s)
      else takeScancode s := by
  unfold ps2KeyboardRead takeScancode
  split
  · exact Option.map_eq_bind.symm
  · rfl

theorem Queues.size_eq_zero (h : Queues s qs ws) : s.scancodeQueue.list.size = 0 ↔ qs = [] := by
  rw [h.scancodes.size, Int.natCast_eq_zero, List.length_eq_zero_iff]

def Keeps (s s' : Driver) : Prop := ∀ pid, s.status pid ≠ none → s'.status pid ≠ none

/-- A reader that found no scancode goes to the end of the waiters. -/
theorem Queues.register (h : Queues s [] ws) (entry : WaitQueueEntry) {node : Nat}
    (hnode : Fresh s.wqPs2Keyboard.queue node) (hpid : s.status entry.pid ≠ none) :
    ∃ queue, Rep queue ((node, entry) :: ws) ∧ wqAdd s entry node = some { s with
        wqPs2Keyboard := { s.wqPs2Keyboard with queue := queue }
        status := Function.update s.status entry.pid (some .waiting) } ∧
      Queues { s with
        wqPs2Keyboard := { s.wqPs2Keyboard with queue := queue }
        status := Function.update s.status entry.pid (some .waiting) } []
          ((node, entry) :: ws) := by
  obtain ⟨queue, hrep, hadd⟩ := wqAdd_spec h.waiters hnode _ hpid
  refine ⟨queue, hrep, hadd, h.scancodes, hrep, .inl rfl, fun w hw => ?_⟩
  rcases List.mem_cons.mp hw with rfl | hw
  · exact update_status_ne_none hpid _
  · exact update_status_ne_none (h.alive w hw) _

theorem Queues.take {q : Linked.Cell UInt8} (h : Queues s (qs ++ [q]) ws) :
    ∃ queue, takeScancode s = some (keyboardScancodeToChar s q.2, { s with scancodeQueue := queue })
      ∧ Queues { s with scancodeQueue := queue } qs ws := by
  have hws : ws = [] := h.idle.resolve_left (by simp)
  obtain ⟨queue, hqueue, hrep⟩ := free_member (r := []) h.scancodes
  have htail : s.scancodeQueue.list.tail = q.1 := by rw [h.scancodes.tail, Linked.last_concat]
  refine ⟨queue, ?_, by rwa [List.append_nil] at hrep, h.waiters, .inr hws, h.alive⟩
  unfold takeScancode
  simp only [htail, (Linked.seg_concat.mp h.scancodes.chain.seg).2, hqueue, Option.bind_eq_bind,
    Option.bind_some]

/-- A read either makes its caller wait, because there is no scancode, or returns the
character of the oldest one. -/
theorem Queues.read (h : Queues s qs ws) (pid fd buff count : Nat) {node : Nat}
    (hnode : Fresh s.wqPs2Keyboard.queue node) (hpid : s.status pid ≠ none) :
    ∃ s' seen, step s (.read pid fd buff count node) = some (s', seen) ∧
      s'.keyboardMapEnd = s.keyboardMapEnd ∧
      ((qs = [] ∧ seen = .waits ⟨pid, fd, buff, count⟩ ∧
          Queues s' [] ((node, ⟨pid, fd, buff, count⟩) :: ws)) ∨
        ∃ qs' q, qs = qs' ++ [q] ∧ seen = .returned (keyboardScancodeToChar s q.2) ∧
          Queues s' qs' ws) := by
  rw [step, ps2KeyboardRead_eq]
  cases qs using List.reverseRecOn with
  | nil =>
      obtain ⟨queue, hrep, hadd, hs'⟩ := h.register ⟨pid, fd, buff, count⟩ hnode hpid
      rw [if_pos (h.size_eq_zero.mpr rfl), hadd]
      exact ⟨_, _, rfl, rfl, .inl ⟨rfl, seenRead_waits h.waiters hrep (Function.update_self ..) 0,
        hs'⟩⟩
  | append_singleton qs q =>
      obtain ⟨queue, htake, hs'⟩ := h.take
      rw [if_neg fun h0 => absurd (h.size_eq_zero.mp h0) (by simp), htake]
      exact ⟨_, _, rfl, rfl, .inr ⟨qs, q, rfl, seenRead_returned .., hs'⟩⟩

/-- An interrupt hands its scancode to the first waiter, or queues it. -/
theorem Queues.interrupt (h : Queues s qs ws) (status newScancode : UInt8) {node : Nat}
    (hnode : Fresh s.scancodeQueue node) :
    ∃ s', ps2KeyboardInterruptHandler s status newScancode node = some s' ∧ Keeps s s' ∧
      s'.keyboardMapEnd = s.keyboardMapEnd ∧
      ((status &&& 0x01 = 0 ∧ s' = s) ∨
        (status &&& 0x01 ≠ 0 ∧ ws = [] ∧ Queues s' ((node, newScancode) :: qs) []) ∨
        ∃ ws' w, status &&& 0x01 ≠ 0 ∧ ws = ws' ++ [w] ∧ qs = [] ∧ Queues s' [] ws' ∧
          s'.status w.2.pid = some .inactive ∧
          s'.memory w.2.buff = keyboardScancodeToChar s newScancode) := by
  unfold ps2KeyboardInterruptHandler avsListEnqueue
  by_cases hstatus : status &&& 0x01 = 0
  · rw [if_neg (not_not.mpr hstatus)]
    exact ⟨s, rfl, fun _ hp => hp, rfl, .inl ⟨hstatus, rfl⟩⟩
  obtain ⟨queue, hqueue, hrep⟩ := prepend_spec h.scancodes hnode newScancode
  rw [if_pos hstatus]
  simp only [hqueue, Option.bind_eq_bind, Option.bind_some]
  generalize hs₁ : wqMakeReady _ = s₁
  have hscancodes : Rep s₁.scancodeQueue ((node, newScancode) :: qs) := hs₁ ▸ hrep
  have hwaiters : Rep s₁.wqPs2Keyboard.queue ws := hs₁ ▸ h.waiters
  have hstatus₁ : s₁.status = s.status := hs₁ ▸ rfl
  have hend₁ : s₁.keyboardMapEnd = s.keyboardMapEnd := hs₁ ▸ rfl
  cases ws using List.reverseRecOn with
  | nil =>
      exact ⟨s₁, wqCallNextReady_idle hwaiters, fun pid hp => hstatus₁ ▸ hp, hend₁,
        .inr (.inl ⟨hstatus, rfl, hscancodes, hwaiters, .inr rfl,
          fun _ hw => absurd hw List.not_mem_nil⟩)⟩
  | append_singleton ws w =>
      -- nobody waits beside a queued scancode: the new one goes to `w`
      have hqs : qs = [] := h.idle.resolve_right (by simp)
      subst hqs
      have hone : Rep s₁.scancodeQueue ([] ++ [(node, newScancode)]) := hscancodes
      obtain ⟨scancodes, queue, hqs', hws', hcall⟩ := wqCallNextReady_spec hone hwaiters
         (hstatus₁ ▸ h.alive w (by simp))
      have hkeeps : Keeps s { s₁ with
          scancodeQueue := scancodes
          wqPs2Keyboard := { s₁.wqPs2Keyboard with queue := queue }
          memory := Function.update s₁.memory w.2.buff (keyboardScancodeToChar s₁ newScancode)
          status := Function.update s₁.status w.2.pid (some .inactive) } := fun pid hp =>
        update_status_ne_none (by rwa [hstatus₁]) _
      refine ⟨_, hcall, hkeeps, hend₁, .inr (.inr ⟨ws, w, hstatus, rfl, rfl, ⟨hqs', hws', .inl rfl,
        fun w' hw' => hkeeps _ (h.alive w' (List.mem_append_left _ hw'))⟩,
        Function.update_self .., ?_⟩)⟩
      refine (Function.update_self ..).trans ?_
      unfold keyboardScancodeToChar
      rw [hend₁]

/-! ## Every run -/

theorem queues_start (status : Nat → Option ProcessStatus) (memory : Nat → UInt8)
    (mapEnd : UInt8) : Queues (start status memory mapEnd) [] [] :=
  ⟨init_rep _, init_rep _, .inl rfl, fun _ h => absurd h List.not_mem_nil⟩

section Delivered

variable {events : List Event} {seen : List Seen}

theorem keyboardScancodeToChar_of_end {s s' : Driver} (h : s'.keyboardMapEnd = s.keyboardMapEnd) :
    keyboardScancodeToChar s' = keyboardScancodeToChar s := by
  funext scancode
  unfold keyboardScancodeToChar
  rw [h]

theorem Delivered.read (h : Delivered s events seen qs ws) {pid fd buff count node : Nat}
    (hok : (Event.read pid fd buff count node).Ok s) :
    ∃ s' x, step s (.read pid fd buff count node) = some (s', x) ∧
      ∃ qs' ws', Delivered s' (events ++ [.read pid fd buff count node]) (seen ++ [x]) qs' ws' := by
  obtain ⟨taken, harrived, hobtained⟩ := h.once
  obtain ⟨s', x, hstep, hend, ⟨rfl, rfl, hq⟩ | ⟨qs', q, rfl, rfl, hq⟩⟩ :=
    h.queues.read pid fd buff count hok.1 hok.2
  · refine ⟨s', _, hstep, [], _, hq, ⟨taken, ?_, ?_⟩, ?_⟩
    · simpa [arrived] using harrived
    · rw [keyboardScancodeToChar_of_end hend]
      simpa [obtained] using hobtained
    · simpa [served, waited, ← List.append_assoc] using h.order
  · refine ⟨s', _, hstep, qs', ws, hq, ⟨taken ++ [q.2], ?_, ?_⟩, ?_⟩
    · simpa [arrived] using harrived
    · rw [keyboardScancodeToChar_of_end hend, List.map_append, ← hobtained]
      simp [obtained]
    · simpa [served, waited] using h.order

theorem Delivered.interrupt (h : Delivered s events seen qs ws) {status newScancode : UInt8}
    {node : Nat} (hok : (Event.interrupt status newScancode node).Ok s) :
    ∃ s' x, step s (.interrupt status newScancode node) = some (s', x) ∧
      ∃ qs' ws', Delivered s' (events ++ [.interrupt status newScancode node]) (seen ++ [x])
        qs' ws' := by
  obtain ⟨taken, harrived, hobtained⟩ := h.once
  obtain ⟨s', hs', -, hend, hcase⟩ := h.queues.interrupt status newScancode hok
  have hstep : step s (.interrupt status newScancode node) = some (s',
      seenInterrupt s.wqPs2Keyboard.queue s'.wqPs2Keyboard.queue s'.status s'.memory) := by
    rw [step, hs', Option.map_some]
  rcases hcase with ⟨hstatus, rfl⟩ | ⟨hstatus, rfl, hq⟩ |
    ⟨ws', w, hstatus, rfl, rfl, hq, hrun, hbuff⟩
  · rw [seenInterrupt_nothing (le_refl _)] at hstep
    refine ⟨s', _, hstep, qs, ws, h.queues, ⟨taken, ?_, ?_⟩, ?_⟩
    · simpa [arrived, hstatus] using harrived
    · simpa [obtained] using hobtained
    · simpa [served, waited] using h.order
  · rw [seenInterrupt_nothing (by rw [h.queues.waiters.size, hq.waiters.size])] at hstep
    refine ⟨s', _, hstep, _, [], hq, ⟨taken, ?_, ?_⟩, ?_⟩
    · rw [List.map_cons, List.reverse_cons, ← List.append_assoc, harrived]
      simp [arrived, hstatus]
    · rw [keyboardScancodeToChar_of_end hend]
      simpa [obtained] using hobtained
    · simpa [served, waited] using h.order
  · rw [seenInterrupt_woken h.queues.waiters hq.waiters hrun, hbuff] at hstep
    refine ⟨s', _, hstep, [], ws', hq, ⟨taken ++ [newScancode], ?_, ?_⟩, ?_⟩
    · rw [List.map_nil, List.reverse_nil, List.append_nil] at harrived ⊢
      rw [harrived]
      simp [arrived, hstatus]
    · rw [keyboardScancodeToChar_of_end hend, List.map_append, ← hobtained]
      simp [obtained]
    · simpa [served, waited] using h.order

end Delivered

/-- **Keyboard input is delivered once and in order.** Every run of interrupts
and reads goes through, and what is seen of it is `Delivered`: the characters
that reads return and that wake-ups store are those of the scancodes the events
brought, in their order, and the ones that are missing at the end are in the
queue. -/
theorem keyboard_delivers_in_order (status : Nat → Option ProcessStatus) (memory : Nat → UInt8)
    (mapEnd : UInt8) {events : List Event}
    (hok : Run.Along (fun s e => (step s e).map Prod.fst) (fun s e => e.Ok s)
      (start status memory mapEnd) events) :
    ∃ s seen, Run.trace step (start status memory mapEnd) events = some (s, seen) ∧
      ∃ qs ws, Delivered s events seen qs ws := by
  have hstart : ∃ qs ws, Delivered (start status memory mapEnd) [] [] qs ws :=
    ⟨[], [], queues_start status memory mapEnd, ⟨[], rfl, rfl⟩, rfl⟩
  have hstep (s : Driver) (events : List Event) (seen : List Seen) (e : Event)
      (h : ∃ qs ws, Delivered s events seen qs ws) (he : e.Ok s) :
      ∃ s' x, step s e = some (s', x) ∧
        ∃ qs ws, Delivered s' (events ++ [e]) (seen ++ [x]) qs ws := by
    obtain ⟨qs, ws, h⟩ := h
    cases e with
    | interrupt status newScancode node => exact h.interrupt he
    | read pid fd buff count node => exact h.read he
  exact Run.trace_along hstep hstart hok

/-- Process 5 waits and is woken with the first character; the second one is queued, and
process 6 reads it. -/
def wakeAndRead : List Event :=
  [.read 5 0 0x1000 1 1, .interrupt 1 0x1E 1, .interrupt 1 0x30 1, .read 6 0 0x2000 1 1]

theorem keyboard_delivers_in_order_wake :
    (Run.trace step (start (fun _ => some .active) (fun _ => 0) 0) wakeAndRead).map Prod.snd
        = some [.waits ⟨5, 0, 0x1000, 1⟩, .woken ⟨5, 0, 0x1000, 1⟩ 'a'.toUInt8, .nothing,
            .returned 'b'.toUInt8] ∧
      ∃ s seen, Run.trace step (start (fun _ => some .active) (fun _ => 0) 0) wakeAndRead
          = some (s, seen) ∧ ∃ qs ws, Delivered s wakeAndRead seen qs ws := by
  refine ⟨rfl, keyboard_delivers_in_order _ _ _ ⟨⟨⟨Nat.one_ne_zero, rfl⟩, Option.some_ne_none _⟩,
    fun s₁ h₁ => ?_⟩⟩
  cases h₁
  refine ⟨⟨Nat.one_ne_zero, rfl⟩, fun s₂ h₂ => ?_⟩
  cases h₂
  refine ⟨⟨Nat.one_ne_zero, rfl⟩, fun s₃ h₃ => ?_⟩
  cases h₃
  exact ⟨⟨⟨Nat.one_ne_zero, rfl⟩, Option.some_ne_none _⟩, fun _ _ => trivial⟩

end VersionSix.Ps2
