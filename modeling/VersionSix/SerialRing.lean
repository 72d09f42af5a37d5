import VersionSix.Keyboard
import VersionSix.Ring

/-!
# The serial input ring

`/dev/serial3` of `serial.c`: an interrupt puts its byte into a ring of 50
bytes and calls the first waiting reader, `serial3_read` takes a byte or
puts its caller to sleep.

The driver is judged like the keyboard's, by what is seen of it: the bytes that
reads return and that wake-ups leave in the buffers of the readers, beside the bytes
that the interrupts brought. They come out once and in the order they came in
(`Queued`). But `serial3_read` takes the ring for empty whenever the read index is
not below the write index, so after the write index has wrapped around, and until
the read index has too, readers sleep beside unread bytes (`serial_run_iff`).
-/

namespace VersionSix.Serial

open Avs
open Process (ProcessStatus WaitQueueEntry nextSerialIndex)
open Ps2 (WaitQueue Seen seenRead seenInterrupt obtained seenRead_waits seenRead_returned
  seenInterrupt_nothing seenInterrupt_woken)

/-! ## State -/

structure Driver where
  serial3Buffer : List UInt8
  serial3BufferWIndex : Nat
  serial3BufferRIndex : Nat
  wqSerial3 : WaitQueue
  status : Nat → Option ProcessStatus
  memory : Nat → UInt8

/-- `p->status = status` for the record of `pid`. -/
def Driver.setStatus (s : Driver) (pid : Nat) (status : ProcessStatus) : Option Driver :=
  (s.status pid).map fun _ => { s with status := Function.update s.status pid (some status) }

/-! ## Functions -/

def wqAdd (s : Driver) (entry : WaitQueueEntry) (node : Nat) : Option Driver :=
  (avsListEnqueue s.wqSerial3.queue entry node).bind fun queue =>
    { s with wqSerial3 := { s.wqSerial3 with queue := queue } }.setStatus entry.pid .waiting

def wqMakeReady (s : Driver) : Driver :=
  { s with wqSerial3 := { s.wqSerial3 with isReady := true } }

/-- `serial3_buffer[serial3_buffer_r_index++]`, with the test for the end of the buffer
behind it. -/
def take (s : Driver) : Option (UInt8 × Driver) :=
  (s.serial3Buffer[s.serial3BufferRIndex]?).map fun c =>
    (c, { s with serial3BufferRIndex := nextSerialIndex s.serial3BufferRIndex })

def serial3WqReady (s : Driver) (entry : WaitQueueEntry) : Option (UInt8 × Driver) :=
  (take s).bind fun (c, s) =>
    ({ s with memory := Function.update s.memory entry.buff c }.setStatus entry.pid .inactive).map
      fun s => (c, s)

def wqCallNextReady (s : Driver) : Option Driver :=
  if s.wqSerial3.queue.list.size > 0 then
    (avsListDequeue s.wqSerial3.queue).bind fun (queue, wqe) =>
      wqe.bind fun entry =>
        (serial3WqReady { s with wqSerial3 := { s.wqSerial3 with queue := queue } } entry).map
          Prod.snd
  else some s

/-- What `serial3_read` returns to the process `pid`, and the state after it. -/
def serial3Read (s : Driver) (pid fd buff count node : Nat) : Option (UInt8 × Driver) :=
  if s.serial3BufferRIndex < s.serial3BufferWIndex then take s
  else
    (wqAdd s { pid := pid, fd := fd, buff := buff, count := count } node).map fun s => (0, s)

/-- `byte` is what the port returns. -/
def serial3InterruptHandler (s : Driver) (byte : UInt8) : Option Driver :=
  wqCallNextReady (wqMakeReady { s with
    serial3Buffer := s.serial3Buffer.set s.serial3BufferWIndex byte
    serial3BufferWIndex := nextSerialIndex s.serial3BufferWIndex })

/-! ## Runs -/

/-- `node` is the address `avs_allocate` hands out for a list node. -/
inductive Event
  | interrupt (byte : UInt8)
  | read (pid fd buff count node : Nat)

def step (s : Driver) : Event → Option (Driver × Seen)
  | .interrupt byte => (serial3InterruptHandler s byte).map fun s' =>
      (s', seenInterrupt s.wqSerial3.queue s'.wqSerial3.queue s'.status s'.memory)
  | .read pid fd buff count node =>
      (serial3Read s pid fd buff count node).map fun (c, s') =>
        (s', seenRead s.wqSerial3.queue s'.wqSerial3.queue s'.status
          { pid := pid, fd := fd, buff := buff, count := count } c)

/-- The ring and the queue as `device_register_serial3` finds and sets them. -/
def start (status : Nat → Option ProcessStatus) (memory : Nat → UInt8) : Driver where
  serial3Buffer := List.replicate 50 0
  serial3BufferWIndex := 0
  serial3BufferRIndex := 0
  wqSerial3 := { queue := avsListInit fun _ => none, isReady := false }
  status := status
  memory := memory

/-- `kmalloc` succeeds, and the reader is a process. -/
def Event.Ok (s : Driver) : Event → Prop
  | .interrupt _ => True
  | .read pid _ _ _ node => Fresh s.wqSerial3.queue node ∧ (s.status pid).isSome = true

/-! ## What is seen -/

def received (events : List Event) : List UInt8 :=
  events.filterMap fun | .interrupt byte => some byte | .read .. => none

def unread (events : List Event) (seen : List Seen) : Nat :=
  (received events).length - (obtained seen).length

/-- Whoever was put to sleep left no byte unread. -/
def SleepsWhenEmpty (events : List Event) (seen : List Seen) : Prop :=
  ∀ i entry, seen[i]? = some (.waits entry) → unread (events.take i) (seen.take i) = 0

/-- The bytes obtained are the first ones received, in this order, and nobody
sleeps beside an unread one. -/
def Exact (events : List Event) (seen : List Seen) : Prop :=
  obtained seen <+: received events ∧ SleepsWhenEmpty events seen

/-- No part of the run leaves more than 49 bytes unread. -/
def NeverFull (s : Driver) (events : List Event) : Prop :=
  ∀ part ∈ events.inits, ∀ x ∈ Run.trace step s part, unread part x.2 ≤ 49

/-- No read while the write index has wrapped around and the read index has not. -/
def Event.Unwrapped (s : Driver) : Event → Prop
  | .interrupt _ => True
  | .read .. => s.serial3BufferRIndex ≤ s.serial3BufferWIndex

instance (s : Driver) (e : Event) : Decidable (e.Ok s) :=
  match e with
  | .interrupt _ => isTrue trivial
  | .read .. => inferInstanceAs (Decidable ((_ ∧ _) ∧ _))

instance (s : Driver) (events : List Event) : Decidable (NeverFull s events) :=
  inferInstanceAs (Decidable (∀ part ∈ events.inits, ∀ x ∈ Run.trace step s part,
    unread part x.2 ≤ 49))

instance (s : Driver) (e : Event) : Decidable (e.Unwrapped s) :=
  match e with
  | .interrupt _ => isTrue trivial
  | .read .. => inferInstanceAs (Decidable (_ ≤ _))

/-- What is seen last is judged on its own. -/
theorem sleepsWhenEmpty_concat {events : List Event} {seen : List Seen}
    (hlen : seen.length = events.length) (e : Event) (x : Seen) :
    SleepsWhenEmpty (events ++ [e]) (seen ++ [x]) ↔
      SleepsWhenEmpty events seen ∧ ∀ entry, x = .waits entry → unread events seen = 0 := by
  constructor
  · intro hall
    refine ⟨fun i entry hi => ?_, fun entry hx => ?_⟩
    · obtain ⟨hlt, -⟩ := List.getElem?_eq_some_iff.mp hi
      have hat := hall i entry (by rw [List.getElem?_append_left hlt, hi])
      rwa [List.take_append_of_le_length hlt.le,
        List.take_append_of_le_length (hlen ▸ hlt.le)] at hat
    · have hat := hall seen.length entry (by rw [List.getElem?_concat_length, hx])
      rwa [List.take_left, hlen, List.take_left] at hat
  · rintro ⟨hall, hlast⟩ i entry hi
    rcases lt_trichotomy i seen.length with hlt | rfl | hgt
    · rw [List.getElem?_append_left hlt] at hi
      rw [List.take_append_of_le_length hlt.le,
        List.take_append_of_le_length (hlen ▸ hlt.le)]
      exact hall i entry hi
    · rw [List.getElem?_concat_length] at hi
      rw [List.take_left, hlen, List.take_left]
      exact hlast entry (Option.some.inj hi)
    · rw [List.getElem?_eq_none (by rw [List.length_append, List.length_singleton]; omega)] at hi
      cases hi

/-! ## The invariant -/

/-- The ring holds `n` bytes, which were received after those that were
obtained, and the queue the waiters `ws`. -/
structure Queued (s : Driver) (events : List Event) (seen : List Seen) (n : Nat)
    (ws : List (Linked.Cell WaitQueueEntry)) : Prop where
  size : s.serial3Buffer.length = 50
  rIndex : s.serial3BufferRIndex < 50
  wIndex : s.serial3BufferWIndex = (s.serial3BufferRIndex + n) % 50
  few : n ≤ 49
  waiters : Rep s.wqSerial3.queue ws
  order : obtained seen ++ Ring.items s.serial3Buffer s.serial3BufferRIndex n = received events
  alive : ∀ w ∈ ws, (s.status w.2.pid).isSome = true

variable {s : Driver} {events : List Event} {seen : List Seen} {n : Nat}
  {ws : List (Linked.Cell WaitQueueEntry)}

theorem nextSerialIndex_eq {i : Nat} (h : i < 50) : nextSerialIndex i = (i + 1) % 50 := by
  rw [nextSerialIndex]
  split <;> omega

theorem setStatus_of_alive {pid : Nat} (h : (s.status pid).isSome = true) (status : ProcessStatus) :
    s.setStatus pid status
      = some { s with status := Function.update s.status pid (some status) } := by
  obtain ⟨old, hold⟩ := Option.isSome_iff_exists.mp h
  rw [Driver.setStatus, hold, Option.map_some]

theorem isSome_update {f : Nat → Option ProcessStatus} {pid' : Nat} (pid : Nat)
    (h : (f pid').isSome = true) (status : ProcessStatus) :
    (Function.update f pid (some status) pid').isSome = true := by
  by_cases heq : pid' = pid
  · rw [heq, Function.update_self]
    rfl
  · rwa [Function.update_of_ne heq]

theorem Queued.unread_eq (h : Queued s events seen n ws) : unread events seen = n := by
  have hn : n ≤ s.serial3Buffer.length := by
    rw [h.size]
    exact h.few.trans (by decide)
  have hitems := Ring.items_length (r := s.serial3BufferRIndex) hn
  rw [unread, ← h.order, List.length_append, hitems, Nat.add_sub_cancel_left]

/-! ## The functions, one by one -/

theorem items_next (hsize : s.serial3Buffer.length = 50) (hr : s.serial3BufferRIndex < 50)
    (hn : n < 50) :
    ∃ c, s.serial3Buffer[s.serial3BufferRIndex]? = some c ∧
      Ring.items s.serial3Buffer s.serial3BufferRIndex (n + 1) =
        c :: Ring.items s.serial3Buffer (nextSerialIndex s.serial3BufferRIndex) n := by
  have hrlt : s.serial3BufferRIndex < s.serial3Buffer.length := hsize.symm ▸ hr
  have hnlt : n < s.serial3Buffer.length := hsize.symm ▸ hn
  obtain ⟨c, hc, hitems⟩ := Ring.items_pop hrlt hnlt
  refine ⟨c, hc, ?_⟩
  rw [hitems, hsize, nextSerialIndex_eq hr]

theorem take_eq {c : UInt8} (hc : s.serial3Buffer[s.serial3BufferRIndex]? = some c) :
    take s = some (c, { s with
      serial3BufferRIndex := nextSerialIndex s.serial3BufferRIndex }) := by
  rw [take, hc, Option.map_some]

theorem wqAdd_spec (h : Rep s.wqSerial3.queue ws) {node : Nat}
    (hnode : Fresh s.wqSerial3.queue node) (entry : WaitQueueEntry)
    (halive : (s.status entry.pid).isSome = true) :
    ∃ queue, Rep queue ((node, entry) :: ws) ∧ wqAdd s entry node
      = some { s with
          wqSerial3 := { s.wqSerial3 with queue := queue }
          status := Function.update s.status entry.pid (some .waiting) } := by
  obtain ⟨queue, hqueue, hrep⟩ := prepend_spec h hnode entry
  refine ⟨queue, hrep, ?_⟩
  rw [wqAdd, avsListEnqueue, hqueue, Option.bind_some, setStatus_of_alive]
  exact halive

theorem wqCallNextReady_idle (h : Rep s.wqSerial3.queue []) : wqCallNextReady s = some s := by
  have hsize : ¬ s.wqSerial3.queue.list.size > 0 := by
    rw [h.size]
    exact lt_irrefl 0
  rw [wqCallNextReady, if_neg hsize]

/-- The waiter at the tail gets the byte at the read index. -/
theorem wqCallNextReady_spec {w : Linked.Cell WaitQueueEntry}
    (hws : Rep s.wqSerial3.queue (ws ++ [w])) (halive : (s.status w.2.pid).isSome = true)
    {c : UInt8} (hc : s.serial3Buffer[s.serial3BufferRIndex]? = some c) :
    ∃ queue, Rep queue ws ∧ wqCallNextReady s = some { s with
      wqSerial3 := { s.wqSerial3 with queue := queue }
      serial3BufferRIndex := nextSerialIndex s.serial3BufferRIndex
      memory := Function.update s.memory w.2.buff c
      status := Function.update s.status w.2.pid (some .inactive) } := by
  obtain ⟨queue, hqueue, hrep⟩ := dequeue_spec hws (by simp)
  rw [List.getLast?_concat, Option.map_some] at hqueue
  rw [List.dropLast_concat] at hrep
  have hpos : s.wqSerial3.queue.list.size > 0 := by
    rw [hws.size]
    simp
  have htake := take_eq (s := { s with wqSerial3 := { s.wqSerial3 with queue := queue } }) hc
  refine ⟨queue, hrep, ?_⟩
  rw [wqCallNextReady, if_pos hpos]
  simp only [hqueue, Option.bind_some, serial3WqReady, htake]
  rw [setStatus_of_alive]
  · rfl
  · exact halive

/-! ## The two steps -/

/-- A read returns the first unread byte, or puts its caller to sleep; beside an unread byte
exactly when the write index has wrapped around and the read index has not. -/
theorem Queued.read (h : Queued s events seen n ws) {pid fd buff count node : Nat}
    (hok : (Event.read pid fd buff count node).Ok s) :
    ∃ s' x, step s (.read pid fd buff count node) = some (s', x) ∧
      (∃ n' ws', Queued s' (events ++ [.read pid fd buff count node]) (seen ++ [x]) n' ws') ∧
      ((∀ entry, x = .waits entry → unread events seen = 0) ↔
        (Event.read pid fd buff count node).Unwrapped s) := by
  have hr := h.rIndex
  have hw := h.wIndex
  have hfew := h.few
  have hreceived : received (events ++ [.read pid fd buff count node]) = received events := by
    simp [received]
  rw [step, serial3Read]
  split
  · next hlt =>
    obtain ⟨m, rfl⟩ := Nat.exists_eq_succ_of_ne_zero (n := n) (by rintro rfl; omega)
    obtain ⟨c, hc, hitems⟩ := items_next (n := m) h.size hr (by omega)
    rw [take_eq hc, Option.map_some]
    dsimp only
    rw [seenRead_returned]
    refine ⟨_, _, rfl, ⟨m, ws, h.size, ?_, ?_, by omega, h.waiters, ?_, h.alive⟩, ?_⟩
    · rw [nextSerialIndex_eq hr]
      exact Nat.mod_lt _ (by decide)
    · rw [nextSerialIndex_eq hr, Nat.mod_add_mod, Nat.add_assoc, Nat.add_comm 1 m]
      exact hw
    · rw [hreceived, ← h.order, hitems]
      simp [obtained]
    · exact ⟨fun _ => hlt.le, fun _ _ hx => by cases hx⟩
  · next hge =>
    obtain ⟨queue, hrep, hadd⟩ := wqAdd_spec h.waiters hok.1
      { pid := pid, fd := fd, buff := buff, count := count } hok.2
    rw [hadd, Option.map_some, Option.map_some]
    dsimp only
    rw [seenRead_waits h.waiters hrep (Function.update_self ..)]
    refine ⟨_, _, rfl, ⟨n, _, h.size, hr, hw, hfew, hrep, ?_, fun w hmem => ?_⟩, ?_⟩
    · rw [hreceived, ← h.order]
      simp [obtained]
    · rcases List.mem_cons.mp hmem with rfl | hmem
      · exact isSome_update _ hok.2 _
      · exact isSome_update _ (h.alive w hmem) _
    · rw [h.unread_eq]
      refine ⟨fun hn => ?_, fun hle entry _ => ?_⟩
      · obtain rfl := hn _ rfl
        change s.serial3BufferRIndex ≤ s.serial3BufferWIndex
        omega
      · have hle : s.serial3BufferRIndex ≤ s.serial3BufferWIndex := hle
        omega

/-- As `Queued`, once the byte of an interrupt is in the ring and before anybody is called:
the ring may have all of its 50 bytes. -/
structure Arrived (s : Driver) (events : List Event) (seen : List Seen) (n : Nat)
    (ws : List (Linked.Cell WaitQueueEntry)) : Prop where
  size : s.serial3Buffer.length = 50
  rIndex : s.serial3BufferRIndex < 50
  wIndex : s.serial3BufferWIndex = (s.serial3BufferRIndex + (n + 1)) % 50
  few : n ≤ 49
  waiters : Rep s.wqSerial3.queue ws
  order : obtained seen ++ Ring.items s.serial3Buffer s.serial3BufferRIndex (n + 1) =
    received events
  alive : ∀ w ∈ ws, (s.status w.2.pid).isSome = true

theorem Queued.arrived (h : Queued s events seen n ws) (byte : UInt8) :
    Arrived (wqMakeReady { s with
        serial3Buffer := s.serial3Buffer.set s.serial3BufferWIndex byte
        serial3BufferWIndex := nextSerialIndex s.serial3BufferWIndex })
      (events ++ [.interrupt byte]) seen n ws := by
  have hfew := h.few
  have hwlt : s.serial3BufferWIndex < 50 := h.wIndex ▸ Nat.mod_lt _ (by decide)
  have hnlt : n < s.serial3Buffer.length := by
    rw [h.size]
    omega
  have hreceived : received (events ++ [.interrupt byte]) = received events ++ [byte] := by
    simp [received]
  have hitems := Ring.items_push (r := s.serial3BufferRIndex) hnlt byte
  rw [h.size, ← h.wIndex] at hitems
  refine ⟨List.length_set.trans h.size, h.rIndex, ?_, hfew, h.waiters, ?_, h.alive⟩
  · show nextSerialIndex s.serial3BufferWIndex = _
    rw [nextSerialIndex_eq hwlt, h.wIndex, Nat.mod_add_mod, Nat.add_assoc]
    rfl
  · rw [hreceived, ← h.order, List.append_assoc]
    exact congrArg (obtained seen ++ ·) hitems

/-- Without a waiter the byte stays, if that leaves no more than 49. -/
theorem Arrived.stays (h : Arrived s events seen n [])
    (hfits : unread events (seen ++ [.nothing]) ≤ 49) :
    Queued s events (seen ++ [.nothing]) (n + 1) [] := by
  have hseen : obtained (seen ++ [.nothing]) = obtained seen := by simp [obtained]
  have hnle : n + 1 ≤ s.serial3Buffer.length := h.size ▸ Nat.succ_le_succ h.few
  have hlen := Ring.items_length (r := s.serial3BufferRIndex) hnle
  rw [unread, ← h.order, hseen, List.length_append, hlen, Nat.add_sub_cancel_left] at hfits
  exact ⟨h.size, h.rIndex, h.wIndex, hfits, h.waiters, hseen.symm ▸ h.order, h.alive⟩

/-- With waiters the one at the tail gets the first byte. -/
theorem Arrived.wakes {w : Linked.Cell WaitQueueEntry} (h : Arrived s events seen n (ws ++ [w])) :
    ∃ c s', wqCallNextReady s = some s' ∧ Rep s'.wqSerial3.queue ws ∧
      s'.status w.2.pid = some .inactive ∧ s'.memory w.2.buff = c ∧
      Queued s' events (seen ++ [.woken w.2 c]) n ws := by
  obtain ⟨c, hc, hitems⟩ := items_next h.size h.rIndex (Nat.lt_succ_of_le h.few)
  obtain ⟨queue, hrep, hcall⟩ := wqCallNextReady_spec h.waiters (h.alive w (by simp)) hc
  refine ⟨c, _, hcall, hrep, Function.update_self .., Function.update_self ..,
    ⟨h.size, ?_, ?_, h.few, hrep, ?_, fun w' hmem => ?_⟩⟩
  · rw [nextSerialIndex_eq h.rIndex]
    exact Nat.mod_lt _ (by decide)
  · rw [nextSerialIndex_eq h.rIndex, Nat.mod_add_mod, Nat.add_assoc, Nat.add_comm 1 n]
    exact h.wIndex
  · rw [← h.order, hitems]
    simp [obtained]
  · exact isSome_update _ (h.alive w' (List.mem_append_left _ hmem)) _

/-- An interrupt puts its byte behind the others, and hands the first one to
whoever waits longest. -/
theorem Queued.interrupt (h : Queued s events seen n ws) (byte : UInt8)
    (hfits : ∀ s' x, step s (.interrupt byte) = some (s', x) →
      unread (events ++ [.interrupt byte]) (seen ++ [x]) ≤ 49) :
    ∃ s' x, step s (.interrupt byte) = some (s', x) ∧
      (∃ n' ws', Queued s' (events ++ [.interrupt byte]) (seen ++ [x]) n' ws') ∧
      ∀ entry, x ≠ .waits entry := by
  have harrived := h.arrived byte
  rw [step, serial3InterruptHandler] at hfits ⊢
  generalize wqMakeReady _ = s₁ at harrived hfits ⊢
  cases ws using List.reverseRecOn with
  | nil =>
      have hsame : s.wqSerial3.queue.list.size ≤ s₁.wqSerial3.queue.list.size := by
        rw [h.waiters.size, harrived.waiters.size]
      rw [wqCallNextReady_idle harrived.waiters, Option.map_some,
        seenInterrupt_nothing hsame] at hfits ⊢
      exact ⟨s₁, _, rfl, ⟨n + 1, [], harrived.stays (hfits _ _ rfl)⟩, fun _ hx => by cases hx⟩
  | append_singleton ws w =>
      obtain ⟨c, s', hcall, hrep, hrun, hbuff, hqueued⟩ := harrived.wakes
      rw [hcall, Option.map_some, seenInterrupt_woken h.waiters hrep hrun, hbuff]
      exact ⟨s', _, rfl, ⟨n, ws, hqueued⟩, fun _ hx => by cases hx⟩

/-! ## Every run -/

theorem queued_start (status : Nat → Option ProcessStatus) (memory : Nat → UInt8) :
    Queued (start status memory) [] [] 0 [] :=
  ⟨rfl, Nat.succ_pos 49, rfl, Nat.zero_le _, init_rep _, rfl, fun _ h => absurd h List.not_mem_nil⟩

theorem NeverFull.of_concat {s : Driver} {e : Event} (h : NeverFull s (events ++ [e])) :
    NeverFull s events := fun part hpart => h part
  ((List.mem_inits _ _).mpr (((List.mem_inits _ _).mp hpart).trans (List.prefix_append _ _)))

theorem NeverFull.last {s s' : Driver} (h : NeverFull s events)
    (hs : Run.trace step s events = some (s', seen)) : unread events seen ≤ 49 :=
  h events ((List.mem_inits _ _).mpr (List.prefix_refl _)) _ hs

/-- Induction on the run, from its end: the last event is judged in the state before it. -/
theorem Queued.run {s₀ : Driver} (h₀ : Queued s₀ [] [] 0 [])
    (hok : Run.Along (fun s e => (step s e).map Prod.fst) (fun s e => e.Ok s) s₀ events)
    (hfull : NeverFull s₀ events) :
    ∃ s seen, Run.trace step s₀ events = some (s, seen) ∧ seen.length = events.length ∧
      (∃ n ws, Queued s events seen n ws) ∧ (SleepsWhenEmpty events seen ↔
        Run.Along (fun s e => (step s e).map Prod.fst) (fun s e => e.Unwrapped s) s₀ events) := by
  induction events using List.reverseRecOn with
  | nil =>
      exact ⟨s₀, [], rfl, rfl, ⟨0, [], h₀⟩, iff_of_true (fun _ _ hi => nomatch hi) trivial⟩
  | append_singleton events e ih =>
      obtain ⟨s, seen, hs, hlen, ⟨n, ws, h⟩, hsleeps⟩ := ih hok.left hfull.of_concat
      have hexec := Run.exec_of_trace hs
      have he : e.Ok s := ((Run.along_concat hexec).mp hok).2
      have hstep : ∃ s' x, step s e = some (s', x) ∧
          (∃ n' ws', Queued s' (events ++ [e]) (seen ++ [x]) n' ws') ∧
          ((∀ entry, x = .waits entry → unread events seen = 0) ↔ e.Unwrapped s) := by
        cases e with
        | interrupt byte =>
            obtain ⟨s', x, hs', hqueued, hx⟩ := h.interrupt byte fun s' x hs' =>
              hfull.last (by rw [Run.trace_concat, hs, Option.bind_some, hs', Option.map_some])
            exact ⟨s', x, hs', hqueued,
              iff_of_true (fun entry heq => absurd heq (hx entry)) trivial⟩
        | read pid fd buff count node => exact h.read he
      obtain ⟨s', x, hs', hqueued, hwaits⟩ := hstep
      refine ⟨s', seen ++ [x], ?_, ?_, hqueued, ?_⟩
      · rw [Run.trace_concat, hs, Option.bind_some, hs', Option.map_some]
      · rw [List.length_append, List.length_append, hlen, List.length_singleton,
          List.length_singleton]
      · rw [sleepsWhenEmpty_concat hlen, hsleeps, hwaits, Run.along_concat hexec]

theorem Queued.exact_iff (h : Queued s events seen n ws) :
    Exact events seen ↔ SleepsWhenEmpty events seen :=
  and_iff_right ⟨_, h.order⟩

/-- **Serial input.** In a run that never leaves more than 49 bytes unread, the
bytes obtained are the first ones received, in order; and nobody sleeps beside
an unread byte exactly if no read happens while the write index has wrapped
around and the read index has not. The order is never wrong; only the test for
an empty ring is. -/
theorem serial_run_iff (status : Nat → Option ProcessStatus) (memory : Nat → UInt8)
    {events : List Event}
    (hok : Run.Along (fun s e => (step s e).map Prod.fst) (fun s e => e.Ok s)
      (start status memory) events)
    (hfull : NeverFull (start status memory) events) :
    ∃ s seen, Run.trace step (start status memory) events = some (s, seen) ∧
      (Exact events seen ↔ Run.Along (fun s e => (step s e).map Prod.fst)
        (fun s e => e.Unwrapped s) (start status memory) events) := by
  obtain ⟨s, seen, hs, -, ⟨n, ws, hqueued⟩, hsleeps⟩ := (queued_start status memory).run hok hfull
  exact ⟨s, seen, hs, hqueued.exact_iff.trans hsleeps⟩

/-- A reader that waits gets the byte that comes, and the next one is read. -/
theorem serial_run_iff_wake :
    (Run.trace step (start (fun _ => some .active) fun _ => 0) [.read 5 0 0x1000 1 1,
        .interrupt 0x41, .interrupt 0x42, .read 6 0 0x2000 1 1]).map Prod.snd
      = some [.waits ⟨5, 0, 0x1000, 1⟩, .woken ⟨5, 0, 0x1000, 1⟩ 0x41, .nothing,
          .returned 0x42] ∧
    ∃ s seen, Run.trace step (start (fun _ => some .active) fun _ => 0) [.read 5 0 0x1000 1 1,
        .interrupt 0x41, .interrupt 0x42, .read 6 0 0x2000 1 1] = some (s, seen) ∧
      (Exact [.read 5 0 0x1000 1 1, .interrupt 0x41, .interrupt 0x42, .read 6 0 0x2000 1 1] seen ↔
        Run.Along (fun s e => (step s e).map Prod.fst) (fun s e => e.Unwrapped s)
          (start (fun _ => some .active) fun _ => 0)
          [.read 5 0 0x1000 1 1, .interrupt 0x41, .interrupt 0x42, .read 6 0 0x2000 1 1]) :=
  ⟨rfl, serial_run_iff _ _ (by decide) (by decide)⟩

/-- 49 bytes that nobody reads, a read by process 5, one more byte, and another read. -/
def aroundTheEnd : List Event :=
  List.replicate 49 (.interrupt 0x41) ++
    [.read 5 0 0x1000 1 1, .interrupt 0x42, .read 5 0 0x1000 1 1]

/-- The process 5 reads one of 49 bytes. One more comes, the write index is 0
again, and the next read of 5 puts it to sleep beside 49 bytes. -/
theorem reader_sleeps_beside_unread :
    Run.Along (fun s e => (step s e).map Prod.fst) (fun s e => e.Ok s)
        (start (fun _ => some .active) fun _ => 0) aroundTheEnd ∧
      NeverFull (start (fun _ => some .active) fun _ => 0) aroundTheEnd ∧
      ∃ s seen, Run.trace step (start (fun _ => some .active) fun _ => 0) aroundTheEnd
          = some (s, seen) ∧
        seen[51]? = some (.waits ⟨5, 0, 0x1000, 1⟩) ∧
        unread (aroundTheEnd.take 51) (seen.take 51) = 49 ∧ ¬ Exact aroundTheEnd seen := by
  have hok : Run.Along (fun s e => (step s e).map Prod.fst) (fun s e => e.Ok s)
      (start (fun _ => some .active) fun _ => 0) aroundTheEnd := by
    decide +kernel
  have hfull : NeverFull (start (fun _ => some .active) fun _ => 0) aroundTheEnd := by
    decide +kernel
  have hrun : (Run.trace step (start (fun _ => some .active) fun _ => 0) aroundTheEnd).all
      (fun x => decide (x.2[51]? = some (.waits ⟨5, 0, 0x1000, 1⟩) ∧
        unread (aroundTheEnd.take 51) (x.2.take 51) = 49)) = true := by
    decide +kernel
  obtain ⟨s, seen, hs, -⟩ := (queued_start _ _).run hok hfull
  rw [hs, Option.all_some, decide_eq_true_iff] at hrun
  obtain ⟨hwaits, hunread⟩ := hrun
  refine ⟨hok, hfull, s, seen, hs, hwaits, hunread, fun hexact => ?_⟩
  rw [hexact.2 51 _ hwaits] at hunread
  exact absurd hunread (by decide)

end VersionSix.Serial
