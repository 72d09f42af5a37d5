import VersionSix.Keyboard

/-!
# The window in a keyboard read

`ps2_keyboard_read` looks at the size of the queue first and registers its
caller in the wait queue afterwards. The handlers stand behind trap gates, so a
keyboard interrupt can be taken in between; it wakes only who is registered.
The scancode is then queued and the reader waits beside it
(`interrupt_in_window`).

While such an interrupt finds another process waiting, or there is no reader in
the window, nobody ever waits beside a queued scancode (`no_wakeUp_missed`).

A read is two steps here, with other events between them, and the two together
are the read of `Keyboard` (`read_two_steps`). So runs have readers in their
window, any number of them; the invariant is that while there is one the queue
is empty (`Watched`), which such an interrupt does not change if somebody else
is there to take the scancode.
-/

namespace VersionSix.Ps2

open Avs
open Process (WaitQueueEntry)

/-! ## Reads in two steps -/

structure Racing where
  driver : Driver
  /-- readers that found the queue empty and are not registered yet -/
  inProgress : List WaitQueueEntry

inductive RaceEvent
  | test (entry : WaitQueueEntry)
  | register (entry : WaitQueueEntry) (node : Nat)
  | interrupt (status newScancode : UInt8) (node : Nat)

def raceStep (s : Racing) : RaceEvent → Option Racing
  | .test entry =>
      if s.driver.scancodeQueue.list.size = 0 then
        some { s with inProgress := entry :: s.inProgress }
      else (takeScancode s.driver).map fun x => { s with driver := x.2 }
  | .register entry node =>
      if entry ∈ s.inProgress then
        (wqAdd s.driver entry node).map fun d => ⟨d, s.inProgress.erase entry⟩
      else none
  | .interrupt status newScancode node =>
      (ps2KeyboardInterruptHandler s.driver status newScancode node).map fun d =>
        { s with driver := d }

theorem read_two_steps (d : Driver) (entry : WaitQueueEntry) (node : Nat) :
    (ps2KeyboardRead d entry.pid entry.fd entry.buff entry.count node).map
        (fun x => (⟨x.2, []⟩ : Racing)) =
      if d.scancodeQueue.list.size = 0 then
        Run.exec raceStep ⟨d, []⟩ [.test entry, .register entry node]
      else Run.exec raceStep ⟨d, []⟩ [.test entry] := by
  rw [ps2KeyboardRead_eq]
  split
  · next hempty =>
    simp only [Run.exec, raceStep, if_pos hempty, Option.bind_some, List.mem_singleton, if_true,
      List.erase_cons_head, Option.bind_map, Option.map_map]
    cases wqAdd d entry node with
    | none => rfl
    | some d' => rfl
  · next hfull =>
    simp only [Run.exec, raceStep, if_neg hfull]
    cases takeScancode d with
    | none => rfl
    | some x => rfl

/-- `kmalloc` succeeds, and the reader is a process. -/
def RaceEvent.Ok (s : Racing) : RaceEvent → Prop
  | .test entry => s.driver.status entry.pid ≠ none
  | .register _ node => Fresh s.driver.wqPs2Keyboard.queue node
  | .interrupt _ _ node => Fresh s.driver.scancodeQueue node

/-- A scancode comes when no reader is in the window, or somebody waits. -/
def RaceEvent.Quiet (s : Racing) : RaceEvent → Prop
  | .interrupt status _ _ =>
      status &&& 0x01 = 0 ∨ s.inProgress = [] ∨ s.driver.wqPs2Keyboard.queue.list.size ≠ 0
  | _ => True

/-- A process waits beside a queued scancode. -/
def Missed (s : Racing) : Prop :=
  s.driver.scancodeQueue.list.size ≠ 0 ∧ s.driver.wqPs2Keyboard.queue.list.size ≠ 0

instance (s : Racing) : Decidable (Missed s) := inferInstanceAs (Decidable (_ ∧ _))

/-! ## The invariant -/

/-- While a reader is in the window the queue is empty. -/
structure Watched (s : Racing) (qs : List (Linked.Cell UInt8))
    (ws : List (Linked.Cell WaitQueueEntry)) : Prop where
  queues : Queues s.driver qs ws
  window : s.inProgress ≠ [] → qs = []
  readers : ∀ entry ∈ s.inProgress, s.driver.status entry.pid ≠ none

variable {s s' : Racing} {qs : List (Linked.Cell UInt8)} {ws : List (Linked.Cell WaitQueueEntry)}

theorem Queues.waiters_eq_zero {d : Driver} (h : Queues d qs ws) :
    d.wqPs2Keyboard.queue.list.size = 0 ↔ ws = [] := by
  rw [h.waiters.size, Int.natCast_eq_zero, List.length_eq_zero_iff]

theorem Watched.test (h : Watched s qs ws) {entry : WaitQueueEntry}
    (hpid : s.driver.status entry.pid ≠ none) (hs' : raceStep s (.test entry) = some s') :
    ∃ qs' ws', Watched s' qs' ws' := by
  rw [raceStep] at hs'
  split at hs'
  · next hempty =>
    obtain rfl := Option.some.inj hs'
    refine ⟨qs, ws, h.queues, fun _ => h.queues.size_eq_zero.mp hempty, fun e he => ?_⟩
    rcases List.mem_cons.mp he with rfl | he
    · exact hpid
    · exact h.readers e he
  · next hfull =>
    obtain ⟨x, hx, rfl⟩ := Option.map_eq_some_iff.mp hs'
    cases qs using List.reverseRecOn with
    | nil => exact absurd (h.queues.size_eq_zero.mpr rfl) hfull
    | append_singleton qs q =>
        obtain ⟨queue, htake, hqueues⟩ := h.queues.take
        obtain rfl := Option.some.inj (htake.symm.trans hx)
        exact ⟨qs, ws, hqueues, fun hne => absurd (h.window hne) (by simp), h.readers⟩

theorem Watched.register (h : Watched s qs ws) {entry : WaitQueueEntry} {node : Nat}
    (hnode : Fresh s.driver.wqPs2Keyboard.queue node)
    (hs' : raceStep s (.register entry node) = some s') : ∃ qs' ws', Watched s' qs' ws' := by
  obtain ⟨hmem, hs'⟩ := Option.ite_none_right_eq_some.mp hs'
  obtain ⟨d, hd, rfl⟩ := Option.map_eq_some_iff.mp hs'
  obtain rfl := h.window (List.ne_nil_of_mem hmem)
  obtain ⟨queue, -, hadd, hqueues⟩ := h.queues.register entry hnode (h.readers entry hmem)
  obtain rfl := Option.some.inj (hadd.symm.trans hd)
  exact ⟨[], _, hqueues, fun _ => rfl,
    fun e he => update_status_ne_none (h.readers e (List.mem_of_mem_erase he)) _⟩

theorem Watched.interrupt (h : Watched s qs ws) {status newScancode : UInt8} {node : Nat}
    (hnode : Fresh s.driver.scancodeQueue node)
    (hquiet : (RaceEvent.interrupt status newScancode node).Quiet s)
    (hs' : raceStep s (.interrupt status newScancode node) = some s') :
    ∃ qs' ws', Watched s' qs' ws' := by
  obtain ⟨d, hd, rfl⟩ := Option.map_eq_some_iff.mp hs'
  obtain ⟨d', hd', hkeeps, -, hcase⟩ := h.queues.interrupt status newScancode hnode
  obtain rfl := Option.some.inj (hd'.symm.trans hd)
  have hreaders : ∀ entry ∈ s.inProgress, d'.status entry.pid ≠ none :=
    fun e he => hkeeps _ (h.readers e he)
  rcases hcase with ⟨-, rfl⟩ | ⟨hstatus, rfl, hqueues⟩ | ⟨ws', w, -, rfl, rfl, hqueues, -⟩
  · exact ⟨qs, ws, h.queues, h.window, hreaders⟩
  · -- the scancode stays in the queue, so nobody may be in the window
    refine ⟨_, [], hqueues, fun hne => ?_, hreaders⟩
    rcases hquiet with hnone | hnobody | hwaits
    · exact absurd hnone hstatus
    · exact absurd hnobody hne
    · exact absurd (h.queues.waiters_eq_zero.mpr rfl) hwaits
  · exact ⟨[], ws', hqueues, fun _ => rfl, hreaders⟩

/-! ## Every run -/

/-- Nobody waits beside a queued scancode, whoever reads and whenever a
scancode comes, if none comes into the window of a reader while nobody else
waits. The run may have any number of readers between their test and their
registration; while there is one, the queue is empty. -/
theorem no_wakeUp_missed (status : Nat → Option Process.ProcessStatus) (memory : Nat → UInt8)
    (mapEnd : UInt8) {events : List RaceEvent}
    (hok : Run.Along raceStep (fun s e => e.Ok s ∧ e.Quiet s)
      ⟨start status memory mapEnd, []⟩ events)
    (h : Run.exec raceStep ⟨start status memory mapEnd, []⟩ events = some s) : ¬ Missed s := by
  have hinit : Watched ⟨start status memory mapEnd, []⟩ [] [] :=
    ⟨queues_start status memory mapEnd, fun _ => rfl, fun _ he => absurd he List.not_mem_nil⟩
  have hend : ∃ qs ws, Watched s qs ws := by
    refine Run.exec_invariant (I := fun s => ∃ qs ws, Watched s qs ws) ?_ ⟨[], [], hinit⟩ hok h
    rintro s e s' ⟨qs, ws, hw⟩ ⟨he, hquiet⟩ hs'
    cases e with
    | test entry => exact hw.test he hs'
    | register entry node => exact hw.register he hs'
    | interrupt status newScancode node => exact hw.interrupt he hquiet hs'
  obtain ⟨qs, ws, hw⟩ := hend
  rintro ⟨hqueued, hwaits⟩
  rcases hw.queues.idle with hqs | hws
  · exact hqueued (hw.queues.size_eq_zero.mpr hqs)
  · exact hwaits (hw.queues.waiters_eq_zero.mpr hws)

theorem no_wakeUp_missed_single : ∃ s,
    Run.exec raceStep ⟨start (fun _ => some .active) (fun _ => 0) 0, []⟩
      [.test ⟨5, 0, 0x1000, 1⟩, .register ⟨5, 0, 0x1000, 1⟩ 1, .interrupt 1 0x1E 1] = some s ∧
      ¬ Missed s := by
  have hok : Run.Along raceStep (fun s e => e.Ok s ∧ e.Quiet s)
      ⟨start (fun _ => some .active) (fun _ => 0) 0, []⟩
      [.test ⟨5, 0, 0x1000, 1⟩, .register ⟨5, 0, 0x1000, 1⟩ 1, .interrupt 1 0x1E 1] := by
    refine ⟨⟨Option.some_ne_none _, trivial⟩, fun s₁ h₁ => ?_⟩
    cases h₁
    refine ⟨⟨⟨Nat.one_ne_zero, rfl⟩, trivial⟩, fun s₂ h₂ => ?_⟩
    cases h₂
    exact ⟨⟨⟨Nat.one_ne_zero, rfl⟩, .inr (.inl rfl)⟩, fun _ _ => trivial⟩
  exact ⟨_, rfl, no_wakeUp_missed _ _ _ hok rfl⟩

/-! ## The window -/

/-- An interrupt in the window of the only reader, with nobody waiting: once the
reader is registered, it waits beside the scancode. -/
theorem interrupt_in_window (h : Watched s qs []) {entry : WaitQueueEntry}
    (hentry : s.inProgress = [entry]) {status newScancode : UInt8} (hstatus : status &&& 0x01 ≠ 0)
    {node node' : Nat} (hok : Run.Along raceStep (fun s e => e.Ok s) s
      [.interrupt status newScancode node, .register entry node']) :
    ∃ s', Run.exec raceStep s [.interrupt status newScancode node, .register entry node'] =
      some s' ∧
      s'.inProgress = [] ∧ Missed s' := by
  obtain ⟨d, hd, hkeeps, -, hcase⟩ := h.queues.interrupt status newScancode hok.1
  have hqueues : Queues d ((node, newScancode) :: qs) [] := by
    rcases hcase with ⟨hnone, -⟩ | ⟨-, -, hqueues⟩ | ⟨ws', w, -, hws, -⟩
    · exact absurd hnone hstatus
    · exact hqueues
    · exact absurd hws (by simp)
  have hstep : raceStep s (.interrupt status newScancode node) = some { s with driver := d } := by
    rw [raceStep, hd, Option.map_some]
  have hpid := hkeeps _ (h.readers entry (hentry ▸ List.mem_singleton_self entry))
  obtain ⟨queue, hrep, hadd⟩ := wqAdd_spec hqueues.waiters (hok.2 _ hstep).1 _ hpid
  have hregister : raceStep { s with driver := d } (.register entry node') = some
      ⟨{ d with
          wqPs2Keyboard := { d.wqPs2Keyboard with queue := queue }
          status := Function.update d.status entry.pid (some .waiting) }, []⟩ := by
    rw [raceStep, hentry, if_pos (List.mem_singleton_self entry), hadd, List.erase_cons_head]
    rfl
  refine ⟨_, by rw [Run.exec, hstep, Option.bind_some, Run.exec, hregister]; rfl, rfl, ?_, ?_⟩
  · exact fun h0 => absurd (hqueues.size_eq_zero.mp h0) (by simp)
  · change queue.list.size ≠ 0
    rw [hrep.size]
    exact Int.ofNat_ne_zero.mpr (Nat.succ_ne_zero _)

/-- The process 5 finds the queue empty, the scancode 0x1E comes, 5 waits. -/
theorem wakeUp_missed : ∃ s,
    Run.exec raceStep ⟨start (fun _ => some .active) (fun _ => 0) 0, []⟩
      [.test ⟨5, 0, 0x1000, 1⟩, .interrupt 1 0x1E 1, .register ⟨5, 0, 0x1000, 1⟩ 1] = some s ∧
      s.inProgress = [] ∧ Missed s ∧ s.driver.status 5 = some .waiting :=
  ⟨_, rfl, rfl, by unfold Missed; decide, by decide⟩

end VersionSix.Ps2
