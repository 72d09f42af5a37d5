import VersionSix.SerialRing

/-!
# One kernel, two views of its input devices

The process code sees the keyboard and `/dev/serial3` as part of the whole kernel
(`Process.Kernel`): a queue is a list there, a reader is the current process, and a
character is stored through the page tables. The drivers' own models follow the queues
into the nodes of their lists and leave the rest of the kernel out. Both are read off the
same functions, and this file says that they agree.

`KeyboardView` and `SerialView` relate the two states: the lists in memory hold what the
kernel's lists say, and the statuses are those of the first process records with the pid.
A read or an interrupt that returns in the kernel returns the same in the driver, and leaves
the states related. Memory is compared where the driver writes it, at the buffer of the
reader that is woken: elsewhere two pages of the kernel may be one frame, which a driver
with one flat memory does not know.
-/

namespace VersionSix.Process

open Avs

/-! ## Statuses -/

/-- The status in the record that `process_get_data_from_pid` finds. -/
def statusOf (k : Kernel) (pid : Nat) : Option ProcessStatus :=
  (k.processList.find? fun p => p.pid == pid).map ProcessData.status

theorem find_modify_setStatus {records : List ProcessData} {pid i : Nat} (st : ProcessStatus)
    (h : (records.findIdx? fun p => p.pid == pid) = some i) (pid' : Nat) :
    ((records.modify i (setStatus st)).find? fun p => p.pid == pid').map ProcessData.status =
      if pid' = pid then some st
      else (records.find? fun p => p.pid == pid').map ProcessData.status := by
  induction records generalizing i with
  | nil => cases h
  | cons p records ih =>
      rw [List.findIdx?_cons] at h
      by_cases hp : p.pid = pid
      · rw [if_pos (beq_iff_eq.mpr hp)] at h
        obtain rfl := Option.some.inj h
        rw [List.modify_zero_cons, List.find?_cons, List.find?_cons]
        by_cases heq : pid' = pid
        · rw [if_pos heq]
          simp [setStatus, hp, heq]
        · have hne : (p.pid == pid') = false := beq_eq_false_iff_ne.mpr fun hp' =>
            heq (hp'.symm.trans hp)
          rw [if_neg heq, hne]
          simp only [setStatus, hne]
      · rw [if_neg fun hbeq => hp (beq_iff_eq.mp hbeq)] at h
        obtain ⟨j, hj, rfl⟩ := Option.map_eq_some_iff.mp h
        rw [List.modify_succ_cons, List.find?_cons, List.find?_cons]
        by_cases hp' : p.pid = pid'
        · rw [if_neg fun heq => hp (hp'.trans heq)]
          simp [hp']
        · have hne : (p.pid == pid') = false := beq_eq_false_iff_ne.mpr hp'
          rw [hne]
          exact ih hj

theorem statusOf_updateProc {k : Kernel} {pid i : Nat}
    (h : processGetDataFromPid k pid = some i) (st : ProcessStatus) :
    statusOf (k.updateProc i (setStatus st)) = Function.update (statusOf k) pid (some st) := by
  funext pid'
  rw [Function.update_apply]
  exact find_modify_setStatus st h pid'

theorem statusOf_ne_none {k : Kernel} {pid i : Nat} (h : processGetDataFromPid k pid = some i) :
    statusOf k pid ≠ none := by
  intro hnone
  have hnotin := List.find?_eq_none.mp (Option.map_eq_none_iff.mp hnone)
  obtain ⟨hlt, hpid, -⟩ := List.findIdx?_eq_some_iff_getElem.mp h
  exact hnotin _ (List.getElem_mem hlt) hpid

/-! ## Queues -/

def Holds {α : Type} (q : Avs.State α) (items : List α) : Prop :=
  ∃ cells, Rep q cells ∧ cells.map Prod.snd = items

theorem Holds.size {α : Type} {q : Avs.State α} {items : List α} (h : Holds q items) :
    q.list.size = items.length := by
  obtain ⟨cells, hrep, rfl⟩ := h
  rw [hrep.size, List.length_map]

theorem dequeue_eq_none {α : Type} {items : List α} (h : dequeue items = none) : items = [] :=
  List.getLast?_eq_none_iff.mp (Option.map_eq_none_iff.mp h)

theorem dequeue_eq_some {α : Type} {items rest : List α} {x : α}
    (h : dequeue items = some (x, rest)) : items = rest ++ [x] := by
  obtain ⟨y, hy, heq⟩ := Option.map_eq_some_iff.mp h
  obtain ⟨rfl, rfl⟩ := Prod.mk.inj heq
  exact (List.dropLast_append_getLast? y hy).symm

theorem Holds.last {α : Type} {q : Avs.State α} {rest : List α} {x : α}
    (h : Holds q (rest ++ [x])) : ∃ cells node, Rep q (cells ++ [(node, x)]) ∧
      cells.map Prod.snd = rest := by
  obtain ⟨cells, hrep, hcells⟩ := h
  cases cells using List.reverseRecOn with
  | nil => exact absurd hcells (by simp)
  | append_singleton cells c =>
      rw [List.map_append] at hcells
      obtain ⟨hrest, hlast⟩ := List.append_inj' hcells rfl
      exact ⟨cells, c.1, by rwa [← List.singleton_inj.mp hlast], hrest⟩

/-! ## Waiting and waking in the kernel -/

section Kernel

variable {k k' : Kernel}

theorem wqAdd_eq {queue queue' : List WaitQueueEntry} {fd buff count : Nat}
    (h : wqAdd k queue fd buff count = some (queue', k')) :
    ∃ cur i, k.proc? k.currentProcess = some cur ∧ processGetDataFromPid k cur.pid = some i ∧
      queue' = ⟨cur.pid, fd, buff, count⟩ :: queue ∧ k' = k.updateProc i (setStatus .waiting) := by
  obtain ⟨cur, hcur, h⟩ := Option.bind_eq_some_iff.mp h
  obtain ⟨i, hi, heq⟩ := Option.map_eq_some_iff.mp h
  obtain ⟨rfl, rfl⟩ := Prod.mk.inj heq
  exact ⟨cur, i, hcur, hi, rfl, rfl⟩

theorem deliver_eq {entry : WaitQueueEntry} {c : UInt8} (h : deliver k entry c = some k') :
    ∃ i frame, processGetDataFromPid k entry.pid = some i ∧
      k.vm (entry.buff / pageSize) = some frame ∧
      k' = { k with memory := Function.update k.memory (frame + entry.buff % pageSize) c
        }.updateProc i (setStatus .inactive) := by
  obtain ⟨i, hi, h⟩ := Option.bind_eq_some_iff.mp h
  obtain ⟨k₁, hk₁, rfl⟩ := Option.map_eq_some_iff.mp h
  obtain ⟨frame, hframe, rfl⟩ := Option.map_eq_some_iff.mp hk₁
  exact ⟨i, frame, hi, hframe, rfl⟩

end Kernel

/-! ## The keyboard -/

/-- What the driver has of the kernel. -/
structure KeyboardView (k : Kernel) (s : Ps2.Driver) : Prop where
  scancodes : Holds s.scancodeQueue k.scancodeQueue
  waiters : Holds s.wqPs2Keyboard.queue k.wqPs2Keyboard
  status : s.status = statusOf k

section Keyboard

variable {k k' : Kernel} {s : Ps2.Driver}

theorem keyboardScancodeToChar_eq {scancode c : UInt8}
    (h : keyboardScancodeToChar scancode = some c) : Ps2.keyboardScancodeToChar s scancode = c := by
  rw [Ps2.keyboardScancodeToChar, h, Option.getD_some]

theorem ps2KeyboardRead_agrees (h : KeyboardView k s) {fd buff count node : Nat} {c : UInt8}
    (hnode : Fresh s.wqPs2Keyboard.queue node) {cur : ProcessData}
    (hcur : k.proc? k.currentProcess = some cur)
    (hread : ps2KeyboardRead k fd buff count = some (c, k')) :
    ∃ s', Ps2.ps2KeyboardRead s cur.pid fd buff count node = some (c, s') ∧ KeyboardView k' s' := by
  rw [Ps2.ps2KeyboardRead_eq]
  unfold ps2KeyboardRead at hread
  split at hread
  · next hnone =>
    obtain ⟨⟨queue, k₁⟩, hadd, heq⟩ := Option.map_eq_some_iff.mp hread
    obtain ⟨rfl, rfl⟩ := Prod.mk.inj heq
    obtain ⟨cur', i, hcur', hi, rfl, rfl⟩ := wqAdd_eq hadd
    obtain rfl := Option.some.inj (hcur.symm.trans hcur')
    obtain ⟨ws, hws, hcells⟩ := h.waiters
    have halive : s.status cur.pid ≠ none := h.status ▸ statusOf_ne_none hi
    obtain ⟨queue, hrep, hs'⟩ :=
      Ps2.wqAdd_spec hws hnode ⟨cur.pid, fd, buff, count⟩ halive
    have hempty : s.scancodeQueue.list.size = 0 := by
      rw [h.scancodes.size, dequeue_eq_none hnone, List.length_nil, Int.natCast_zero]
    rw [if_pos hempty, hs', Option.map_some]
    refine ⟨_, rfl, h.scancodes, ⟨_, hrep, by rw [List.map_cons, hcells]⟩, ?_⟩
    exact (congrArg (Function.update · _ _) h.status).trans (statusOf_updateProc hi .waiting).symm
  · next scancode rest hsome =>
    obtain ⟨c', hc', heq⟩ := Option.map_eq_some_iff.mp hread
    obtain ⟨rfl, rfl⟩ := Prod.mk.inj heq
    have hitems := dequeue_eq_some hsome
    obtain ⟨cells, n, hrep, hcells⟩ := (hitems ▸ h.scancodes).last
    have hfull : s.scancodeQueue.list.size ≠ 0 := by
      rw [h.scancodes.size, hitems, List.length_append, List.length_singleton]
      omega
    obtain ⟨queue, hqueue, hfree⟩ := free_member (r := []) hrep
    have htail : s.scancodeQueue.list.tail = n := by rw [hrep.tail, Linked.last_concat]
    rw [if_neg hfull]
    refine ⟨{ s with scancodeQueue := queue }, ?_,
      ⟨cells, by rwa [List.append_nil] at hfree, hcells⟩, h.waiters, h.status⟩
    unfold Ps2.takeScancode
    simp only [htail, (Linked.seg_concat.mp hrep.chain.seg).2, hqueue, Option.bind_eq_bind,
      Option.bind_some, keyboardScancodeToChar_eq hc']

/-- An interrupt that brings a scancode. Who is woken has the same character in its buffer. -/
theorem ps2KeyboardInterruptHandler_agrees (h : KeyboardView k s) {status scancode : UInt8}
    (hstatus : status &&& 0x01 ≠ 0) {node : Nat} (hnode : Fresh s.scancodeQueue node)
    (hint : ps2KeyboardInterruptHandler k scancode = some k') :
    ∃ s', Ps2.ps2KeyboardInterruptHandler s status scancode node = some s' ∧
      KeyboardView k' s' ∧
      ∀ entry rest, dequeue k.wqPs2Keyboard = some (entry, rest) →
        ∃ frame, k.vm (entry.buff / pageSize) = some frame ∧
          k'.memory (frame + entry.buff % pageSize) = s'.memory entry.buff := by
  obtain ⟨qs, hqs, hscancodes⟩ := h.scancodes
  obtain ⟨q, hq, hrep⟩ := prepend_spec hqs hnode scancode
  have hholds : (((node, scancode) :: qs).map Prod.snd) = scancode :: k.scancodeQueue := by
    rw [List.map_cons, hscancodes]
  unfold Ps2.ps2KeyboardInterruptHandler avsListEnqueue
  rw [if_pos hstatus]
  simp only [hq, Option.bind_eq_bind, Option.bind_some]
  generalize hs₁ : Ps2.wqMakeReady _ = s₁
  have hrep₁ : Holds s₁.scancodeQueue (scancode :: k.scancodeQueue) := hs₁ ▸ ⟨_, hrep, hholds⟩
  have hwaiters₁ : Holds s₁.wqPs2Keyboard.queue k.wqPs2Keyboard := hs₁ ▸ h.waiters
  have hstatus₁ : s₁.status = statusOf k := hs₁ ▸ h.status
  unfold ps2KeyboardInterruptHandler at hint
  dsimp only at hint
  split at hint
  · next hnone =>
    obtain rfl := Option.some.inj hint
    have hidle : ¬ s₁.wqPs2Keyboard.queue.list.size > 0 := by
      rw [hwaiters₁.size, dequeue_eq_none hnone, List.length_nil, Int.natCast_zero]
      exact lt_irrefl 0
    refine ⟨s₁, if_neg hidle, ⟨hrep₁, hwaiters₁, hstatus₁⟩, fun entry rest hsome => ?_⟩
    exact absurd (hnone.symm.trans hsome) (by simp)
  · next entry rest hsome =>
    obtain ⟨⟨d, ds⟩, hd, hint⟩ := Option.bind_eq_some_iff.mp hint
    obtain ⟨c, hc, hint⟩ := Option.bind_eq_some_iff.mp hint
    obtain ⟨i, frame, hi, hframe, rfl⟩ := deliver_eq hint
    obtain ⟨ws, w, hws, hrest⟩ := (dequeue_eq_some hsome ▸ hwaiters₁).last
    obtain ⟨ds', n, hds', htaken⟩ := (dequeue_eq_some hd ▸ hrep₁).last
    have halive : s₁.status entry.pid ≠ none := hstatus₁ ▸ statusOf_ne_none hi
    obtain ⟨scancodes, queue, hscancodes', hqueue, hcall⟩ :=
      Ps2.wqCallNextReady_spec hds' hws halive
    rw [keyboardScancodeToChar_eq hc] at hcall
    refine ⟨_, hcall, ⟨⟨_, hscancodes', htaken⟩, ⟨_, hqueue, hrest⟩, ?_⟩,
      fun entry' rest' hsome' => ?_⟩
    · exact (congrArg (Function.update · _ _) hstatus₁).trans
        (statusOf_updateProc hi .inactive).symm
    · obtain ⟨rfl, -⟩ := Prod.mk.inj (Option.some.inj (hsome.symm.trans hsome'))
      have hbuff : Function.update s₁.memory entry.buff c entry.buff = c := Function.update_self ..
      exact ⟨frame, hframe, (Function.update_self ..).trans hbuff.symm⟩

end Keyboard

/-! ## `/dev/serial3` -/

structure SerialView (k : Kernel) (s : Serial.Driver) : Prop where
  buffer : s.serial3Buffer = k.serial3Buffer
  wIndex : s.serial3BufferWIndex = k.serial3BufferWIndex
  rIndex : s.serial3BufferRIndex = k.serial3BufferRIndex
  waiters : Holds s.wqSerial3.queue k.wqSerial3
  status : s.status = statusOf k

section Serial

variable {k k' : Kernel} {s : Serial.Driver}

theorem isSome_statusOf {pid i : Nat} (h : processGetDataFromPid k pid = some i) :
    (statusOf k pid).isSome = true :=
  Option.isSome_iff_ne_none.mpr (statusOf_ne_none h)

theorem serial3Read_agrees (h : SerialView k s) {fd buff count node : Nat} {c : UInt8}
    (hnode : Fresh s.wqSerial3.queue node) {cur : ProcessData}
    (hcur : k.proc? k.currentProcess = some cur)
    (hread : serial3Read k fd buff count = some (c, k')) :
    ∃ s', Serial.serial3Read s cur.pid fd buff count node = some (c, s') ∧ SerialView k' s' := by
  unfold serial3Read at hread
  rw [Serial.serial3Read, h.rIndex, h.wIndex]
  split at hread
  · next hlt =>
    obtain ⟨c', hc', heq⟩ := Option.map_eq_some_iff.mp hread
    obtain ⟨rfl, rfl⟩ := Prod.mk.inj heq
    rw [if_pos hlt, Serial.take, h.buffer, h.rIndex, hc', Option.map_some]
    exact ⟨_, rfl, rfl, h.wIndex, rfl, h.waiters, h.status⟩
  · next hge =>
    obtain ⟨⟨queue, k₁⟩, hadd, heq⟩ := Option.map_eq_some_iff.mp hread
    obtain ⟨rfl, rfl⟩ := Prod.mk.inj heq
    obtain ⟨cur', i, hcur', hi, rfl, rfl⟩ := wqAdd_eq hadd
    obtain rfl := Option.some.inj (hcur.symm.trans hcur')
    obtain ⟨ws, hws, hcells⟩ := h.waiters
    have halive : (s.status cur.pid).isSome = true := h.status ▸ isSome_statusOf hi
    obtain ⟨queue, hrep, hs'⟩ := Serial.wqAdd_spec hws hnode ⟨cur.pid, fd, buff, count⟩ halive
    rw [if_neg hge, hs', Option.map_some]
    refine ⟨_, rfl, h.buffer, h.wIndex, h.rIndex, ⟨_, hrep, by rw [List.map_cons, hcells]⟩, ?_⟩
    exact (congrArg (Function.update · _ _) h.status).trans (statusOf_updateProc hi .waiting).symm

theorem serial3InterruptHandler_agrees (h : SerialView k s) {byte : UInt8}
    (hint : serial3InterruptHandler k byte = some k') :
    ∃ s', Serial.serial3InterruptHandler s byte = some s' ∧ SerialView k' s' ∧
      ∀ entry rest, dequeue k.wqSerial3 = some (entry, rest) →
        ∃ frame, k.vm (entry.buff / pageSize) = some frame ∧
          k'.memory (frame + entry.buff % pageSize) = s'.memory entry.buff := by
  unfold Serial.serial3InterruptHandler
  generalize hs₁ : Serial.wqMakeReady _ = s₁
  have hbuffer₁ : s₁.serial3Buffer = k.serial3Buffer.set k.serial3BufferWIndex byte := by
    rw [← hs₁, ← h.buffer, ← h.wIndex]
    rfl
  have hwIndex₁ : s₁.serial3BufferWIndex = nextSerialIndex k.serial3BufferWIndex := by
    rw [← hs₁, ← h.wIndex]
    rfl
  have hrIndex₁ : s₁.serial3BufferRIndex = k.serial3BufferRIndex := hs₁ ▸ h.rIndex
  have hwaiters₁ : Holds s₁.wqSerial3.queue k.wqSerial3 := hs₁ ▸ h.waiters
  have hstatus₁ : s₁.status = statusOf k := hs₁ ▸ h.status
  unfold serial3InterruptHandler at hint
  dsimp only at hint
  split at hint
  · next hnone =>
    obtain rfl := Option.some.inj hint
    have hidle : ¬ s₁.wqSerial3.queue.list.size > 0 := by
      rw [hwaiters₁.size, dequeue_eq_none hnone, List.length_nil, Int.natCast_zero]
      exact lt_irrefl 0
    refine ⟨s₁, if_neg hidle, ⟨hbuffer₁, hwIndex₁, hrIndex₁, hwaiters₁, hstatus₁⟩,
      fun entry rest hsome => ?_⟩
    exact absurd (hnone.symm.trans hsome) (by simp)
  · next entry rest hsome =>
    obtain ⟨c, hc, hint⟩ := Option.bind_eq_some_iff.mp hint
    obtain ⟨i, frame, hi, hframe, rfl⟩ := deliver_eq hint
    obtain ⟨ws, w, hws, hrest⟩ := (dequeue_eq_some hsome ▸ hwaiters₁).last
    have halive : (s₁.status entry.pid).isSome = true := hstatus₁ ▸ isSome_statusOf hi
    have hbyte : s₁.serial3Buffer[s₁.serial3BufferRIndex]? = some c := by
      rw [hbuffer₁, hrIndex₁]
      exact hc
    obtain ⟨queue, hrep, hcall⟩ := Serial.wqCallNextReady_spec hws halive hbyte
    refine ⟨_, hcall,
      ⟨hbuffer₁, hwIndex₁, congrArg nextSerialIndex hrIndex₁, ⟨_, hrep, hrest⟩, ?_⟩,
      fun entry' rest' hsome' => ?_⟩
    · exact (congrArg (Function.update · _ _) hstatus₁).trans
        (statusOf_updateProc hi .inactive).symm
    · obtain ⟨rfl, -⟩ := Prod.mk.inj (Option.some.inj (hsome.symm.trans hsome'))
      have hbuff : Function.update s₁.memory entry.buff c entry.buff = c := Function.update_self ..
      exact ⟨frame, hframe, (Function.update_self ..).trans hbuff.symm⟩

end Serial

end VersionSix.Process
