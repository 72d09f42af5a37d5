import VersionSix.E1000Send
import VersionSix.Ring

/-!
# Receiving with the e1000

`e1000_interrupt_handler` over the receive ring. The device completes
descriptors from `rx_index` on, up to its head register, which stays where it
is while the handler runs. The loop hands every completed frame on, in the
order of the ring (`drainLoop_drained`), but it runs only if the cause has the
receive bit and besides it at most the two bits for sending
(`interrupt_drains_iff`): it compares the register, less those two, and does
not test the bit.

The loop ends because each turn clears a status that was set
(`RxDevice.waiting` goes down), which is true of any contents. That it stops at
the head and not before is the part that needs the descriptors to be as the
device leaves them (`Completed`). If the whole ring is completed, head and
index are the same, and the loop takes it for an empty one.
-/

namespace VersionSix.E1000

/-! ## Functions -/

structure RxDesc where
  address : UInt64
  length : UInt16
  checksum : UInt16
  status : UInt8
  errors : UInt8
  special : UInt16

/-- The receive side of an `e1000_device`, with its head and tail registers. -/
structure RxDevice where
  rxDescQueue : List RxDesc
  rxData : List UInt64
  rxIndex : UInt64
  rxDescHead : UInt32
  rxDescTail : UInt32

/-- The loop of `e1000_rx_init` and what follows it; `page` is where the buffers
are, `physical` is where they are for the device. -/
def e1000RxInit (page physical : Nat → UInt64) (dev : RxDevice) : RxDevice where
  rxDescQueue := dev.rxDescQueue.mapIdx fun i desc => { desc with address := physical i }
  rxData := dev.rxData.mapIdx fun i _ => page i
  rxIndex := 0
  rxDescHead := 0
  rxDescTail := UInt32.ofNat (E1000_QUEUE_LENGTH - 1)

/-- What `ethernet_process_packet` gets. -/
structure Frame where
  addrOfData : UInt64
  length : UInt16

/-- The packet at `rx_index` is processed: its status goes and the index moves on. -/
def RxDevice.advance (dev : RxDevice) (desc : RxDesc) : RxDevice :=
  let index := dev.rxIndex + 1
  { dev with
    rxDescQueue := dev.rxDescQueue.set dev.rxIndex.toNat { desc with status := 0 }
    rxIndex := if index = UInt64.ofNat E1000_QUEUE_LENGTH then 0 else index }

def RxDevice.writeTail (dev : RxDevice) : RxDevice :=
  { dev with rxDescTail := dev.rxIndex.toUInt32 }

/-- The loop of `e1000_interrupt_handler`: the device after it, and the frames
it hands on. `none` is a loop that does not end or an access outside of the arrays. -/
def drainLoop : Nat → UInt32 → RxDevice → Option (RxDevice × List Frame)
  | 0, _, _ => none
  | fuel + 1, head, dev =>
      match dev.rxDescQueue[dev.rxIndex.toNat]? with
      | none => none
      | some desc =>
          if desc.status &&& 0x01 = 0 then some (dev, [])
          else
            match dev.rxData[dev.rxIndex.toNat]? with
            | none => none
            | some addrOfData =>
                let frame : Frame := ⟨addrOfData, desc.length⟩
                let next := dev.advance desc
                -- at the head it is read again, and it may have moved
                let head' := if next.rxIndex = head.toUInt64 then next.rxDescHead else head
                if next.rxIndex = head.toUInt64 ∧ head'.toUInt64 = next.rxIndex then
                  some (next, [frame])
                else
                  (drainLoop fuel head' next.writeTail).map fun x => (x.1, frame :: x.2)

/-- Every turn clears a status, so one turn more than there are descriptors is
enough (`drainLoop_total`). -/
def e1000InterruptHandler (icr : UInt32) (dev : RxDevice) : Option (RxDevice × List Frame) :=
  let icr := icr &&& ~~~0x03
  if icr = 0x80 then
    let head := dev.rxDescHead
    if head.toUInt64 ≠ dev.rxIndex then drainLoop (E1000_QUEUE_LENGTH + 1) head dev
    else some (dev, [])
  else some (dev, [])

/-! ## Statement -/

structure RxDevice.Sized (dev : RxDevice) : Prop where
  descs : dev.rxDescQueue.length = E1000_QUEUE_LENGTH
  data : dev.rxData.length = E1000_QUEUE_LENGTH
  index : dev.rxIndex.toNat < E1000_QUEUE_LENGTH

/-- The device has completed the `n` descriptors from `rx_index` up to its head. -/
structure Completed (dev : RxDevice) (n : Nat) : Prop where
  sized : dev.Sized
  count : n ≤ E1000_QUEUE_LENGTH
  head : dev.rxDescHead.toNat = (dev.rxIndex.toNat + n) % E1000_QUEUE_LENGTH
  status : ∀ desc ∈ Ring.items dev.rxDescQueue dev.rxIndex.toNat n, desc.status &&& 0x01 ≠ 0

/-- The descriptors with the status of `n` of them from `r` on cleared. -/
def clearFrom (r n : Nat) (descs : List RxDesc) : List RxDesc :=
  descs.mapIdx fun i desc =>
    if (i + E1000_QUEUE_LENGTH - r) % E1000_QUEUE_LENGTH < n then { desc with status := 0 }
    else desc

/-- The frames of `n` descriptors from `rx_index` on, in the order of the ring. -/
def framesOf (dev : RxDevice) (n : Nat) : List Frame :=
  List.zipWith (fun addrOfData desc => ⟨addrOfData, desc.length⟩)
    (Ring.items dev.rxData dev.rxIndex.toNat n) (Ring.items dev.rxDescQueue dev.rxIndex.toNat n)

/-- `n` frames are handed on, and their descriptors are free again. -/
structure Drained (n : Nat) (dev dev' : RxDevice) (frames : List Frame) : Prop where
  frames : frames = framesOf dev n
  descs : dev'.rxDescQueue = clearFrom dev.rxIndex.toNat n dev.rxDescQueue
  index : dev'.rxIndex = dev.rxDescHead.toUInt64

def Drains (icr : UInt32) (n : Nat) (dev : RxDevice) : Prop :=
  ∃ dev' frames, e1000InterruptHandler icr dev = some (dev', frames) ∧ Drained n dev dev' frames

theorem e1000RxInit_completed {dev : RxDevice}
    (hdescs : dev.rxDescQueue.length = E1000_QUEUE_LENGTH)
    (hdata : dev.rxData.length = E1000_QUEUE_LENGTH) (page physical : Nat → UInt64) :
    Completed (e1000RxInit page physical dev) 0 where
  sized := ⟨List.length_mapIdx.trans hdescs, List.length_mapIdx.trans hdata, Nat.succ_pos 63⟩
  count := Nat.zero_le _
  head := rfl
  status := by simp

/-! ## One turn -/

variable {dev dev' : RxDevice} {desc : RxDesc} {frames : List Frame} {n fuel : Nat}

theorem advance_index (h : dev.rxIndex.toNat < E1000_QUEUE_LENGTH) (desc : RxDesc) :
    (dev.advance desc).rxIndex.toNat = (dev.rxIndex.toNat + 1) % E1000_QUEUE_LENGTH := by
  have hnext := toNat_next h
  have hwrap : dev.rxIndex + 1 = UInt64.ofNat E1000_QUEUE_LENGTH ↔ dev.rxIndex.toNat + 1 = 64 := by
    rw [← UInt64.toNat_inj, hnext]
    rfl
  simp only [RxDevice.advance]
  by_cases hend : dev.rxIndex.toNat + 1 = 64
  · rw [if_pos (hwrap.mpr hend), hend]
    rfl
  · rw [if_neg (mt hwrap.mp hend), hnext]
    unfold E1000_QUEUE_LENGTH at h ⊢
    omega

theorem advance_sized (h : dev.Sized) (desc : RxDesc) : (dev.advance desc).Sized where
  descs := List.length_set.trans h.descs
  data := h.data
  index := by
    rw [advance_index h.index]
    exact Nat.mod_lt _ (by decide)

theorem clearFrom_succ {r : Nat} {descs : List RxDesc} (hlen : descs.length = E1000_QUEUE_LENGTH)
    (hr : r < E1000_QUEUE_LENGTH) (hn : n < E1000_QUEUE_LENGTH) (hdesc : descs[r]? = some desc) :
    clearFrom ((r + 1) % E1000_QUEUE_LENGTH) n (descs.set r { desc with status := 0 }) =
      clearFrom r (n + 1) descs := by
  refine List.ext_getElem? fun i => ?_
  simp only [clearFrom, List.getElem?_mapIdx]
  unfold E1000_QUEUE_LENGTH at *
  by_cases hi : i < 64
  · by_cases heq : i = r
    · subst heq
      have hback : (i + 64 - i) % 64 < n + 1 := by omega
      have hout : ¬ (i + 64 - (i + 1) % 64) % 64 < n := by omega
      rw [List.getElem?_set_self (by omega), hdesc, Option.map_some, Option.map_some,
        if_neg hout, if_pos hback]
    · have hsame : (i + 64 - (r + 1) % 64) % 64 < n ↔ (i + 64 - r) % 64 < n + 1 := by omega
      rw [List.getElem?_set_ne (Ne.symm heq)]
      simp only [hsame]
  · rw [List.getElem?_eq_none (by rw [List.length_set]; omega), List.getElem?_eq_none (by omega)]
    rfl

theorem Completed.next (h : Completed dev (n + 1)) (hn : n + 1 < E1000_QUEUE_LENGTH) :
    ∃ desc addrOfData, dev.rxDescQueue[dev.rxIndex.toNat]? = some desc ∧
      dev.rxData[dev.rxIndex.toNat]? = some addrOfData ∧ desc.status &&& 0x01 ≠ 0 ∧
      Completed (dev.advance desc) n ∧
      framesOf dev (n + 1) = ⟨addrOfData, desc.length⟩ :: framesOf (dev.advance desc) n := by
  have hlt : n < E1000_QUEUE_LENGTH := Nat.lt_of_succ_lt hn
  have hindex := h.sized.index
  obtain ⟨desc, hdesc, hdescs⟩ :=
    Ring.items_pop (h.sized.descs.symm ▸ hindex) (h.sized.descs.symm ▸ hlt)
  obtain ⟨addrOfData, hdata, hdatas⟩ :=
    Ring.items_pop (h.sized.data.symm ▸ hindex) (h.sized.data.symm ▸ hlt)
  have hfirst := Ring.items_set_first (h.sized.descs.symm ▸ hindex) (h.sized.descs.symm ▸ hlt)
    { desc with status := 0 }
  rw [h.sized.descs] at hdescs hfirst
  rw [h.sized.data] at hdatas
  have hrest : Ring.items (dev.advance desc).rxDescQueue (dev.advance desc).rxIndex.toNat n =
      Ring.items dev.rxDescQueue ((dev.rxIndex.toNat + 1) % E1000_QUEUE_LENGTH) n := by
    rw [advance_index hindex]
    exact hfirst
  have hdone := h.status
  rw [hdescs] at hdone
  refine ⟨desc, addrOfData, hdesc, hdata, hdone _ (List.mem_cons_self ..), ?_, ?_⟩
  · refine ⟨advance_sized h.sized desc, hlt.le, ?_, ?_⟩
    · rw [advance_index hindex, Nat.mod_add_mod, Nat.add_assoc, Nat.add_comm 1 n]
      exact h.head
    · intro d hd
      rw [hrest] at hd
      exact hdone d (List.mem_cons_of_mem _ hd)
  · have hdata' : Ring.items (dev.advance desc).rxData (dev.advance desc).rxIndex.toNat n =
        Ring.items dev.rxData ((dev.rxIndex.toNat + 1) % E1000_QUEUE_LENGTH) n := by
      rw [advance_index hindex]
      rfl
    rw [framesOf, framesOf, hdescs, hdatas, hrest, hdata', List.zipWith_cons_cons]

theorem Completed.writeTail (h : Completed dev n) : Completed dev.writeTail n :=
  ⟨⟨h.sized.descs, h.sized.data, h.sized.index⟩, h.count, h.head, h.status⟩

/-- The turn for a completed descriptor, with the head register that stays where it is. -/
theorem drainLoop_turn {addrOfData : UInt64}
    (hdesc : dev.rxDescQueue[dev.rxIndex.toNat]? = some desc)
    (hdata : dev.rxData[dev.rxIndex.toNat]? = some addrOfData)
    (hstatus : desc.status &&& 0x01 ≠ 0) :
    drainLoop (fuel + 1) dev.rxDescHead dev =
      if (dev.advance desc).rxIndex = dev.rxDescHead.toUInt64 then
        some (dev.advance desc, [⟨addrOfData, desc.length⟩])
      else
        (drainLoop fuel dev.rxDescHead (dev.advance desc).writeTail).map fun x =>
          (x.1, ⟨addrOfData, desc.length⟩ :: x.2) := by
  have hhead : (dev.advance desc).rxDescHead = dev.rxDescHead := rfl
  simp only [drainLoop, hdesc, hdata, if_neg hstatus, hhead, ite_self]
  by_cases heq : (dev.advance desc).rxIndex = dev.rxDescHead.toUInt64
  · rw [if_pos heq, if_pos ⟨heq, heq.symm⟩]
  · rw [if_neg heq, if_neg fun h => heq h.1]

/-! ## The loop -/

theorem Completed.index_eq_head_iff (h : Completed dev n) :
    dev.rxIndex = dev.rxDescHead.toUInt64 ↔ n % E1000_QUEUE_LENGTH = 0 := by
  have hindex := h.sized.index
  rw [← UInt64.toNat_inj, UInt32.toNat_toUInt64, h.head]
  unfold E1000_QUEUE_LENGTH at *
  omega

theorem Completed.drained_zero (h : Completed dev 0) : Drained 0 dev dev [] where
  frames := by simp [framesOf]
  descs := by
    refine List.ext_getElem? fun i => ?_
    simp [clearFrom]
  index := h.index_eq_head_iff.mpr (Nat.zero_mod _)

theorem Drained.cons (h : Completed dev (n + 1)) (hn : n < E1000_QUEUE_LENGTH)
    (hdesc : dev.rxDescQueue[dev.rxIndex.toNat]? = some desc) {frame : Frame}
    (hframes : framesOf dev (n + 1) = frame :: framesOf (dev.advance desc) n)
    (hrest : Drained n (dev.advance desc) dev' frames) :
    Drained (n + 1) dev dev' (frame :: frames) where
  frames := by rw [hframes, hrest.frames]
  descs := by
    rw [hrest.descs, advance_index h.sized.index]
    exact clearFrom_succ h.sized.descs h.sized.index hn hdesc
  index := hrest.index

/-- **The drain.** The loop over at least one completed descriptor, and at most 63. -/
theorem drainLoop_drained (h : Completed dev (n + 1)) (hn : n + 1 < E1000_QUEUE_LENGTH)
    (hfuel : n < fuel) :
    ∃ dev' frames, drainLoop fuel dev.rxDescHead dev = some (dev', frames) ∧
      Drained (n + 1) dev dev' frames := by
  induction n generalizing dev fuel with
  | zero =>
      obtain ⟨fuel, rfl⟩ := Nat.exists_eq_succ_of_ne_zero (Nat.ne_of_gt hfuel)
      obtain ⟨desc, addrOfData, hdesc, hdata, hstatus, hnext, hframes⟩ := h.next hn
      have hend : (dev.advance desc).rxIndex = dev.rxDescHead.toUInt64 :=
        hnext.index_eq_head_iff.mpr (Nat.zero_mod _)
      refine ⟨dev.advance desc, _, ?_, .cons h (by decide) hdesc hframes hnext.drained_zero⟩
      rw [drainLoop_turn hdesc hdata hstatus, if_pos hend]
  | succ n ih =>
      obtain ⟨fuel, rfl⟩ := Nat.exists_eq_succ_of_ne_zero (Nat.ne_of_gt (Nat.zero_lt_of_lt hfuel))
      obtain ⟨desc, addrOfData, hdesc, hdata, hstatus, hnext, hframes⟩ := h.next hn
      have hlt : n + 1 < E1000_QUEUE_LENGTH := Nat.lt_of_succ_lt hn
      have hmore : (dev.advance desc).rxIndex ≠ dev.rxDescHead.toUInt64 := by
        intro heq
        have hzero := hnext.index_eq_head_iff.mp heq
        rw [Nat.mod_eq_of_lt hlt] at hzero
        exact Nat.succ_ne_zero n hzero
      obtain ⟨dev', frames, hloop, hrest⟩ :=
        ih hnext.writeTail hlt (Nat.lt_of_succ_lt_succ hfuel)
      have hrest' : Drained (n + 1) (dev.advance desc) dev' frames :=
        ⟨hrest.frames, hrest.descs, hrest.index⟩
      refine ⟨dev', _, ?_, .cons h hlt hdesc hframes hrest'⟩
      have hhead : (dev.advance desc).writeTail.rxDescHead = dev.rxDescHead := rfl
      rw [hhead] at hloop
      rw [drainLoop_turn hdesc hdata hstatus, if_neg hmore, hloop]
      rfl

/-! ## Termination -/

/-- The number of descriptors with a status that is set. -/
def RxDevice.waiting (dev : RxDevice) : Nat :=
  dev.rxDescQueue.countP fun desc => desc.status &&& 0x01 != 0

theorem waiting_advance (hdesc : dev.rxDescQueue[dev.rxIndex.toNat]? = some desc)
    (hstatus : desc.status &&& 0x01 ≠ 0) :
    (dev.advance desc).waiting + 1 = dev.waiting := by
  obtain ⟨hin, heq⟩ := List.getElem?_eq_some_iff.mp hdesc
  have hset : (desc.status &&& 0x01 != 0) = true := bne_iff_ne.mpr hstatus
  have hpos : 0 < dev.waiting :=
    List.countP_pos_iff.mpr ⟨desc, List.mem_of_getElem? hdesc, hset⟩
  have hcount : (dev.advance desc).waiting = dev.waiting - 1 + 0 := by
    simp only [RxDevice.waiting, RxDevice.advance]
    rw [List.countP_set hin, heq, if_pos hset,
      if_neg (show ¬((0 : UInt8) &&& 0x01 != 0) = true by decide)]
  omega

/-- The loop ends whatever the descriptors say: a turn clears a status that was set. -/
theorem drainLoop_total (h : dev.Sized) (head : UInt32) (hfuel : dev.waiting < fuel) :
    ∃ dev' frames, drainLoop fuel head dev = some (dev', frames) ∧ dev'.Sized := by
  induction fuel generalizing dev head with
  | zero => exact absurd hfuel (Nat.not_lt_zero _)
  | succ fuel ih =>
      obtain ⟨desc, hdesc⟩ : ∃ desc, dev.rxDescQueue[dev.rxIndex.toNat]? = some desc :=
        ⟨_, List.getElem?_eq_getElem (h.descs.symm ▸ h.index)⟩
      obtain ⟨addrOfData, hdata⟩ : ∃ a, dev.rxData[dev.rxIndex.toNat]? = some a :=
        ⟨_, List.getElem?_eq_getElem (h.data.symm ▸ h.index)⟩
      have hsized := advance_sized h desc
      simp only [drainLoop, hdesc, hdata]
      by_cases hstatus : desc.status &&& 0x01 = 0
      · exact ⟨dev, [], if_pos hstatus, h⟩
      · have hcount := waiting_advance hdesc hstatus
        have hsized' : (dev.advance desc).writeTail.Sized :=
          ⟨hsized.descs, hsized.data, hsized.index⟩
        have hless : (dev.advance desc).waiting < fuel := by omega
        rw [if_neg hstatus]
        generalize (if (dev.advance desc).rxIndex = head.toUInt64 then
          (dev.advance desc).rxDescHead else head) = head'
        split
        · exact ⟨_, _, rfl, hsized⟩
        · obtain ⟨dev', frames, hloop, hend⟩ := ih hsized' head' hless
          rw [hloop]
          exact ⟨dev', _, rfl, hend⟩

/-! ## The handler -/

theorem e1000InterruptHandler_total (h : dev.Sized) (icr : UInt32) :
    ∃ dev' frames, e1000InterruptHandler icr dev = some (dev', frames) ∧ dev'.Sized := by
  have hfuel : dev.waiting < E1000_QUEUE_LENGTH + 1 := by
    rw [← h.descs]
    exact Nat.lt_succ_of_le List.countP_le_length
  unfold e1000InterruptHandler
  dsimp only
  split
  · split
    · exact drainLoop_total h _ hfuel
    · exact ⟨dev, [], rfl, h⟩
  · exact ⟨dev, [], rfl, h⟩

/-- A handler that leaves the device as it is has only drained nothing. -/
theorem Drained.eq_zero (h : Completed dev n) (hdrained : Drained n dev dev' []) : n = 0 := by
  have hlen : (framesOf dev n).length = n := by
    rw [framesOf, List.length_zipWith, Ring.items_length (h.sized.data.symm ▸ h.count),
      Ring.items_length (h.sized.descs.symm ▸ h.count), Nat.min_self]
  rw [← hdrained.frames] at hlen
  exact hlen.symm

/-- With another cause, and at its own head, the handler does nothing. -/
theorem e1000InterruptHandler_skip (h : Completed dev n) {icr : UInt32}
    (hskip : icr &&& ~~~0x03 = 0x80 → n % E1000_QUEUE_LENGTH = 0) :
    e1000InterruptHandler icr dev = some (dev, []) := by
  unfold e1000InterruptHandler
  dsimp only
  by_cases hicr : icr &&& ~~~0x03 = 0x80
  · have hhead := h.index_eq_head_iff.mpr (hskip hicr)
    rw [if_pos hicr, if_neg (not_not.mpr hhead.symm)]
  · rw [if_neg hicr]

/-- **The receive interrupt.** The handler drains the completed descriptors
exactly if there are none, or if the cause has no bit besides those of
receiving and sending, and not all of the ring is completed. With all of it
completed head and index are equal, which is what an empty ring looks like. -/
theorem interrupt_drains_iff (h : Completed dev n) (icr : UInt32) :
    Drains icr n dev ↔ n = 0 ∨ icr &&& ~~~0x03 = 0x80 ∧ n < E1000_QUEUE_LENGTH := by
  constructor
  · rintro ⟨dev', frames, hrun, hdrained⟩
    by_contra hnot
    have hall : icr &&& ~~~0x03 = 0x80 → n = E1000_QUEUE_LENGTH := fun hicr =>
      Nat.le_antisymm h.count (not_lt.mp fun hlt => hnot (Or.inr ⟨hicr, hlt⟩))
    have hskip := e1000InterruptHandler_skip h fun hicr => (hall hicr).symm ▸ rfl
    rw [hskip] at hrun
    cases hrun
    exact hnot (Or.inl (hdrained.eq_zero h))
  · intro hwhen
    cases n with
    | zero => exact ⟨dev, [], e1000InterruptHandler_skip h fun _ => rfl, h.drained_zero⟩
    | succ n =>
        obtain ⟨hicr, hn⟩ := hwhen.resolve_left (Nat.succ_ne_zero n)
        have hmore : dev.rxDescHead.toUInt64 ≠ dev.rxIndex := by
          intro heq
          have hzero := h.index_eq_head_iff.mp heq.symm
          rw [Nat.mod_eq_of_lt hn] at hzero
          exact Nat.succ_ne_zero n hzero
        obtain ⟨dev', frames, hloop, hdrained⟩ :=
          drainLoop_drained h hn (Nat.lt_succ_of_lt (Nat.lt_of_succ_lt hn))
        refine ⟨dev', frames, ?_, hdrained⟩
        unfold e1000InterruptHandler
        dsimp only
        rw [if_pos hicr, if_pos hmore, hloop]

/-- Two completed descriptors, the last one of the array and the first one. -/
def twoWaiting : RxDevice :=
  let free : RxDesc := ⟨0, 0, 0, 0, 0, 0⟩
  ⟨((List.replicate 64 free).set 63 { free with length := 60, status := 3 }).set 0
    { free with length := 1514, status := 3 }, List.replicate 64 0x4000, 63, 1, 62⟩

theorem twoWaiting_completed : Completed twoWaiting 2 :=
  ⟨⟨by decide, by decide, by decide⟩, by decide, by decide, by decide +kernel⟩

theorem interrupt_drains_iff_two : Drains 0x83 2 twoWaiting :=
  (interrupt_drains_iff twoWaiting_completed 0x83).mpr (Or.inr ⟨by decide, by decide⟩)

/-- The cause 0x90: a frame is received and few descriptors are left. -/
theorem cause_not_handled :
    (0x90 : UInt32) &&& 0x80 ≠ 0 ∧ Completed twoWaiting 2 ∧
      e1000InterruptHandler 0x90 twoWaiting = some (twoWaiting, []) ∧
      ¬ Drains 0x90 2 twoWaiting := by
  refine ⟨by decide, twoWaiting_completed, rfl, ?_⟩
  intro h
  exact absurd ((interrupt_drains_iff twoWaiting_completed 0x90).mp h) (by decide)

end VersionSix.E1000
