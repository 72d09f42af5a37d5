import VersionSix.Bytes
import VersionSix.Run

/-!
# Sending with the e1000

`e1000_send_phase2` over the transmit ring: 64 descriptors, and a buffer of a
page for each. `none` is an access outside of the two arrays or of a page.
`tx_index` only ever grows, so the ring is gone round once, less one: the call
that should bring the tail back to 0 writes 64, and the next one leaves the
arrays (`transmit_ring_iff`).

`RingLaw` says what a ring is for, over the calls of a run: the call `k` fills
the entry `k mod 64`, and the tail points behind it. For 63 calls the index and
its remainder are the same; the 64th is the counterexample, and a longer run
contains it.
-/

namespace VersionSix.E1000

open ByteStore

def E1000_QUEUE_LENGTH : Nat := 64

/-- The page that `e1000_tx_init` gets for a buffer. -/
def bufferSize : UInt64 := 4096

def CMD_EOP : UInt8 := 1
def CMD_IFCS : UInt8 := 2
def CMD_RS : UInt8 := 8

/-! ## Functions -/

structure TxDesc where
  address : UInt64
  length : UInt16
  cso : UInt8
  cmd : UInt8
  status : UInt8
  css : UInt8
  special : UInt16

/-- The transmit side of an `e1000_device`, with what its tail register says. -/
structure TxDevice where
  txDescQueue : List TxDesc
  txData : List Bytes
  txIndex : UInt64
  txDescTail : UInt32

/-- A frame that is to be sent, and its length. -/
structure SendCall where
  data : Bytes
  length : UInt64

/-- The loop of `e1000_tx_init`; `physical` is where the buffers are. -/
def e1000TxInit (physical : Nat → UInt64) (dev : TxDevice) : TxDevice :=
  { dev with
    txDescQueue := dev.txDescQueue.mapIdx fun i d => { d with address := physical i }
    txIndex := 0
    txDescTail := 0 }

def TxDesc.fill (d : TxDesc) (length : UInt64) : TxDesc :=
  { d with length := length.toUInt16, cmd := CMD_EOP ||| CMD_IFCS ||| CMD_RS, status := 0 }

def e1000SendPhase2 (dev : TxDevice) (c : SendCall) : Option TxDevice :=
  let index := dev.txIndex.toNat
  if index < dev.txData.length ∧ index < dev.txDescQueue.length ∧ c.length ≤ bufferSize then
    some
      { txData := dev.txData.modify index fun b => write b 0 c.length.toNat c.data
        txDescQueue := dev.txDescQueue.modify index fun d => d.fill c.length
        txIndex := dev.txIndex + 1
        txDescTail := (dev.txIndex + 1).toUInt32 }
  else none

/-! ## Statement -/

/-- The arrays have their 64 entries. -/
structure TxDevice.Sized (dev : TxDevice) : Prop where
  descs : dev.txDescQueue.length = E1000_QUEUE_LENGTH
  data : dev.txData.length = E1000_QUEUE_LENGTH

/-- A call fills one entry and writes the tail; the others stay as they are. -/
structure Fills (slot : Nat) (tail : UInt32) (c : SendCall) (dev dev' : TxDevice) : Prop where
  desc : dev'.txDescQueue = dev.txDescQueue.modify slot fun d => d.fill c.length
  buffer : dev'.txData = dev.txData.modify slot fun b => write b 0 c.length.toNat c.data
  tail : dev'.txDescTail = tail

/-- The call `k` of the run fills the entry `k mod 64` and sets the tail to
the one behind it. -/
def RingLaw (dev : TxDevice) (calls : List SendCall) : Prop :=
  ∀ k c, calls[k]? = some c → ∃ dev₁ dev₂,
    Run.exec e1000SendPhase2 dev (calls.take k) = some dev₁ ∧ e1000SendPhase2 dev₁ c = some dev₂ ∧
      Fills (k % E1000_QUEUE_LENGTH) (UInt32.ofNat ((k + 1) % E1000_QUEUE_LENGTH)) c dev₁ dev₂

/-! ## Calls -/

variable {dev dev' : TxDevice} {c : SendCall} {calls : List SendCall}

theorem toNat_next {index : UInt64} (h : index.toNat < E1000_QUEUE_LENGTH) :
    (index + 1).toNat = index.toNat + 1 := by
  unfold E1000_QUEUE_LENGTH at h
  rw [UInt64.toNat_add]
  exact Nat.mod_eq_of_lt (show index.toNat + 1 < 2 ^ 64 by omega)

theorem e1000TxInit_sized (h : dev.Sized) (physical : Nat → UInt64) :
    (e1000TxInit physical dev).Sized :=
  ⟨List.length_mapIdx.trans h.descs, h.data⟩

theorem send_inside (h : dev.Sized) (hindex : dev.txIndex.toNat < E1000_QUEUE_LENGTH)
    (hc : c.length ≤ bufferSize) :
    ∃ dev', e1000SendPhase2 dev c = some dev' ∧ dev'.Sized ∧ dev'.txIndex = dev.txIndex + 1 ∧
      Fills dev.txIndex.toNat (dev.txIndex + 1).toUInt32 c dev dev' := by
  have hbounds : dev.txIndex.toNat < dev.txData.length ∧
      dev.txIndex.toNat < dev.txDescQueue.length ∧ c.length ≤ bufferSize := by
    rw [h.data, h.descs]
    exact ⟨hindex, hindex, hc⟩
  refine ⟨_, if_pos hbounds, ⟨?_, ?_⟩, rfl, rfl, rfl, rfl⟩
  · rw [List.length_modify, h.descs]
  · rw [List.length_modify, h.data]

theorem exec_index {n : Nat} (h : dev.Sized) (hindex : dev.txIndex.toNat = n)
    (hlengths : ∀ c ∈ calls, c.length ≤ bufferSize)
    (hcalls : n + calls.length ≤ E1000_QUEUE_LENGTH) :
    ∃ dev', Run.exec e1000SendPhase2 dev calls = some dev' ∧ dev'.Sized ∧
      dev'.txIndex.toNat = n + calls.length := by
  induction calls generalizing dev n with
  | nil => exact ⟨dev, rfl, h, hindex⟩
  | cons c calls ih =>
      rw [List.length_cons] at hcalls
      unfold E1000_QUEUE_LENGTH at hcalls
      have hin : dev.txIndex.toNat < E1000_QUEUE_LENGTH := show dev.txIndex.toNat < 64 by omega
      obtain ⟨dev₁, hstep, hsized, hnext, -⟩ :=
        send_inside h hin (hlengths c (List.mem_cons_self ..))
      have hcount : dev₁.txIndex.toNat = n + 1 := by
        rw [hnext, toNat_next hin, hindex]
      have hroom : n + 1 + calls.length ≤ E1000_QUEUE_LENGTH := by
        unfold E1000_QUEUE_LENGTH
        omega
      obtain ⟨dev₂, hexec, hsized₂, hindex₂⟩ :=
        ih hsized hcount (fun c hc => hlengths c (List.mem_cons_of_mem _ hc)) hroom
      refine ⟨dev₂, ?_, hsized₂, ?_⟩
      · rw [Run.exec, hstep, Option.bind_some, hexec]
      · rw [hindex₂, List.length_cons]
        omega

/-- The call `k` of a run from the start, for `k` below 64. -/
theorem exec_call (h : dev.Sized) (hindex : dev.txIndex = 0)
    (hlengths : ∀ c ∈ calls, c.length ≤ bufferSize) {k : Nat} (hk : k < 64)
    (hc : calls[k]? = some c) :
    ∃ dev₁ dev₂, Run.exec e1000SendPhase2 dev (calls.take k) = some dev₁ ∧
      e1000SendPhase2 dev₁ c = some dev₂ ∧ Fills k (UInt32.ofNat (k + 1)) c dev₁ dev₂ := by
  have hlen : (calls.take k).length = k :=
    List.length_take_of_le (Nat.le_of_lt (List.getElem?_eq_some_iff.mp hc).1)
  have hzero : dev.txIndex.toNat = 0 := by
    rw [hindex]
    rfl
  have hroom : 0 + (calls.take k).length ≤ E1000_QUEUE_LENGTH := by
    rw [hlen, Nat.zero_add]
    exact Nat.le_of_lt hk
  obtain ⟨dev₁, hexec, hsized, hcount⟩ :=
    exec_index h hzero (fun c hc => hlengths c (List.mem_of_mem_take hc)) hroom
  rw [hlen, Nat.zero_add] at hcount
  have hin : dev₁.txIndex.toNat < E1000_QUEUE_LENGTH := hcount.symm ▸ hk
  obtain ⟨dev₂, hstep, -, -, hfills⟩ :=
    send_inside hsized hin (hlengths c (List.mem_of_getElem? hc))
  have htail : (dev₁.txIndex + 1).toUInt32 = UInt32.ofNat (k + 1) := by
    refine UInt32.toNat_inj.mp ?_
    rw [UInt64.toNat_toUInt32, toNat_next hin, hcount, UInt32.toNat_ofNat']
  rw [hcount, htail] at hfills
  exact ⟨dev₁, dev₂, hexec, hstep, hfills⟩

/-- **The transmit ring.** A run behaves like one on a ring exactly if it has
63 calls at most. The index is not taken modulo the size of the ring, so the
64th call writes a tail that is no descriptor, and a call after it is behind
the arrays; what is sent makes no difference. -/
theorem transmit_ring_iff (h : dev.Sized) (hindex : dev.txIndex = 0)
    (hlengths : ∀ c ∈ calls, c.length ≤ bufferSize) :
    RingLaw dev calls ↔ calls.length ≤ 63 := by
  constructor
  · -- the call 63 is the last one inside the arrays, and its tail is wrong
    intro hlaw
    by_contra hlong
    obtain ⟨c, hget⟩ : ∃ c, calls[63]? = some c := ⟨_, List.getElem?_eq_getElem (by omega)⟩
    obtain ⟨dev₁, dev₂, hexec, hstep, hfills⟩ := exec_call h hindex hlengths (by decide) hget
    obtain ⟨dev₁', dev₂', hexec', hstep', hfills'⟩ := hlaw 63 _ hget
    obtain rfl := Option.some.inj (hexec.symm.trans hexec')
    obtain rfl := Option.some.inj (hstep.symm.trans hstep')
    have htail := hfills.tail.symm.trans hfills'.tail
    exact absurd htail (by decide)
  · intro hlen k c hc
    have hk : k < calls.length := (List.getElem?_eq_some_iff.mp hc).1
    have hslot : k % E1000_QUEUE_LENGTH = k := Nat.mod_eq_of_lt (show k < 64 by omega)
    have hnext : (k + 1) % E1000_QUEUE_LENGTH = k + 1 :=
      Nat.mod_eq_of_lt (show k + 1 < 64 by omega)
    rw [hslot, hnext]
    exact exec_call h hindex hlengths (by omega) hc

/-- The device after `e1000_tx_init`, with everything else 0. -/
def freshTx : TxDevice :=
  e1000TxInit (fun _ => 0)
    ⟨List.replicate 64 ⟨0, 0, 0, 0, 0, 0, 0⟩, List.replicate 64 fun _ => 0, 7, 7⟩

theorem freshTx_sized : freshTx.Sized :=
  e1000TxInit_sized ⟨List.length_replicate, List.length_replicate⟩ _

theorem transmit_ring_iff_two : RingLaw freshTx [⟨fun _ => 1, 60⟩, ⟨fun _ => 2, 4096⟩] :=
  (transmit_ring_iff freshTx_sized rfl (by decide)).mpr (by decide)

def sixtyFive : List SendCall := List.replicate 65 ⟨fun _ => 1, 60⟩

/-- The frame 63 writes 64 to the tail, and the one after it leaves the arrays. -/
theorem ring_not_wrapped :
    (Run.exec e1000SendPhase2 freshTx (sixtyFive.take 64)).map TxDevice.txDescTail = some 64 ∧
      (Run.exec e1000SendPhase2 freshTx sixtyFive).isNone ∧
      ¬ RingLaw freshTx (sixtyFive.take 64) ∧ ¬ RingLaw freshTx sixtyFive := by
  have hend : (Run.exec e1000SendPhase2 freshTx (sixtyFive.take 64)).map TxDevice.txDescTail =
      some 64 := by decide +kernel
  have hover : (Run.exec e1000SendPhase2 freshTx sixtyFive).isNone := by decide +kernel
  have hlaw (calls : List SendCall) (hlengths : ∀ c ∈ calls, c.length ≤ bufferSize)
      (hlong : 63 < calls.length) : ¬ RingLaw freshTx calls := by
    intro h
    exact absurd ((transmit_ring_iff freshTx_sized rfl hlengths).mp h) (Nat.not_le.mpr hlong)
  have hlengths : ∀ c ∈ sixtyFive, c.length ≤ bufferSize := by
    intro c hc
    rw [List.eq_of_mem_replicate hc]
    decide
  refine ⟨hend, hover, hlaw _ ?_ (by decide), hlaw _ hlengths (by decide)⟩
  intro c hc
  exact hlengths c (List.mem_of_mem_take hc)

end VersionSix.E1000
