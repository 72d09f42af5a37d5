import VersionSix.NetSend

/-!
# The payload of a segment

Which bytes of a frame `tcp_connection_handle_recv` takes for data, and which
ones are. The receive path knows one length, the frame's, and takes every
header for one of the minimal size; the IPv4 header length, the total length
and the data offset are never read. It also takes a segment with the flags ACK,
or SYN and ACK, for one without data.

Both sides are ranges of positions in the frame. So that the code is right
without a payload as well, the condition has two cases (`PlainSegment`):
without one, there are no bytes behind the minimal headers, or the flags hide
them; with one, both headers are minimal, nothing follows the packet, and the
flags are others.
-/

namespace VersionSix.Net

open ByteStore

/-! ## Statement -/

/-- The positions of the bytes that are copied as data. -/
def treatedAsData : List Access → List Nat
  | .read off n :: .copy _ :: as => List.range' off n ++ treatedAsData as
  | _ :: as => treatedAsData as
  | [] => []

def ipv4HeaderLength (frame : Bytes) : Nat := 4 * ((frame 14).toNat % 16)

def ipv4TotalLength (frame : Bytes) : Nat := (htons (field16 frame 16)).toNat

def tcpHeaderLength (frame : Bytes) : Nat :=
  4 * ((frame (14 + ipv4HeaderLength frame + 12)).toNat / 16)

/-- A frame of `L` bytes around an unfragmented TCP segment, with padding
behind it or not. -/
structure TcpFrame (frame : Bytes) (L : UInt16) : Prop where
  ether : etherType frame = ETHERNET_TYPE_IPV4
  version : (frame 14).toNat / 16 = 4
  ipv4Header : 20 ≤ ipv4HeaderLength frame
  tcp : protocol frame 14 = IPV4_PROTOCOL_TCP
  unfragmented : (htons (field16 frame 20)).toNat % 2 ^ 14 = 0
  tcpHeader : 20 ≤ tcpHeaderLength frame
  total : ipv4HeaderLength frame + tcpHeaderLength frame ≤ ipv4TotalLength frame
  inside : 14 + ipv4TotalLength frame ≤ L.toNat

def payloadLength (frame : Bytes) : Nat :=
  ipv4TotalLength frame - (ipv4HeaderLength frame + tcpHeaderLength frame)

/-- The positions of the payload, from the end of the TCP header to the end
of the packet. -/
def payloadOf (frame : Bytes) : List Nat :=
  List.range' (14 + ipv4HeaderLength frame + tcpHeaderLength frame) (payloadLength frame)

/-- Without a payload, the frame has no byte more than the minimal headers, or
its flags say that there is none; with one, both headers are minimal, nothing
follows the packet, and the flags are others. -/
def PlainSegment (frame : Bytes) (L : UInt16) : Prop :=
  if payloadLength frame = 0 then NoPayload (tcpFlags frame 34) ∨ L.toNat = 54
  else ¬ NoPayload (tcpFlags frame 34) ∧ ipv4HeaderLength frame = 20 ∧
    tcpHeaderLength frame = 20 ∧ L.toNat = 14 + ipv4TotalLength frame

instance (frame : Bytes) (L : UInt16) : Decidable (PlainSegment frame L) := by
  unfold PlainSegment
  infer_instance

/-! ## What is copied -/

variable {con : TcpConnection} {frame : Bytes} {L : UInt16}

theorem copiedBytes_eq (frame : Bytes) (as : List Access) :
    copiedBytes frame as = (treatedAsData as).map frame := by
  induction as using treatedAsData.induct with
  | case1 off n k as ih =>
      rw [copiedBytes, treatedAsData, List.map_append, ih, bytesAt, List.range'_eq_map_range,
        List.map_map]
      rfl
  | case2 a as hno ih =>
      rw [copiedBytes, treatedAsData, ih]
      · exact hno
      · exact hno
  | case3 => rfl

theorem treatedAsData_copyPayload (data : Nat) (n : UInt16) :
    treatedAsData ([.read 38 4, .read 42 4, .read 46 2] ++ copyPayload data n) =
      List.range' data n.toNat := by
  by_cases hn : n > 0
  · rw [copyPayload, if_pos hn]
    exact List.append_nil _
  · have hzero : n = 0 := UInt16.le_zero_iff.mp (UInt16.not_lt.mp hn)
    rw [copyPayload, if_neg hn, hzero]
    rfl

theorem treatedAsData_frame (h : TcpFrame frame L) (con : TcpConnection) :
    treatedAsData (ethernetProcessPacket con frame L).1 =
      List.range' 54 (if NoPayload (tcpFlags frame 34) then 0 else L.toNat - 54) := by
  have hlong : 54 ≤ L.toNat := by
    have h1 := h.ipv4Header
    have h2 := h.tcpHeader
    have h3 := h.total
    have h4 := h.inside
    omega
  have hrest : (L - 14 - 20).toNat = L.toNat - 34 := toNat_sub_headers (by omega)
  have hsegment : ∀ length n : UInt16, treatedAsData ((payloadDataLength length).1 ++
      [.read 38 4, .read 42 4, .read 46 2] ++ copyPayload 54 n) = List.range' 54 n.toNat := by
    intro length n
    rw [← treatedAsData_copyPayload, List.append_assoc]
    unfold payloadDataLength
    split <;> rfl
  rw [ethernetProcessPacket_ipv4 h.ether, ipv4ProcessPacket_tcp h.tcp]
  refine (hsegment _ _).trans ?_
  split
  · rfl
  · rw [toNat_payloadDataLength, hrest, Nat.sub_sub]

/-- **Payload.** What is treated as data is the payload exactly if the segment
is a plain one. The frame is any with an unfragmented TCP segment in it, with
padding behind the packet or not; the bytes are compared as ranges of
positions, so no contents can make up for a wrong range. -/
theorem payload_exact_iff (h : TcpFrame frame L) (con : TcpConnection) :
    treatedAsData (ethernetProcessPacket con frame L).1 = payloadOf frame ↔
      PlainSegment frame L := by
  have hip := h.ipv4Header
  have htcp := h.tcpHeader
  have htotal := h.total
  have hinside := h.inside
  rw [treatedAsData_frame h, payloadOf, List.range'_inj]
  unfold PlainSegment
  by_cases hempty : payloadLength frame = 0
  · rw [if_pos hempty, hempty]
    by_cases hno : NoPayload (tcpFlags frame 34)
    · simp [hno]
    · simp only [hno, if_false, false_or]
      omega
  · rw [if_neg hempty]
    by_cases hno : NoPayload (tcpFlags frame 34)
    · simp only [hno, if_true, not_true_eq_false, false_and, iff_false]
      omega
    · unfold payloadLength at hempty ⊢
      simp only [hno, if_false, not_false_eq_true, true_and]
      omega

/-- A segment with the given total length, data offset and flags; all else in
it is 0. -/
def segmentFrame (total offset flags : UInt8) : Bytes := fun i =>
  if i = 12 then 8 else if i = 14 then 0x45 else if i = 17 then total else if i = 23 then 6
  else if i = 46 then offset else if i = 47 then flags else 0

theorem payload_exact_iff_plain :
    treatedAsData (ethernetProcessPacket idle (segmentFrame 41 0x50 0x18) 55).1 = [54] := by
  have hframe : TcpFrame (segmentFrame 41 0x50 0x18) 55 := by constructor <;> decide
  exact (payload_exact_iff hframe idle).mpr (by decide)

/-- One byte of payload: the padding of a frame of 60 bytes is taken for data,
so are the options of a longer header, and with the flag ACK alone the byte is
not. -/
theorem not_the_payload :
    (TcpFrame (segmentFrame 41 0x50 0x18) 60 ∧ payloadOf (segmentFrame 41 0x50 0x18) = [54] ∧
      treatedAsData (ethernetProcessPacket idle (segmentFrame 41 0x50 0x18) 60).1 =
        [54, 55, 56, 57, 58, 59]) ∧
    (TcpFrame (segmentFrame 45 0x60 0x18) 59 ∧ payloadOf (segmentFrame 45 0x60 0x18) = [58] ∧
      treatedAsData (ethernetProcessPacket idle (segmentFrame 45 0x60 0x18) 59).1 =
        [54, 55, 56, 57, 58]) ∧
    (TcpFrame (segmentFrame 41 0x50 0x10) 55 ∧ payloadOf (segmentFrame 41 0x50 0x10) = [54] ∧
      treatedAsData (ethernetProcessPacket idle (segmentFrame 41 0x50 0x10) 55).1 = []) := by
  refine ⟨⟨?_, by decide, by decide⟩, ⟨?_, by decide, by decide⟩, ⟨?_, by decide, by decide⟩⟩
  all_goals constructor <;> decide

end VersionSix.Net
