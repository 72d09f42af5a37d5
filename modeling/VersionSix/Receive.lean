import VersionSix.Bytes

/-!
# The receive path

`ethernet.c`, `ipv4.c` and `tcp.c` from a received frame down to the data of
a TCP segment. The receive buffer is larger than the frame in it: `frame` is
the whole buffer, `length` what the card reports for the frame.

Every function returns the accesses it makes beside its result: the bytes
it reads, the lengths it computes, each with its exact value, and the bytes
it copies. None of the three functions compares its length with the header
it is about to read; the only comparison is made in `tcp.c`, with a length
that has wrapped by then if the frame is short. What the path does then is
decided by the length alone (`receive_inside_iff`).
-/

namespace VersionSix.Net

open ByteStore

/-! ## Accesses -/

inductive Access
  | read (off n : Nat)
  | size (exact : Int) (stored : UInt16)
  | copy (n : Nat)
  deriving DecidableEq

/-- The access is one a frame of `L` bytes allows: no byte at or beyond `L`
is read, the stored length is the exact one, and what is copied fits
`final_data`. -/
def Access.Inside (L : UInt16) : Access → Prop
  | .read off n => ∀ i < n, off + i < L.toNat
  | .size exact stored => exact = stored.toNat
  | .copy n => n ≤ 2048

def Inside (L : UInt16) (accesses : List Access) : Prop := ∀ a ∈ accesses, a.Inside L

/-! ## Fields in network order -/

def htons (s : UInt16) : UInt16 := ((s &&& 0xFF) <<< 8) ||| ((s &&& 0xFF00) >>> 8)

def htonl (l : UInt32) : UInt32 :=
  ((l &&& 0xFF) <<< 24) ||| ((l &&& 0xFF00) <<< 8) ||| ((l &&& 0xFF0000) >>> 8) |||
    ((l &&& 0xFF000000) >>> 24)

def field16 (frame : Bytes) (off : Nat) : UInt16 := UInt16.ofNat (le 2 frame off)

def field32 (frame : Bytes) (off : Nat) : UInt32 := UInt32.ofNat (le 4 frame off)

def ETHERNET_TYPE_IPV4 : UInt16 := 0x0800
def ETHERNET_TYPE_ARP : UInt16 := 0x0806
def IPV4_PROTOCOL_TCP : UInt8 := 6
def IPV4_PROTOCOL_UDP : UInt8 := 17
def TCP_FLAG_SYN : UInt16 := 2
def TCP_FLAG_ACK : UInt16 := 16
def CONNECTION_SYN_ACK_RECV : UInt8 := 2

/-- `packet->type` of a frame, as the `switch` sees it. -/
def etherType (frame : Bytes) : UInt16 := htons (field16 frame 12)

/-- `packet->protocol` of the packet at `data`. -/
def protocol (frame : Bytes) (data : Nat) : UInt8 := frame (data + 9)

/-- `flags` of the segment at `data`. -/
def tcpFlags (frame : Bytes) (data : Nat) : UInt16 := htons (field16 frame (data + 12)) &&& 0x0FFF

/-! ## Functions -/

structure TcpConnection where
  sourcePort : UInt16
  destPort : UInt16
  destIp : UInt32
  connected : Bool
  seq : UInt32
  ack : UInt32
  connectionState : UInt8

/-- What became of a frame. `arp` and `udp` are handed on to `arp.c` and
`udp.c`, with no length. -/
inductive Fate
  | dropped
  | arp
  | udp (data : Nat)
  | tcp (con : TcpConnection)

/-- The segments whose payload `handle_recv` sets to length 0. -/
def NoPayload (flags : UInt16) : Prop :=
  flags = TCP_FLAG_SYN ||| TCP_FLAG_ACK ∨ flags = TCP_FLAG_ACK

instance (flags : UInt16) : Decidable (NoPayload flags) := inferInstanceAs (Decidable (_ ∨ _))

/-- `payload_data_length` after the comparison with the header's size, and
the subtraction where it is made. -/
def payloadDataLength (length : UInt16) : List Access × UInt16 :=
  if length > 20 then ([.size (length.toNat - 20) (length - 20)], length - 20) else ([], 0)

/-- `memcpy( final_data, payload_data, payload_data_length )`, if there is
something to copy. -/
def copyPayload (payloadData : Nat) (n : UInt16) : List Access :=
  if n > 0 then [.read payloadData n.toNat, .copy n.toNat] else []

def tcpConnectionHandleRecv (con : TcpConnection) (frame : Bytes) (data : Nat) (length : UInt16) :
    List Access × TcpConnection :=
  let header := [Access.read (data + 4) 4, .read (data + 8) 4, .read (data + 12) 2]
  let con := { con with ack := htonl (field32 frame (data + 4))
                        seq := htonl (field32 frame (data + 8)) }
  let con := if tcpFlags frame data = TCP_FLAG_SYN ||| TCP_FLAG_ACK then
      { con with connectionState := CONNECTION_SYN_ACK_RECV }
    else con
  let n := if NoPayload (tcpFlags frame data) then 0 else (payloadDataLength length).2
  ((payloadDataLength length).1 ++ header ++ copyPayload (data + 20) n, con)

/-- `tcp_process_packet` hands every segment to the one connection there is. -/
def tcpProcessPacket (con : TcpConnection) (frame : Bytes) (data : Nat) (length : UInt16) :
    List Access × Fate :=
  let (accesses, con) := tcpConnectionHandleRecv con frame data length
  (accesses, .tcp con)

def ipv4ProcessPacket (con : TcpConnection) (frame : Bytes) (unprocessed : Nat) (length : UInt16) :
    List Access × Fate :=
  let read := Access.read (unprocessed + 9) 1
  let data := unprocessed + 20
  if protocol frame unprocessed = IPV4_PROTOCOL_TCP then
    let (accesses, fate) := tcpProcessPacket con frame data (length - 20)
    ([read, .size (length.toNat - 20) (length - 20)] ++ accesses, fate)
  else if protocol frame unprocessed = IPV4_PROTOCOL_UDP then ([read], .udp data)
  else ([read], .dropped)

def ethernetProcessPacket (con : TcpConnection) (frame : Bytes) (length : UInt16) :
    List Access × Fate :=
  let start := [Access.size (length.toNat - 14) (length - 14), .read 12 2]
  if etherType frame = ETHERNET_TYPE_ARP then (start, .arp)
  else if etherType frame = ETHERNET_TYPE_IPV4 then
    let (accesses, fate) := ipv4ProcessPacket con frame 14 (length - 14)
    (start ++ accesses, fate)
  else (start, .dropped)

/-! ## Statement -/

/-- The frame ends before the fixed Ethernet header, or before the fixed IPv4 or TCP header
where its type and its protocol say that there is one. -/
def TooShort (frame : Bytes) (L : UInt16) : Prop :=
  L.toNat < 14 ∨ etherType frame = ETHERNET_TYPE_IPV4 ∧
    (L.toNat < 34 ∨ protocol frame 14 = IPV4_PROTOCOL_TCP ∧ L.toNat < 54)

/-- All accesses lie inside the frame, and a frame too short for its headers
is dropped. -/
def StaysInside (con : TcpConnection) (frame : Bytes) (L : UInt16) : Prop :=
  Inside L (ethernetProcessPacket con frame L).1 ∧
    (TooShort frame L → (ethernetProcessPacket con frame L).2 = .dropped)

/-! ## Accesses of one layer -/

theorem inside_append {L : UInt16} {as bs : List Access} :
    Inside L (as ++ bs) ↔ Inside L as ∧ Inside L bs := by
  simp only [Inside, List.mem_append, or_imp, forall_and]

theorem inside_cons {L : UInt16} {a : Access} {as : List Access} :
    Inside L (a :: as) ↔ a.Inside L ∧ Inside L as := by
  simp only [Inside, List.mem_cons, forall_eq_or_imp]

@[simp] theorem inside_nil {L : UInt16} : Inside L [] := by simp [Inside]

theorem inside_read_iff {L : UInt16} {off n : Nat} (hn : 0 < n) :
    (Access.read off n).Inside L ↔ off + n ≤ L.toNat := by
  constructor
  · intro h
    have hlast := h (n - 1) (by omega)
    omega
  · intro h i hi
    omega

/-- A header size is taken from a length without wrapping exactly if the
length is at least that size. -/
theorem inside_size_iff {L length k : UInt16} :
    (Access.size (length.toNat - k.toNat) (length - k)).Inside L ↔ k ≤ length := by
  have hk : k.toNat < 2 ^ 16 := k.toNat_lt
  have hl : length.toNat < 2 ^ 16 := length.toNat_lt
  rw [UInt16.le_iff_toNat_le, Access.Inside, UInt16.toNat_sub]
  omega

theorem inside_copyPayload_iff {L n : UInt16} {data : Nat} (h : data + n.toNat ≤ L.toNat) :
    Inside L (copyPayload data n) ↔ n.toNat ≤ 2048 := by
  by_cases hn : n > 0
  · have hpos : 0 < n.toNat := UInt16.lt_iff_toNat_lt.mp hn
    simp only [copyPayload, if_pos hn, inside_cons, inside_nil, inside_read_iff hpos, and_true]
    exact and_iff_right h
  · have hzero : n.toNat = 0 := Nat.eq_zero_of_not_pos fun h0 => hn (UInt16.lt_iff_toNat_lt.mpr h0)
    simp [copyPayload, if_neg hn, hzero]

/-- The length left for the payload is never a wrapped one: this subtraction
is behind the comparison. -/
theorem inside_payloadDataLength (L length : UInt16) : Inside L (payloadDataLength length).1 := by
  unfold payloadDataLength
  split
  · next h =>
    simpa [inside_cons] using inside_size_iff.mpr (UInt16.le_of_lt h)
  · exact inside_nil

theorem toNat_payloadDataLength (length : UInt16) :
    (payloadDataLength length).2.toNat = length.toNat - 20 := by
  unfold payloadDataLength
  split
  · next h => exact UInt16.toNat_sub_of_le _ _ (UInt16.le_of_lt h)
  · next h =>
    have hle : length.toNat ≤ 20 := UInt16.le_iff_toNat_le.mp (UInt16.not_lt.mp h)
    rw [Nat.sub_eq_zero_of_le hle]
    rfl

/-! ## Layers

Each layer is given a length that ends where the frame ends; what the layer
above passes on is such a length as long as nothing wrapped. -/

/-- With the header inside the frame only the copy can go wrong. -/
theorem inside_handleRecv_iff {con : TcpConnection} {frame : Bytes} {data : Nat}
    {length L : UInt16} (hL : data + length.toNat = L.toNat) (hlen : 20 ≤ length.toNat) :
    Inside L (tcpConnectionHandleRecv con frame data length).1 ↔
      (¬ NoPayload (tcpFlags frame data) → L.toNat ≤ data + 2068) := by
  have hheader : Inside L [Access.read (data + 4) 4, .read (data + 8) 4, .read (data + 12) 2] := by
    simp only [inside_cons, inside_nil, inside_read_iff (Nat.succ_pos _), and_true]
    omega
  rw [tcpConnectionHandleRecv, inside_append, inside_append]
  simp only [inside_payloadDataLength, hheader, true_and]
  by_cases hno : NoPayload (tcpFlags frame data)
  · simp [hno, inside_copyPayload_iff (n := 0) (show data + 20 + 0 ≤ L.toNat by omega)]
  · have hn := toNat_payloadDataLength length
    rw [if_neg hno, inside_copyPayload_iff (by omega), hn]
    simp only [hno, not_false_eq_true, forall_const]
    omega

theorem ipv4ProcessPacket_tcp {con : TcpConnection} {frame : Bytes} {data : Nat} {length : UInt16}
    (h : protocol frame data = IPV4_PROTOCOL_TCP) :
    ipv4ProcessPacket con frame data length =
      ([.read (data + 9) 1, .size (length.toNat - 20) (length - 20)] ++
        (tcpConnectionHandleRecv con frame (data + 20) (length - 20)).1,
       .tcp (tcpConnectionHandleRecv con frame (data + 20) (length - 20)).2) := by
  rw [ipv4ProcessPacket, if_pos h]
  rfl

theorem inside_ipv4_tcp_iff {con : TcpConnection} {frame : Bytes} {data : Nat}
    {length L : UInt16} (hL : data + length.toNat = L.toNat)
    (htcp : protocol frame data = IPV4_PROTOCOL_TCP) (hlong : data + 40 ≤ L.toNat) :
    Inside L (ipv4ProcessPacket con frame data length).1 ↔
      (¬ NoPayload (tcpFlags frame (data + 20)) → L.toNat ≤ data + 2088) := by
  have hle : (20 : UInt16) ≤ length :=
    UInt16.le_iff_toNat_le.mpr (show 20 ≤ length.toNat by omega)
  have hsub : (length - 20).toNat = length.toNat - 20 := UInt16.toNat_sub_of_le _ _ hle
  have hread : (Access.read (data + 9) 1).Inside L := (inside_read_iff Nat.one_pos).mpr (by omega)
  have hsize : (Access.size (length.toNat - 20) (length - 20)).Inside L := inside_size_iff.mpr hle
  rw [ipv4ProcessPacket_tcp htcp, inside_append, inside_cons, inside_cons,
    inside_handleRecv_iff (by omega) (by omega)]
  simp only [hread, hsize, inside_nil, and_self, true_and, Nat.add_assoc, Nat.reduceAdd]

/-- A TCP packet is never dropped, so it has to hold both headers; a UDP
packet has to hold the first. -/
theorem inside_ipv4_iff (con : TcpConnection) (frame : Bytes) {data : Nat} {length L : UInt16}
    (hL : data + length.toNat = L.toNat) :
    (Inside L (ipv4ProcessPacket con frame data length).1 ∧
      (L.toNat < data + 20 ∨ protocol frame data = IPV4_PROTOCOL_TCP ∧ L.toNat < data + 40 →
        (ipv4ProcessPacket con frame data length).2 = .dropped)) ↔
      data + 10 ≤ L.toNat ∧
      (protocol frame data = IPV4_PROTOCOL_UDP → data + 20 ≤ L.toNat) ∧
      (protocol frame data = IPV4_PROTOCOL_TCP → data + 40 ≤ L.toNat ∧
        (¬ NoPayload (tcpFlags frame (data + 20)) → L.toNat ≤ data + 2088)) := by
  have hread : (Access.read (data + 9) 1).Inside L ↔ data + 10 ≤ L.toNat :=
    inside_read_iff Nat.one_pos
  by_cases htcp : protocol frame data = IPV4_PROTOCOL_TCP
  · have hudp : ¬ protocol frame data = IPV4_PROTOCOL_UDP := by rw [htcp]; decide
    have hfate : (ipv4ProcessPacket con frame data length).2 ≠ .dropped := by
      rw [ipv4ProcessPacket_tcp htcp]
      exact Fate.noConfusion
    constructor
    · rintro ⟨hin, hshort⟩
      have hlong : data + 40 ≤ L.toNat := Nat.not_lt.mp fun h => hfate (hshort (.inr ⟨htcp, h⟩))
      exact ⟨by omega, fun h => absurd h hudp,
        fun _ => ⟨hlong, (inside_ipv4_tcp_iff hL htcp hlong).mp hin⟩⟩
    · rintro ⟨-, -, hfits⟩
      obtain ⟨hlong, hcopy⟩ := hfits htcp
      exact ⟨(inside_ipv4_tcp_iff hL htcp hlong).mpr hcopy, fun h => by omega⟩
  · by_cases hudp : protocol frame data = IPV4_PROTOCOL_UDP
    · rw [ipv4ProcessPacket, if_neg htcp, if_pos hudp]
      rw [hudp] at htcp ⊢
      simp only [htcp, inside_cons, inside_nil, hread, false_and, or_false, and_true,
        true_implies, reduceCtorEq, imp_false, Nat.not_lt, false_implies]
    · rw [ipv4ProcessPacket, if_neg htcp, if_neg hudp]
      simp only [htcp, hudp, inside_cons, inside_nil, hread, and_true, implies_true, false_implies]

theorem ethernetProcessPacket_ipv4 {con : TcpConnection} {frame : Bytes} {L : UInt16}
    (h : etherType frame = ETHERNET_TYPE_IPV4) :
    ethernetProcessPacket con frame L =
      ([.size (L.toNat - 14) (L - 14), .read 12 2] ++
        (ipv4ProcessPacket con frame 14 (L - 14)).1,
       (ipv4ProcessPacket con frame 14 (L - 14)).2) := by
  have harp : ¬ etherType frame = ETHERNET_TYPE_ARP := by rw [h]; decide
  rw [ethernetProcessPacket, if_neg harp, if_pos h]

theorem ethernetProcessPacket_other {con : TcpConnection} {frame : Bytes} {L : UInt16}
    (h : ¬ etherType frame = ETHERNET_TYPE_IPV4) :
    (ethernetProcessPacket con frame L).1 = [.size (L.toNat - 14) (L - 14), .read 12 2] := by
  rw [ethernetProcessPacket, if_neg h]
  split <;> rfl

/-- The length alone decides: what the path lacks is one comparison for each
header, and one before the copy. Each layer contributes the accesses it makes
and is inside the frame if and only if the headers up to it are there; a frame
that is too short for its headers is dropped by no layer. -/
theorem receive_inside_iff (con : TcpConnection) (frame : Bytes) (L : UInt16) :
    StaysInside con frame L ↔
      14 ≤ L.toNat ∧ (etherType frame = ETHERNET_TYPE_IPV4 → 24 ≤ L.toNat ∧
        (protocol frame 14 = IPV4_PROTOCOL_UDP → 34 ≤ L.toNat) ∧
        (protocol frame 14 = IPV4_PROTOCOL_TCP → 54 ≤ L.toNat ∧
          (¬ NoPayload (tcpFlags frame 34) → L.toNat ≤ 2102))) := by
  have hstart : Inside L [.size (L.toNat - 14) (L - 14), .read 12 2] ↔ 14 ≤ L.toNat := by
    simp only [inside_cons, inside_nil, inside_read_iff Nat.two_pos, and_true]
    refine ⟨And.right, fun h => ⟨?_, h⟩⟩
    exact inside_size_iff.mpr (show (14 : UInt16) ≤ L from UInt16.le_iff_toNat_le.mpr h)
  by_cases hip : etherType frame = ETHERNET_TYPE_IPV4
  · rw [StaysInside, TooShort, ethernetProcessPacket_ipv4 hip, inside_append, hstart, and_assoc]
    refine and_congr_right fun hlen => ?_
    have hle : (14 : UInt16) ≤ L := UInt16.le_iff_toNat_le.mpr hlen
    have hsub : (L - 14).toNat = L.toNat - 14 := UInt16.toNat_sub_of_le _ _ hle
    have hrest : 14 + (L - 14).toNat = L.toNat := by omega
    have hipv4 := inside_ipv4_iff con frame hrest
    simpa only [hip, Nat.not_lt.mpr hlen, true_and, false_or, true_implies] using hipv4
  · rw [StaysInside, TooShort, ethernetProcessPacket_other hip, hstart]
    simp only [hip, false_and, or_false, false_implies, and_true]
    exact and_iff_left_of_imp fun hlen hshort => by omega

/-! ## A runt

30 bytes that say IPv4 and TCP. 16 of them are left for the IPv4 header, so
the length of the segment wraps to 65532, the one comparison holds, and 65512
bytes are copied. -/

def runt : Bytes := fun i => if i = 12 then 8 else if i = 23 then 6 else 0

def idle : TcpConnection := ⟨0, 0, 0, false, 0, 0, 0⟩

theorem runt_overruns :
    Access.copy 65512 ∈ (ethernetProcessPacket idle runt 30).1 ∧ ¬ StaysInside idle runt 30 := by
  have hcopy : Access.copy 65512 ∈ (ethernetProcessPacket idle runt 30).1 := by decide +kernel
  exact ⟨hcopy, fun h => absurd (h.1 _ hcopy) (by simp [Access.Inside])⟩

end VersionSix.Net
