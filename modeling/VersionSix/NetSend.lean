import Mathlib.Tactic.IntervalCases
import VersionSix.Receive

/-!
# The send path

`udp.c`, `tcp.c`, `ipv4.c` and `ethernet.c` from a payload up to the frame that
is handed to `e1000_send`. Each layer puts its header and what it was given
into a buffer of 2048 bytes; none looks at the length, so no call is ever
rejected. `Sent` keeps the copies beside the frame, so that a copy that goes
over its buffer is not lost sight of.

What the stack's own receive path makes of the frame is `receive`. The two are
inverse exactly as long as the last and fullest buffer, the one of
`ethernet.c`, holds all headers and the payload (`send_receive_iff`).

The proof goes layer by layer. Encapsulating puts the data behind a header, and
taking the frame apart reads header fields and data back from their offsets;
what is stored in network order is turned twice. A payload that is too long
goes over the end of a buffer, of the last one first, whichever call it came
from.
-/

namespace VersionSix.Net

open ByteStore

/-! ## Copies -/

/-- `memcpy` of `n` bytes to the offset `off` of a buffer of 2048 bytes. -/
structure Copy where
  off : Nat
  n : Nat
  deriving DecidableEq

def Copy.Fits (c : Copy) : Prop := c.off + c.n ≤ 2048

instance (c : Copy) : Decidable c.Fits := inferInstanceAs (Decidable (_ ≤ _))

/-- A buffer after a header and the data behind it were copied into it. -/
def encapsulate (buffer header : Bytes) (n : Nat) (data : Bytes) (length : Nat) : Bytes :=
  write (write buffer 0 n header) n length data

/-- What reaches `e1000_send`, and the copies on the way. -/
structure Sent where
  copies : List Copy
  frame : Bytes
  size : UInt32

/-! ## Headers

The fields hold what the code assigns to them, so those wider than a byte are
in network order. -/

structure EthernetPacket where
  destination : List UInt8
  source : List UInt8
  type : UInt16

def EthernetPacket.bytes (p : EthernetPacket) : Bytes :=
  setLe 2 (fun i => (p.destination ++ p.source).getD i 0) 12 p.type.toNat

structure Ipv4Packet where
  versionIhl : UInt8
  dscpEcn : UInt8
  length : UInt16
  ident : UInt16
  flagsFragment : UInt16
  ttl : UInt8
  protocol : UInt8
  checksum : UInt16
  source : UInt32
  destination : UInt32

def Ipv4Packet.bytes (p : Ipv4Packet) : Bytes :=
  let b : Bytes := setLe 1 (fun _ => 0) 0 p.versionIhl.toNat
  let b := setLe 1 b 1 p.dscpEcn.toNat
  let b := setLe 2 b 2 p.length.toNat
  let b := setLe 2 b 4 p.ident.toNat
  let b := setLe 2 b 6 p.flagsFragment.toNat
  let b := setLe 1 b 8 p.ttl.toNat
  let b := setLe 2 b 10 p.checksum.toNat
  let b := setLe 4 b 12 p.source.toNat
  let b := setLe 4 b 16 p.destination.toNat
  setLe 1 b 9 p.protocol.toNat

structure UdpPacket where
  sourcePort : UInt16
  destinationPort : UInt16
  length : UInt16
  checksum : UInt16

def UdpPacket.bytes (p : UdpPacket) : Bytes :=
  let b : Bytes := setLe 2 (fun _ => 0) 0 p.sourcePort.toNat
  let b := setLe 2 b 2 p.destinationPort.toNat
  let b := setLe 2 b 4 p.length.toNat
  setLe 2 b 6 p.checksum.toNat

structure TcpHeader where
  sourcePort : UInt16
  destinationPort : UInt16
  seqNumber : UInt32
  ackNumber : UInt32
  flags : UInt16
  windowSize : UInt16
  checksum : UInt16
  urgent : UInt16
  deriving DecidableEq

def TcpHeader.bytes (h : TcpHeader) : Bytes :=
  let b : Bytes := setLe 2 (fun _ => 0) 0 h.sourcePort.toNat
  let b := setLe 2 b 2 h.destinationPort.toNat
  let b := setLe 4 b 4 h.seqNumber.toNat
  let b := setLe 4 b 8 h.ackNumber.toNat
  let b := setLe 2 b 14 h.windowSize.toNat
  let b := setLe 2 b 16 h.checksum.toNat
  let b := setLe 2 b 18 h.urgent.toNat
  setLe 2 b 12 h.flags.toNat

structure TcpCheckHeader where
  source : UInt32
  destination : UInt32
  zeros : UInt8
  protocol : UInt8
  tcpLen : UInt16

def TcpCheckHeader.bytes (h : TcpCheckHeader) : Bytes :=
  let b : Bytes := setLe 4 (fun _ => 0) 0 h.source.toNat
  let b := setLe 4 b 4 h.destination.toNat
  let b := setLe 1 b 8 h.zeros.toNat
  let b := setLe 1 b 9 h.protocol.toNat
  setLe 2 b 10 h.tcpLen.toNat

/-! ## Checksums -/

def foldCarry (sum : UInt32) : UInt32 :=
  if sum > 0xFFFF then (sum >>> 16) + (sum &&& 0xFFFF) else sum

/-- One of the summing loops of `calculate_tcp_checksum`, over `n` words. -/
def sumWords (b : Bytes) (n : Nat) (sum : UInt32) : UInt32 :=
  (List.range n).foldl (fun sum i => foldCarry (sum + (htons (field16 b (2 * i))).toUInt32)) sum

def calculateTcpChecksum (p h : Bytes) (optionsLength : UInt16) (d : Bytes)
    (payloadSize : UInt32) : UInt16 :=
  let sum := sumWords p 6 0
  let sum := sumWords h (10 + optionsLength.toNat / 2) sum
  let dWords := (payloadSize / 2).toUInt16
  let sum := sumWords d dWords.toNat sum
  let sum :=
    if dWords.toNat * 2 ≠ payloadSize.toNat then
      foldCarry (sum + (htons (d (dWords.toNat * 2)).toUInt16).toUInt32)
    else sum
  ((~~~ (sum &&& 0xFFFF)) &&& 0xFFFF).toUInt16

/-- The carry is folded in once, at the end. -/
def calculateIpv4Checksum (packet : Bytes) : UInt16 :=
  let sum : UInt32 := (List.range 10).foldl
    (fun sum i => sum + (htons (field16 packet (2 * i))).toUInt32) 0
  ((~~~ (foldCarry sum &&& 0xFFFF)) &&& 0xFFFF).toUInt16

/-! ## Layers -/

/-- `networking_info.ipv4_address`, and what an array on the stack contains
before it is written. -/
structure NetEnv where
  ipv4Address : UInt32
  stack : Bytes

def ethernetSendPacket (dest : List UInt8) (type : UInt16) (data : Bytes) (length : UInt32) :
    Sent :=
  let packet : EthernetPacket :=
    { source := [0x12, 0x34, 0x56, 0x78, 0x9A, 0xBC], type := htons type, destination := dest }
  { copies := [⟨0, 14⟩, ⟨14, length.toNat⟩]
    frame := encapsulate (fun _ => 0) packet.bytes 14 data length.toNat
    size := 14 + length }

def ipv4DestMac (dest : UInt32) : List UInt8 :=
  if dest = 0xFFFFFF then [0xFF, 0xFF, 0xFF, 0xFF, 0xFF, 0xFF]
  else if dest = 0x0A000202 then [0x52, 0x55, 0x0A, 0x00, 0x02, 0x02]
  else [0x52, 0x55, 0x0A, 0x00, 0x02, 0x02]

def ipv4Send (env : NetEnv) (dest : UInt32) (protocol : UInt8) (data : Bytes)
    (length : UInt16) : Sent :=
  let packet : Ipv4Packet :=
    { versionIhl := ((0x4 : UInt8) <<< 4) ||| ((0x5 : UInt8) <<< 0)
      dscpEcn := 0
      length := htons (20 + length)
      ident := htons 1
      flagsFragment := 0
      ttl := 0x40
      protocol := protocol
      checksum := 0
      source := env.ipv4Address
      destination := htonl dest }
  let packet := { packet with checksum := htons (calculateIpv4Checksum packet.bytes) }
  let payload := encapsulate (fun _ => 0) packet.bytes 20 data length.toNat
  let sent := ethernetSendPacket (ipv4DestMac dest) ETHERNET_TYPE_IPV4 payload
    (20 + length.toUInt32)
  { sent with copies := [⟨0, 20⟩, ⟨20, length.toNat⟩] ++ sent.copies }

/-- The header of `udp_send`. -/
def udpHeader (destPort srcPort length : UInt16) : UdpPacket :=
  { sourcePort := htons srcPort
    destinationPort := htons destPort
    length := htons (8 + length)
    checksum := 0 }

def udpSend (env : NetEnv) (destIp : UInt32) (destPort srcPort : UInt16) (data : Bytes)
    (length : UInt16) : Sent :=
  let packet := udpHeader destPort srcPort length
  let payload := encapsulate (fun _ => 0) packet.bytes 8 data length.toNat
  let sent := ipv4Send env destIp IPV4_PROTOCOL_UDP payload (8 + length)
  { sent with copies := [⟨0, 8⟩, ⟨8, length.toNat⟩] ++ sent.copies }

def TCP_FLAG_PSH : UInt16 := 8

/-- The header with its checksum, as `tcp_send_header_and_data` sets it. -/
def tcpChecksummed (env : NetEnv) (dest : UInt32) (header : TcpHeader) (data : Bytes)
    (length : UInt16) : TcpHeader :=
  let checksumHeader : TcpCheckHeader :=
    { destination := htonl dest
      source := env.ipv4Address
      protocol := IPV4_PROTOCOL_TCP
      zeros := 0
      tcpLen := htons (20 + length) }
  let computedChecksum :=
    calculateTcpChecksum checksumHeader.bytes header.bytes 0 data length.toUInt32
  { header with checksum := htons computedChecksum }

def tcpSendHeaderAndData (env : NetEnv) (dest : UInt32) (header : TcpHeader) (data : Bytes)
    (length : UInt16) : Sent :=
  let header := tcpChecksummed env dest header data length
  let payload := encapsulate env.stack header.bytes 20 data length.toNat
  let sent := ipv4Send env dest IPV4_PROTOCOL_TCP payload (20 + length)
  { sent with copies := [⟨0, 20⟩, ⟨20, length.toNat⟩] ++ sent.copies }

/-- The header of `tcp_connection_send_data`. -/
def tcpDataHeader (con : TcpConnection) : TcpHeader :=
  { ackNumber := htonl con.ack
    seqNumber := htonl con.seq
    destinationPort := htons con.destPort
    sourcePort := htons con.sourcePort
    windowSize := htons 64240
    checksum := 0
    urgent := 0
    flags := htons (TCP_FLAG_PSH ||| TCP_FLAG_ACK ||| 0x5000) }

def tcpConnectionSendData (env : NetEnv) (con : TcpConnection) (data : Bytes) (length : UInt16) :
    Sent :=
  tcpSendHeaderAndData env con.destIp (tcpDataHeader con) data length

/-! ## What comes out of the receive path -/

structure Received where
  protocol : UInt8
  sourcePort : UInt16
  destPort : UInt16
  payload : List UInt8
  deriving DecidableEq

def bytesAt (b : Bytes) (off n : Nat) : List UInt8 := (List.range n).map fun i => b (off + i)

/-- `udp_process_packet`: the port it dispatches on, and the data it passes on. -/
def udpProcessPacket (frame : Bytes) (data : Nat) : UInt16 × Nat :=
  (htons (field16 frame (data + 2)), data + 8)

/-- The bytes that are copied right after they are read. -/
def copiedBytes (frame : Bytes) : List Access → List UInt8
  | .read off n :: .copy _ :: as => bytesAt frame off n ++ copiedBytes frame as
  | _ :: as => copiedBytes frame as
  | [] => []

/-- A received frame. The length of a TCP payload is the one `tcp.c` computes;
`udp.c` passes none on, its payload ends where the header says. -/
def receive (con : TcpConnection) (frame : Bytes) (length : UInt16) : Option Received :=
  match ethernetProcessPacket con frame length with
  | (_, .udp data) => some
      { protocol := protocol frame 14
        sourcePort := htons (field16 frame data)
        destPort := (udpProcessPacket frame data).1
        payload := bytesAt frame (udpProcessPacket frame data).2
          (htons (field16 frame (data + 4)) - 8).toNat }
  | (accesses, .tcp _) => some
      { protocol := protocol frame 14
        sourcePort := htons (field16 frame 34)
        destPort := htons (field16 frame 36)
        payload := copiedBytes frame accesses }
  | _ => none

/-! ## Statement -/

inductive SendCall
  | udp (destIp : UInt32) (destPort srcPort : UInt16) (data : Bytes) (length : UInt16)
  | tcp (con : TcpConnection) (data : Bytes) (length : UInt16)

namespace SendCall

def send (env : NetEnv) : SendCall → Sent
  | udp destIp destPort srcPort data length => udpSend env destIp destPort srcPort data length
  | tcp con data length => tcpConnectionSendData env con data length

/-- What the call is to bring to the other side. -/
def content : SendCall → Received
  | udp _ destPort srcPort data length =>
      ⟨IPV4_PROTOCOL_UDP, srcPort, destPort, bytesAt data 0 length.toNat⟩
  | tcp con data length =>
      ⟨IPV4_PROTOCOL_TCP, con.sourcePort, con.destPort, bytesAt data 0 length.toNat⟩

def Small : SendCall → Prop
  | udp _ _ _ _ length => length.toNat ≤ 2006
  | tcp _ _ length => length.toNat ≤ 1994

end SendCall

/-- Every copy fits its buffer, and whoever receives the frame gets what was
sent. -/
def SendReceive (env : NetEnv) (call : SendCall) : Prop :=
  (∀ c ∈ (call.send env).copies, c.Fits) ∧
    ∀ con, receive con (call.send env).frame (call.send env).size.toUInt16 = some call.content

/-! ## Byte order -/

theorem getLsbD_htons (x : UInt16) {i : Nat} (hi : i < 16) :
    (htons x).toBitVec.getLsbD i = x.toBitVec.getLsbD (8 * (1 - i / 8) + i % 8) := by
  simp only [htons, UInt16.toBitVec_or, UInt16.toBitVec_shiftLeft, UInt16.toBitVec_shiftRight,
    UInt16.toBitVec_and, BitVec.getLsbD_or]
  interval_cases i <;> simp

theorem getLsbD_htonl (x : UInt32) {i : Nat} (hi : i < 32) :
    (htonl x).toBitVec.getLsbD i = x.toBitVec.getLsbD (8 * (3 - i / 8) + i % 8) := by
  simp only [htonl, UInt32.toBitVec_or, UInt32.toBitVec_shiftLeft, UInt32.toBitVec_shiftRight,
    UInt32.toBitVec_and, BitVec.getLsbD_or]
  interval_cases i <;> simp

@[simp] theorem htons_htons (x : UInt16) : htons (htons x) = x := by
  refine UInt16.eq_of_toBitVec_eq (BitVec.eq_of_getLsbD_eq fun i hi => ?_)
  rw [getLsbD_htons _ hi, getLsbD_htons _ (by omega)]
  congr 1
  omega

@[simp] theorem htonl_htonl (x : UInt32) : htonl (htonl x) = x := by
  refine UInt32.eq_of_toBitVec_eq (BitVec.eq_of_getLsbD_eq fun i hi => ?_)
  rw [getLsbD_htonl _ hi, getLsbD_htonl _ (by omega)]
  congr 1
  omega

/-! ## Fields -/

theorem field16_congr {b b' : Bytes} {off off' : Nat}
    (h : ∀ i < 2, b (off + i) = b' (off' + i)) : field16 b off = field16 b' off' := by
  rw [field16, field16, le_congr h]

theorem field16_setLe_same (b : Bytes) (off : Nat) (v : UInt16) :
    field16 (setLe 2 b off v.toNat) off = v := by
  rw [field16, le_setLe_same]
  exact UInt16.toNat.inj (by simp)

theorem field16_setLe_ne {n : Nat} {b : Bytes} {off off' v : Nat}
    (h : off + 2 ≤ off' ∨ off' + n ≤ off) : field16 (setLe n b off' v) off = field16 b off := by
  rw [field16, field16, le_setLe_disjoint h]

theorem setLe_one (b : Bytes) (off : Nat) (v : UInt8) : setLe 1 b off v.toNat off = v := by
  unfold setLe
  rw [if_pos ⟨Nat.le_refl _, Nat.lt_succ_self _⟩, Nat.sub_self]
  simp

/-! ## Buffers -/

section Buffers

variable {buffer header data : Bytes} {n length : Nat}

theorem encapsulate_header {i : Nat} (h : i < n) :
    encapsulate buffer header n data length i = header i := by
  unfold encapsulate
  rw [write_out (by omega), write, if_pos (by omega)]
  simp

theorem encapsulate_data {i : Nat} (h : i < length) :
    encapsulate buffer header n data length (n + i) = data i := write_in h

@[simp] theorem length_bytesAt (b : Bytes) (off n : Nat) : (bytesAt b off n).length = n := by
  simp [bytesAt]

theorem bytesAt_add (b : Bytes) (off m n : Nat) :
    bytesAt b off (m + n) = bytesAt b off m ++ bytesAt b (off + m) n := by
  rw [bytesAt, bytesAt, bytesAt, List.range_add, List.map_append, List.map_map]
  simp [Function.comp_def, Nat.add_assoc]

theorem bytesAt_congr {b b' : Bytes} {off off' n : Nat}
    (h : ∀ i < n, b (off + i) = b' (off' + i)) : bytesAt b off n = bytesAt b' off' n :=
  List.map_congr_left fun i hi => h i (List.mem_range.mp hi)

end Buffers

/-! ## Layers -/

theorem etherType_ethernetSendPacket (dest : List UInt8) (type : UInt16) (data : Bytes)
    (length : UInt32) : etherType (ethernetSendPacket dest type data length).frame = type := by
  have hheader : field16 (ethernetSendPacket dest type data length).frame 12 = htons type := by
    refine (field16_congr fun i hi => encapsulate_header (by omega)).trans ?_
    exact field16_setLe_same ..
  rw [etherType, hheader, htons_htons]

section Ipv4

variable (env : NetEnv) (dest : UInt32) (proto : UInt8) (segment : Bytes) (length : UInt16)

theorem toNat_ipv4Length : (20 + length.toUInt32).toNat = 20 + length.toNat := by
  have hlt := length.toNat_lt
  rw [UInt32.toNat_add, UInt16.toNat_toUInt32]
  exact Nat.mod_eq_of_lt (show 20 + length.toNat < 2 ^ 32 by omega)

theorem ipv4Send_size : (ipv4Send env dest proto segment length).size.toNat =
    34 + length.toNat := by
  have hlt := length.toNat_lt
  show (14 + (20 + length.toUInt32)).toNat = _
  rw [UInt32.toNat_add, toNat_ipv4Length]
  show (14 + (20 + length.toNat)) % 2 ^ 32 = _
  omega

theorem ipv4Send_data {i : Nat} (hi : i < length.toNat) :
    (ipv4Send env dest proto segment length).frame (34 + i) = segment i := by
  have hin : 20 + i < (20 + length.toUInt32).toNat := by
    rw [toNat_ipv4Length]
    omega
  rw [show 34 + i = 14 + (20 + i) by omega]
  exact (encapsulate_data hin).trans (encapsulate_data hi)

theorem ipv4Send_protocol : protocol (ipv4Send env dest proto segment length).frame 14 = proto := by
  have hin : 9 < (20 + length.toUInt32).toNat := by
    rw [toNat_ipv4Length]
    omega
  refine (encapsulate_data hin).trans ((encapsulate_header (by omega)).trans ?_)
  exact setLe_one ..

theorem ipv4Send_etherType :
    etherType (ipv4Send env dest proto segment length).frame = ETHERNET_TYPE_IPV4 :=
  etherType_ethernetSendPacket ..

theorem ipv4Send_fits :
    (∀ c ∈ (ipv4Send env dest proto segment length).copies, c.Fits) ↔
      34 + length.toNat ≤ 2048 := by
  have hlen := toNat_ipv4Length length
  show (∀ c ∈ [⟨0, 20⟩, ⟨20, length.toNat⟩, ⟨0, 14⟩, ⟨14, (20 + length.toUInt32).toNat⟩],
    Copy.Fits c) ↔ _
  rw [hlen]
  simp only [List.forall_mem_cons, Copy.Fits, List.not_mem_nil, false_implies, implies_true,
    and_true]
  omega

theorem ipv4Send_field16 {off : Nat} (h : off + 2 ≤ length.toNat) :
    field16 (ipv4Send env dest proto segment length).frame (34 + off) = field16 segment off := by
  refine field16_congr fun i hi => ?_
  rw [Nat.add_assoc]
  exact ipv4Send_data env dest proto segment length (by omega)

end Ipv4

/-! ## UDP -/

section Udp

variable (env : NetEnv) (destIp : UInt32) (destPort srcPort : UInt16) (data : Bytes)
  {length : UInt16}

theorem toNat_udpLength (h : length.toNat ≤ 2006) : (8 + length).toNat = 8 + length.toNat := by
  rw [UInt16.toNat_add]
  exact Nat.mod_eq_of_lt (show 8 + length.toNat < 2 ^ 16 by omega)

theorem udpSend_fits :
    (∀ c ∈ (udpSend env destIp destPort srcPort data length).copies, c.Fits) ↔
      length.toNat ≤ 2006 := by
  have hsum : (8 + length).toNat = (8 + length.toNat) % 2 ^ 16 := UInt16.toNat_add ..
  have hlt := length.toNat_lt
  rw [udpSend, List.forall_mem_append, ipv4Send_fits, hsum]
  simp only [List.forall_mem_cons, Copy.Fits, List.not_mem_nil, false_implies, implies_true,
    and_true]
  omega

theorem receive_udp {con : TcpConnection} {frame : Bytes} {length : UInt16}
    (het : etherType frame = ETHERNET_TYPE_IPV4) (hudp : protocol frame 14 = IPV4_PROTOCOL_UDP) :
    receive con frame length = some
      { protocol := IPV4_PROTOCOL_UDP
        sourcePort := htons (field16 frame 34)
        destPort := htons (field16 frame 36)
        payload := bytesAt frame 42 (htons (field16 frame 38) - 8).toNat } := by
  have hip : ipv4ProcessPacket con frame 14 (length - 14) = ([.read 23 1], .udp 34) := by
    rw [ipv4ProcessPacket, hudp, if_neg (by decide), if_pos rfl]
  rw [receive, ethernetProcessPacket_ipv4 het, hip, hudp]
  rfl

theorem receive_udpSend (h : length.toNat ≤ 2006) (con : TcpConnection) :
    receive con (udpSend env destIp destPort srcPort data length).frame
        (udpSend env destIp destPort srcPort data length).size.toUInt16
      = some ⟨IPV4_PROTOCOL_UDP, srcPort, destPort, bytesAt data 0 length.toNat⟩ := by
  have hlen := toNat_udpLength h
  let segment := encapsulate (fun _ => 0) (udpHeader destPort srcPort length).bytes 8 data
    length.toNat
  let frame := (ipv4Send env destIp IPV4_PROTOCOL_UDP segment (8 + length)).frame
  have hfield : ∀ off, off + 2 ≤ 8 →
      field16 frame (34 + off) = field16 (udpHeader destPort srcPort length).bytes off := by
    intro off hoff
    refine (ipv4Send_field16 _ _ _ _ _ (by omega)).trans ?_
    exact field16_congr fun i hi => encapsulate_header (by omega)
  have hsource : field16 frame 34 = htons srcPort := by
    rw [hfield 0 (by omega), UdpPacket.bytes]
    simp only [field16_setLe_ne, field16_setLe_same, Nat.reduceAdd, Nat.reduceLeDiff, true_or]
    rfl
  have hdest : field16 frame 36 = htons destPort := by
    rw [hfield 2 (by omega), UdpPacket.bytes]
    simp only [field16_setLe_ne, field16_setLe_same, Nat.reduceAdd, Nat.reduceLeDiff, true_or]
    rfl
  have hlength : field16 frame 38 = htons (8 + length) := by
    rw [hfield 4 (by omega), UdpPacket.bytes]
    simp only [field16_setLe_ne, field16_setLe_same, Nat.reduceAdd, Nat.reduceLeDiff, true_or]
    rfl
  have hpayload : bytesAt frame 42 length.toNat = bytesAt data 0 length.toNat := by
    refine bytesAt_congr fun i hi => ?_
    rw [show 42 + i = 34 + (8 + i) by omega, Nat.zero_add]
    refine (ipv4Send_data _ _ _ _ _ (by omega)).trans ?_
    exact encapsulate_data hi
  have hn : (8 + length - 8 : UInt16) = length := by
    rw [UInt16.add_comm, UInt16.add_sub_cancel]
  refine (receive_udp (ipv4Send_etherType ..) (ipv4Send_protocol ..)).trans ?_
  rw [hsource, hdest, hlength, htons_htons, htons_htons, htons_htons, hn, hpayload]

end Udp

/-! ## TCP -/

section Tcp

variable (env : NetEnv) (con : TcpConnection) (data : Bytes) {length : UInt16}

theorem toNat_tcpLength (h : length.toNat ≤ 1994) : (20 + length).toNat = 20 + length.toNat := by
  rw [UInt16.toNat_add]
  exact Nat.mod_eq_of_lt (show 20 + length.toNat < 2 ^ 16 by omega)

theorem tcpSend_fits (dest : UInt32) (header : TcpHeader) :
    (∀ c ∈ (tcpSendHeaderAndData env dest header data length).copies, c.Fits) ↔
      length.toNat ≤ 1994 := by
  have hsum : (20 + length).toNat = (20 + length.toNat) % 2 ^ 16 := UInt16.toNat_add ..
  have hlt := length.toNat_lt
  rw [tcpSendHeaderAndData, List.forall_mem_append, ipv4Send_fits, hsum]
  simp only [List.forall_mem_cons, Copy.Fits, List.not_mem_nil, false_implies, implies_true,
    and_true]
  omega

theorem copiedBytes_segment (frame : Bytes) (length n : UInt16) (data : Nat) :
    copiedBytes frame ((payloadDataLength length).1 ++
        [.read (data + 4) 4, .read (data + 8) 4, .read (data + 12) 2] ++
        copyPayload (data + 20) n) = bytesAt frame (data + 20) n.toNat := by
  have hcopy : copiedBytes frame ([.read (data + 4) 4, .read (data + 8) 4, .read (data + 12) 2] ++
      copyPayload (data + 20) n) = bytesAt frame (data + 20) n.toNat := by
    by_cases hn : n > 0
    · rw [copyPayload, if_pos hn]
      exact List.append_nil _
    · have hzero : n = 0 := UInt16.le_zero_iff.mp (UInt16.not_lt.mp hn)
      rw [copyPayload, if_neg hn, hzero]
      rfl
  unfold payloadDataLength
  split
  · exact hcopy
  · exact hcopy

theorem toNat_sub_headers {size : UInt16} (h : 34 ≤ size.toNat) :
    (size - 14 - 20).toNat = size.toNat - 34 := by
  have h14 : (14 : UInt16) ≤ size := UInt16.le_iff_toNat_le.mpr (show 14 ≤ size.toNat by omega)
  have hsub : (size - 14).toNat = size.toNat - 14 := UInt16.toNat_sub_of_le _ _ h14
  have h20 : (20 : UInt16) ≤ size - 14 :=
    UInt16.le_iff_toNat_le.mpr (show 20 ≤ (size - 14).toNat by omega)
  have hsub' : (size - 14 - 20).toNat = (size - 14).toNat - 20 := UInt16.toNat_sub_of_le _ _ h20
  omega

/-- A segment with data: all of it behind the two headers is copied. -/
theorem receive_tcp {con : TcpConnection} {frame : Bytes} {size : UInt16} {n : Nat}
    (het : etherType frame = ETHERNET_TYPE_IPV4) (htcp : protocol frame 14 = IPV4_PROTOCOL_TCP)
    (hflags : ¬ NoPayload (tcpFlags frame 34)) (hn : size.toNat = 54 + n) :
    receive con frame size = some
      { protocol := IPV4_PROTOCOL_TCP
        sourcePort := htons (field16 frame 34)
        destPort := htons (field16 frame 36)
        payload := bytesAt frame 54 n } := by
  have hrest : (size - 14 - 20).toNat = 20 + n := by
    rw [toNat_sub_headers (by omega)]
    omega
  have hlen := toNat_payloadDataLength (size - 14 - 20)
  rw [hrest, Nat.add_sub_cancel_left] at hlen
  have hcopied := copiedBytes_segment frame (size - 14 - 20)
    (payloadDataLength (size - 14 - 20)).2 34
  rw [hlen] at hcopied
  rw [receive, ethernetProcessPacket_ipv4 het, ipv4ProcessPacket_tcp htcp, htcp]
  simp only [tcpConnectionHandleRecv, if_neg hflags]
  exact congrArg (fun payload => some (Received.mk IPV4_PROTOCOL_TCP _ _ payload)) hcopied

theorem receive_tcpSend {dest : UInt32} {header : TcpHeader} (h : length.toNat ≤ 1994)
    (hflags : ¬ NoPayload (htons header.flags &&& 0x0FFF)) (con : TcpConnection) :
    receive con (tcpSendHeaderAndData env dest header data length).frame
        (tcpSendHeaderAndData env dest header data length).size.toUInt16
      = some ⟨IPV4_PROTOCOL_TCP, htons header.sourcePort, htons header.destinationPort,
          bytesAt data 0 length.toNat⟩ := by
  have hlen := toNat_tcpLength h
  let segment := encapsulate env.stack (tcpChecksummed env dest header data length).bytes 20 data
    length.toNat
  let sent := ipv4Send env dest IPV4_PROTOCOL_TCP segment (20 + length)
  have hfield : ∀ off, off + 2 ≤ 20 → field16 sent.frame (34 + off) =
      field16 (tcpChecksummed env dest header data length).bytes off := by
    intro off hoff
    refine (ipv4Send_field16 _ _ _ _ _ (by omega)).trans ?_
    exact field16_congr fun i hi => encapsulate_header (by omega)
  have hsource : field16 sent.frame 34 = header.sourcePort := by
    rw [hfield 0 (by omega), TcpHeader.bytes]
    simp only [field16_setLe_ne, field16_setLe_same, Nat.reduceAdd, Nat.reduceLeDiff, true_or]
    rfl
  have hdest : field16 sent.frame 36 = header.destinationPort := by
    rw [hfield 2 (by omega), TcpHeader.bytes]
    simp only [field16_setLe_ne, field16_setLe_same, Nat.reduceAdd, Nat.reduceLeDiff, true_or]
    rfl
  have hflag : field16 sent.frame 46 = header.flags := by
    rw [hfield 12 (by omega), TcpHeader.bytes, field16_setLe_same]
    rfl
  have hpayload : bytesAt sent.frame 54 length.toNat = bytesAt data 0 length.toNat := by
    refine bytesAt_congr fun i hi => ?_
    rw [show 54 + i = 34 + (20 + i) by omega, Nat.zero_add]
    refine (ipv4Send_data _ _ _ _ _ (by omega)).trans ?_
    exact encapsulate_data hi
  have hsize : sent.size.toUInt16.toNat = 54 + length.toNat := by
    rw [UInt32.toNat_toUInt16, ipv4Send_size, hlen]
    omega
  have hdata : ¬ NoPayload (tcpFlags sent.frame 34) := by
    rw [tcpFlags, hflag]
    exact hflags
  refine (receive_tcp (ipv4Send_etherType ..) (ipv4Send_protocol ..) hdata hsize).trans ?_
  rw [hsource, hdest, hpayload]

theorem tcpDataHeader_payload : ¬ NoPayload (htons (tcpDataHeader con).flags &&& 0x0FFF) := by
  rw [tcpDataHeader, htons_htons]
  decide

end Tcp

/-! ## Both -/

/-- Sending and receiving are inverse exactly as long as headers and payload
fit one buffer of 2048 bytes. This is for all three calls that send, and for
every payload: what the receive path takes from the frame is the payload and
the ports that were given, and no copy on the way leaves its buffer. -/
theorem send_receive_iff (env : NetEnv) (call : SendCall) : SendReceive env call ↔ call.Small := by
  cases call with
  | udp destIp destPort srcPort data length =>
      refine (and_congr_left' (udpSend_fits ..)).trans (and_iff_left_of_imp fun h => ?_)
      exact receive_udpSend env destIp destPort srcPort data h
  | tcp con data length =>
      refine (and_congr_left' (tcpSend_fits ..)).trans (and_iff_left_of_imp fun h con' => ?_)
      refine (receive_tcpSend env data h (tcpDataHeader_payload con) con').trans ?_
      rw [tcpDataHeader, htons_htons, htons_htons]
      rfl

/-- 2040 bytes fill the buffer of `udp_send`, with none left for the headers
of the next two layers. -/
theorem udp_overruns :
    ¬ SendReceive ⟨0, fun _ => 0⟩ (.udp 0x0A000202 68 67 (fun _ => 65) 2040) := by
  intro h
  have hlast := h.1 ⟨20, 2048⟩ (by decide +kernel)
  exact absurd hlast (by decide)

end VersionSix.Net
