import VersionSix.NetSend
import VersionSix.Run

/-!
# Acknowledgements

The `ack_number` of the headers a connection sends, while its peer's segments
come in. `tcp_connection_handle_recv` sets `ack` to the sequence number of the
segment, not of the byte behind it; only `tcp_connection_send_ack` ever counts
it up, by one. So `ack` is behind by the bytes of the last segment, less one
for each acknowledgement since (`Tracks`).

What a peer has sent is a stream of its own here, with the initial sequence
number, the bytes since, and how many of them came with the last segment
(`Stream`). A header is right if it acknowledges the next byte of that stream.
`acks_follow_iff` says for which sequences of events all headers are: an
acknowledgement is due when all but one of the last segment's bytes have been
counted, and data when all have. With segments of one byte, and an
acknowledgement for each, the code is right.

All numbers are of 32 bits and come round.
-/

namespace VersionSix.Net

open ByteStore

/-! ## The connection -/

/-- The header of `tcp_connection_send_ack`. -/
def tcpAckHeader (con : TcpConnection) : TcpHeader :=
  { ackNumber := htonl con.ack
    seqNumber := htonl con.seq
    destinationPort := htons con.destPort
    sourcePort := htons con.sourcePort
    windowSize := htons 64240
    checksum := 0
    urgent := 0
    flags := htons (TCP_FLAG_ACK ||| 0x5000) }

/-- `tcp_connection_send_ack`, up to the header it sends. -/
def tcpConnectionSendAck (con : TcpConnection) : TcpConnection × TcpHeader :=
  let con := { con with ack := con.ack + 1 }
  (con, tcpAckHeader con)

/-- `header->seq_number` of the segment at `data`. -/
def seqNumber (frame : Bytes) (data : Nat) : UInt32 := htonl (field32 frame (data + 4))

inductive TcpEvent
  | segment (frame : Bytes) (data : Nat) (length : UInt16)
  | sendAck
  | sendData (data : Bytes) (length : UInt16)

/-- The connection after an event, and the `ack_number` of the header sent. -/
def tcpStep (con : TcpConnection) : TcpEvent → TcpConnection × Option UInt32
  | .segment frame data length => ((tcpConnectionHandleRecv con frame data length).2, none)
  | .sendAck =>
      ((tcpConnectionSendAck con).1, some (htonl (tcpConnectionSendAck con).2.ackNumber))
  | .sendData _ _ => (con, some (htonl (tcpDataHeader con).ackNumber))

/-! ## The stream -/

/-- What the peer has sent: its initial sequence number, the payload bytes
since, how many of them the last segment brought (the SYN counts as one), and
the acknowledgements sent since that segment. -/
structure Stream where
  syn : UInt32
  received : Nat
  lastSegment : Nat
  acks : Nat

def Stream.start (syn : UInt32) : Stream := ⟨syn, 0, 1, 0⟩

def Stream.next (t : Stream) : UInt32 := t.syn + 1 + UInt32.ofNat t.received

/-- Every header that is sent acknowledges what was received. -/
def streamStep (t : Stream) : TcpEvent → Stream × Option UInt32
  | .segment _ _ length =>
      let n := length.toNat - 20
      ({ t with received := t.received + n, lastSegment := n, acks := 0 }, none)
  | .sendAck => ({ t with acks := t.acks + 1 }, some t.next)
  | .sendData _ _ => (t, some t.next)

/-- The segments come in order: each starts with the next byte. -/
def InOrder : Stream → List TcpEvent → Prop
  | _, [] => True
  | t, e :: es =>
      (∀ frame data length, e = .segment frame data length → seqNumber frame data = t.next) ∧
        InOrder (streamStep t e).1 es

/-- An acknowledgement is sent when all but one of the last segment's bytes
have been counted, data when all have. -/
def Due (t : Stream) : TcpEvent → Prop
  | .segment _ _ _ => True
  | .sendAck => UInt32.ofNat t.lastSegment = UInt32.ofNat t.acks + 1
  | .sendData _ _ => UInt32.ofNat t.lastSegment = UInt32.ofNat t.acks

instance (t : Stream) (e : TcpEvent) : Decidable (Due t e) := by
  cases e <;> unfold Due <;> infer_instance

def OnTime : Stream → List TcpEvent → Prop
  | _, [] => True
  | t, e :: es => Due t e ∧ OnTime (streamStep t e).1 es

/-! ## What `ack` is -/

/-- How far `ack` is behind. -/
def Tracks (con : TcpConnection) (t : Stream) : Prop :=
  con.ack + UInt32.ofNat t.lastSegment = t.next + UInt32.ofNat t.acks

theorem ack_handleRecv (con : TcpConnection) (frame : Bytes) (data : Nat) (length : UInt16) :
    (tcpConnectionHandleRecv con frame data length).2.ack = seqNumber frame data := by
  by_cases hsyn : tcpFlags frame data = TCP_FLAG_SYN ||| TCP_FLAG_ACK
  · rw [tcpConnectionHandleRecv, if_pos hsyn]
    rfl
  · rw [tcpConnectionHandleRecv, if_neg hsyn]
    rfl

theorem tracks_syn (con : TcpConnection) (frame : Bytes) (data : Nat) (length : UInt16) :
    Tracks (tcpConnectionHandleRecv con frame data length).2
      (.start (seqNumber frame data)) := by
  rw [Tracks, ack_handleRecv]
  simp [Stream.start, Stream.next]

theorem Tracks.step {con : TcpConnection} {t : Stream} (h : Tracks con t) {e : TcpEvent}
    (horder : ∀ frame data length, e = .segment frame data length → seqNumber frame data = t.next) :
    Tracks (tcpStep con e).1 (streamStep t e).1 := by
  cases e with
  | segment frame data length =>
      have hseq := horder frame data length rfl
      show (tcpConnectionHandleRecv con frame data length).2.ack + _ = _
      rw [ack_handleRecv, hseq]
      simp [streamStep, Stream.next, UInt32.add_assoc]
  | sendAck =>
      have hacks : UInt32.ofNat (t.acks + 1) = UInt32.ofNat t.acks + 1 := by simp
      show con.ack + 1 + UInt32.ofNat t.lastSegment = t.next + UInt32.ofNat (t.acks + 1)
      rw [Tracks] at h
      rw [hacks]
      grind
  | sendData data length => exact h

/-- The header of one event is right exactly if it is due. -/
theorem Tracks.sent_iff {con : TcpConnection} {t : Stream} (h : Tracks con t) (e : TcpEvent) :
    (tcpStep con e).2 = (streamStep t e).2 ↔ Due t e := by
  cases e with
  | segment frame data length => exact iff_of_true rfl trivial
  | sendAck =>
      have hack : (tcpStep con .sendAck).2 = some (con.ack + 1) := by
        simp [tcpStep, tcpConnectionSendAck, tcpAckHeader]
      rw [hack, streamStep, Option.some_inj, Due]
      rw [Tracks] at h
      constructor
      · intro hnext
        grind
      · intro hlast
        grind
  | sendData data length =>
      have hack : (tcpStep con (.sendData data length)).2 = some con.ack := by
        simp [tcpStep, tcpDataHeader]
      rw [hack, streamStep, Option.some_inj, Due]
      rw [Tracks] at h
      constructor
      · intro hnext
        grind
      · intro hlast
        grind

theorem Tracks.run_iff {con : TcpConnection} {t : Stream} (h : Tracks con t) {es : List TcpEvent}
    (hes : InOrder t es) :
    (Run.outputs tcpStep con es).2 = (Run.outputs streamStep t es).2 ↔ OnTime t es := by
  induction es generalizing con t with
  | nil => exact iff_of_true rfl trivial
  | cons e es ih =>
      rw [Run.outputs, Run.outputs, List.cons.injEq, h.sent_iff e, ih (h.step hes.1) hes.2]
      rfl

/-- After the SYN+ACK of the peer, the headers sent acknowledge what has been
received exactly if they are sent on time: `ack` is behind by the bytes of the
last segment, less one for each acknowledgement since, and a header has to come
when the two are even. Sequence numbers come round at 2^32 here too. -/
theorem acks_follow_iff (con : TcpConnection) (frame : Bytes) (data : Nat) (length : UInt16)
    {es : List TcpEvent} (hes : InOrder (.start (seqNumber frame data)) es) :
    (Run.outputs tcpStep (tcpConnectionHandleRecv con frame data length).2 es).2 =
        (Run.outputs streamStep (.start (seqNumber frame data)) es).2 ↔
      OnTime (.start (seqNumber frame data)) es :=
  (tracks_syn con frame data length).run_iff hes

/-- A SYN+ACK with sequence number 0, and the first segment of a stream that
starts with it, with sequence number 1. -/
def synAck : Bytes := fun i => if i = 12 then 0x50 else if i = 13 then 0x12 else 0

def firstSegment : Bytes :=
  fun i => if i = 7 then 1 else if i = 12 then 0x50 else if i = 13 then 0x18 else 0

/-- The handshake, data, and a segment of one byte that is acknowledged. -/
theorem acks_follow_handshake :
    (Run.outputs tcpStep (tcpConnectionHandleRecv idle synAck 0 20).2
      [.sendAck, .sendData (fun _ => 65) 5, .segment firstSegment 0 21, .sendAck,
        .sendData (fun _ => 66) 3]).2 = [some 1, some 1, none, some 2, some 2] := by
  have hseq : seqNumber synAck 0 = 0 := by decide
  have hes : InOrder (.start (seqNumber synAck 0)) [.sendAck, .sendData (fun _ => 65) 5,
      .segment firstSegment 0 21, .sendAck, .sendData (fun _ => 66) 3] := by
    refine ⟨fun _ _ _ h => (nomatch h), fun _ _ _ h => (nomatch h), fun _ _ _ h => ?_,
      fun _ _ _ h => (nomatch h), fun _ _ _ h => (nomatch h), trivial⟩
    obtain ⟨rfl, rfl, rfl⟩ := TcpEvent.segment.inj h
    decide
  rw [(acks_follow_iff idle synAck 0 20 hes).mpr ?_, hseq]
  · decide
  · rw [hseq]
    exact ⟨by decide, by decide, by decide, by decide, by decide, trivial⟩

/-- Ten bytes come in, and the next header still acknowledges none of them. -/
theorem segment_not_acknowledged :
    let es : List TcpEvent := [.sendAck, .segment firstSegment 0 30, .sendData (fun _ => 65) 5]
    InOrder (.start (seqNumber synAck 0)) es ∧
      (Run.outputs tcpStep (tcpConnectionHandleRecv idle synAck 0 20).2 es).2 =
        [some 1, none, some 1] ∧
      (Run.outputs streamStep (.start (seqNumber synAck 0)) es).2 = [some 1, none, some 11] := by
  refine ⟨⟨fun _ _ _ h => (nomatch h), fun _ _ _ h => ?_, fun _ _ _ h => (nomatch h), trivial⟩,
    by decide, by decide⟩
  obtain ⟨rfl, rfl, rfl⟩ := TcpEvent.segment.inj h
  decide

end VersionSix.Net
