import VersionSix.NetSend

/-!
# DHCP options

`dhcp_process_packet` and what it hands on to, over the bytes behind the
packet. `dhcp_process_packet` takes the third of them for the message type, so
the type option has to stand first. The loop of `dhcp_handle_ack` steps over
the six options that `dhcp.c` knows as their length bytes say
(`handleAckFrom_handled`), over every other byte in their place as if it were
an option with one byte more, and it also reads a length behind END.

A list of options is abstract (`OptionList`), with its encoding; the memory
begins with it and goes on with anything. What the list says of a field is
compared with what is stored there, so the order of the options and the ones in
between do not come into the statement (`dhcp_options_read`).

Every turn of the loop moves on by two bytes at least, so it ends whatever the
bytes are.
-/

namespace VersionSix.Net

open ByteStore

def DHCP_OFFER : UInt8 := 2
def DHCP_ACK : UInt8 := 5
def DHCP_BOOT_REPLY : UInt8 := 2

def DHCP_OPTION_SUBNET_MASK : UInt8 := 1
def DHCP_OPTION_ROUTER : UInt8 := 3
def DHCP_OPTION_DNS : UInt8 := 6
def DHCP_OPTION_IP_ADDR_LEASE : UInt8 := 51
def DHCP_OPTION_TYPE : UInt8 := 53
def DHCP_OPTION_SERVER_IDENT : UInt8 := 54
def DHCP_OPTION_END : UInt8 := 255

/-! ## Functions -/

structure NetInfo where
  ipv4Address : UInt32
  ipv4AddressAsString : String
  ipv4Dns : UInt32
  ipv4DnsAsString : String
  ipv4Router : UInt32
  ipv4RouterAsString : String
  ipv4SubnetMask : UInt32
  ipv4SubnetMaskAsString : String
  dhcpLeaseTimeInSeconds : UInt32

structure DhcpPacket where
  op : UInt8
  htype : UInt8
  hlen : UInt8
  hops : UInt8
  xid : UInt32
  secs : UInt16
  flags : UInt16
  ciaddr : UInt32
  yiaddr : UInt32
  siaddr : UInt32
  giaddr : UInt32
  chaddr : List UInt8
  sname : List UInt8
  file : List UInt8
  magic : UInt32

structure DhcpState where
  networkingInfo : NetInfo
  dhcpRequestPacket : DhcpPacket
  sendDhcpRequest : Bool

/-- `ip_nota`; its 16 bytes have room for every address. -/
def ipNota (ip : UInt32) : String :=
  toString ((ip &&& 0xFF000000) >>> 24).toNat ++ "." ++
    toString ((ip &&& 0xFF0000) >>> 16).toNat ++ "." ++
    toString ((ip &&& 0xFF00) >>> 8).toNat ++ "." ++ toString (ip &&& 0xFF).toNat

/-- The `switch` of `dhcp_handle_ack`: the information after it, the bytes
that are copied, and `i`. -/
def ackSwitch (options : Bytes) (optionType : UInt8) (i : Nat) (net : NetInfo) :
    NetInfo × List Nat × Nat :=
  let value := field32 options i
  let copied := List.range' i 4
  if optionType = DHCP_OPTION_TYPE then (net, [], i)
  else if optionType = DHCP_OPTION_SERVER_IDENT then (net, [], i)
  else if optionType = DHCP_OPTION_SUBNET_MASK then
    ({ net with ipv4SubnetMask := value, ipv4SubnetMaskAsString := ipNota (htonl value) },
      copied, i)
  else if optionType = DHCP_OPTION_ROUTER then
    ({ net with ipv4Router := value, ipv4RouterAsString := ipNota (htonl value) }, copied, i)
  else if optionType = DHCP_OPTION_DNS then
    ({ net with ipv4Dns := value, ipv4DnsAsString := ipNota (htonl value) }, copied, i)
  else if optionType = DHCP_OPTION_IP_ADDR_LEASE then
    ({ net with dhcpLeaseTimeInSeconds := value }, copied, i)
  else if optionType = DHCP_OPTION_END then (net, [], 255)
  else (net, [], i + 1)

/-- The loop of `dhcp_handle_ack` from `i` on, with the option bytes it reads. -/
def handleAckFrom (options : Bytes) : Nat → Nat → NetInfo → Option (NetInfo × List Nat)
  | 0, i, net => if i < 255 then none else some (net, [])
  | fuel + 1, i, net =>
      if i < 255 then
        let optionType := options i
        let optionSize := options (i + 1)
        let (net, copied, j) := ackSwitch options optionType (i + 2) net
        (handleAckFrom options fuel (j + optionSize.toNat) net).map fun x =>
          (x.1, i :: (i + 1) :: copied ++ x.2)
      else some (net, [])

/-- Every turn moves on by two bytes at least, so 128 of them are enough
(`handleAckFrom_total`). -/
def dhcpHandleAck (packet : DhcpPacket) (options : Bytes) (net : NetInfo) :
    Option (NetInfo × List Nat) :=
  handleAckFrom options 128 0
    { net with ipv4Address := packet.yiaddr, ipv4AddressAsString := ipNota (htonl packet.yiaddr) }

def dhcpHandleOffer (s : DhcpState) (packet : DhcpPacket) : DhcpState :=
  { s with dhcpRequestPacket := packet, sendDhcpRequest := true }

/-- What `dhcp_process_packet` takes a packet for; the other two say so in the
log, with the number. -/
inductive DhcpMessage
  | offer
  | ack
  | unhandledReply (operation : UInt8)
  | unhandled (op : UInt8)
  deriving DecidableEq

/-- The `switch` over the third option byte, for that byte. -/
def replyMessage (operation : UInt8) : DhcpMessage :=
  if operation = DHCP_OFFER then .offer
  else if operation = DHCP_ACK then .ack
  else .unhandledReply operation

def dhcpMessage (packet : DhcpPacket) (options : Bytes) : DhcpMessage :=
  if packet.op = DHCP_BOOT_REPLY then replyMessage (options 2) else .unhandled packet.op

def dhcpProcessPacket (s : DhcpState) (packet : DhcpPacket) (options : Bytes) : Option DhcpState :=
  match dhcpMessage packet options with
  | .offer => some (dhcpHandleOffer s packet)
  | .ack => (dhcpHandleAck packet options s.networkingInfo).map fun x =>
      { s with networkingInfo := x.1 }
  | .unhandledReply _ | .unhandled _ => some s

/-! ## Option lists -/

inductive DhcpOption
  | pad
  | tlv (type : UInt8) (data : List UInt8)
  deriving DecidableEq

def DhcpOption.encode : DhcpOption → List UInt8
  | .pad => [0]
  | .tlv type data => type :: UInt8.ofNat data.length :: data

/-- An option has a type that is none of the two single bytes, and a length
that fits one. -/
def DhcpOption.Proper : DhcpOption → Prop
  | .pad => True
  | .tlv type data => type ≠ 0 ∧ type ≠ DHCP_OPTION_END ∧ data.length < 256

instance : (o : DhcpOption) → Decidable o.Proper
  | .pad => isTrue trivial
  | .tlv type data => inferInstanceAs
      (Decidable (type ≠ 0 ∧ type ≠ DHCP_OPTION_END ∧ data.length < 256))

def encodeOptions (opts : List DhcpOption) : List UInt8 :=
  opts.flatMap DhcpOption.encode ++ [DHCP_OPTION_END]

/-- What `dhcp_handle_ack` stores. -/
inductive AckField
  | subnetMask
  | router
  | dns
  | leaseTime
  deriving DecidableEq

def AckField.type : AckField → UInt8
  | .subnetMask => DHCP_OPTION_SUBNET_MASK
  | .router => DHCP_OPTION_ROUTER
  | .dns => DHCP_OPTION_DNS
  | .leaseTime => DHCP_OPTION_IP_ADDR_LEASE

/-- The number that is stored, and the text beside it. -/
def NetInfo.entry (net : NetInfo) : AckField → UInt32 × Option String
  | .subnetMask => (net.ipv4SubnetMask, some net.ipv4SubnetMaskAsString)
  | .router => (net.ipv4Router, some net.ipv4RouterAsString)
  | .dns => (net.ipv4Dns, some net.ipv4DnsAsString)
  | .leaseTime => (net.dhcpLeaseTimeInSeconds, none)

/-- What an option with this data says of the field. -/
def AckField.entry (f : AckField) (data : List UInt8) : UInt32 × Option String :=
  let value := field32 (fun i => data.getD i 0) 0
  (value, if f = .leaseTime then none else some (ipNota (htonl value)))

/-- A list of options: an address or a time has its four bytes, and what is
stored is not given twice in different ways. -/
structure OptionList (opts : List DhcpOption) : Prop where
  proper : ∀ o ∈ opts, o.Proper
  values : ∀ (f : AckField) d, .tlv f.type d ∈ opts → 4 ≤ d.length
  once : ∀ (f : AckField) d d', .tlv f.type d ∈ opts → .tlv f.type d' ∈ opts → d = d'
  length : (encodeOptions opts).length ≤ 255

/-- The list stands at the beginning of the memory. -/
def Holds (options : Bytes) (opts : List DhcpOption) : Prop :=
  bytesAt options 0 (encodeOptions opts).length = encodeOptions opts

/-- What the list says is in the fields, and nothing else has changed there. -/
structure Stored (opts : List DhcpOption) (net net' : NetInfo) : Prop where
  present : ∀ f d, .tlv f.type d ∈ opts → net'.entry f = f.entry d
  absent : ∀ f, (∀ d, .tlv f.type d ∉ opts) → net'.entry f = net.entry f

/-- `dhcp_handle_ack` returns, with the list in its fields, and reads no option
byte from `bound` on. -/
def StoresList (options : Bytes) (opts : List DhcpOption) (bound : Nat) : Prop :=
  ∀ packet net, ∃ net' reads, dhcpHandleAck packet options net = some (net', reads) ∧
    Stored opts net net' ∧ ∀ k ∈ reads, k < bound

/-- A reply is taken for what its message type says. -/
def Recognises (options : Bytes) (operation : UInt8) : Prop :=
  ∀ packet, packet.op = DHCP_BOOT_REPLY → dhcpMessage packet options = replyMessage operation

def ReadsOptions (options : Bytes) (opts : List DhcpOption) : Prop :=
  StoresList options opts (encodeOptions opts).length ∧
    ∀ m, .tlv DHCP_OPTION_TYPE [m] ∈ opts → Recognises options m

/-- An option of a type that `dhcp.c` has a case for. -/
def Handled : DhcpOption → Prop
  | .pad => False
  | .tlv t _ => t = DHCP_OPTION_TYPE ∨ t = DHCP_OPTION_SERVER_IDENT ∨ ∃ f : AckField, t = f.type

/-! ## The loop -/

theorem handleAckFrom_done (options : Bytes) (fuel : Nat) {i : Nat} (hi : 255 ≤ i)
    (net : NetInfo) : handleAckFrom options fuel i net = some (net, []) := by
  cases fuel <;> exact if_neg (Nat.not_lt.mpr hi)

theorem handleAckFrom_step (options : Bytes) (fuel : Nat) {i : Nat} (hi : i < 255)
    (net : NetInfo) : handleAckFrom options (fuel + 1) i net =
      let r := ackSwitch options (options i) (i + 2) net
      (handleAckFrom options fuel (r.2.2 + (options (i + 1)).toNat) r.1).map fun x =>
        (x.1, i :: (i + 1) :: r.2.1 ++ x.2) :=
  if_pos hi

theorem ackSwitch_le (options : Bytes) (t : UInt8) (i : Nat) (net : NetInfo) :
    i ≤ (ackSwitch options t i net).2.2 ∨ (ackSwitch options t i net).2.2 = 255 := by
  unfold ackSwitch
  split_ifs <;> simp

theorem handleAckFrom_total (options : Bytes) {fuel i : Nat} (hfuel : 255 ≤ i + 2 * fuel)
    (net : NetInfo) : ∃ x, handleAckFrom options fuel i net = some x := by
  induction fuel generalizing i net with
  | zero => exact ⟨_, handleAckFrom_done options 0 hfuel net⟩
  | succ fuel ih =>
      by_cases hi : i < 255
      · have hle := ackSwitch_le options (options i) (i + 2) net
        obtain ⟨x, hx⟩ := ih (i := (ackSwitch options (options i) (i + 2) net).2.2 +
          (options (i + 1)).toNat) (by omega) (ackSwitch options (options i) (i + 2) net).1
        rw [handleAckFrom_step options fuel hi]
        exact ⟨_, congrArg (Option.map _) hx⟩
      · exact ⟨_, handleAckFrom_done options _ (Nat.not_lt.mp hi) net⟩

theorem dhcpHandleAck_total (packet : DhcpPacket) (options : Bytes) (net : NetInfo) :
    ∃ x, dhcpHandleAck packet options net = some x :=
  handleAckFrom_total options (by decide) _

/-! ## Fields -/

def NetInfo.store (net : NetInfo) (value : UInt32) : AckField → NetInfo
  | .subnetMask =>
      { net with ipv4SubnetMask := value, ipv4SubnetMaskAsString := ipNota (htonl value) }
  | .router => { net with ipv4Router := value, ipv4RouterAsString := ipNota (htonl value) }
  | .dns => { net with ipv4Dns := value, ipv4DnsAsString := ipNota (htonl value) }
  | .leaseTime => { net with dhcpLeaseTimeInSeconds := value }

theorem ackSwitch_field (options : Bytes) (f : AckField) (i : Nat) (net : NetInfo) :
    ackSwitch options f.type i net =
      (net.store (field32 options i) f, List.range' i 4, i) := by
  cases f <;> rfl

theorem entry_store_same (net : NetInfo) (value : UInt32) (f : AckField) :
    (net.store value f).entry f =
      (value, if f = .leaseTime then none else some (ipNota (htonl value))) := by
  cases f <;> rfl

theorem entry_store_ne {f g : AckField} (h : g ≠ f) (net : NetInfo) (value : UInt32) :
    (net.store value f).entry g = net.entry g := by
  cases f <;> cases g <;> first | rfl | exact absurd rfl h

theorem AckField.type_injective : Function.Injective AckField.type := by
  intro f g h
  cases f <;> cases g <;> first | rfl | exact absurd h (by decide)

/-! ## Bytes in memory -/

variable {options : Bytes} {opts : List DhcpOption} {off : Nat} {net : NetInfo}

theorem at_append {xs ys : List UInt8} :
    bytesAt options off (xs ++ ys).length = xs ++ ys ↔
      bytesAt options off xs.length = xs ∧
        bytesAt options (off + xs.length) ys.length = ys := by
  rw [List.length_append, bytesAt_add]
  constructor
  · intro h
    exact List.append_inj h (by simp [bytesAt])
  · rintro ⟨hx, hy⟩
    rw [hx, hy]

theorem at_cons {x : UInt8} {xs : List UInt8} :
    bytesAt options off (x :: xs).length = x :: xs ↔
      options off = x ∧ bytesAt options (off + 1) xs.length = xs := by
  have h : bytesAt options off ([x] ++ xs).length = [x] ++ xs ↔ _ := at_append
  rw [List.singleton_append] at h
  rw [h]
  simp [bytesAt]

theorem field32_at {d : List UInt8} (h : bytesAt options off d.length = d) (hlen : 4 ≤ d.length) :
    field32 options off = field32 (fun i => d.getD i 0) 0 := by
  rw [field32, field32]
  congr 1
  refine le_congr fun i hi => ?_
  have hi' : i < (bytesAt options off d.length).length := by
    rw [h]
    omega
  have hget : (bytesAt options off d.length)[i] = options (off + i) := by simp [bytesAt]
  rw [← hget]
  simp only [h, Nat.zero_add]
  rw [List.getD_eq_getElem?_getD, List.getElem?_eq_getElem (by omega), Option.getD_some]

/-! ## Handled options -/

/-- A case of the `switch`, for an option that lies behind `i`. -/
theorem ackSwitch_handled {t : UInt8} {d : List UInt8} (hhandled : Handled (.tlv t d))
    (hvalue : ∀ f : AckField, t = f.type → 4 ≤ d.length)
    (hmem : bytesAt options off d.length = d) (net : NetInfo) :
    ∃ net' copied, ackSwitch options t off net = (net', copied, off) ∧
      (∀ k ∈ copied, k < off + d.length) ∧
      (∀ f : AckField, t = f.type → net'.entry f = f.entry d) ∧
      ∀ f : AckField, t ≠ f.type → net'.entry f = net.entry f := by
  have hnone : ∀ f : AckField, f.type ≠ DHCP_OPTION_TYPE ∧ f.type ≠ DHCP_OPTION_SERVER_IDENT := by
    intro f
    cases f <;> decide
  rcases hhandled with rfl | rfl | ⟨g, rfl⟩
  · exact ⟨net, [], rfl, fun k hk => absurd hk List.not_mem_nil,
      fun f hf => absurd hf.symm (hnone f).1, fun f _ => rfl⟩
  · exact ⟨net, [], rfl, fun k hk => absurd hk List.not_mem_nil,
      fun f hf => absurd hf.symm (hnone f).2, fun f _ => rfl⟩
  · have hlen := hvalue g rfl
    refine ⟨_, _, ackSwitch_field options g off net, fun k hk => ?_, fun f hf => ?_,
      fun f hf => ?_⟩
    · rw [List.mem_range'_1] at hk
      omega
    · obtain rfl := AckField.type_injective hf
      rw [entry_store_same, field32_at hmem hlen]
      rfl
    · exact entry_store_ne (fun hfg => hf (congrArg AckField.type hfg.symm)) _ _

/-- A list all of whose options have a case. -/
structure AllHandled (opts : List DhcpOption) : Prop extends OptionList opts where
  handled : ∀ o ∈ opts, Handled o

theorem length_encodeOptions (t : UInt8) (d : List UInt8) (opts : List DhcpOption) :
    (encodeOptions (.tlv t d :: opts)).length =
      2 + d.length + (encodeOptions opts).length := by
  simp only [encodeOptions, DhcpOption.encode, List.flatMap_cons, List.length_append,
    List.length_cons]
  omega

theorem AllHandled.tail {o : DhcpOption} (h : AllHandled (o :: opts)) : AllHandled opts where
  proper o ho := h.proper o (List.mem_cons_of_mem _ ho)
  values f d hd := h.values f d (List.mem_cons_of_mem _ hd)
  once f d d' hd hd' := h.once f d d' (List.mem_cons_of_mem _ hd) (List.mem_cons_of_mem _ hd')
  length := by
    refine Nat.le_trans ?_ h.length
    simp only [encodeOptions, List.flatMap_cons, List.length_append]
    omega
  handled o ho := h.handled o (List.mem_cons_of_mem _ ho)

theorem Stored.cons {t : UInt8} {d : List UInt8} {net₁ net' : NetInfo}
    (h : Stored opts net₁ net')
    (honce : ∀ (f : AckField) e e', .tlv f.type e ∈ DhcpOption.tlv t d :: opts →
      .tlv f.type e' ∈ DhcpOption.tlv t d :: opts → e = e')
    (hsame : ∀ f : AckField, t = f.type → net₁.entry f = f.entry d)
    (hother : ∀ f : AckField, t ≠ f.type → net₁.entry f = net.entry f) :
    Stored (.tlv t d :: opts) net net' where
  present f d' hd' := by
    by_cases hlater : ∃ d'', .tlv f.type d'' ∈ opts
    · obtain ⟨d'', hd''⟩ := hlater
      obtain rfl := honce f d' d'' hd' (List.mem_cons_of_mem _ hd'')
      exact h.present f d' hd''
    · have hnone : ∀ d'', .tlv f.type d'' ∉ opts := fun d'' hd'' => hlater ⟨d'', hd''⟩
      rcases List.mem_cons.mp hd' with heq | hin
      · obtain ⟨rfl, rfl⟩ := DhcpOption.tlv.inj heq
        rw [h.absent f hnone, hsame f rfl]
      · exact absurd hin (hnone d')
  absent f hf := by
    have htf : t ≠ f.type := fun htf => hf d (htf ▸ List.mem_cons_self ..)
    rw [h.absent f fun d' hd' => hf d' (List.mem_cons_of_mem _ hd'), hother f htf]

/-- The loop from a place where the cursor stands on the first of some options
that all have a case. -/
theorem handleAckFrom_handled (h : AllHandled opts)
    (hmem : bytesAt options off (encodeOptions opts).length = encodeOptions opts)
    (hend : off + (encodeOptions opts).length ≤ 255) {fuel : Nat} (hfuel : 255 ≤ off + 2 * fuel)
    (net : NetInfo) :
    ∃ net' reads, handleAckFrom options fuel off net = some (net', reads) ∧
      Stored opts net net' ∧ ∀ k ∈ reads, k < off + (encodeOptions opts).length + 1 := by
  induction opts generalizing off fuel net with
  | nil =>
      have hbyte : options off = DHCP_OPTION_END := (at_cons.mp hmem).1
      have hone : (encodeOptions []).length = 1 := rfl
      rw [hone] at hend ⊢
      obtain ⟨n, rfl⟩ : ∃ n, fuel = n + 1 := ⟨fuel - 1, by omega⟩
      have hstop : ackSwitch options DHCP_OPTION_END (off + 2) net = (net, [], 255) := rfl
      rw [handleAckFrom_step options n (by omega), hbyte]
      dsimp only
      rw [hstop, handleAckFrom_done options n (by simp) net]
      refine ⟨net, _, rfl, ⟨fun f d hd => absurd hd List.not_mem_nil, fun f _ => rfl⟩, ?_⟩
      intro k hk
      simp only [List.append_nil, List.mem_cons, List.not_mem_nil, or_false] at hk
      omega
  | cons o opts ih =>
      cases o with
      | pad => exact absurd (h.handled .pad (List.mem_cons_self ..)) id
      | tlv t d =>
          have hmem' : bytesAt options off (t :: UInt8.ofNat d.length ::
              (d ++ encodeOptions opts)).length =
                t :: UInt8.ofNat d.length :: (d ++ encodeOptions opts) := by
            simpa [encodeOptions, DhcpOption.encode] using hmem
          obtain ⟨htype, hmem'⟩ := at_cons.mp hmem'
          obtain ⟨hlength, hmem'⟩ := at_cons.mp hmem'
          obtain ⟨hdata, hrest⟩ := at_append.mp hmem'
          have hskip : (options (off + 1)).toNat = d.length :=
            (congrArg UInt8.toNat hlength).trans
              (UInt8.toNat_ofNat_of_lt' (h.proper _ (List.mem_cons_self ..)).2.2)
          rw [length_encodeOptions] at hend ⊢
          have hpos : 0 < (encodeOptions opts).length := by simp [encodeOptions]
          obtain ⟨n, rfl⟩ : ∃ n, fuel = n + 1 := ⟨fuel - 1, by omega⟩
          obtain ⟨net₁, copied, hswitch, hcopied, hsame, hother⟩ :=
            ackSwitch_handled (h.handled _ (List.mem_cons_self ..))
              (fun f hf => h.values f d (hf ▸ List.mem_cons_self ..)) hdata net
          have hfuel' : 255 ≤ off + 1 + 1 + d.length + 2 * n := by omega
          obtain ⟨net', reads, hloop, hstored, hreads⟩ :=
            ih h.tail hrest (by omega) hfuel' net₁
          refine ⟨net', off :: (off + 1) :: copied ++ reads, ?_, hstored.cons h.once hsame hother,
            fun k hk => ?_⟩
          · rw [handleAckFrom_step options n (by omega), htype]
            dsimp only
            rw [show off + 2 = off + 1 + 1 from rfl, hswitch, hskip, hloop]
            rfl
          · rw [List.mem_append, List.mem_cons, List.mem_cons] at hk
            rcases hk with (rfl | rfl | hk) | hk
            · omega
            · omega
            · have := hcopied k hk
              omega
            · have := hreads k hk
              omega

theorem storesList_handled (h : AllHandled opts) (hmem : Holds options opts) :
    StoresList options opts ((encodeOptions opts).length + 1) := by
  intro packet net
  have hend : 0 + (encodeOptions opts).length ≤ 255 := by
    rw [Nat.zero_add]
    exact h.length
  obtain ⟨net', reads, hloop, hstored, hreads⟩ := handleAckFrom_handled h hmem hend
    (show 255 ≤ 0 + 2 * 128 by decide) { net with
      ipv4Address := packet.yiaddr, ipv4AddressAsString := ipNota (htonl packet.yiaddr) }
  rw [Nat.zero_add] at hreads
  refine ⟨net', reads, hloop, ⟨hstored.present, fun f hf => ?_⟩, hreads⟩
  rw [hstored.absent f hf]
  cases f <;> rfl

/-! ## Message type -/

/-- The third byte is the message type of a list that begins with it. -/
theorem recognises_first {m : UInt8} (hmem : Holds options opts)
    (hfirst : opts.head? = some (.tlv DHCP_OPTION_TYPE [m])) : Recognises options m := by
  obtain ⟨rest, rfl⟩ : ∃ rest, opts = .tlv DHCP_OPTION_TYPE [m] :: rest := by
    cases opts with
    | nil => cases hfirst
    | cons o rest => exact ⟨rest, by rw [Option.some.inj hfirst]⟩
  have hmem' : bytesAt options 0 (DHCP_OPTION_TYPE :: 1 :: m :: encodeOptions rest).length =
      DHCP_OPTION_TYPE :: 1 :: m :: encodeOptions rest := hmem
  have hthird : options 2 = m := (at_cons.mp (at_cons.mp (at_cons.mp hmem').2).2).1
  intro packet hop
  rw [dhcpMessage, if_pos hop, hthird]

/-- **Options.** A list of options that have a case is stored whatever its
order, with one byte behind it read at most; and the message type is recognised
where it stands first. The memory behind the list holds anything; the one byte
of it that is read is taken for the length of END. -/
theorem dhcp_options_read (h : OptionList opts) (hmem : Holds options opts) :
    ((∀ o ∈ opts, Handled o) → StoresList options opts ((encodeOptions opts).length + 1)) ∧
      ∀ m, opts.head? = some (.tlv DHCP_OPTION_TYPE [m]) → Recognises options m :=
  ⟨fun hhandled => storesList_handled ⟨h, hhandled⟩ hmem, fun _ => recognises_first hmem⟩

def optionBytes (opts : List DhcpOption) : Bytes := fun i => (encodeOptions opts).getD i 0

theorem holds_optionBytes (opts : List DhcpOption) : Holds (optionBytes opts) opts := by
  refine List.ext_getElem (length_bytesAt ..) fun i hi hi' => ?_
  simp [bytesAt, optionBytes, List.getD_eq_getElem?_getD, List.getElem?_eq_getElem hi']

def fieldData (opts : List DhcpOption) (f : AckField) : List (List UInt8) :=
  opts.filterMap fun
    | .pad => none
    | .tlv t d => if t = f.type then some d else none

theorem mem_fieldData {f : AckField} {d : List UInt8} :
    d ∈ fieldData opts f ↔ .tlv f.type d ∈ opts := by
  rw [fieldData, List.mem_filterMap]
  constructor
  · rintro ⟨o, ho, hd⟩
    cases o with
    | pad => cases hd
    | tlv t e =>
        dsimp only at hd
        split at hd
        · next ht =>
            obtain rfl := Option.some.inj hd
            rwa [← ht]
        · cases hd
  · intro hd
    exact ⟨_, hd, if_pos rfl⟩

theorem optionList_of_check
    (hproper : ∀ o ∈ opts, o.Proper)
    (hfields : ∀ f ∈ [AckField.subnetMask, .router, .dns, .leaseTime],
      (fieldData opts f).length ≤ 1 ∧ ∀ d ∈ fieldData opts f, 4 ≤ d.length)
    (hlength : (encodeOptions opts).length ≤ 255) : OptionList opts := by
  have hall : ∀ f : AckField, f ∈ [AckField.subnetMask, .router, .dns, .leaseTime] := by
    intro f
    cases f <;> simp
  refine ⟨hproper, fun f d hd => ?_, fun f d d' hd hd' => ?_, hlength⟩
  · exact (hfields f (hall f)).2 d (mem_fieldData.mpr hd)
  · have hone := (hfields f (hall f)).1
    rw [← mem_fieldData] at hd hd'
    generalize fieldData opts f = ds at hone hd hd'
    match ds, hone with
    | [], _ => cases hd
    | [e], _ => rw [List.mem_singleton.mp hd, List.mem_singleton.mp hd']

/-- An acknowledgement with a DNS server and a subnet mask. -/
def dnsThenMask : List DhcpOption :=
  [.tlv DHCP_OPTION_TYPE [5], .tlv DHCP_OPTION_DNS [8, 8, 8, 8],
    .tlv DHCP_OPTION_SUBNET_MASK [255, 255, 255, 0]]

theorem dhcp_options_read_mask :
    StoresList (optionBytes dnsThenMask) dnsThenMask 17 ∧
      Recognises (optionBytes dnsThenMask) 5 := by
  have hlist : OptionList dnsThenMask := optionList_of_check (by decide) (by decide) (by decide)
  obtain ⟨hstores, hfirst⟩ := dhcp_options_read hlist (holds_optionBytes dnsThenMask)
  refine ⟨hstores fun o ho => ?_, hfirst 5 rfl⟩
  simp only [dnsThenMask, List.mem_cons, List.not_mem_nil, or_false] at ho
  rcases ho with rfl | rfl | rfl
  · exact .inl rfl
  · exact .inr (.inr ⟨.dns, rfl⟩)
  · exact .inr (.inr ⟨.subnetMask, rfl⟩)

/-- A renewal time, which `dhcp.c` has no case for, before the subnet mask. -/
def renewalThenMask : List DhcpOption :=
  [.tlv DHCP_OPTION_TYPE [5], .tlv 58 [0, 0, 7, 8], .tlv DHCP_OPTION_SUBNET_MASK [255, 255, 255, 0]]

def typeOnly : List DhcpOption := [.tlv DHCP_OPTION_TYPE [5]]

def serverThenType : List DhcpOption :=
  [.tlv DHCP_OPTION_SERVER_IDENT [10, 0, 2, 2], .tlv DHCP_OPTION_TYPE [5]]

def noInfo : NetInfo := ⟨0, "", 0, "", 0, "", 0, "", 0⟩

def ackPacket : DhcpPacket := ⟨DHCP_BOOT_REPLY, 1, 6, 0, 55, 0, 0, 0, 0, 0, 0, [], [], [], 0⟩

/-- The subnet mask behind an unknown option is not stored, a byte behind END is
read, and a type that does not come first is not recognised. -/
theorem options_misread :
    (OptionList renewalThenMask ∧ ¬ ReadsOptions (optionBytes renewalThenMask) renewalThenMask ∧
      ((dhcpHandleAck ackPacket (optionBytes renewalThenMask) noInfo).map
        fun x => x.1.ipv4SubnetMask) = some 0) ∧
    (OptionList typeOnly ∧ ¬ ReadsOptions (optionBytes typeOnly) typeOnly ∧
      ((dhcpHandleAck ackPacket (optionBytes typeOnly) noInfo).map Prod.snd) =
        some [0, 1, 3, 4]) ∧
    (OptionList serverThenType ∧ ¬ ReadsOptions (optionBytes serverThenType) serverThenType ∧
      dhcpMessage ackPacket (optionBytes serverThenType) = .unhandledReply 10) := by
  have hmask : ((dhcpHandleAck ackPacket (optionBytes renewalThenMask) noInfo).map
      fun x => x.1.ipv4SubnetMask) = some 0 := by decide +kernel
  have hreads : ((dhcpHandleAck ackPacket (optionBytes typeOnly) noInfo).map Prod.snd) =
      some [0, 1, 3, 4] := by decide +kernel
  have hserver : dhcpMessage ackPacket (optionBytes serverThenType) = .unhandledReply 10 := by
    decide
  refine ⟨⟨optionList_of_check (by decide) (by decide) (by decide), fun h => ?_, hmask⟩,
    ⟨optionList_of_check (by decide) (by decide) (by decide), fun h => ?_, hreads⟩,
    ⟨optionList_of_check (by decide) (by decide) (by decide), fun h => ?_, hserver⟩⟩
  · obtain ⟨net', reads, hack, hstored, -⟩ := h.1 ackPacket noInfo
    have hentry := congrArg Prod.fst
      (hstored.present .subnetMask [255, 255, 255, 0] (by decide))
    rw [hack, Option.map_some] at hmask
    have hzero : net'.ipv4SubnetMask = 0 := Option.some.inj hmask
    have hvalue : net'.ipv4SubnetMask = 0xFFFFFF := hentry
    rw [hzero] at hvalue
    cases hvalue
  · obtain ⟨net', reads, hack, -, hbound⟩ := h.1 ackPacket noInfo
    rw [hack, Option.map_some] at hreads
    have hlist : reads = [0, 1, 3, 4] := Option.some.inj hreads
    have hlast := hbound 4 (by simp [hlist])
    exact absurd hlast (by decide)
  · have hrecognised := h.2 5 (by decide) ackPacket rfl
    rw [hserver] at hrecognised
    cases hrecognised

end VersionSix.Net
