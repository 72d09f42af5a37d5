import Mathlib.Data.List.Sort
import VersionSix.BoundedTable

/-!
# Enumeration of the PCI bus

`pci_initalize` reads the header of each function it finds into the table
`pci_devices`, which has 15 slots. It goes on to the functions 1 to 7 of a
device only if the header type is the multi-function bit and nothing else, so a
bridge with more functions is cut to its first (`pci_enumeration_iff`).

The three loops are one list of places in order, of which two filters take
their part: what answers and is to be recorded, and what the code does not
leave out. The table is then a bounded list (`BoundedTable`), and whether it is
right comes down to the filters taking the same places and the table having
room for them.

Nothing is assumed about the ports: an answer for every address is any
function, also one that no hardware gives.
-/

namespace VersionSix.Pci

open BoundedTable

/-! ## Functions -/

/-- What `PCI_CONFIG_DATA` answers for each address in `PCI_CONFIG_ADDRESS`. -/
abbrev Ports := UInt32 → UInt32

def pciConfigRead (ports : Ports) (bus device function offset : UInt8) : UInt16 :=
  let address := (bus.toUInt32 <<< 16) ||| (device.toUInt32 <<< 11) |||
    (function.toUInt32 <<< 8) ||| (offset &&& 0xfc).toUInt32 ||| 0x80000000
  (ports address >>> (8 * (offset &&& 0x3).toUInt32)).toUInt16

def pciReadLong (ports : Ports) (bus device func : UInt16) (field : UInt32) : UInt32 :=
  ports ((0x80000000 : UInt32) ||| (bus.toUInt8.toUInt32 <<< 16) |||
    (device.toUInt8.toUInt32 <<< 11) ||| (func.toUInt8.toUInt32 <<< 8) ||| (field &&& 0xFC))

/-- A header as it is read: 16 longs. -/
structure PciHeader where
  longs : List UInt32
  length_eq : longs.length = 16
  deriving DecidableEq

namespace PciHeader

def long (h : PciHeader) (i : Fin 16) : UInt32 :=
  h.longs.get (i.cast h.length_eq.symm)

def deviceId (h : PciHeader) : UInt16 := (h.long 0 >>> 16).toUInt16

def headerType (h : PciHeader) : UInt8 := (h.long 3 >>> 16).toUInt8

end PciHeader

def pciReadHeader (ports : Ports) (bus device function : UInt8) : PciHeader where
  longs := (List.range 16).map fun x =>
    pciReadLong ports bus.toUInt16 device.toUInt16 function.toUInt16 (UInt32.ofNat (4 * x))
  length_eq := by rw [List.length_map, List.length_range]

/-- The values of `for( x = first; x < first + count; x++ )`. -/
def loop (first count : Nat) : List UInt8 := (List.range' first count).map UInt8.ofNat

def functionTurn (ports : Ports) (bus device : UInt8) (pciDevices : List PciHeader) (f : UInt8) :
    Option (List PciHeader) :=
  if pciConfigRead ports bus device f 0 ≠ 0xFFFF then
    append 15 pciDevices (pciReadHeader ports bus device f)
  else some pciDevices

def deviceTurn (ports : Ports) (bus : UInt8) (pciDevices : List PciHeader) (device : UInt8) :
    Option (List PciHeader) :=
  if pciConfigRead ports bus device 0 0 ≠ 0xFFFF then
    let header := pciReadHeader ports bus device 0
    (append 15 pciDevices header).bind fun pciDevices =>
      if header.headerType = 0x80 then (loop 1 7).foldlM (functionTurn ports bus device) pciDevices
      else some pciDevices
  else some pciDevices

/-- The table after `pci_initalize`; `none` is a header written behind it. -/
def pciInitalize (ports : Ports) : Option (List PciHeader) :=
  (loop 0 0xFF).foldlM
    (fun pciDevices bus => (loop 0 32).foldlM (deviceTurn ports bus) pciDevices) []

def pciGetHeaderByDeviceId : List PciHeader → UInt32 → Option PciHeader
  | [], _ => none
  | header :: pciDevices, deviceId =>
      if header.deviceId.toUInt32 = deviceId then some header
      else pciGetHeaderByDeviceId pciDevices deviceId

/-! ## Statement -/

structure Location where
  bus : UInt8
  device : UInt8
  function : UInt8
  deriving DecidableEq

namespace Location

def present (ports : Ports) (l : Location) : Bool :=
  pciConfigRead ports l.bus l.device l.function 0 ≠ 0xFFFF

def header (ports : Ports) (l : Location) : PciHeader :=
  pciReadHeader ports l.bus l.device l.function

def place (l : Location) : Nat := l.bus.toNat * 256 + l.device.toNat * 8 + l.function.toNat

def Before (l l' : Location) : Prop := InvImage (· < ·) place l l'

def first (l : Location) : Location := ⟨l.bus, l.device, 0⟩

end Location

def multiFunction (h : PciHeader) : Bool := h.headerType &&& 0x80 ≠ 0

def ToRecord (ports : Ports) (l : Location) : Prop :=
  l.bus < 0xFF ∧ l.device < 32 ∧ l.first.present ports ∧
    (l.function = 0 ∨
      multiFunction (l.first.header ports) ∧ 1 ≤ l.function ∧ l.function < 8 ∧ l.present ports)

/-- Each function is recorded once, in order and inside of the table, and a lookup
finds a recorded header exactly if one has the id. -/
def Enumerated (ports : Ports) : Prop :=
  ∃ locations : List Location, ∃ pciDevices,
    locations.Pairwise Location.Before ∧ (∀ l, l ∈ locations ↔ ToRecord ports l) ∧
    pciInitalize ports = some pciDevices ∧
    pciDevices = locations.map (Location.header ports) ∧
    ∀ id, (∀ h, pciGetHeaderByDeviceId pciDevices id = some h →
        h ∈ pciDevices ∧ h.deviceId.toUInt32 = id) ∧
      (pciGetHeaderByDeviceId pciDevices id = none ↔ ∀ h ∈ pciDevices, h.deviceId.toUInt32 ≠ id)

/-! ## What is found -/

def functionsOf (ports : Ports) (multi : PciHeader → Bool) (bus device : UInt8) : List Location :=
  if Location.present ports ⟨bus, device, 0⟩ then
    ⟨bus, device, 0⟩ ::
      if multi (Location.header ports ⟨bus, device, 0⟩) then
        ((loop 1 7).map (Location.mk bus device)).filter (Location.present ports)
      else []
  else []

/-- The functions found if `multi` decides on those after the first. -/
def found (ports : Ports) (multi : PciHeader → Bool) : List Location :=
  (loop 0 0xFF).flatMap fun bus => (loop 0 32).flatMap (functionsOf ports multi bus)

/-- The functions that are to be recorded, in the order of the loops. -/
def presentFunctions (ports : Ports) : List Location := found ports multiFunction

/-- A device with functions behind the first says so with the bit alone. -/
def PlainMultiFunction (ports : Ports) : Prop :=
  ∀ l, ToRecord ports l → l.function ≠ 0 → (l.first.header ports).headerType = 0x80

theorem mem_loop {first count : Nat} {x : UInt8} (h : first + count ≤ 256) :
    x ∈ loop first count ↔ first ≤ x.toNat ∧ x.toNat < first + count := by
  simp only [loop, List.mem_map, List.mem_range'_1]
  constructor
  · rintro ⟨i, ⟨hle, hlt⟩, rfl⟩
    rw [UInt8.toNat_ofNat_of_lt' (show i < 256 by omega)]
    exact ⟨hle, hlt⟩
  · rintro ⟨hle, hlt⟩
    exact ⟨x.toNat, ⟨hle, hlt⟩, UInt8.ofNat_toNat⟩

theorem loop_pairwise {first count : Nat} (h : first + count ≤ 256) :
    (loop first count).Pairwise fun x y => x.toNat < y.toNat := by
  rw [loop, List.pairwise_map]
  have hrange : (List.range' first count).Pairwise (· < ·) := List.pairwise_lt_range'
  refine hrange.imp_of_mem fun {x y} hx hy hlt => ?_
  rw [List.mem_range'_1] at hx hy
  rw [UInt8.toNat_ofNat_of_lt' (show x < 256 by omega),
    UInt8.toNat_ofNat_of_lt' (show y < 256 by omega)]
  exact hlt

variable {ports : Ports} {multi : PciHeader → Bool} {bus device : UInt8} {l : Location}

theorem mem_rest {p : Location → Bool} :
    l ∈ ((loop 1 7).map (Location.mk bus device)).filter p ↔
      l.bus = bus ∧ l.device = device ∧ 1 ≤ l.function ∧ l.function < 8 ∧ p l := by
  rw [List.mem_filter, List.mem_map]
  constructor
  · rintro ⟨⟨f, hf, rfl⟩, hp⟩
    obtain ⟨hle, hlt⟩ := (mem_loop (by omega)).mp hf
    exact ⟨rfl, rfl, UInt8.le_iff_toNat_le.mpr hle, UInt8.lt_iff_toNat_lt.mpr hlt, hp⟩
  · rintro ⟨rfl, rfl, hle, hlt, hp⟩
    refine ⟨⟨l.function, (mem_loop (by omega)).mpr ⟨?_, ?_⟩, rfl⟩, hp⟩
    · exact UInt8.le_iff_toNat_le.mp hle
    · exact UInt8.lt_iff_toNat_lt.mp hlt

theorem Location.eq_first (h : l.function = 0) : l = l.first := by
  cases l
  cases h
  rfl

theorem mem_functionsOf :
    l ∈ functionsOf ports multi bus device ↔
      l.bus = bus ∧ l.device = device ∧ l.first.present ports ∧
        (l.function = 0 ∨
          multi (l.first.header ports) ∧ 1 ≤ l.function ∧ l.function < 8 ∧ l.present ports) := by
  unfold functionsOf
  constructor
  · intro hl
    split at hl
    case isTrue hpresent =>
      rcases List.mem_cons.mp hl with rfl | hl
      · exact ⟨rfl, rfl, hpresent, Or.inl rfl⟩
      · split at hl
        case isTrue hmulti =>
          obtain ⟨rfl, rfl, hle, hlt, hl⟩ := mem_rest.mp hl
          exact ⟨rfl, rfl, hpresent, Or.inr ⟨hmulti, hle, hlt, hl⟩⟩
        case isFalse => cases hl
    case isFalse => cases hl
  · rintro ⟨rfl, rfl, hpresent, hfunction⟩
    have hpresent' : Location.present ports ⟨l.bus, l.device, 0⟩ = true := hpresent
    rw [if_pos hpresent', List.mem_cons]
    rcases hfunction with hzero | ⟨hmulti, hrest⟩
    · exact Or.inl (Location.eq_first hzero)
    · have hmulti' : multi (Location.header ports ⟨l.bus, l.device, 0⟩) = true := hmulti
      rw [if_pos hmulti']
      exact Or.inr (mem_rest.mpr ⟨rfl, rfl, hrest⟩)

theorem mem_found :
    l ∈ found ports multi ↔
      l.bus < 0xFF ∧ l.device < 32 ∧ l.first.present ports ∧
        (l.function = 0 ∨
          multi (l.first.header ports) ∧ 1 ≤ l.function ∧ l.function < 8 ∧ l.present ports) := by
  simp only [found, List.mem_flatMap, mem_functionsOf]
  constructor
  · rintro ⟨bus, hbus, device, hdevice, rfl, rfl, hl⟩
    obtain ⟨-, hbus⟩ := (mem_loop (by omega)).mp hbus
    obtain ⟨-, hdevice⟩ := (mem_loop (by omega)).mp hdevice
    exact ⟨UInt8.lt_iff_toNat_lt.mpr hbus, UInt8.lt_iff_toNat_lt.mpr hdevice, hl⟩
  · rintro ⟨hbus, hdevice, hl⟩
    refine ⟨l.bus, (mem_loop (by omega)).mpr ⟨Nat.zero_le _, ?_⟩, l.device,
      (mem_loop (by omega)).mpr ⟨Nat.zero_le _, ?_⟩, rfl, rfl, hl⟩
    · exact UInt8.lt_iff_toNat_lt.mp hbus
    · exact UInt8.lt_iff_toNat_lt.mp hdevice

theorem mem_presentFunctions : l ∈ presentFunctions ports ↔ ToRecord ports l := mem_found

theorem functionsOf_pairwise :
    (functionsOf ports multi bus device).Pairwise Location.Before := by
  unfold functionsOf
  split
  · refine List.pairwise_cons.mpr ⟨fun l hl => ?_, ?_⟩
    · split at hl
      · obtain ⟨rfl, rfl, hle, -, -⟩ := mem_rest.mp hl
        have hle : 1 ≤ l.function.toNat := UInt8.le_iff_toNat_le.mp hle
        simp only [Location.Before, InvImage, Location.place, UInt8.toNat_zero]
        omega
      · cases hl
    · split
      · refine List.Pairwise.filter _ (List.pairwise_map.mpr ?_)
        refine (loop_pairwise (by omega)).imp fun hlt => ?_
        simp only [Location.Before, InvImage, Location.place]
        omega
      · exact List.Pairwise.nil
  · exact List.Pairwise.nil

theorem mem_functionsOf_bounds (hl : l ∈ functionsOf ports multi bus device) :
    l.bus = bus ∧ l.device = device ∧ l.function.toNat < 8 := by
  obtain ⟨hbus, hdevice, -, hfunction⟩ := mem_functionsOf.mp hl
  refine ⟨hbus, hdevice, ?_⟩
  rcases hfunction with hzero | ⟨-, -, hlt, -⟩
  · rw [hzero]
    decide
  · exact UInt8.lt_iff_toNat_lt.mp hlt

/-- The functions of one device come before those of a later one. -/
theorem functionsOf_before {bus' device' : UInt8} {l' : Location}
    (hl : l ∈ functionsOf ports multi bus device) (hl' : l' ∈ functionsOf ports multi bus' device')
    (hlt : bus.toNat * 32 + device.toNat < bus'.toNat * 32 + device'.toNat) : l.Before l' := by
  obtain ⟨hbus, hdevice, hf⟩ := mem_functionsOf_bounds hl
  obtain ⟨hbus', hdevice', hf'⟩ := mem_functionsOf_bounds hl'
  simp only [Location.Before, InvImage, Location.place, hbus, hbus', hdevice, hdevice']
  omega

theorem found_pairwise : (found ports multi).Pairwise Location.Before := by
  unfold found
  refine List.pairwise_flatMap.mpr ⟨fun bus _ => ?_, ?_⟩
  · refine List.pairwise_flatMap.mpr ⟨fun device _ => functionsOf_pairwise, ?_⟩
    refine (loop_pairwise (by omega)).imp fun hlt l hl l' hl' => ?_
    exact functionsOf_before hl hl' (by omega)
  · refine (loop_pairwise (by omega)).imp fun hlt l hl l' hl' => ?_
    obtain ⟨device, hdev, hl⟩ := List.mem_flatMap.mp hl
    obtain ⟨device', hdev', hl'⟩ := List.mem_flatMap.mp hl'
    obtain ⟨-, hdev⟩ := (mem_loop (by omega)).mp hdev
    obtain ⟨-, hdev'⟩ := (mem_loop (by omega)).mp hdev'
    exact functionsOf_before hl hl' (by omega)

/-! ## The loops -/

/-- The comparison of the code: the bit and nothing else. -/
def plainMulti (h : PciHeader) : Bool := h.headerType = 0x80

def headersOf (ports : Ports) (bus device : UInt8) : List PciHeader :=
  (functionsOf ports plainMulti bus device).map (Location.header ports)

theorem functionTurn_eq {t : List PciHeader} (ht : t.length ≤ 15) (f : UInt8) :
    functionTurn ports bus device t f =
      appendAll 15 t (([⟨bus, device, f⟩].filter (Location.present ports)).map
        (Location.header ports)) := by
  unfold functionTurn
  by_cases h : pciConfigRead ports bus device f 0 ≠ 0xFFFF
  · have hpresent : Location.present ports ⟨bus, device, f⟩ = true := decide_eq_true h
    rw [if_pos h, append_eq, List.filter_cons_of_pos hpresent]
    rfl
  · rw [if_neg h, List.filter_cons_of_neg (by simpa [Location.present] using h)]
    exact (appendAll_nil ht).symm

theorem functionLoop_eq {t : List PciHeader} (ht : t.length ≤ 15) :
    (loop 1 7).foldlM (functionTurn ports bus device) t =
      appendAll 15 t ((((loop 1 7).map (Location.mk bus device)).filter
        (Location.present ports)).map (Location.header ports)) := by
  rw [foldlM_appendAll (fun f _ t ht => functionTurn_eq ht f) ht,
    List.map_eq_flatMap (f := Location.mk bus device), List.filter_flatMap, List.map_flatMap]

theorem deviceTurn_eq {t : List PciHeader} (ht : t.length ≤ 15) :
    deviceTurn ports bus t device = appendAll 15 t (headersOf ports bus device) := by
  unfold deviceTurn headersOf functionsOf
  by_cases h : pciConfigRead ports bus device 0 0 ≠ 0xFFFF
  · have hpresent : Location.present ports ⟨bus, device, 0⟩ = true := decide_eq_true h
    rw [if_pos h, if_pos hpresent, List.map_cons]
    show (append 15 t (Location.header ports ⟨bus, device, 0⟩)).bind _ = _
    rw [append_eq]
    refine bind_appendAll fun t ht => ?_
    by_cases hmulti : (Location.header ports ⟨bus, device, 0⟩).headerType = 0x80
    · have hplain : plainMulti (Location.header ports ⟨bus, device, 0⟩) = true :=
        decide_eq_true hmulti
      rw [if_pos hplain]
      exact (if_pos hmulti).trans (functionLoop_eq ht)
    · have hplain : ¬ plainMulti (Location.header ports ⟨bus, device, 0⟩) = true := by
        simpa [plainMulti] using hmulti
      rw [if_neg hplain]
      exact (if_neg hmulti).trans (appendAll_nil ht).symm
  · have habsent : ¬ Location.present ports ⟨bus, device, 0⟩ = true := by
      simpa [Location.present] using h
    rw [if_neg h, if_neg habsent]
    exact (appendAll_nil ht).symm

theorem pciInitalize_eq :
    pciInitalize ports =
      appendAll 15 [] ((found ports plainMulti).map (Location.header ports)) := by
  have hbus : ∀ bus ∈ loop 0 0xFF, ∀ t : List PciHeader, t.length ≤ 15 →
      (loop 0 32).foldlM (deviceTurn ports bus) t =
        appendAll 15 t ((loop 0 32).flatMap (headersOf ports bus)) :=
    fun bus _ t ht => foldlM_appendAll (fun device _ t ht => deviceTurn_eq ht) ht
  rw [pciInitalize, foldlM_appendAll hbus (Nat.zero_le _), found, List.map_flatMap]
  simp only [List.map_flatMap]
  rfl

/-! ## The lookup -/

theorem pciGetHeaderByDeviceId_spec (pciDevices : List PciHeader) (id : UInt32) :
    (∀ h, pciGetHeaderByDeviceId pciDevices id = some h →
        h ∈ pciDevices ∧ h.deviceId.toUInt32 = id) ∧
      (pciGetHeaderByDeviceId pciDevices id = none ↔
        ∀ h ∈ pciDevices, h.deviceId.toUInt32 ≠ id) := by
  induction pciDevices with
  | nil => simp [pciGetHeaderByDeviceId]
  | cons header pciDevices ih =>
      obtain ⟨hsome, hnone⟩ := ih
      rw [pciGetHeaderByDeviceId]
      by_cases hid : header.deviceId.toUInt32 = id
      · rw [if_pos hid]
        refine ⟨fun h heq => ?_, by simp [hid]⟩
        obtain rfl := Option.some.inj heq
        exact ⟨List.mem_cons_self .., hid⟩
      · rw [if_neg hid]
        refine ⟨fun h heq => ?_, ?_⟩
        · obtain ⟨hmem, heq⟩ := hsome h heq
          exact ⟨List.mem_cons_of_mem _ hmem, heq⟩
        · rw [hnone, List.forall_mem_cons]
          exact (and_iff_right hid).symm

/-! ## Main result -/

instance : Std.Irrefl Location.Before := inferInstanceAs (Std.Irrefl (InvImage (· < ·) _))

instance : Std.Antisymm Location.Before := ⟨fun _ _ h h' => absurd h (Nat.lt_asymm h')⟩

theorem Location.eq_of_mem_iff {l₁ l₂ : List Location} (h₁ : l₁.Pairwise Before)
    (h₂ : l₂.Pairwise Before) (h : ∀ l, l ∈ l₁ ↔ l ∈ l₂) : l₁ = l₂ :=
  h₁.eq_of_mem_iff h₂ (fun {l} => h l)

def reached (ports : Ports) (l : Location) : Bool :=
  l.function = 0 ∨ (l.first.header ports).headerType = 0x80

theorem plainMulti_multiFunction {h : PciHeader} (hplain : plainMulti h) : multiFunction h := by
  rw [multiFunction, of_decide_eq_true hplain]
  decide

theorem found_plain : found ports plainMulti = (presentFunctions ports).filter (reached ports) := by
  refine Location.eq_of_mem_iff found_pairwise (found_pairwise.filter _) fun l => ?_
  rw [List.mem_filter, mem_presentFunctions, mem_found]
  constructor
  · rintro ⟨hbus, hdevice, hfirst, hzero | ⟨hplain, hrest⟩⟩
    · exact ⟨⟨hbus, hdevice, hfirst, Or.inl hzero⟩, decide_eq_true (Or.inl hzero)⟩
    · exact ⟨⟨hbus, hdevice, hfirst, Or.inr ⟨plainMulti_multiFunction hplain, hrest⟩⟩,
        decide_eq_true (Or.inr (of_decide_eq_true hplain))⟩
  · rintro ⟨⟨hbus, hdevice, hfirst, hfunction⟩, hreached⟩
    refine ⟨hbus, hdevice, hfirst, ?_⟩
    rcases hfunction with hzero | ⟨-, hrest⟩
    · exact Or.inl hzero
    · rcases of_decide_eq_true hreached with hzero | hplain
      · exact Or.inl hzero
      · exact Or.inr ⟨decide_eq_true hplain, hrest⟩

theorem all_reached_iff :
    (∀ l ∈ presentFunctions ports, reached ports l) ↔ PlainMultiFunction ports := by
  constructor
  · intro h l hl hf
    rcases of_decide_eq_true (h l (mem_presentFunctions.mpr hl)) with hzero | hplain
    · exact absurd hzero hf
    · exact hplain
  · intro h l hl
    by_cases hf : l.function = 0
    · exact decide_eq_true (Or.inl hf)
    · exact decide_eq_true (Or.inr (h l (mem_presentFunctions.mp hl) hf))

theorem Enumerated.lengths (h : Enumerated ports) :
    (presentFunctions ports).length ≤ 15 ∧
      (found ports plainMulti).length = (presentFunctions ports).length := by
  obtain ⟨locations, pciDevices, hordered, hmem, hrun, rfl, -⟩ := h
  have hlocations : locations = presentFunctions ports :=
    Location.eq_of_mem_iff hordered found_pairwise fun l =>
      (hmem l).trans mem_presentFunctions.symm
  rw [pciInitalize_eq] at hrun
  obtain ⟨hfit, hsame⟩ := appendAll_eq_some.mp hrun
  have hlength := congrArg List.length hsame
  rw [List.nil_append, List.length_map, List.length_map, hlocations] at hlength
  rw [List.length_nil, List.length_map, Nat.zero_add] at hfit
  exact ⟨hlength ▸ hfit, hlength.symm⟩

theorem lengths_eq_iff :
    (found ports plainMulti).length = (presentFunctions ports).length ↔
      PlainMultiFunction ports := by
  rw [← all_reached_iff, ← List.length_filter_eq_length_iff, ← found_plain]

/-- **PCI enumeration.** Every function that is there is recorded once, in
order and inside of the table, and a lookup by id finds one of them, exactly if
the table has room for them and no multi-function device with functions behind
the first has more than that bit in its header type. -/
theorem pci_enumeration_iff (ports : Ports) :
    Enumerated ports ↔ (presentFunctions ports).length ≤ 15 ∧ PlainMultiFunction ports := by
  rw [← lengths_eq_iff]
  constructor
  · exact Enumerated.lengths
  · rintro ⟨hfit, hlength⟩
    have hfound : found ports plainMulti = presentFunctions ports := by
      rw [found_plain] at hlength ⊢
      exact List.filter_sublist.eq_of_length hlength
    refine ⟨presentFunctions ports, (presentFunctions ports).map (Location.header ports),
      found_pairwise, fun l => mem_presentFunctions, ?_, rfl, pciGetHeaderByDeviceId_spec _⟩
    rw [pciInitalize_eq, hfound, appendAll_some (by simpa using hfit)]
    rfl

/-- A bridge with two functions and nothing else on the bus. -/
def bridge : Ports := fun address =>
  if address = 0x80000000 then 0x0D4C8086
  else if address = 0x8000000C then 0x00810000
  else if address = 0x80000100 then 0x0D4D8086
  else 0xFFFFFFFF

/-- The second function of a bridge is not recorded, and a bus full of devices
does not fit the table. -/
theorem bridge_not_enumerated : ¬ Enumerated bridge ∧ ¬ Enumerated fun _ => 0 := by
  constructor
  · intro h
    have hsecond : ToRecord bridge ⟨0, 0, 1⟩ :=
      ⟨by decide, by decide, by decide, Or.inr ⟨by decide, by decide, by decide, by decide⟩⟩
    have htype := lengths_eq_iff.mp h.lengths.2 ⟨0, 0, 1⟩ hsecond (by decide)
    exact absurd htype (by decide)
  · rintro ⟨_, _, -, -, hrun, -⟩
    have hfull : pciInitalize (fun _ => 0) = none := rfl
    cases hfull.symm.trans hrun

end VersionSix.Pci
