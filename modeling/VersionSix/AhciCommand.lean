import VersionSix.AhciRead

/-!
# The read command for the AHCI drive

What `read_ahci` writes for the controller: the command header, the entries
that say where the data goes, and the frame for the drive. The wait for the
answer is not modelled; `AhciRead` takes it from there, for one sector.

The loop that makes the entries counts `count` down, 16 sectors an entry, and
what is left of it goes to the drive. The entries of a long request have the
right sizes and the start is always right (`readAhci_bytes`, `readAhci_start`);
the rest is right up to 16 sectors (`readAhci_describes_iff`).

`Describes` is what a command has to ask for, independent of how many entries
it takes: a count and a start for the drive, and a row of ranges that make up
the buffer. The entries of a longer request all begin at the start of the
buffer, since the address that is moved in the loop is not the one that is
stored; and of a 64-bit address the upper half is left out.
-/

namespace VersionSix.Ahci

def FIS_TYPE_REG_H2D : UInt8 := 0x27
def ATA_CMD_READ_DMA_EX : UInt8 := 0x25

/-! ## Functions -/

/-- The registers of an `HBA_PORT` that say which slots are in use. -/
structure HbaPort where
  sact : UInt32
  ci : UInt32

/-- What `read_ahci` sets in a command header. -/
structure HbaCmdHeader where
  cfl : BitVec 5
  w : BitVec 1
  prdtl : UInt16

structure FisRegH2D where
  fisType : UInt8
  pmport : BitVec 4
  c : BitVec 1
  command : UInt8
  featurel : UInt8
  lba0 : UInt8
  lba1 : UInt8
  lba2 : UInt8
  device : UInt8
  lba3 : UInt8
  lba4 : UInt8
  lba5 : UInt8
  featureh : UInt8
  countl : UInt8
  counth : UInt8
  icc : UInt8
  control : UInt8

structure HbaPrdtEntry where
  dba : UInt32
  dbau : UInt32
  dbc : BitVec 22
  i : BitVec 1

structure ReadCommand where
  slot : Nat
  cmdHeader : HbaCmdHeader
  cfis : FisRegH2D
  prdtEntry : List HbaPrdtEntry

/-- The loop of `find_cmdslot` from `i` on. -/
def findCmdslotFrom : Nat → Nat → UInt32 → Option Nat
  | 0, _, _ => none
  | n + 1, i, slots =>
      if slots &&& 1 = 0 then some i else findCmdslotFrom n (i + 1) (slots >>> 1)

/-- If not set in SACT and CI, the slot is free. -/
def findCmdslot (numCmdSlots : Nat) (port : HbaPort) : Option Nat :=
  findCmdslotFrom numCmdSlots 0 (port.sact ||| port.ci)

/-- 8K bytes (16 sectors) per PRDT. -/
def fullEntry (globalBufferPhys : UInt64) : HbaPrdtEntry :=
  ⟨globalBufferPhys.toUInt32, 0, 8 * 1024 - 1, 1⟩

def lastEntry (globalBufferPhys : UInt64) (count : UInt32) : HbaPrdtEntry :=
  ⟨globalBufferPhys.toUInt32, 0, ((count <<< 9) - 1).toBitVec.setWidth 22, 1⟩

/-- The loop that makes the entries before the last one, and what it leaves of
`count`. It also moves `buf`, which nothing reads. -/
def prdtLoop (globalBufferPhys : UInt64) : Nat → UInt32 → List HbaPrdtEntry × UInt32
  | 0, count => ([], count)
  | n + 1, count =>
      let (entries, left) := prdtLoop globalBufferPhys n (count - 16)
      (fullEntry globalBufferPhys :: entries, left)

/-- The frame; the `memset` of the command table leaves 0 in the other fields. -/
def readFis (startl starth count : UInt32) : FisRegH2D where
  fisType := FIS_TYPE_REG_H2D
  pmport := 0
  c := 1
  command := ATA_CMD_READ_DMA_EX
  featurel := 0
  lba0 := startl.toUInt8
  lba1 := (startl >>> 8).toUInt8
  lba2 := (startl >>> 16).toUInt8
  device := (1 : UInt8) <<< 6
  lba3 := (startl >>> 24).toUInt8
  lba4 := starth.toUInt8
  lba5 := (starth >>> 8).toUInt8
  featureh := 0
  countl := (count &&& 0xFF).toUInt8
  counth := ((count >>> 8) &&& 0xFF).toUInt8
  icc := 0
  control := 0

/-- `read_ahci` up to the command's issue; `none` is the return for no free slot. -/
def readAhci (numCmdSlots : Nat) (globalBufferPhys : UInt64) (port : HbaPort)
    (startl starth count : UInt32) : Option ReadCommand :=
  (findCmdslot numCmdSlots port).map fun slot =>
    let prdtl : UInt16 := ((count - 1) >>> 4).toUInt16 + 1
    let (entries, count) := prdtLoop globalBufferPhys (prdtl.toNat - 1) count
    { slot := slot
      cmdHeader := ⟨20 / 4, 0, prdtl⟩
      cfis := readFis startl starth count
      prdtEntry := entries ++ [lastEntry globalBufferPhys count] }

/-! ## Statement -/

/-- The count of sectors that the drive is asked for. -/
def FisRegH2D.count (fis : FisRegH2D) : Nat := fis.countl.toNat + 2 ^ 8 * fis.counth.toNat

def FisRegH2D.lba (fis : FisRegH2D) : Nat :=
  fis.lba0.toNat + 2 ^ 8 * fis.lba1.toNat + 2 ^ 16 * fis.lba2.toNat + 2 ^ 24 * fis.lba3.toNat +
    2 ^ 32 * fis.lba4.toNat + 2 ^ 40 * fis.lba5.toNat

def HbaPrdtEntry.address (entry : HbaPrdtEntry) : Nat :=
  entry.dba.toNat + 2 ^ 32 * entry.dbau.toNat

/-- The bytes of an entry; the field has one less. -/
def HbaPrdtEntry.bytes (entry : HbaPrdtEntry) : Nat := entry.dbc.toNat + 1

def describedBytes (entries : List HbaPrdtEntry) : Nat := (entries.map HbaPrdtEntry.bytes).sum

/-- The command asks for `count` sectors from a 48-bit start, into the buffer, one
entry behind the other. -/
structure Describes (globalBufferPhys : UInt64) (startl starth count : UInt32)
    (cmd : ReadCommand) : Prop where
  sectors : cmd.cfis.count = count.toNat
  start : cmd.cfis.lba = startl.toNat + 2 ^ 32 * starth.toNat
  bytes : describedBytes cmd.prdtEntry = count.toNat * 512
  parts : ∀ i entry, cmd.prdtEntry[i]? = some entry →
    entry.address = globalBufferPhys.toNat + describedBytes (cmd.prdtEntry.take i)

/-! ## The slot -/

theorem findCmdslotFrom_free {n i slot : Nat} {slots : UInt32}
    (h : findCmdslotFrom n i slots = some slot) :
    i ≤ slot ∧ slot < i + n ∧ slots.toNat.testBit (slot - i) = false := by
  induction n generalizing i slots with
  | zero => cases h
  | succ n ih =>
      rw [findCmdslotFrom] at h
      split at h
      · rename_i hbit
        cases h
        have hmod : slots.toNat % 2 = 0 := by
          simpa [Nat.and_one_is_mod] using congrArg UInt32.toNat hbit
        simp [Nat.testBit_zero, hmod]
      · obtain ⟨hlo, hhi, hfree⟩ := ih h
        refine ⟨by omega, by omega, ?_⟩
        have hshift : slots.toNat.testBit (1 + (slot - (i + 1))) = false := by
          simpa [Nat.testBit_shiftRight] using hfree
        rwa [show slot - i = 1 + (slot - (i + 1)) by omega]

theorem findCmdslot_free {numCmdSlots slot : Nat} {port : HbaPort}
    (h : findCmdslot numCmdSlots port = some slot) :
    slot < numCmdSlots ∧ port.sact.toNat.testBit slot = false ∧
      port.ci.toNat.testBit slot = false := by
  obtain ⟨-, hhi, hfree⟩ := findCmdslotFrom_free h
  rw [Nat.sub_zero, UInt32.toNat_or, Nat.testBit_or, Bool.or_eq_false_iff] at hfree
  exact ⟨by omega, hfree⟩

/-! ## Entries and frame -/

variable {numCmdSlots : Nat} {globalBufferPhys : UInt64} {port : HbaPort}
  {startl starth count : UInt32} {cmd : ReadCommand}

theorem prdtLoop_eq (globalBufferPhys : UInt64) (n : Nat) (h : 16 * n ≤ count.toNat) :
    (prdtLoop globalBufferPhys n count).1 = List.replicate n (fullEntry globalBufferPhys) ∧
      (prdtLoop globalBufferPhys n count).2.toNat = count.toNat - 16 * n := by
  induction n generalizing count with
  | zero => exact ⟨rfl, rfl⟩
  | succ n ih =>
      have hle : (16 : UInt32) ≤ count :=
        UInt32.le_iff_toNat_le.mpr (show 16 ≤ count.toNat by omega)
      have hsub : (count - 16).toNat = count.toNat - 16 := UInt32.toNat_sub_of_le _ _ hle
      have hrest : 16 * n ≤ (count - 16).toNat := by omega
      obtain ⟨hentries, hleft⟩ := ih hrest
      refine ⟨?_, ?_⟩
      · rw [prdtLoop, List.replicate_succ, ← hentries]
      · rw [prdtLoop, hleft, hsub]
        omega

theorem describedBytes_append (entries entries' : List HbaPrdtEntry) :
    describedBytes (entries ++ entries') = describedBytes entries + describedBytes entries' := by
  rw [describedBytes, List.map_append, List.sum_append]
  rfl

theorem describedBytes_full (n : Nat) :
    describedBytes (List.replicate n (fullEntry globalBufferPhys)) = 8192 * n := by
  rw [describedBytes, List.map_replicate, List.sum_replicate_nat]
  exact Nat.mul_comm ..

theorem lastEntry_bytes (hpos : 1 ≤ count.toNat) (hle : count.toNat ≤ 16) :
    (lastEntry globalBufferPhys count).bytes = count.toNat * 512 := by
  have hshift : (count <<< 9).toNat = count.toNat * 512 := by
    rw [UInt32.toNat_shiftLeft, Nat.shiftLeft_eq]
    exact Nat.mod_eq_of_lt (show count.toNat * 512 < 2 ^ 32 by omega)
  have hone : (1 : UInt32) ≤ count <<< 9 :=
    UInt32.le_iff_toNat_le.mpr (show 1 ≤ (count <<< 9).toNat by omega)
  have hsub : (count <<< 9 - 1).toNat = count.toNat * 512 - 1 := by
    rw [UInt32.toNat_sub_of_le _ _ hone, hshift]
    rfl
  have hfield : (lastEntry globalBufferPhys count).dbc.toNat = count.toNat * 512 - 1 := by
    rw [lastEntry, BitVec.toNat_setWidth, UInt32.toNat_toBitVec, hsub]
    exact Nat.mod_eq_of_lt (by omega)
  rw [HbaPrdtEntry.bytes, hfield]
  omega

theorem readFis_count (h : count.toNat < 2 ^ 16) :
    (readFis startl starth count).count = count.toNat := by
  have hlow : (readFis startl starth count).countl.toNat = count.toNat % 256 := by
    simp [readFis, Nat.and_two_pow_sub_one_eq_mod _ 8]
  have hhigh : (readFis startl starth count).counth.toNat = count.toNat / 256 % 256 := by
    simp [readFis, Nat.and_two_pow_sub_one_eq_mod _ 8, Nat.shiftRight_eq_div_pow]
  rw [FisRegH2D.count, hlow, hhigh]
  omega

theorem readFis_lba (h : starth.toNat < 2 ^ 16) :
    (readFis startl starth count).lba = startl.toNat + 2 ^ 32 * starth.toNat := by
  have hlt : startl.toNat < 2 ^ 32 := startl.toNat_lt
  simp only [FisRegH2D.lba, readFis, UInt32.toNat_toUInt8, UInt32.toNat_shiftRight,
    Nat.shiftRight_eq_div_pow]
  simp
  omega

/-! ## The command -/

/-- The command of a request: what the last entry and the frame go by is the
count of sectors in the last 16. -/
theorem readAhci_eq
    (hrun : readAhci numCmdSlots globalBufferPhys port startl starth count = some cmd)
    (hpos : 1 ≤ count.toNat) (hcount : count.toNat ≤ 65535) :
    ∃ left : UInt32, left.toNat = (count.toNat - 1) % 16 + 1 ∧
      cmd.cfis = readFis startl starth left ∧
      cmd.prdtEntry = List.replicate ((count.toNat - 1) / 16) (fullEntry globalBufferPhys) ++
        [lastEntry globalBufferPhys left] := by
  obtain ⟨slot, -, rfl⟩ := Option.map_eq_some_iff.mp hrun
  have hone : (1 : UInt32) ≤ count := UInt32.le_iff_toNat_le.mpr hpos
  have hchunks : ((count - 1) >>> 4).toUInt16.toNat = (count.toNat - 1) / 16 := by
    rw [UInt32.toNat_toUInt16, UInt32.toNat_shiftRight, UInt32.toNat_sub_of_le _ _ hone,
      Nat.shiftRight_eq_div_pow]
    exact Nat.mod_eq_of_lt (show (count.toNat - 1) / 16 < 2 ^ 16 by omega)
  have hprdtl : (((count - 1) >>> 4).toUInt16 + 1).toNat - 1 = (count.toNat - 1) / 16 := by
    rw [UInt16.toNat_add, hchunks]
    exact congrArg (· - 1) (Nat.mod_eq_of_lt (show (count.toNat - 1) / 16 + 1 < 2 ^ 16 by omega))
  have hloop : 16 * ((count.toNat - 1) / 16) ≤ count.toNat := by omega
  obtain ⟨hentries, hleft⟩ := prdtLoop_eq globalBufferPhys _ hloop
  refine ⟨(prdtLoop globalBufferPhys ((count.toNat - 1) / 16) count).2, ?_, ?_, ?_⟩
  · rw [hleft]
    omega
  · simp only [hprdtl]
  · simp only [hprdtl, hentries]

/-- The entries describe as many bytes as the request has, whatever its size. -/
theorem readAhci_bytes
    (hrun : readAhci numCmdSlots globalBufferPhys port startl starth count = some cmd)
    (hpos : 1 ≤ count.toNat) (hcount : count.toNat ≤ 65535) :
    describedBytes cmd.prdtEntry = count.toNat * 512 := by
  obtain ⟨left, hleft, -, hentries⟩ := readAhci_eq hrun hpos hcount
  have hlast : describedBytes [lastEntry globalBufferPhys left] = left.toNat * 512 := by
    simpa [describedBytes] using lastEntry_bytes (by omega) (by omega)
  rw [hentries, describedBytes_append, describedBytes_full, hlast]
  omega

theorem readAhci_start
    (hrun : readAhci numCmdSlots globalBufferPhys port startl starth count = some cmd)
    (hpos : 1 ≤ count.toNat) (hcount : count.toNat ≤ 65535) (hstart : starth.toNat < 2 ^ 16) :
    cmd.cfis.lba = startl.toNat + 2 ^ 32 * starth.toNat := by
  obtain ⟨left, -, hfis, -⟩ := readAhci_eq hrun hpos hcount
  rw [hfis, readFis_lba hstart]

/-- The drive is asked for the sectors of the last 16 only. -/
theorem readAhci_sectors
    (hrun : readAhci numCmdSlots globalBufferPhys port startl starth count = some cmd)
    (hpos : 1 ≤ count.toNat) (hcount : count.toNat ≤ 65535) :
    cmd.cfis.count = (count.toNat - 1) % 16 + 1 := by
  obtain ⟨left, hleft, hfis, -⟩ := readAhci_eq hrun hpos hcount
  rw [hfis, readFis_count (by omega), hleft]

theorem readAhci_address
    (hrun : readAhci numCmdSlots globalBufferPhys port startl starth count = some cmd)
    (hpos : 1 ≤ count.toNat) (hcount : count.toNat ≤ 65535) :
    ∀ entry ∈ cmd.prdtEntry, entry.address = globalBufferPhys.toNat % 2 ^ 32 := by
  obtain ⟨left, -, -, hentries⟩ := readAhci_eq hrun hpos hcount
  intro entry hmem
  rw [hentries, List.mem_append, List.mem_singleton] at hmem
  rcases hmem with hfull | rfl
  · rw [List.eq_of_mem_replicate hfull]
    simp [HbaPrdtEntry.address, fullEntry]
  · simp [HbaPrdtEntry.address, lastEntry]

/-- **The read command.** It describes the request exactly if that has at most
16 sectors and the buffer is below 4G. With more of them the drive is asked for
the sectors of the last entry only; and of the address of the buffer the low
half is stored in every entry. -/
theorem readAhci_describes_iff
    (hrun : readAhci numCmdSlots globalBufferPhys port startl starth count = some cmd)
    (hpos : 1 ≤ count.toNat) (hcount : count.toNat ≤ 65535) (hstart : starth.toNat < 2 ^ 16) :
    Describes globalBufferPhys startl starth count cmd ↔
      count.toNat ≤ 16 ∧ globalBufferPhys.toNat < 2 ^ 32 := by
  have haddress := readAhci_address hrun hpos hcount
  have hsectors := readAhci_sectors hrun hpos hcount
  constructor
  · intro h
    have hfirst : 0 < cmd.prdtEntry.length := by
      obtain ⟨left, -, -, hentries⟩ := readAhci_eq hrun hpos hcount
      rw [hentries, List.length_append]
      exact Nat.succ_pos _
    have hbase := h.parts 0 _ (List.getElem?_eq_getElem hfirst)
    rw [haddress _ (List.getElem_mem hfirst)] at hbase
    have hcut := h.sectors.symm.trans hsectors
    refine ⟨by omega, ?_⟩
    simp only [List.take_zero, describedBytes, List.map_nil, List.sum_nil] at hbase
    omega
  · rintro ⟨hle, hphys⟩
    refine ⟨?_, readAhci_start hrun hpos hcount hstart, readAhci_bytes hrun hpos hcount, ?_⟩
    · rw [hsectors]
      omega
    · -- there is one entry only
      intro i entry hentry
      obtain ⟨left, -, -, hentries⟩ := readAhci_eq hrun hpos hcount
      have hzero : (count.toNat - 1) / 16 = 0 := by omega
      rw [hzero] at hentries
      have hi : i < 1 := by
        have := (List.getElem?_eq_some_iff.mp hentry).1
        rwa [hentries] at this
      obtain rfl : i = 0 := by omega
      rw [haddress entry (List.mem_of_getElem? hentry), Nat.mod_eq_of_lt hphys]
      rfl

/-- No slot in use, and a buffer at 1M. -/
def readCommand (count : UInt32) : Option ReadCommand := readAhci 15 0x100000 ⟨0, 0⟩ 5 1 count

theorem readAhci_describes_iff_sixteen :
    ∃ cmd, readCommand 16 = some cmd ∧ Describes 0x100000 5 1 16 cmd := by
  obtain ⟨cmd, hrun⟩ : ∃ cmd, readCommand 16 = some cmd := ⟨_, rfl⟩
  refine ⟨cmd, hrun, ?_⟩
  exact (readAhci_describes_iff hrun (by decide) (by decide) (by decide)).mpr
    ⟨by decide, by decide⟩

/-- Seventeen sectors: the drive is asked for one, and both entries are at the
start of the buffer. -/
theorem seventeen_sectors :
    ∃ cmd, readCommand 17 = some cmd ∧ cmd.cfis.count = 1 ∧
      cmd.prdtEntry.map HbaPrdtEntry.address = [0x100000, 0x100000] ∧
      ¬ Describes 0x100000 5 1 17 cmd := by
  refine ⟨_, rfl, by decide, by decide, ?_⟩
  intro h
  exact absurd h.sectors (by decide)

end VersionSix.Ahci
