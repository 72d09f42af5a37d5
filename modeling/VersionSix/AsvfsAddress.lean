import VersionSix.AsvfsWrite

/-!
# ASVFS: drive offsets

Where on the drive the functions of `asvfs.c` look for a byte of a block and
for a metadata record. `asvfs_get_meta_data` computes its offset in 64 bits.
The others multiply block id and block size in 32 bits, and
`asvfs_write_meta_data` has an `off_t`, which is as wide. So the block `2^20`
has the offset of the block 0, and a drive is addressed as it should be if and
only if its blocks lie below that (`addressed_iff`).

Records are read and written with different widths. On a drive of more than 4
GiB a record is read where it is and written back near the beginning, over
somebody else's, without either function failing.

The five sites that transfer bytes of a block are one definition with a case
for each. That these are the offsets the functions use is proved against the
functions themselves, so the table of sites can be compared with the source and
the statement about addresses stays one.
-/

namespace VersionSix.Asvfs

open ByteStore

/-! ## Offsets -/

/-- An `off_t` (`fs.h`). -/
def offT (x : Nat) : Nat := u32 x

/-- The functions that transfer bytes of a block. -/
inductive Site
  | read
  | readFileBlockId
  | readBlock
  | writeFileBlockId
  | writeBlock

/-- Where byte `i` of block `blockId` is looked for. `asvfs_read_block` and
`asvfs_write_block` transfer the block from its start, the others are given
an offset in it. -/
def Site.driveOffset (h : Bytes) (blockId i : Nat) : Site → Nat
  | .read => u32 (u32 (blockId * Header.blockSize h) + i)
  | .readFileBlockId => u32 (u32 (blockId * Header.blockSize h) + i)
  | .readBlock => u32 (blockId * 4096) + i
  | .writeFileBlockId => offT (u32 (blockId * Header.blockSize h) + i)
  | .writeBlock => u32 (blockId * Header.blockSize h) + i

/-- `offset` of `asvfs_get_meta_data`, a `uint64_t`. -/
def getMetaDataOffset (blockId : Nat) : Nat := (headerSize + metaSize * blockId) % 2 ^ 64

/-- `offset` of `asvfs_write_meta_data`. -/
def writeMetaDataOffset (blockId : Nat) : Nat := offT (headerSize + metaSize * blockId)

/-- `asvfs_read_file_block_id`, when the callback transfers exactly the
addressed bytes. -/
def asvfsReadFileBlockId (s : Volume) (blockId offset length : Nat) : Option Bytes :=
  if blockId = 0 then none
  else some (readFromDisk s length (Site.readFileBlockId.driveOffset s.header blockId offset))

/-! ## They are the offsets the functions use -/

section Used

variable {s : Volume} {b size offset : Nat} {data : Bytes}

theorem u32_add_u32 (a c : Nat) : u32 (u32 a + c) = u32 (a + c) := by
  unfold u32
  rw [Nat.mod_add_mod]

theorem readBytes_offset {pathname : List UInt8}
    (hpath : asvfsGetBlockIdFromPathname s pathname = some b) (hb : b ≠ 0) :
    asvfsReadBytes s pathname size offset =
      some (some (readFromDisk s size (Site.read.driveOffset s.header b offset))) := by
  unfold asvfsReadBytes Site.driveOffset
  rw [hpath, Option.map_some, if_neg hb, u32_add_u32]

theorem readBlock_offset : asvfsReadBlock s b size =
    readFromDisk s size (Site.readBlock.driveOffset s.header b 0) := by
  simp only [asvfsReadBlock, Site.driveOffset, Nat.add_zero]

theorem writeBlock_offset : asvfsWriteBlock s b size data =
    writeToDisk s (Site.writeBlock.driveOffset s.header b 0 : Nat) size data := by
  simp only [asvfsWriteBlock, Site.driveOffset, Nat.add_zero]

theorem writeFileBlockId_offset : (asvfsWriteFileBlockId s b data offset size).1 =
    writeToDisk (if Grows s b offset size then
        (asvfsTruncateFileBlockId s b (u32 (offset + size))).1 else s)
      (Site.writeFileBlockId.driveOffset s.header b offset : Nat) size data := by
  rw [writeFileBlockId_eq]
  simp only [Site.driveOffset, offT, u32_add_u32]

theorem getMetaData_offset (hb : b < 2 ^ 32) :
    asvfsGetMetaData s b = readFromDisk s metaSize (getMetaDataOffset b) := by
  have hexact : getMetaDataOffset b = metaOffset b := by
    unfold getMetaDataOffset metaOffset headerSize metaSize
    omega
  rw [asvfsGetMetaData, hexact]

theorem writeMetaData_offset : asvfsWriteMetaData s b data =
    writeToDisk s (writeMetaDataOffset b : Nat) metaSize data :=
  rfl

end Used

/-! ## When they are right -/

/-- **One access.** -/
theorem Site.driveOffset_iff {h : Bytes} (hsize : Header.blockSize h = 4096) (site : Site)
    {b i : Nat} (hi : i < 4096) : site.driveOffset h b i = 4096 * b + i ↔ b < 2 ^ 20 := by
  cases site <;>
    · simp only [driveOffset, offT, u32, hsize]
      omega

theorem getMetaDataOffset_eq {b : Nat} (hb : b < 2 ^ 32) :
    getMetaDataOffset b = headerSize + metaSize * b := by
  unfold getMetaDataOffset headerSize metaSize
  omega

theorem writeMetaDataOffset_iff {b : Nat} : writeMetaDataOffset b = headerSize + metaSize * b ↔
    headerSize + metaSize * b < 2 ^ 32 := by
  unfold writeMetaDataOffset offT u32
  omega

/-- The drive of this header is addressed as it should be: by block and
offset, by record, and no two bytes of blocks and no two records at one place. -/
structure Addressed (h : Bytes) : Prop where
  blocks : ∀ site : Site, ∀ b < Header.blockCount h, ∀ i < 4096,
    site.driveOffset h b i = 4096 * b + i
  records : ∀ b < Header.blockCount h, getMetaDataOffset b = headerSize + metaSize * b ∧
    writeMetaDataOffset b = headerSize + metaSize * b
  apart : ∀ site site' : Site, ∀ a < Header.blockCount h, ∀ b < Header.blockCount h,
    ∀ i < 4096, ∀ j < 4096, (a, i) ≠ (b, j) →
      site.driveOffset h a i ≠ site'.driveOffset h b j
  recordsApart : ∀ a < Header.blockCount h, ∀ b < Header.blockCount h, a ≠ b →
    getMetaDataOffset a ≠ getMetaDataOffset b ∧ getMetaDataOffset a ≠ writeMetaDataOffset b ∧
      writeMetaDataOffset a ≠ writeMetaDataOffset b

theorem place_injective {a b i j : Nat} (hi : i < 4096) (hj : j < 4096)
    (h : 4096 * a + i = 4096 * b + j) : (a, i) = (b, j) := by
  have ha : a = b := by omega
  have hij : i = j := by omega
  rw [ha, hij]

theorem addressed_of_small {h : Bytes} (hsize : Header.blockSize h = 4096)
    (hcount : Header.blockCount h ≤ 2 ^ 20) : Addressed h := by
  have hblocks : ∀ site : Site, ∀ b < Header.blockCount h, ∀ i < 4096,
      site.driveOffset h b i = 4096 * b + i := by
    intro site b hb i hi
    exact (site.driveOffset_iff hsize hi).mpr (hb.trans_le hcount)
  have hrecords : ∀ b < Header.blockCount h, getMetaDataOffset b = headerSize + metaSize * b ∧
      writeMetaDataOffset b = headerSize + metaSize * b := by
    intro b hb
    have hlow : b < 2 ^ 20 := hb.trans_le hcount
    exact ⟨getMetaDataOffset_eq (hlow.trans (by decide)),
      writeMetaDataOffset_iff.mpr (metaOffset_lt hlow)⟩
  refine ⟨hblocks, hrecords, ?_, ?_⟩
  · intro site site' a ha b hb i hi j hj hne heq
    rw [hblocks site a ha i hi, hblocks site' b hb j hj] at heq
    exact hne (place_injective hi hj heq)
  · intro a ha b hb hne
    obtain ⟨hget, hwrite⟩ := hrecords a ha
    obtain ⟨hget', hwrite'⟩ := hrecords b hb
    rw [hget, hwrite, hget', hwrite']
    unfold metaSize
    omega

/-- **Drive offsets.** Block by block: right below the block `2^20` and wrong
from there on; records are read where they are and written there below 4 GiB.
So a drive is addressed as it should be if it has at most `2^20` blocks. The
reason is a product of 32 bits, which only the reading of a record does
without. -/
theorem addressed_iff {h : Bytes} (hsize : Header.blockSize h = 4096) :
    (Addressed h ↔ Header.blockCount h ≤ 2 ^ 20) ∧
    (∀ site : Site, ∀ b, ∀ i < 4096, site.driveOffset h b i = 4096 * b + i ↔ b < 2 ^ 20) ∧
    (∀ b < 2 ^ 32, getMetaDataOffset b = headerSize + metaSize * b) ∧
    ∀ b, writeMetaDataOffset b = headerSize + metaSize * b ↔
      headerSize + metaSize * b < 2 ^ 32 := by
  refine ⟨⟨fun hh => ?_, addressed_of_small hsize⟩, fun site b i hi => ?_,
    fun b hb => getMetaDataOffset_eq hb, fun b => writeMetaDataOffset_iff⟩
  · by_contra hcount
    have hlast := hh.blocks .readBlock (2 ^ 20) (Nat.lt_of_not_le hcount) 0 (by decide)
    rw [Site.driveOffset_iff hsize _ (by decide)] at hlast
    exact absurd hlast (lt_irrefl _)
  · exact site.driveOffset_iff hsize hi

/-- A drive of `2^20 + 1` blocks of 4096 bytes. -/
def largeDrive : Bytes := bytesOf [(14, 16), (17, 1), (19, 16)]

theorem addressed_iff_largeDrive : Header.blockSize largeDrive = 4096 ∧
    (Addressed largeDrive ↔ Header.blockCount largeDrive ≤ 2 ^ 20) :=
  ⟨by decide, (addressed_iff (by decide)).1⟩

theorem last_block_aliases : Header.blockSize largeDrive = 4096 ∧
    2 ^ 20 < Header.blockCount largeDrive ∧
    (∀ site : Site, site.driveOffset largeDrive (2 ^ 20) 0 = site.driveOffset largeDrive 0 0) ∧
    ¬ Addressed largeDrive := by
  have hcount : 2 ^ 20 < Header.blockCount largeDrive := by decide
  have halias : ∀ site : Site,
      site.driveOffset largeDrive (2 ^ 20) 0 = site.driveOffset largeDrive 0 0 := by
    intro site
    cases site <;> decide
  refine ⟨by decide, hcount, halias, fun h => ?_⟩
  exact h.apart .read .read (2 ^ 20) hcount 0 (by decide) 0 (by decide) 0 (by decide) (by decide)
    (halias .read)

end VersionSix.Asvfs
