import VersionSix.AsvfsPath

/-!
# ASVFS: writing and truncating over any drive

`asvfs_write_file_block_id` and `asvfs_truncate_file_block_id` call
`write_to_disk` of `asvfs_drive_ops`, which is a parameter here: it may store
the data or not, and it answers with an `int`. The data of a file is written
behind its own block id, however long it is. Apart from that, a file that grows
past one block gets a run of blocks in its record (`starting_block`,
`num_blocks`), and the blocks of the run it had before are copied there.

There are two drives to it. `storing` transfers exactly the addressed bytes;
`AsvfsWrite` says what such a drive looks like afterwards. `vfsDiskWrite` is the
callback of the kernel, which does nothing; `VfsDispatch` runs on it. What both
have in common, and any other drive, is what becomes of the header in memory.
-/

namespace VersionSix.Asvfs

open ByteStore

/-- A drive as `asvfs_drive_ops` has it: what `read_from_disk` brings, and
`write_to_disk` with its answer. -/
structure Drive (δ : Type) where
  bytes : δ → Bytes
  writeToDisk : δ → Nat → Nat → Bytes → δ × Int

/-! ## Functions -/

def blocksNeeded (fileSize : Nat) : Nat :=
  fileSize / asvfsDefaultBlockSize + if fileSize % asvfsDefaultBlockSize ≠ 0 then 1 else 0

/-- The file needs more blocks than its record has. -/
def NeedsMore (m : Bytes) : Prop :=
  asvfsDefaultBlockSize < Meta.fileSize m ∧ Meta.numBlocks m < blocksNeeded (Meta.fileSize m)

instance (m : Bytes) : Decidable (NeedsMore m) := inferInstanceAs (Decidable (_ ∧ _))

/-- The file is smaller than what is about to be written; `offset + size` has
64 bits. -/
def Grows (s : Volume) (blockId offset size : Nat) : Prop :=
  Meta.fileSize (asvfsGetMetaData s blockId) < (offset + size) % 2 ^ 64

instance (s : Volume) (blockId offset size : Nat) : Decidable (Grows s blockId offset size) :=
  inferInstanceAs (Decidable (_ < _))

namespace Drive

variable {δ : Type} (D : Drive δ) (m : Mounted δ)

def volume : Volume := ⟨D.bytes m.disk, m.header⟩

def write (offset size : Nat) (data : Bytes) : Mounted δ × Int :=
  let (d, res) := D.writeToDisk m.disk offset size data
  ({ m with disk := d }, res)

def asvfsWriteBlock (blockId size : Nat) (data : Bytes) : Mounted δ × Int :=
  D.write m (u32 (blockId * Header.blockSize m.header)) size data

def asvfsWriteHeader (h : Bytes) : Mounted δ × Int := D.write m 0 headerSize h

def asvfsWriteMetaData (blockId : Nat) (data : Bytes) : Mounted δ × Int :=
  D.write m (u32 (metaOffset blockId)) metaSize data

/-- The loop of `asvfs_truncate_file_block_id` over `num_blocks`. -/
def copyBlocks (startingBlock newStartBlock numBlocks : Nat) : Mounted δ :=
  (List.range numBlocks).foldl (fun m i =>
    (D.asvfsWriteBlock m (u32 (newStartBlock + i)) asvfsDefaultBlockSize
      (asvfsReadBlock (D.volume m) (u32 (startingBlock + i)) asvfsDefaultBlockSize)).1) m

/-- "Recreate the file at the end of the drive": what is mounted and the record. -/
def recreate (blockId : Nat) (data : Bytes) : Mounted δ × Bytes :=
  let newStartBlock := Header.nextFree m.header
  let numBlocksNeeded := blocksNeeded (Meta.fileSize data)
  let m := D.copyBlocks m (Meta.startingBlock data) newStartBlock (Meta.numBlocks data)
  let h := Header.setNextFree m.header (Header.nextFree m.header + numBlocksNeeded)
  let m := (D.asvfsWriteHeader { m with header := h } h).1
  let data := Meta.setNumBlocks (Meta.setStartingBlock data newStartBlock) numBlocksNeeded
  ((D.asvfsWriteMetaData m blockId data).1, data)

/-- None of the answers is looked at. -/
def asvfsTruncateFileBlockId (blockId length : Nat) : Mounted δ × Int :=
  let data := Meta.setFileSize (asvfsGetMetaData (D.volume m) blockId) length
  let (m, data) := if NeedsMore data then D.recreate m blockId data else (m, data)
  ((D.asvfsWriteMetaData m blockId data).1, asvfsErrorNone)

def asvfsTruncate (pathname : List UInt8) (length : Nat) : Option (Mounted δ × Int) :=
  (asvfsGetBlockIdFromPathname (D.volume m) pathname).map fun blockId =>
    if blockId = 0 then (m, asvfsErrorPathNotFound)
    else D.asvfsTruncateFileBlockId m blockId length

/-- The length goes through an `off_t`. The answer of the last write is returned
whether or not it is `size`. -/
def asvfsWriteFileBlockId (blockId : Nat) (buff : Bytes) (offset size : Nat) :
    Mounted δ × Int :=
  let driveOffset := u32 (blockId * Header.blockSize m.header + offset)
  let (m, resTrunc) :=
    if Grows (D.volume m) blockId offset size then
      D.asvfsTruncateFileBlockId m blockId (u32 (offset + size))
    else (m, asvfsErrorNone)
  if resTrunc ≠ asvfsErrorNone then (m, resTrunc)
  else D.write m driveOffset size buff

def asvfsWrite (pathname : List UInt8) (buff : Bytes) (offset size : Nat) :
    Option (Mounted δ × Int) :=
  (asvfsGetBlockIdFromPathname (D.volume m) pathname).map fun blockId =>
    if blockId = 0 then (m, 0) else D.asvfsWriteFileBlockId m blockId buff offset size

def storing : Drive Bytes where
  bytes := id
  writeToDisk d offset size data := (ByteStore.write d offset size data, Int.bmod size (2 ^ 32))

/-- `vfs_disk_write`, which does nothing. -/
def vfsDiskWrite : Drive Bytes where
  bytes := id
  writeToDisk d _ _ _ := (d, 0)

end Drive

/-! ## The header -/

section Header

variable {δ : Type} (D : Drive δ) (m : Mounted δ)

theorem copyBlocks_header (src dst k : Nat) : (D.copyBlocks m src dst k).header = m.header := by
  unfold Drive.copyBlocks
  induction k with
  | zero => rfl
  | succ k ih =>
      simp only [List.range_succ, List.foldl_append, List.foldl_cons, List.foldl_nil]
      exact ih

theorem recreate_header (blockId : Nat) (data : Bytes) :
    (D.recreate m blockId data).1.header = Header.setNextFree m.header
      (Header.nextFree m.header + blocksNeeded (Meta.fileSize data)) := by
  have hheader := copyBlocks_header D m (Meta.startingBlock data) (Header.nextFree m.header)
    (Meta.numBlocks data)
  unfold Drive.recreate
  dsimp only [Drive.asvfsWriteMetaData, Drive.asvfsWriteHeader, Drive.write]
  rw [hheader]

/-- Only `next_free` of the header may change. -/
def HeaderKept (h h' : Bytes) : Prop := h' = h ∨ ∃ v, h' = Header.setNextFree h v

theorem HeaderKept.fields {h h' : Bytes} (hkept : HeaderKept h h') :
    Header.rootDirectory h' = Header.rootDirectory h ∧
      Header.blockSize h' = Header.blockSize h ∧ Header.blockCount h' = Header.blockCount h := by
  rcases hkept with rfl | ⟨v, rfl⟩
  · exact ⟨rfl, rfl, rfl⟩
  · exact ⟨rootDirectory_setNextFree .., blockSize_setNextFree .., blockCount_setNextFree ..⟩

theorem truncate_header (blockId length : Nat) :
    HeaderKept m.header (D.asvfsTruncateFileBlockId m blockId length).1.header := by
  unfold Drive.asvfsTruncateFileBlockId
  dsimp only [Drive.asvfsWriteMetaData, Drive.write]
  split_ifs
  · exact .inr ⟨_, recreate_header ..⟩
  · exact .inl rfl

def Drive.beforeData (blockId offset size : Nat) : Mounted δ :=
  if Grows (D.volume m) blockId offset size then
    (D.asvfsTruncateFileBlockId m blockId (u32 (offset + size))).1
  else m

/-- A write is a truncation, if it grows the file, and the transfer of the
data. -/
theorem write_eq (blockId : Nat) (buff : Bytes) (offset size : Nat) :
    D.asvfsWriteFileBlockId m blockId buff offset size =
      D.write (D.beforeData m blockId offset size)
        (u32 (blockId * Header.blockSize m.header + offset)) size buff := by
  unfold Drive.asvfsWriteFileBlockId Drive.beforeData
  dsimp only
  split_ifs with hgrows hfail hfail
  · exact absurd rfl hfail
  · rfl
  · exact absurd rfl hfail
  · rfl

theorem beforeData_header (blockId offset size : Nat) :
    HeaderKept m.header (D.beforeData m blockId offset size).header := by
  unfold Drive.beforeData
  split_ifs
  · exact truncate_header ..
  · exact .inl rfl

end Header

end VersionSix.Asvfs
