import VersionSix.AsvfsUnlink
import VersionSix.AsvfsWrite

/-!
# ASVFS: a write that the drive refuses

Over any drive `asvfs_write_file_block_id` compares the answer of the last
write, that of the data, with the size. By then a file that grows has its new
size and its new blocks: `asvfs_truncate_file_block_id` has moved `next_free`,
copied the blocks and written the header and the record, and nothing takes that
back (`failed_write_iff`). The answers of those writes are not looked at.

A failing write is one that the drive answers with something other than the
size, and it changes nothing on the drive (`Drive.AllOrNothing`). So the call
reports a failure in every case, and what is asked is whether the rest is as
before. It is exactly if the file need not grow, or grows within the blocks it
has while the drive does not take its new record either (`StaysPut`).

`vfs_disk_write` is the callback of the kernel. It does nothing and answers 0,
so every write of a byte or more is of this kind.
-/

namespace VersionSix.Asvfs

open ByteStore

/-! ## A data write that fails -/

variable {δ : Type} {D : Drive δ} {m : Mounted δ} {blockId offset size : Nat}

def Drive.Local (D : Drive δ) : Prop := ∀ d offset size data x, ¬ Extent.Has (offset, size) x →
  D.bytes (D.writeToDisk d offset size data).1 x = D.bytes d x

/-- A write that is not answered with its size changes nothing. -/
def Drive.AllOrNothing (D : Drive δ) : Prop := ∀ d offset size data,
  (D.writeToDisk d offset size data).2 % 2 ^ 64 ≠ (size : Int) →
    D.bytes (D.writeToDisk d offset size data).1 = D.bytes d

/-- The call reports the failure, and of the header, the record of the file and
the rest of the drive nothing has changed. -/
structure FailsCleanly (D : Drive δ) (m : Mounted δ) (blockId offset size : Nat)
    (call : Mounted δ × Int) : Prop where
  error : call.2 % 2 ^ 64 ≠ (size : Int)
  header : call.1.header = m.header
  headerOnDrive : ∀ x < headerSize, D.bytes call.1.disk x = D.bytes m.disk x
  record : asvfsGetMetaData (D.volume call.1) blockId = asvfsGetMetaData (D.volume m) blockId
  others : ∀ x, ¬ Extent.Has (u32 (blockId * Header.blockSize m.header + offset), size) x →
    D.bytes call.1.disk x = D.bytes m.disk x

/-- The record with the size that the file is given. -/
def resized (D : Drive δ) (m : Mounted δ) (blockId offset size : Nat) : Bytes :=
  Meta.setFileSize (asvfsGetMetaData (D.volume m) blockId) (u32 (offset + size))

/-- The file need not grow; or it stays in the blocks it has, and the drive does
not take its new record. -/
def StaysPut (D : Drive δ) (m : Mounted δ) (blockId offset size : Nat) : Prop :=
  Grows (D.volume m) blockId offset size →
    ¬ NeedsMore (resized D m blockId offset size) ∧
      D.bytes (D.asvfsWriteMetaData m blockId (resized D m blockId offset size)).1.disk =
        D.bytes m.disk

theorem recreate_moves {h data : Bytes} (hmore : NeedsMore data) :
    Header.setNextFree h (Header.nextFree h + blocksNeeded (Meta.fileSize data)) ≠ h := by
  intro hsame
  have hnext := congrArg Header.nextFree hsame
  have hold : Header.nextFree h < 2 ^ 32 := le_lt ..
  have hsize : Meta.fileSize data < 2 ^ 32 := le_lt ..
  have hneeded := hmore.2
  have hfew : blocksNeeded (Meta.fileSize data) < 2 ^ 32 := by
    unfold blocksNeeded asvfsDefaultBlockSize
    split_ifs <;> omega
  have hword : Header.nextFree (Header.setNextFree h
      (Header.nextFree h + blocksNeeded (Meta.fileSize data))) =
        (Header.nextFree h + blocksNeeded (Meta.fileSize data)) % 2 ^ 32 := le_setLe_same ..
  omega

theorem beforeData_of_stays (hgrows : Grows (D.volume m) blockId offset size)
    (hmore : ¬ NeedsMore (resized D m blockId offset size)) :
    D.beforeData m blockId offset size =
      (D.asvfsWriteMetaData m blockId (resized D m blockId offset size)).1 := by
  unfold Drive.beforeData Drive.asvfsTruncateFileBlockId
  unfold resized at hmore ⊢
  dsimp only
  rw [if_pos hgrows, if_neg hmore]

theorem beforeData_of_more (hgrows : Grows (D.volume m) blockId offset size)
    (hmore : NeedsMore (resized D m blockId offset size)) :
    (D.beforeData m blockId offset size).header ≠ m.header := by
  unfold resized at hmore
  unfold Drive.beforeData Drive.asvfsTruncateFileBlockId
  dsimp only [Drive.asvfsWriteMetaData, Drive.write]
  rw [if_pos hgrows, if_pos hmore, recreate_header]
  exact recreate_moves hmore

theorem spared {n : Nat} {buff : Bytes} (hlocal : D.Local)
    (hspares : D.AllOrNothing ∨
      headerSize + metaSize * n ≤ u32 (blockId * Header.blockSize m.header + offset))
    {m₁ : Mounted δ} (hfails : (D.write m₁ (u32 (blockId * Header.blockSize m.header + offset))
      size buff).2 % 2 ^ 64 ≠ (size : Int)) {x : Nat} (hx : x < headerSize + metaSize * n) :
    D.bytes (D.write m₁ (u32 (blockId * Header.blockSize m.header + offset)) size
      buff).1.disk x = D.bytes m₁.disk x := by
  rcases hspares with hall | hbehind
  · exact congrFun (hall _ _ _ _ hfails) x
  · exact hlocal _ _ _ _ _ fun hin => absurd hin.1 (by omega)

/-- **Failed writes.** A write whose data the drive does not take answers with
what the drive answers, and changes nothing exactly if the file stays put: it
does not grow, or it stays in its blocks and the drive does not take the record
with the new size either. -/
theorem failed_write_iff {n : Nat} {buff : Bytes} (hlocal : D.Local) (hb : blockId < n)
    (hn : headerSize + metaSize * n ≤ 2 ^ 32)
    (hspares : D.AllOrNothing ∨
      headerSize + metaSize * n ≤ u32 (blockId * Header.blockSize m.header + offset))
    (hfails : (D.write (D.beforeData m blockId offset size)
      (u32 (blockId * Header.blockSize m.header + offset)) size buff).2 % 2 ^ 64 ≠ (size : Int)) :
    (D.asvfsWriteFileBlockId m blockId buff offset size).2 =
        (D.write (D.beforeData m blockId offset size)
          (u32 (blockId * Header.blockSize m.header + offset)) size buff).2 ∧
      (FailsCleanly D m blockId offset size
          (D.asvfsWriteFileBlockId m blockId buff offset size) ↔
        StaysPut D m blockId offset size) := by
  have hplace : metaOffset blockId + metaSize ≤ headerSize + metaSize * n := by
    have hrow := Nat.mul_le_mul_left metaSize (Nat.succ_le_of_lt hb)
    unfold metaOffset
    rw [Nat.mul_succ] at hrow
    omega
  have hspared : ∀ x < headerSize + metaSize * n, _ := fun x => spared hlocal hspares hfails
  rw [write_eq]
  refine ⟨rfl, fun hclean hgrows => ?_, fun hstays => ?_⟩
  · have hheader : (D.beforeData m blockId offset size).header = m.header := hclean.header
    have hmore : ¬ NeedsMore (resized D m blockId offset size) :=
      fun hmore => beforeData_of_more hgrows hmore hheader
    refine ⟨hmore, funext fun x => ?_⟩
    rw [beforeData_of_stays hgrows hmore] at hclean hspared
    by_cases hin : Extent.Has (metaOffset blockId, metaSize) x
    · obtain ⟨hlo, hhi⟩ := hin
      obtain ⟨i, rfl⟩ := Nat.exists_eq_add_of_le hlo
      have hi : i < metaSize := Nat.lt_of_add_lt_add_left hhi
      have hbyte := congrFun hclean.record i
      unfold asvfsGetMetaData readFromDisk at hbyte
      rw [read_eq hi, read_eq hi] at hbyte
      rw [← hspared (metaOffset blockId + i) (by dsimp only at hhi; omega)]
      exact hbyte
    · refine hlocal _ _ _ _ _ ?_
      have hoff : u32 (metaOffset blockId) = metaOffset blockId := by
        unfold u32 metaSize at *
        omega
      rw [hoff]
      exact hin
  · have hbefore : (D.beforeData m blockId offset size).header = m.header ∧
        D.bytes (D.beforeData m blockId offset size).disk = D.bytes m.disk := by
      by_cases hgrows : Grows (D.volume m) blockId offset size
      · obtain ⟨hmore, hbytes⟩ := hstays hgrows
        rw [beforeData_of_stays hgrows hmore]
        exact ⟨rfl, hbytes⟩
      · rw [Drive.beforeData, if_neg hgrows]
        exact ⟨rfl, rfl⟩
    obtain ⟨hheader, hbytes⟩ := hbefore
    rw [hbytes] at hspared
    refine ⟨hfails, hheader, fun x hx => hspared x (by omega), ?_, fun x hx => ?_⟩
    · exact read_congr fun i hi => hspared _ (by omega)
    · exact (hlocal _ _ _ _ _ hx).trans (congrFun hbytes x)

/-! ## The callback of the kernel -/

theorem vfsDiskWrite_local : Drive.vfsDiskWrite.Local := fun _ _ _ _ _ _ => rfl

theorem vfsDiskWrite_allOrNothing : Drive.vfsDiskWrite.AllOrNothing := fun _ _ _ _ _ => rfl

/-- Block 3, the file `/a/b`, with no bytes. -/
def fileOnDrive : Mounted Bytes := nestedDrive

/-- Ten bytes: the file stays in its block, and its record is not taken. -/
theorem failed_write_iff_short :
    (Drive.vfsDiskWrite.asvfsWriteFileBlockId fileOnDrive 3 (bytesOf []) 0 10).2 = 0 ∧
      FailsCleanly Drive.vfsDiskWrite fileOnDrive 3 0 10
        (Drive.vfsDiskWrite.asvfsWriteFileBlockId fileOnDrive 3 (bytesOf []) 0 10) := by
  have hclean : _ ∧ (FailsCleanly Drive.vfsDiskWrite fileOnDrive 3 0 10
      (Drive.vfsDiskWrite.asvfsWriteFileBlockId fileOnDrive 3 (bytesOf []) 0 10) ↔
        StaysPut Drive.vfsDiskWrite fileOnDrive 3 0 10) :=
    failed_write_iff vfsDiskWrite_local (show 3 < 8 by decide) (by decide)
      (.inl vfsDiskWrite_allOrNothing) (by decide)
  exact ⟨hclean.1, hclean.2.mpr fun _ => ⟨by decide +kernel, rfl⟩⟩

/-- 5000 bytes: `next_free` has moved by two blocks. -/
theorem failed_write_moves_next_free :
    Header.nextFree fileOnDrive.header = 4 ∧
      Header.nextFree
        (Drive.vfsDiskWrite.asvfsWriteFileBlockId fileOnDrive 3 (bytesOf []) 0 5000).1.header = 6 ∧
      ¬ FailsCleanly Drive.vfsDiskWrite fileOnDrive 3 0 5000
        (Drive.vfsDiskWrite.asvfsWriteFileBlockId fileOnDrive 3 (bytesOf []) 0 5000) := by
  have hbefore : Header.nextFree fileOnDrive.header = 4 := by decide +kernel
  have hafter : Header.nextFree (Drive.vfsDiskWrite.asvfsWriteFileBlockId fileOnDrive 3
      (bytesOf []) 0 5000).1.header = 6 := by decide +kernel
  refine ⟨hbefore, hafter, fun hclean => ?_⟩
  rw [hclean.header, hbefore] at hafter
  cases hafter

end VersionSix.Asvfs
