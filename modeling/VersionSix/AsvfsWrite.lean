import VersionSix.AsvfsDrive
import VersionSix.AsvfsRead
import VersionSix.Run

/-!
# ASVFS: writing a file

`asvfs_write` and `asvfs_truncate` over callbacks that transfer exactly the
addressed bytes. The ranges a call copies or writes data to are `written`. What
it changes besides is `updated`: three words of the record of the file and, if
the file gets more blocks, the header.

A run of calls on one file whose ranges stay clear of another file, of the
directories and of the records leaves them alone (`writes_isolated`). Nothing is
asked of where the blocks lie. The invariant of such a run is `Kept`; it has a
field for the entry of the file in the listing of its directory, because a name
that does not end in its 50 bytes goes on in the size of the file.
-/

namespace VersionSix.Asvfs

open ByteStore
open Ahci (Port Memory LoopCovers)
open Drive (storing)

/-! ## Functions -/

/-- `asvfs_read`, when the callback transfers exactly the addressed bytes:
what is in the buffer. -/
def asvfsReadBytes (s : Volume) (pathname : List UInt8) (size offset : Nat) :
    Option (Option Bytes) :=
  (asvfsGetBlockIdFromPathname s pathname).map fun blockId =>
    if blockId = 0 then none
    else some (readFromDisk s size (u32 (blockId * Header.blockSize s.header + offset)))

/-- These are the bytes that `vfs_disk_read` brings in, if its loop covers the
range. -/
theorem readBytes_port {s : Volume} {pathname : List UInt8} {b size offset : Nat} {port : Port}
    {buf : Int} {m : Memory} (hpath : asvfsGetBlockIdFromPathname s pathname = some b) (hb : b ≠ 0)
    (hport : port.Exact s.disk) (hend : drivePosition s b offset + size < 2 ^ 32)
    (hcov : LoopCovers (drivePosition s b offset) size) :
    ∃ bytes, asvfsReadBytes s pathname size offset = some (some bytes) ∧
      asvfsRead port s pathname buf size offset m = some (vfsErrorNone, fun a =>
        if buf ≤ a ∧ a < buf + size then bytes (a - buf).toNat else m a) := by
  refine ⟨readFromDisk s size (drivePosition s b offset), ?_, ?_⟩
  · unfold asvfsReadBytes
    rw [hpath, Option.map_some, if_neg hb]
    rfl
  · rw [read_covered hpath hb hport hend hcov]
    congr 2
    funext a
    unfold Ahci.stored readFromDisk
    split_ifs
    · rw [read_eq (by omega)]
    · omega
    · omega
    · rfl

def asvfsTruncateFileBlockId (s : Volume) (blockId length : Nat) : Volume × Int :=
  storing.asvfsTruncateFileBlockId s blockId length

def asvfsTruncate (s : Volume) (pathname : List UInt8) (length : Nat) : Option (Volume × Int) :=
  storing.asvfsTruncate s pathname length

def asvfsWriteFileBlockId (s : Volume) (blockId : Nat) (buff : Bytes) (offset size : Nat) :
    Volume × Int :=
  storing.asvfsWriteFileBlockId s blockId buff offset size

def asvfsWrite (s : Volume) (pathname : List UInt8) (buff : Bytes) (offset size : Nat) :
    Option (Volume × Int) :=
  storing.asvfsWrite s pathname buff offset size

theorem asvfsTruncate_eq (s : Volume) (pathname : List UInt8) (length : Nat) :
    asvfsTruncate s pathname length =
      (asvfsGetBlockIdFromPathname s pathname).map fun blockId =>
        if blockId = 0 then (s, asvfsErrorPathNotFound)
        else asvfsTruncateFileBlockId s blockId length := rfl

theorem asvfsWrite_eq (s : Volume) (pathname : List UInt8) (buff : Bytes) (offset size : Nat) :
    asvfsWrite s pathname buff offset size =
      (asvfsGetBlockIdFromPathname s pathname).map fun blockId =>
        if blockId = 0 then (s, 0) else asvfsWriteFileBlockId s blockId buff offset size := rfl

/-- A call of `asvfs_write` or of `asvfs_truncate`. -/
inductive FileOp
  | write (buff : Bytes) (offset size : Nat)
  | truncate (length : Nat)

def FileOp.run (pathname : List UInt8) (s : Volume) : FileOp → Option (Volume × Int)
  | .write buff offset size => asvfsWrite s pathname buff offset size
  | .truncate length => asvfsTruncate s pathname (u32 length)

def fileStep (pathname : List UInt8) (s : Volume) (op : FileOp) : Option Volume :=
  (op.run pathname s).map Prod.fst

/-! ## What a call writes to -/

/-- An offset on the drive and a number of bytes. -/
abbrev Extent := Nat × Nat

def Extent.Has (r : Extent) (x : Nat) : Prop := r.1 ≤ x ∧ x < r.1 + r.2

def Apart (r g : Extent) : Prop := r.2 = 0 ∨ g.2 = 0 ∨ r.1 + r.2 ≤ g.1 ∨ g.1 + g.2 ≤ r.1

instance (r g : Extent) : Decidable (Apart r g) := inferInstanceAs (Decidable (_ ∨ _))

theorem Apart.not_has {r g : Extent} {x : Nat} (h : Apart r g) (hg : g.Has x) : ¬ r.Has x := by
  intro hr
  unfold Apart at h
  unfold Extent.Has at hg hr
  omega

def copied (s : Volume) (blockId length : Nat) : List Extent :=
  let m := Meta.setFileSize (asvfsGetMetaData s blockId) length
  if NeedsMore m then
    (List.range (Meta.numBlocks m)).map fun i =>
      (u32 (u32 (Header.nextFree s.header + i) * Header.blockSize s.header), asvfsDefaultBlockSize)
  else []

/-- The ranges a call copies or writes data to. -/
def written (s : Volume) (blockId : Nat) : FileOp → List Extent
  | .write _ offset size =>
      (u32 (blockId * Header.blockSize s.header + offset), size) ::
        if Grows s blockId offset size then copied s blockId (u32 (offset + size)) else []
  | .truncate length => copied s blockId (u32 length)

/-- A byte of the words `file_size`, `starting_block` and `num_blocks` of the
record of the file. -/
def InSizes (blockId x : Nat) : Prop := Extent.Has (metaOffset blockId + 55, 12) x

/-- What a truncation changes besides: the sizes in the record, and the header
with the new `next_free`. -/
def truncated (s : Volume) (blockId length : Nat) : List Extent :=
  (metaOffset blockId + 55, 12) ::
    if NeedsMore (Meta.setFileSize (asvfsGetMetaData s blockId) length) then [(0, headerSize)]
    else []

def updated (s : Volume) (blockId : Nat) : FileOp → List Extent
  | .write _ offset size =>
      if Grows s blockId offset size then truncated s blockId (u32 (offset + size)) else []
  | .truncate length => truncated s blockId (u32 length)

theorem truncated_cases {s : Volume} {blockId length : Nat} {r : Extent}
    (h : r ∈ truncated s blockId length) :
    r = (metaOffset blockId + 55, 12) ∨ r = (0, headerSize) := by
  unfold truncated at h
  rcases List.mem_cons.mp h with rfl | h
  · exact .inl rfl
  · split at h
    · exact .inr (List.mem_singleton.mp h)
    · cases h

theorem updated_cases {s : Volume} {blockId : Nat} {op : FileOp} {r : Extent}
    (h : r ∈ updated s blockId op) :
    r = (metaOffset blockId + 55, 12) ∨ r = (0, headerSize) := by
  cases op with
  | write buff offset size =>
      rw [updated] at h
      split_ifs at h
      · exact truncated_cases h
      · cases h
  | truncate length => exact truncated_cases h

section Frame

variable {s : Volume} {blockId length x : Nat}

theorem writeToDisk_out {off n : Nat} {buff : Bytes} (h : ¬ Extent.Has (off, n) x) :
    (writeToDisk s (off : Nat) n buff).disk x = s.disk x := by
  unfold Extent.Has at h
  exact write_out (by omega)

theorem writeBlock_out {b n : Nat} {data : Bytes}
    (h : ¬ Extent.Has (u32 (b * Header.blockSize s.header), n) x) :
    (asvfsWriteBlock s b n data).disk x = s.disk x :=
  writeToDisk_out h

theorem storing_copyBlocks_succ (s : Volume) (src dst k : Nat) :
    storing.copyBlocks s src dst (k + 1) =
      asvfsWriteBlock (storing.copyBlocks s src dst k) (u32 (dst + k)) asvfsDefaultBlockSize
        (asvfsReadBlock (storing.copyBlocks s src dst k) (u32 (src + k))
          asvfsDefaultBlockSize) := by
  unfold Drive.copyBlocks
  rw [List.range_succ, List.foldl_append]
  rfl

theorem copyBlocks_out {dst k : Nat} (src : Nat) (h : ∀ i < k,
      ¬ Extent.Has (u32 (u32 (dst + i) * Header.blockSize s.header), asvfsDefaultBlockSize) x) :
    (storing.copyBlocks s src dst k).disk x = s.disk x := by
  induction k with
  | zero => rfl
  | succ k ih =>
      rw [storing_copyBlocks_succ]
      refine (writeBlock_out ?_).trans (ih fun i hi => h i (Nat.lt_succ_of_lt hi))
      rw [copyBlocks_header]
      exact h k (Nat.lt_succ_self k)

/-- A record that differs from the one on the drive in the sizes only. -/
def SizesOnly (s : Volume) (blockId : Nat) (m : Bytes) : Prop :=
  ∀ i < metaSize, i < 55 ∨ 67 ≤ i → m i = s.disk (metaOffset blockId + i)

theorem SizesOnly.write {s₀ : Volume} {m : Bytes} (h : SizesOnly s₀ blockId m)
    (hplace : metaOffset blockId < 2 ^ 32) (hx : ¬ InSizes blockId x)
    (hbyte : s.disk x = s₀.disk x) :
    (asvfsWriteMetaData s blockId m).disk x = s₀.disk x := by
  rw [writeMeta_eq hplace]
  by_cases hin : Extent.Has (metaOffset blockId, metaSize) x
  · obtain ⟨hlo, hhi⟩ := hin
    obtain ⟨i, rfl⟩ := Nat.exists_eq_add_of_le hlo
    have hi : i < metaSize := Nat.lt_of_add_lt_add_left hhi
    have hsizes : i < 55 ∨ 67 ≤ i := by
      unfold InSizes Extent.Has at hx
      omega
    exact (write_in hi).trans (h i hi hsizes)
  · exact (writeToDisk_out hin).trans hbyte

theorem sizesOnly_setFileSize (s : Volume) (blockId v : Nat) :
    SizesOnly s blockId (Meta.setFileSize (asvfsGetMetaData s blockId) v) := by
  intro i hi hout
  unfold Meta.setFileSize asvfsGetMetaData readFromDisk
  rw [setLe_out (by omega), read_eq hi]

theorem SizesOnly.setBlocks {m : Bytes} (h : SizesOnly s blockId m) (v w : Nat) :
    SizesOnly s blockId (Meta.setNumBlocks (Meta.setStartingBlock m v) w) := by
  intro i hi hout
  unfold Meta.setNumBlocks Meta.setStartingBlock
  rw [setLe_out (by omega), setLe_out (by omega)]
  exact h i hi hout

theorem storing_recreate_sizes {m : Bytes} (h : SizesOnly s blockId m) :
    SizesOnly s blockId (storing.recreate s blockId m).2 :=
  h.setBlocks _ _

theorem storing_recreate_out {m : Bytes} (h : SizesOnly s blockId m)
    (hplace : metaOffset blockId < 2 ^ 32) (hhead : ¬ Extent.Has (0, headerSize) x)
    (hx : ¬ InSizes blockId x) (hcopied : ∀ i < Meta.numBlocks m, ¬ Extent.Has
      (u32 (u32 (Header.nextFree s.header + i) * Header.blockSize s.header),
        asvfsDefaultBlockSize) x) : (storing.recreate s blockId m).1.disk x = s.disk x := by
  refine (h.setBlocks _ _).write hplace hx ?_
  exact (writeToDisk_out hhead).trans (copyBlocks_out _ hcopied)

/-- A truncation keeps every byte that it neither changes nor copies to. -/
theorem truncate_out (hplace : metaOffset blockId < 2 ^ 32)
    (hx : ∀ r ∈ truncated s blockId length, ¬ r.Has x)
    (hcopied : ∀ r ∈ copied s blockId length, ¬ r.Has x) :
    (asvfsTruncateFileBlockId s blockId length).1.disk x = s.disk x := by
  have hsizes := sizesOnly_setFileSize s blockId length
  unfold truncated at hx
  unfold copied at hcopied
  unfold asvfsTruncateFileBlockId Drive.asvfsTruncateFileBlockId
  dsimp only at hcopied ⊢
  obtain ⟨hown, hhead⟩ := List.forall_mem_cons.mp hx
  rw [show storing.volume s = s from rfl]
  generalize Meta.setFileSize (asvfsGetMetaData s blockId) length = m at hsizes hhead hcopied ⊢
  split_ifs at hhead hcopied ⊢ with hmore
  · refine (storing_recreate_sizes hsizes).write hplace hown
      (storing_recreate_out hsizes hplace (hhead _ List.mem_cons_self) hown fun i hi => ?_)
    exact hcopied _ (List.mem_map_of_mem (List.mem_range.mpr hi))
  · exact hsizes.write hplace hown rfl

theorem writeFileBlockId_eq (s : Volume) (blockId : Nat) (buff : Bytes) (offset size : Nat) :
    (asvfsWriteFileBlockId s blockId buff offset size).1 =
      writeToDisk (if Grows s blockId offset size then
          (asvfsTruncateFileBlockId s blockId (u32 (offset + size))).1 else s)
        (u32 (blockId * Header.blockSize s.header + offset) : Nat) size buff := by
  rw [asvfsWriteFileBlockId, write_eq]
  rfl

/-- **The frame of a call.** -/
theorem fileStep_frame {pathname : List UInt8} {op : FileOp} {s' : Volume}
    (hpath : asvfsGetBlockIdFromPathname s pathname = some blockId) (hb : blockId ≠ 0)
    (hplace : metaOffset blockId < 2 ^ 32) (h : fileStep pathname s op = some s') :
    HeaderKept s.header s'.header ∧
      ∀ x, (∀ r ∈ updated s blockId op, ¬ r.Has x) → (∀ r ∈ written s blockId op, ¬ r.Has x) →
        s'.disk x = s.disk x := by
  unfold fileStep FileOp.run at h
  cases op with
  | write buff offset size =>
      simp only [asvfsWrite_eq, hpath, Option.map_some, if_neg hb, Option.some.injEq] at h
      subst h
      refine ⟨?_, fun x hx hwritten => ?_⟩
      · rw [asvfsWriteFileBlockId, write_eq]
        exact beforeData_header ..
      · rw [updated] at hx
        obtain ⟨hdata, hcopied⟩ := List.forall_mem_cons.mp hwritten
        rw [writeFileBlockId_eq]
        refine (writeToDisk_out hdata).trans ?_
        split_ifs at hx hcopied ⊢
        · exact truncate_out hplace hx hcopied
        · rfl
  | truncate length =>
      simp only [asvfsTruncate_eq, hpath, Option.map_some, if_neg hb, Option.some.injEq] at h
      subst h
      exact ⟨truncate_header .., fun x hx hwritten => truncate_out hplace hx hwritten⟩

theorem fileStep_out {pathname : List UInt8} {op : FileOp} {s' : Volume}
    (hpath : asvfsGetBlockIdFromPathname s pathname = some blockId) (hb : blockId ≠ 0)
    (hplace : metaOffset blockId < 2 ^ 32) (h : fileStep pathname s op = some s') :
    HeaderKept s.header s'.header ∧
      ∀ x, headerSize ≤ x → ¬ InSizes blockId x → (∀ r ∈ written s blockId op, ¬ r.Has x) →
        s'.disk x = s.disk x := by
  obtain ⟨hheader, hframe⟩ := fileStep_frame hpath hb hplace h
  refine ⟨hheader, fun x hhead hx hwritten => hframe x (fun r hr hin => ?_) hwritten⟩
  rcases updated_cases hr with rfl | rfl
  · exact hx hin
  · exact absurd hin.2 (by omega)

theorem fileStep_returns {pathname : List UInt8}
    (hpath : asvfsGetBlockIdFromPathname s pathname = some blockId) (op : FileOp) :
    ∃ s', fileStep pathname s op = some s' := by
  unfold fileStep FileOp.run
  cases op <;> simp [asvfsWrite_eq, asvfsTruncate_eq, hpath]

end Frame

/-! ## Files and directories of a drive -/

/-- The record of `i` is in use. -/
def InUse (s : Volume) (i : Nat) : Prop := Meta.inUse (asvfsGetMetaData s i) ≠ 0

instance (s : Volume) (i : Nat) : Decidable (InUse s i) := inferInstanceAs (Decidable (_ ≠ _))

/-- One of the first `n` blocks is a directory. -/
def IsDirectory (n : Nat) (s : Volume) (d : Nat) : Prop :=
  d < n ∧ InUse s d ∧ Meta.blockType (asvfsGetMetaData s d) = asvfsBlockTypeDirectory

instance (n : Nat) (s : Volume) (d : Nat) : Decidable (IsDirectory n s d) :=
  inferInstanceAs (Decidable (_ ∧ _ ∧ _))

/-- A well-formed drive with `n` blocks: the addresses of the blocks in use and
of the files in them fit in 32 bits, and directories list blocks of the drive. -/
structure Image (n : Nat) (s : Volume) : Prop where
  blockSize : Header.blockSize s.header = asvfsDefaultBlockSize
  fits : ∀ i < n, InUse s i →
    i < 2 ^ 20 ∧ 4096 * i + Meta.fileSize (asvfsGetMetaData s i) ≤ 2 ^ 32
  listed : ∀ d, IsDirectory n s d → ∀ e ∈ Directory.entries (directoryBlock s d), e < n

/-- `pathname` leads through directories to the regular file `b`. -/
structure FileAt (n : Nat) (s : Volume) (pathname : List UInt8) (b : Nat) : Prop where
  lookup : asvfsGetBlockIdFromPathname s pathname = some b
  found : b ≠ 0
  through : ∀ d ∈ directoriesOnPath s pathname, IsDirectory n s d
  inside : b < n
  inUse : InUse s b
  file : Meta.blockType (asvfsGetMetaData s b) = asvfsBlockTypeFile

/-- The bytes of the file `b` and the directories. -/
def contents (n : Nat) (s : Volume) (b : Nat) : List Extent :=
  (4096 * b, Meta.fileSize (asvfsGetMetaData s b)) ::
    ((List.range n).filter (IsDirectory n s ·)).map fun d => (4096 * d, directorySize)

/-- What the data of another file has to stay clear of: the header and the
records as well. -/
def guarded (n : Nat) (s : Volume) (b : Nat) : List Extent :=
  (0, headerSize + metaSize * n) :: contents n s b

/-- The call on the file `a` writes to nothing of the file `b`, to no directory
and to no record but the sizes of `a`. If it changes these, the name of `a` ends
in front of them. -/
def Clear (n a b : Nat) (s : Volume) (op : FileOp) : Prop :=
  (∀ r ∈ written s a op, ∀ g ∈ guarded n s b, Apart r g) ∧
    (∀ r ∈ updated s a op, ∀ g ∈ contents n s b, Apart r g) ∧
    (updated s a op = [] ∨ (Meta.name (asvfsGetMetaData s a)).isSome)

instance (n a b : Nat) (s : Volume) (op : FileOp) : Decidable (Clear n a b s op) :=
  inferInstanceAs (Decidable (_ ∧ _ ∧ _))

/-- What calls on the file `a` keep of the file `b` at `pathname`, of the
directories and of the records of other files. -/
structure Isolated (n a b : Nat) (pathname : List UInt8) (s s' : Volume) : Prop where
  reads : ∀ size offset, offset + size ≤ Meta.fileSize (asvfsGetMetaData s b) →
    asvfsReadBytes s' pathname size offset = asvfsReadBytes s pathname size offset
  directories : ∀ d, IsDirectory n s d → directoryBlock s' d = directoryBlock s d
  records : ∀ i < n, i ≠ a → asvfsGetMetaData s' i = asvfsGetMetaData s i

/-! ## The invariant of a run -/

/-- What a run on the file `a` keeps: everything of the records but the sizes
of `a`, its entry in a listing, the directories, the data of the file `b`. -/
structure Kept (n a b : Nat) (s s' : Volume) : Prop where
  root : Header.rootDirectory s'.header = Header.rootDirectory s.header
  blockSize : Header.blockSize s'.header = Header.blockSize s.header
  record : ∀ i < n, i ≠ a → asvfsGetMetaData s' i = asvfsGetMetaData s i
  own : ∀ j < metaSize, j < 55 ∨ 67 ≤ j → asvfsGetMetaData s' a j = asvfsGetMetaData s a j
  entry : dirEntry s' a = dirEntry s a
  contents : ∀ g ∈ contents n s b, ∀ x, g.Has x → s'.disk x = s.disk x

theorem dirEntry_congr {s s' : Volume} {i : Nat}
    (h : asvfsGetMetaData s' i = asvfsGetMetaData s i) : dirEntry s' i = dirEntry s i := by
  unfold dirEntry
  rw [h]

/-- Of a record whose name ends in its field it shows what is in front of the
sizes. -/
theorem dirEntry_of_front {s s' : Volume} {i : Nat}
    (hname : (Meta.name (asvfsGetMetaData s i)).isSome)
    (h : ∀ j < 55, asvfsGetMetaData s' i j = asvfsGetMetaData s i j) :
    dirEntry s' i = dirEntry s i := by
  obtain ⟨name, hname⟩ := Option.isSome_iff_exists.mp hname
  have hname' : Meta.name (asvfsGetMetaData s' i) = some name :=
    (cstr_congr fun j hj => h _ (by unfold asvfsMaxNameSize at hj; omega)).trans hname
  have hid : Meta.id (asvfsGetMetaData s' i) = Meta.id (asvfsGetMetaData s i) :=
    le_congr fun j hj => h _ (by omega)
  have htype : Meta.blockType (asvfsGetMetaData s' i) = Meta.blockType (asvfsGetMetaData s i) :=
    le_congr fun j hj => h _ (by omega)
  rw [dirEntry_of_name hname, dirEntry_of_name hname', hid, htype]

section Runs

variable {n a b c : Nat} {s s' s'' : Volume} {path path' : List UInt8} {op : FileOp}

theorem Kept.refl (n a b : Nat) (s : Volume) : Kept n a b s s :=
  ⟨rfl, rfl, fun _ _ _ => rfl, fun _ _ _ => rfl, rfl, fun _ _ _ _ => rfl⟩

/-- Id, type and name are in front of the sizes, `in_use` is behind them. -/
theorem Kept.outside (h : Kept n a b s s') {i j : Nat} (hi : i < n) (hj : j < metaSize)
    (hout : j < 55 ∨ 67 ≤ j) : asvfsGetMetaData s' i j = asvfsGetMetaData s i j := by
  by_cases hia : i = a
  · exact hia ▸ h.own j hj hout
  · rw [h.record i hi hia]

theorem Kept.isDirectory_iff (h : Kept n a b s s') (d : Nat) :
    IsDirectory n s' d ↔ IsDirectory n s d := by
  refine and_congr_right fun hd => ?_
  have htype : Meta.blockType (asvfsGetMetaData s' d) = Meta.blockType (asvfsGetMetaData s d) :=
    le_congr fun j hj => h.outside hd (by unfold metaSize; omega) (by omega)
  have huse : Meta.inUse (asvfsGetMetaData s' d) = Meta.inUse (asvfsGetMetaData s d) :=
    le_congr fun j hj => h.outside hd (by unfold metaSize; omega) (by omega)
  unfold InUse
  rw [htype, huse]

theorem Kept.contents_eq (h : Kept n a b s s') (hb : b < n) (hne : b ≠ a) :
    Asvfs.contents n s' b = Asvfs.contents n s b := by
  have hdirs : (List.range n).filter (IsDirectory n s' ·) =
      (List.range n).filter (IsDirectory n s ·) :=
    List.filter_congr fun d _ => decide_eq_decide.mpr (h.isDirectory_iff d)
  unfold Asvfs.contents
  rw [h.record b hb hne, hdirs]

theorem Kept.directory (hs : Image n s) (h : Kept n a b s s') {d : Nat} (hd : IsDirectory n s d) :
    directoryBlock s' d = directoryBlock s d := by
  have hmem : (4096 * d, directorySize) ∈ Asvfs.contents n s b :=
    List.mem_cons_of_mem _ (List.mem_map_of_mem
      (List.mem_filter.mpr ⟨List.mem_range.mpr hd.1, decide_eq_true hd⟩))
  refine read_congr fun j hj => ?_
  rw [u32_block (hs.fits d hd.1 hd.2.1).1]
  exact h.contents _ hmem _ ⟨Nat.le_add_right _ _, Nat.add_lt_add_left hj _⟩

theorem Kept.readdir (hs : Image n s) (h : Kept n a b s s') {d : Nat} (hd : IsDirectory n s d) :
    asvfsReaddir s' d = asvfsReaddir s d := by
  refine readdir_same (h.directory hs hd) fun e he => ?_
  by_cases hea : e = a
  · rw [hea, h.entry]
  · exact dirEntry_congr (h.record e (hs.listed d hd e he) hea)

theorem Kept.lookup (hs : Image n s) (h : Kept n a b s s') (hfile : FileAt n s path c) :
    asvfsGetBlockIdFromPathname s' path = some c :=
  (lookup_same h.root fun d hd => h.readdir hs (hfile.through d hd)).trans hfile.lookup

/-- **The step.** -/
theorem Kept.step (hs : Image n s) (ha : FileAt n s path a) (hb : b < n) (hne : a ≠ b)
    (h : Kept n a b s s') (hclear : Clear n a b s' op) :
    ∃ s'', fileStep path s' op = some s'' ∧ Kept n a b s s'' := by
  obtain ⟨hwritten, hupdated, hnamed⟩ := hclear
  have hlook := h.lookup hs ha
  have hplace := metaOffset_lt (hs.fits a ha.inside ha.inUse).1
  obtain ⟨s'', hstep⟩ := fileStep_returns hlook op
  obtain ⟨hheader, hout⟩ := fileStep_frame hlook ha.found hplace hstep
  obtain ⟨hroot, hsize, -⟩ := hheader.fields
  -- the records, but for the sizes of `a`
  have hrecord : ∀ i < n, ∀ j < metaSize, i ≠ a ∨ j < 55 ∨ 67 ≤ j ∨ updated s' a op = [] →
      s''.disk (metaOffset i + j) = s'.disk (metaOffset i + j) := by
    intro i hi j hj hcase
    refine hout _ (fun r hr => ?_) fun r hr => ?_
    · have hsome : updated s' a op ≠ [] := List.ne_nil_of_mem hr
      simp only [hsome, or_false] at hcase
      unfold Extent.Has
      rcases updated_cases hr with rfl | rfl
      all_goals
        unfold metaOffset headerSize metaSize at *
        dsimp only
        omega
    · refine (hwritten r hr _ List.mem_cons_self).not_has ⟨Nat.zero_le _, ?_⟩
      unfold metaOffset metaSize at *
      dsimp only
      omega
  have hown : ∀ j < metaSize, j < 55 ∨ 67 ≤ j ∨ updated s' a op = [] →
      asvfsGetMetaData s'' a j = asvfsGetMetaData s' a j := by
    intro j hj hcase
    unfold asvfsGetMetaData readFromDisk
    rw [read_eq hj, read_eq hj]
    exact hrecord a ha.inside j hj (.inr hcase)
  refine ⟨s'', hstep, ⟨hroot.trans h.root, hsize.trans h.blockSize, fun i hi hia => ?_,
    fun j hj hcase => ?_, ?_, fun g hg x hx => ?_⟩⟩
  · exact (read_congr fun j hj => hrecord i hi j hj (.inl hia)).trans (h.record i hi hia)
  · exact (hown j hj (hcase.imp_right .inl)).trans (h.own j hj hcase)
  · refine Eq.trans ?_ h.entry
    rcases hnamed with hnone | hname
    · exact dirEntry_congr (read_congr fun j hj =>
        hrecord a ha.inside j hj (.inr (.inr (.inr hnone))))
    · exact dirEntry_of_front hname fun j hj => hown j (by unfold metaSize; omega) (.inl hj)
  · refine Eq.trans ?_ (h.contents g hg x hx)
    rw [← h.contents_eq hb hne.symm] at hg
    exact hout x (fun r hr => (hupdated r hr g hg).not_has hx)
      fun r hr => (hwritten r hr g (List.mem_cons_of_mem _ hg)).not_has hx

theorem Kept.isolated (hs : Image n s) (hb : FileAt n s path' b) (h : Kept n a b s s') :
    Isolated n a b path' s s' where
  reads size offset hin := by
    obtain ⟨-, hfits⟩ := hs.fits b hb.inside hb.inUse
    have hlook := h.lookup hs hb
    unfold asvfsReadBytes
    rw [hlook, hb.lookup, Option.map_some, Option.map_some, if_neg hb.found, if_neg hb.found,
      h.blockSize, hs.blockSize]
    congr 2
    refine read_congr fun j hj => ?_
    have haddress : u32 (b * asvfsDefaultBlockSize + offset) = 4096 * b + offset := by
      unfold u32 asvfsDefaultBlockSize
      omega
    rw [haddress, Nat.add_assoc]
    refine h.contents _ List.mem_cons_self _ ⟨Nat.le_add_right _ _, ?_⟩
    dsimp only
    omega
  directories _ hd := h.directory hs hd
  records := h.record

/-- **Writes are isolated.** In a run of calls on one file that stay clear of
another one, of the directories and of the records, reads of the other one, the
directories and the other records stay as they were. The condition looks at the
state before each call: which ranges of the drive the call will transfer data
to, and where the other file is. The proof is by induction on the run, with the
agreement of the two drives outside of the first file as what each call keeps. -/
theorem writes_isolated (hs : Image n s) (ha : FileAt n s path a) (hb : FileAt n s path' b)
    (hne : a ≠ b) {ops : List FileOp} (hclear : Run.Along (fileStep path) (Clear n a b) s ops) :
    ∃ s', Run.exec (fileStep path) s ops = some s' ∧ Isolated n a b path' s s' := by
  obtain ⟨s', hrun, hkept⟩ := Run.exec_total (I := Kept n a b s)
    (fun _ _ h hP => h.step hs ha hb.inside hne hP) (Kept.refl n a b s) hclear
  exact ⟨s', hrun, hkept.isolated hs hb⟩

end Runs

/-! ## Two files -/

/-- Block 0 is in use for the header and the records. The root is block 1 and
lists `/a`, block 2, which is empty, and `/b`, block 3: `xyz`. -/
def twoFiles : Volume where
  header := bytesOf [(14, 16), (17, 8), (21, 1), (25, 4)]
  disk := bytesOf [(65, 4), (128, 1), (157, 1), (161, 2), (224, 1), (253, 2), (257, 1), (258, 97),
    (320, 1), (349, 3), (353, 1), (354, 98), (404, 3), (416, 1),
    (4096, 2), (4100, 2), (4104, 3), (5124, 2), (12288, 120), (12289, 121), (12290, 122)]

theorem twoFiles_image : Image 8 twoFiles where
  blockSize := by decide
  fits := by decide +kernel
  listed d hd := by
    have hall : ∀ d < 8, IsDirectory 8 twoFiles d →
        ∀ e ∈ Directory.entries (directoryBlock twoFiles d), e < 8 := by decide +kernel
    exact hall d hd.1 hd

theorem twoFiles_a : FileAt 8 twoFiles [47, 97] 2 :=
  ⟨by decide +kernel, by decide, by decide +kernel, by decide, by decide +kernel, by decide +kernel⟩

theorem twoFiles_b : FileAt 8 twoFiles [47, 98] 3 :=
  ⟨by decide +kernel, by decide, by decide +kernel, by decide, by decide +kernel, by decide +kernel⟩

/-- Five bytes of `/a` are written, and all but two of them cut off again. -/
theorem writes_isolated_twoFiles : ∃ s', Run.exec (fileStep [47, 97]) twoFiles
    [.write (fun _ => 7) 0 5, .truncate 2] = some s' ∧ Isolated 8 2 3 [47, 98] twoFiles s' :=
  writes_isolated twoFiles_image twoFiles_a twoFiles_b (by decide) (by decide +kernel)

/-- A byte written to `/a` behind its first 4096 is the first byte of `/b`. -/
theorem write_overwrites_neighbour : Image 8 twoFiles ∧ FileAt 8 twoFiles [47, 97] 2 ∧
    FileAt 8 twoFiles [47, 98] 3 ∧ ∃ s', Run.exec (fileStep [47, 97]) twoFiles
      [.write (fun _ => 7) 4096 1] = some s' ∧ ¬ Isolated 8 2 3 [47, 98] twoFiles s' := by
  have hrun : (Run.exec (fileStep [47, 97]) twoFiles [.write (fun _ => 7) 4096 1]).any (fun s' =>
      (asvfsReadBytes s' [47, 98] 1 0).map (Option.map (· 0)) ≠
        (asvfsReadBytes twoFiles [47, 98] 1 0).map (Option.map (· 0))) = true := by decide +kernel
  obtain ⟨s', hs', hdiffer⟩ := (Option.any_eq_true _ _).mp hrun
  refine ⟨twoFiles_image, twoFiles_a, twoFiles_b, s', hs', fun h => ?_⟩
  exact of_decide_eq_true hdiffer (by rw [h.reads 1 0 (by decide +kernel)])

end VersionSix.Asvfs
