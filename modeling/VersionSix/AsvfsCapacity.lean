import VersionSix.AsvfsCreate
import VersionSix.AsvfsWrite

/-!
# ASVFS: limits

A directory block has room for 256 entries, and block ids go up to
`block_count`. `asvfs_mknod`, `asvfs_mkdir`, `asvfs_rename` and
`asvfs_truncate` take the next entry or the next blocks without a look at
either limit. A call that exceeds one is never refused (`not_refused`): it
succeeds, or it writes behind the index, and an entry that is appended behind
the index array does not return here.

As long as the callers ask for no more than there is, and file data stays clear
of the records and the directories, the limits are kept (`limits_kept`). The
condition `Exceeds` is judged in the state before a call, with the lookups of
the source, and a write counts the blocks that its truncation would take.

The invariant `Bounded` says where things lie: records first, then directories
and free blocks, with `next_free` behind all of them. A call on a file moves
nothing of it but the sizes in its own record (`SystemKept`), so the proof has
one case for trees and one for data.
-/

namespace VersionSix.Asvfs

open ByteStore

variable {s s' : Volume} {n : Nat}

/-! ## Calls -/

/-- `asvfs_mknod`, `asvfs_mkdir`, `asvfs_write` or `asvfs_truncate`, and
`asvfs_rename`. -/
inductive Call
  | mknod (path : List UInt8) (mode : Int)
  | mkdir (path : List UInt8) (mode : Int) (stack : Bytes)
  | file (path : List UInt8) (op : FileOp)
  | rename (src dst : List UInt8)

def Call.run (s : Volume) : Call → Option (Volume × Int)
  | .mknod path mode => asvfsMknod s path mode
  | .mkdir path mode stack => asvfsMkdir s stack path mode
  | .file path op => op.run path s
  | .rename src dst => asvfsRename s src dst

def callStep (s : Volume) (c : Call) : Option Volume := (c.run s).map Prod.fst

/-- The block the parent in `path` leads to. -/
def parentOf (s : Volume) (path : List UInt8) : Option Nat :=
  (asvfsGetPathParts path).bind fun parts => asvfsGetBlockIdFromPathname s parts.1

/-- The record of `d` is that of a directory. -/
def DirectoryRecord (s : Volume) (d : Nat) : Prop :=
  Meta.blockType (asvfsGetMetaData s d) = asvfsBlockTypeDirectory

instance (s : Volume) (d : Nat) : Decidable (DirectoryRecord s d) :=
  inferInstanceAs (Decidable (_ = _))

def taken (s : Volume) (blockId length : Nat) : Nat :=
  let m := Meta.setFileSize (asvfsGetMetaData s blockId) length
  if NeedsMore m then blocksNeeded (Meta.fileSize m) else 0

def blocksTaken (s : Volume) (blockId : Nat) : FileOp → Nat
  | .write _ offset size =>
      if Grows s blockId offset size then taken s blockId (u32 (offset + size)) else 0
  | .truncate length => taken s blockId (u32 length)

/-! ## Limits -/

def Full (s : Volume) (d : Nat) : Prop := 256 ≤ Directory.nextIndex (directoryBlock s d)

instance (s : Volume) (d : Nat) : Decidable (Full s d) := inferInstanceAs (Decidable (_ ≤ _))

/-- The call takes an entry or a block that is not there: it finds what it
looks for, and the directory is full or the blocks left are too few. -/
def Exceeds (s : Volume) : Call → Prop
  | .mknod path _ | .mkdir path _ _ => ∃ p ∈ parentOf s path, p ≠ 0 ∧ DirectoryRecord s p ∧
      (Full s p ∨ Header.blockCount s.header ≤ Header.nextFree s.header)
  | .file path op => ∃ a ∈ asvfsGetBlockIdFromPathname s path, a ≠ 0 ∧ 0 < blocksTaken s a op ∧
      Header.blockCount s.header < Header.nextFree s.header + blocksTaken s a op
  | .rename src dst => ∃ p ∈ parentOf s src, ∃ q ∈ parentOf s dst,
      ∃ f ∈ asvfsGetBlockIdFromPathname s src, p ≠ 0 ∧ q ≠ 0 ∧ f ≠ 0 ∧ p ≠ q ∧ Full s q

def systemExtents (s : Volume) : List Extent :=
  (0, headerSize + metaSize * Header.blockCount s.header) ::
    ((List.range (Header.blockCount s.header)).filter (DirectoryRecord s ·)).map fun d =>
      (4096 * d, directorySize)

/-- The block `f` is one of the drive's, and to move it from `p` to `q` these
are directories. -/
def OnDriveMove (s : Volume) (p q f : Nat) : Prop :=
  f < Header.blockCount s.header ∧ (p ≠ 0 ∧ q ≠ 0 ∧ p ≠ q → ∀ d ∈ [p, q],
    d < Header.blockCount s.header ∧ DirectoryRecord s d)

instance (s : Volume) (p q f : Nat) : Decidable (OnDriveMove s p q f) :=
  inferInstanceAs (Decidable (_ ∧ (_ → ∀ d ∈ [p, q], _ ∧ DirectoryRecord s d)))

/-- The call works on blocks of the drive: its paths lead to such blocks, an
entry is moved between directories, and no file data goes to the records or the
directories. -/
def OnDrive (s : Volume) : Call → Prop
  | .mknod path _ | .mkdir path _ _ =>
      ∀ p ∈ parentOf s path, p < Header.blockCount s.header
  | .file path op => ∀ a ∈ asvfsGetBlockIdFromPathname s path, a ≠ 0 →
      a < Header.blockCount s.header ∧ ∀ r ∈ written s a op, ∀ g ∈ systemExtents s, Apart r g
  | .rename src dst => ∀ p ∈ parentOf s src, ∀ q ∈ parentOf s dst,
      ∀ f ∈ asvfsGetBlockIdFromPathname s src, OnDriveMove s p q f

/-- Every allocated block is one of the drive's, and no directory has more
entries than the index holds. -/
structure WithinLimits (s : Volume) : Prop where
  allocated : ∀ b < Header.nextFree s.header, b < Header.blockCount s.header
  indexed : ∀ d < Header.blockCount s.header, DirectoryRecord s d →
    Directory.nextIndex (directoryBlock s d) ≤ 256

/-- The limits are kept in every state of the run, and a call that exceeds one
returns an error and changes nothing. -/
def Respected : Volume → List Call → Prop
  | s, [] => WithinLimits s
  | s, c :: cs => WithinLimits s ∧ (Exceeds s c → ∃ r < 0, c.run s = some (s, r)) ∧
      ∀ s', callStep s c = some s' → Respected s' cs

/-- A drive with an empty root and no other directory; blocks are free from
`next_free` on. -/
structure Fresh (s : Volume) : Prop where
  blockSize : Header.blockSize s.header = asvfsDefaultBlockSize
  address : Header.blockCount s.header ≤ 2 ^ 20
  next : Header.nextFree s.header ≤ Header.blockCount s.header
  root : Header.rootDirectory s.header < Header.nextFree s.header
  placed : Placed (Header.blockCount s.header) (Header.rootDirectory s.header)
  directories : ∀ d < Header.blockCount s.header, DirectoryRecord s d →
    d = Header.rootDirectory s.header
  empty : Directory.nextIndex (directoryBlock s (Header.rootDirectory s.header)) = 0

/-! ## The invariant -/

/-- A drive with `n` blocks within its limits; the directories and the free
blocks lie behind the records. -/
structure Bounded (n : Nat) (s : Volume) : Prop where
  blockSize : Header.blockSize s.header = asvfsDefaultBlockSize
  count : Header.blockCount s.header = n
  address : n ≤ 2 ^ 20
  next : Header.nextFree s.header ≤ n
  behind : headerSize + metaSize * n ≤ 4096 * Header.nextFree s.header
  placed : ∀ d < n, DirectoryRecord s d → Placed n d
  indexed : ∀ d < n, DirectoryRecord s d → Directory.nextIndex (directoryBlock s d) ≤ 256

theorem Fresh.bounded (h : Fresh s) : Bounded (Header.blockCount s.header) s where
  blockSize := h.blockSize
  count := rfl
  address := h.address
  next := h.next
  behind := by
    have hroot := h.placed.behind
    have hfront := h.root
    omega
  placed d hd hrecord := h.directories d hd hrecord ▸ h.placed
  indexed d hd hrecord := by
    rw [h.directories d hd hrecord, h.empty]
    exact Nat.zero_le _

theorem Bounded.within (h : Bounded n s) : WithinLimits s where
  allocated _ hb := Nat.lt_of_lt_of_le hb (h.next.trans h.count.ge)
  indexed d hd := h.indexed d (hd.trans_eq h.count)

/-- A record: a directory block belongs to it if it is that of a directory. -/
theorem Bounded.writeMeta (h : Bounded n s) {i : Nat} {m : Bytes} (hi : i < n)
    (hm : Meta.blockType m = asvfsBlockTypeDirectory →
      Placed n i ∧ Directory.nextIndex (directoryBlock s i) ≤ 256) :
    Bounded n (asvfsWriteMetaData s i m) := by
  have hplace : metaOffset i < 2 ^ 32 := metaOffset_lt (hi.trans_le h.address)
  have hdirectory : ∀ d < n, DirectoryRecord (asvfsWriteMetaData s i m) d →
      Placed n d ∧ Directory.nextIndex (directoryBlock s d) ≤ 256 := by
    intro d hd hrecord
    unfold DirectoryRecord at hrecord
    by_cases hdi : d = i
    · rw [hdi, getMeta_writeMeta_same hplace, Meta.blockType_read] at hrecord
      exact hdi ▸ hm hrecord
    · rw [getMeta_writeMeta_ne hplace hdi] at hrecord
      exact ⟨h.placed d hd hrecord, h.indexed d hd hrecord⟩
  refine ⟨h.blockSize, h.count, h.address, h.next, h.behind,
    fun d hd hrecord => (hdirectory d hd hrecord).1, fun d hd hrecord => ?_⟩
  obtain ⟨hplaced, hindex⟩ := hdirectory d hd hrecord
  rw [directoryBlock_writeMeta hi hplaced]
  exact hindex

theorem Bounded.writeBlock (h : Bounded n s) {p : Nat} {data : Bytes} (hp : Placed n p)
    (hdata : Directory.nextIndex data ≤ 256) :
    Bounded n (asvfsWriteBlock s p directorySize data) := by
  have hrecords : ∀ d < n, DirectoryRecord (asvfsWriteBlock s p directorySize data) d →
      DirectoryRecord s d := by
    intro d hd hrecord
    unfold DirectoryRecord at hrecord ⊢
    rwa [getMeta_writeBlock h.blockSize hd hp] at hrecord
  refine ⟨h.blockSize, h.count, h.address, h.next, h.behind,
    fun d hd hrecord => h.placed d hd (hrecords d hd hrecord), fun d hd hrecord => ?_⟩
  have hold := hrecords d hd hrecord
  by_cases hdp : d = p
  · rw [hdp, directoryBlock_writeBlock_same h.blockSize hp, Directory.nextIndex_read]
    exact hdata
  · rw [directoryBlock_writeBlock_ne h.blockSize hp (h.placed d hd hold) hdp]
    exact h.indexed d hd hold

theorem Bounded.writeHeader (h : Bounded n s) (hdr : Bytes) :
    Bounded n (asvfsWriteHeader s hdr) where
  blockSize := h.blockSize
  count := h.count
  address := h.address
  next := h.next
  behind := h.behind
  placed d hd hrecord := by
    unfold DirectoryRecord at hrecord
    rw [getMeta_writeHeader] at hrecord
    exact h.placed d hd hrecord
  indexed d hd hrecord := by
    unfold DirectoryRecord at hrecord
    rw [getMeta_writeHeader] at hrecord
    rw [directoryBlock_writeHeader (h.placed d hd hrecord)]
    exact h.indexed d hd hrecord

theorem Bounded.allocate (h : Bounded n s) {k : Nat} (hk : Header.nextFree s.header + k ≤ n) :
    Bounded n { s with header := Header.setNextFree s.header (Header.nextFree s.header + k) } := by
  have haddress := h.address
  have hnext : Header.nextFree (Header.setNextFree s.header (Header.nextFree s.header + k)) =
      Header.nextFree s.header + k := nextFree_setNextFree (by omega)
  have hbehind := h.behind
  refine ⟨(blockSize_setNextFree ..).trans h.blockSize, (blockCount_setNextFree ..).trans h.count,
    h.address, hnext.trans_le hk, ?_, h.placed, h.indexed⟩
  dsimp only
  rw [hnext]
  omega

/-! ## One call -/

theorem parentOf_eq {path p c : List UInt8} {b : Nat}
    (hparts : asvfsGetPathParts path = some (p, c))
    (hb : asvfsGetBlockIdFromPathname s p = some b) : parentOf s path = some b := by
  unfold parentOf
  rw [hparts]
  exact hb

theorem blockType_newMeta {m m' : Bytes} {name : List UInt8} {blockType : Nat} {mode : Int}
    (h : newMeta m name blockType mode = some m') : Meta.blockType m' = blockType % 256 := by
  rw [newMeta_eq h]
  unfold Meta.blockType Meta.setPermissions Meta.setBlockType
  rw [le_setLe_disjoint (by decide), le_setLe_same, pow_one]

/-- A new file has no directory record, a new directory has no entries. -/
theorem Bounded.writeNew (h : Bounded n s) {p f : Nat} {data m : Bytes} {newBlock : Option Bytes}
    (hp : Placed n p) (hf : f < n) (hf' : Placed n f) (hdata : Directory.nextIndex data ≤ 256)
    (hnew : (newBlock = none ∧ Meta.blockType m ≠ asvfsBlockTypeDirectory) ∨
      ∃ stack, newBlock = some (newDirBlock stack)) :
    Bounded n (writeNew s p f data newBlock m) := by
  have hparent := h.writeBlock hp hdata
  refine Bounded.writeHeader ?_ _
  rcases hnew with ⟨rfl, hfile⟩ | ⟨stack, rfl⟩
  · exact hparent.writeMeta hf fun hdir => absurd hdir hfile
  · have hempty : Directory.nextIndex (newDirBlock stack) ≤ 256 := by
      rw [nextIndex_newDirBlock]
      exact Nat.zero_le _
    refine (hparent.writeBlock hf' hempty).writeMeta hf fun _ => ⟨hf', ?_⟩
    rw [directoryBlock_writeBlock_same hparent.blockSize hf', Directory.nextIndex_read]
    exact hempty

theorem Bounded.addNode (h : Bounded n s) {path : List UInt8} {mode r : Int} {blockType : Nat}
    {newBlock : Option Bytes} (hdrive : ∀ p ∈ parentOf s path, p < Header.blockCount s.header)
    (hfits : ¬ ∃ p ∈ parentOf s path, p ≠ 0 ∧ DirectoryRecord s p ∧
      (Full s p ∨ Header.blockCount s.header ≤ Header.nextFree s.header))
    (hnew : (newBlock = none ∧ blockType = asvfsBlockTypeFile) ∨
      ∃ stack, newBlock = some (newDirBlock stack))
    (hr : asvfsAddNode s path mode blockType newBlock = some (s', r)) : Bounded n s' := by
  obtain ⟨⟨p, c⟩, hparts, hr⟩ := Option.bind_eq_some_iff.mp hr
  obtain ⟨b, hb, hr⟩ := Option.bind_eq_some_iff.mp hr
  have hmem : b ∈ parentOf s path := parentOf_eq hparts hb
  split at hr
  · obtain ⟨rfl, -⟩ := Prod.mk.inj (Option.some.inj hr)
    exact h
  · next hb0 =>
    split at hr
    · obtain ⟨rfl, -⟩ := Prod.mk.inj (Option.some.inj hr)
      exact h
    · next htype =>
      have hdir : DirectoryRecord s b := not_not.mp htype
      obtain ⟨-, hleft⟩ := not_or.mp fun hfull => hfits ⟨b, hmem, hb0, hdir, hfull⟩
      obtain ⟨data, hdata, hr⟩ := Option.bind_eq_some_iff.mp hr
      obtain ⟨m, hm, hr⟩ := Option.bind_eq_some_iff.mp hr
      obtain ⟨rfl, -⟩ := Prod.mk.inj (Option.some.inj hr)
      have hfree : Header.nextFree s.header < n := (Nat.lt_of_not_le hleft).trans_eq h.count
      have hplaced : Placed n (Header.nextFree s.header) :=
        ⟨hfree.trans_le h.address, h.behind⟩
      obtain ⟨-, hindex, -⟩ := appendIndex_spec
        (Nat.lt_trans hplaced.address (by decide)) hdata
      refine (h.allocate hfree).writeNew (h.placed b ((hdrive b hmem).trans_eq h.count) hdir)
        hfree hplaced hindex ?_
      rcases hnew with ⟨rfl, rfl⟩ | hstack
      · rw [blockType_newMeta hm]
        exact .inl ⟨rfl, by decide⟩
      · exact .inr hstack

theorem Bounded.writeName (h : Bounded n s) {f : Nat} {name : List UInt8} (hf : f < n)
    (hr : Asvfs.writeName s f name = some s') : Bounded n s' := by
  obtain ⟨-, rfl⟩ := writeName_eq hr
  refine h.writeMeta hf fun hdir => ?_
  have hrecord : DirectoryRecord s f := by
    refine Eq.trans (le_congr fun i hi => ?_) hdir
    exact (putStr_out (.inl (by omega))).symm
  exact ⟨h.placed f hf hrecord, h.indexed f hf hrecord⟩

theorem Bounded.renameAcross (h : Bounded n s) {src p c c' : List UInt8} {P Q f : Nat} {r : Int}
    (hparts : asvfsGetPathParts src = some (p, c))
    (hP : asvfsGetBlockIdFromPathname s p = some P) (hP0 : P ≠ 0)
    (hf : asvfsGetBlockIdFromPathname s src = some f) (hf0 : f ≠ 0) (hfn : f < n)
    (hPn : P < n) (hPdir : DirectoryRecord s P) (hQn : Q < n) (hQdir : DirectoryRecord s Q)
    (hr : Asvfs.renameAcross s src c c' Q f = some (s', r)) : Bounded n s' := by
  have haddress := h.address
  unfold Asvfs.renameAcross at hr
  rw [asvfsUnlink_eq hparts hP hP0 hf hf0] at hr
  split at hr
  · cases hr
  · next hlen =>
    obtain ⟨-, hunlink, -⟩ := unlinkBlock_shifts f (Nat.le_of_not_lt hlen)
    have hfits : Directory.nextIndex (unlinkBlock f (directoryBlock s P)) ≤ 256 := by omega
    have hunlinked := h.writeBlock (h.placed P hPn hPdir) hfits
    simp only [Option.bind_eq_bind, Option.bind_some] at hr
    obtain ⟨data, hdata, hr⟩ := Option.bind_eq_some_iff.mp hr
    obtain ⟨-, hindex, -⟩ := appendIndex_spec (by omega) hdata
    have happended := hunlinked.writeBlock (h.placed Q hQn hQdir) hindex
    split at hr
    · obtain ⟨s'', hname, heq⟩ := Option.map_eq_some_iff.mp hr
      obtain ⟨rfl, -⟩ := Prod.mk.inj heq
      exact happended.writeName hfn hname
    · obtain ⟨rfl, -⟩ := Prod.mk.inj (Option.some.inj hr)
      exact happended

theorem Bounded.rename (h : Bounded n s) {src dst : List UInt8} {r : Int}
    (hdrive : OnDrive s (.rename src dst)) (hr : asvfsRename s src dst = some (s', r)) :
    Bounded n s' := by
  obtain ⟨⟨p, c⟩, hp, hr⟩ := Option.bind_eq_some_iff.mp hr
  obtain ⟨⟨q, c'⟩, hq, hr⟩ := Option.bind_eq_some_iff.mp hr
  obtain ⟨P, hP, hr⟩ := Option.bind_eq_some_iff.mp hr
  split at hr
  · obtain ⟨rfl, -⟩ := Prod.mk.inj (Option.some.inj hr)
    exact h
  next hP0 =>
  obtain ⟨Q, hQ, hr⟩ := Option.bind_eq_some_iff.mp hr
  split at hr
  · obtain ⟨rfl, -⟩ := Prod.mk.inj (Option.some.inj hr)
    exact h
  next hQ0 =>
  obtain ⟨f, hf, hr⟩ := Option.bind_eq_some_iff.mp hr
  split at hr
  · obtain ⟨rfl, -⟩ := Prod.mk.inj (Option.some.inj hr)
    exact h
  next hf0 =>
  obtain ⟨hfn, hdirs⟩ := hdrive P (parentOf_eq hp hP) Q (parentOf_eq hq hQ) f hf
  rw [h.count] at hfn
  simp only [h.count] at hdirs
  split at hr
  · obtain ⟨s'', hname, heq⟩ := Option.map_eq_some_iff.mp hr
    obtain ⟨rfl, -⟩ := Prod.mk.inj heq
    exact h.writeName hfn hname
  · next hne =>
    obtain ⟨hPd, hQd⟩ := List.forall_mem_cons.mp (hdirs ⟨hP0, hQ0, hne⟩)
    obtain ⟨hQd, -⟩ := List.forall_mem_cons.mp hQd
    exact h.renameAcross hp hP hP0 hf hf0 hfn hPd.1 hPd.2 hQd.1 hQd.2 hr

/-! ## A call on a file -/

theorem truncate_nextFree (s : Volume) (blockId length : Nat) :
    Header.nextFree (asvfsTruncateFileBlockId s blockId length).1.header =
      (Header.nextFree s.header + taken s blockId length) % 2 ^ 32 := by
  unfold asvfsTruncateFileBlockId Drive.asvfsTruncateFileBlockId taken
  dsimp only [Drive.asvfsWriteMetaData, Drive.write]
  rw [show Drive.storing.volume s = s from rfl]
  split_ifs
  · rw [recreate_header, Header.nextFree, Header.setNextFree, le_setLe_same]
    rfl
  · rw [Nat.add_zero]
    exact (Nat.mod_eq_of_lt (le_lt 4 _ _)).symm

theorem fileStep_nextFree {path : List UInt8} {op : FileOp} {a : Nat}
    (hpath : asvfsGetBlockIdFromPathname s path = some a) (ha : a ≠ 0)
    (h : fileStep path s op = some s') : Header.nextFree s'.header =
      (Header.nextFree s.header + blocksTaken s a op) % 2 ^ 32 := by
  unfold fileStep FileOp.run at h
  cases op with
  | write buff offset size =>
      simp only [asvfsWrite_eq, hpath, Option.map_some, if_neg ha, Option.some.injEq] at h
      subst h
      rw [writeFileBlockId_eq, writeToDisk_header, blocksTaken]
      split_ifs
      · exact truncate_nextFree ..
      · exact (Nat.mod_eq_of_lt (le_lt 4 _ _)).symm
  | truncate length =>
      simp only [asvfsTruncate_eq, hpath, Option.map_some, if_neg ha, Option.some.injEq] at h
      subst h
      exact truncate_nextFree ..

/-- A call that returns found its path; for block 0 it did nothing. -/
theorem fileStep_found {path : List UInt8} {op : FileOp} (h : fileStep path s op = some s') :
    ∃ a, asvfsGetBlockIdFromPathname s path = some a ∧ (a = 0 → s' = s) := by
  unfold fileStep FileOp.run at h
  cases hlook : asvfsGetBlockIdFromPathname s path with
  | none => cases op <;> simp [asvfsWrite_eq, asvfsTruncate_eq, hlook] at h
  | some a =>
      refine ⟨a, rfl, fun ha => ?_⟩
      cases op <;> simpa [asvfsWrite_eq, asvfsTruncate_eq, hlook, ha] using h.symm

/-- The bytes of the records and of the directories are kept, but for the
sizes in the record of `a`. -/
def SystemKept (a : Nat) (s s' : Volume) : Prop :=
  ∀ x, headerSize ≤ x → ¬ InSizes a x → (∃ g ∈ systemExtents s, g.Has x) → s'.disk x = s.disk x

theorem Bounded.directoryRecord (h : Bounded n s) {a : Nat} (hkept : SystemKept a s s') {d : Nat}
    (hd : d < n) (hrec : DirectoryRecord s' d) : DirectoryRecord s d := by
  refine Eq.trans (le_congr fun j hj => ?_) hrec
  unfold asvfsGetMetaData readFromDisk
  rw [read_eq (by unfold metaSize; omega), read_eq (by unfold metaSize; omega)]
  refine (hkept _ ?_ ?_ ⟨_, List.mem_cons_self, ?_⟩).symm
  · unfold metaOffset
    omega
  · unfold InSizes Extent.Has metaOffset metaSize
    omega
  · rw [h.count]
    unfold Extent.Has metaOffset metaSize
    omega

theorem Bounded.directoryBlock (h : Bounded n s) {a : Nat} (ha : a < n)
    (hkept : SystemKept a s s') {d : Nat} (hd : d < n) (hrec : DirectoryRecord s d) :
    Asvfs.directoryBlock s' d = Asvfs.directoryBlock s d := by
  have hplaced := h.placed d hd hrec
  have hbehind := hplaced.behind
  have hmem : (4096 * d, directorySize) ∈ systemExtents s := by
    refine List.mem_cons_of_mem _ (List.mem_map_of_mem (List.mem_filter.mpr ⟨?_, ?_⟩))
    · exact List.mem_range.mpr (hd.trans_eq h.count.symm)
    · exact decide_eq_true hrec
  refine read_congr fun j hj => ?_
  rw [u32_block hplaced.address]
  refine hkept _ (by omega) ?_ ⟨_, hmem, Nat.le_add_right _ _, Nat.add_lt_add_left hj _⟩
  unfold InSizes Extent.Has metaOffset
  unfold metaSize at *
  omega

theorem Bounded.file (h : Bounded n s) {path : List UInt8} {op : FileOp}
    (hdrive : OnDrive s (.file path op)) (hfits : ¬ Exceeds s (.file path op))
    (hr : fileStep path s op = some s') : Bounded n s' := by
  obtain ⟨a, hpath, hzero⟩ := fileStep_found hr
  by_cases ha : a = 0
  · obtain rfl := hzero ha
    exact h
  obtain ⟨han, hclear⟩ := hdrive a hpath ha
  rw [h.count] at han
  obtain ⟨hheader, hout⟩ :=
    fileStep_out hpath ha (metaOffset_lt (han.trans_le h.address)) hr
  obtain ⟨-, hsize, hcount⟩ := hheader.fields
  have hnext := fileStep_nextFree hpath ha hr
  have hkept : SystemKept a s s' := by
    rintro x hhead hx ⟨g, hg, hin⟩
    exact hout x hhead hx fun r hr => (hclear r hr g hg).not_has hin
  -- either no blocks are taken, or there are as many as needed
  have hleft : Header.nextFree s.header + blocksTaken s a op ≤ n := by
    have hbelow := h.next
    have hnot : ¬ (0 < blocksTaken s a op ∧
        Header.blockCount s.header < Header.nextFree s.header + blocksTaken s a op) :=
      fun hmore => hfits ⟨a, hpath, ha, hmore⟩
    rw [h.count] at hnot
    omega
  have haddress := h.address
  rw [Nat.mod_eq_of_lt (by omega)] at hnext
  have hbehind := h.behind
  refine ⟨hsize.trans h.blockSize, hcount.trans h.count, h.address, hnext.trans_le hleft, ?_,
    fun d hd hrec => h.placed d hd (h.directoryRecord hkept hd hrec), fun d hd hrec => ?_⟩
  · rw [hnext]
    omega
  · have hrec₀ := h.directoryRecord hkept hd hrec
    rw [h.directoryBlock han hkept hd hrec₀]
    exact h.indexed d hd hrec₀

/-! ## Runs -/

/-- **The step.** -/
theorem Bounded.step (h : Bounded n s) {c : Call} (hfits : ¬ Exceeds s c) (hdrive : OnDrive s c)
    (hr : callStep s c = some s') : Bounded n s' := by
  cases c with
  | mknod path mode =>
      obtain ⟨⟨s₁, r⟩, hrun, rfl⟩ := Option.map_eq_some_iff.mp hr
      exact h.addNode hdrive hfits (.inl ⟨rfl, rfl⟩) hrun
  | mkdir path mode stack =>
      obtain ⟨⟨s₁, r⟩, hrun, rfl⟩ := Option.map_eq_some_iff.mp hr
      exact h.addNode hdrive hfits (.inr ⟨stack, rfl⟩) hrun
  | file path op => exact h.file hdrive hfits hr
  | rename src dst =>
      obtain ⟨⟨s₁, r⟩, hrun, rfl⟩ := Option.map_eq_some_iff.mp hr
      exact h.rename hdrive hrun

theorem Bounded.respected (h : Bounded n s) {cs : List Call}
    (hok : Run.Along callStep (fun s c => ¬ Exceeds s c ∧ OnDrive s c) s cs) : Respected s cs := by
  induction cs generalizing s with
  | nil => exact h.within
  | cons c cs ih =>
      obtain ⟨⟨hfits, hdrive⟩, hrest⟩ := hok
      exact ⟨h.within, fun hexceeds => absurd hexceeds hfits,
        fun s' hr => ih (h.step hfits hdrive hr) (hrest s' hr)⟩

/-- **Limits are kept** on a fresh drive in every run that asks for no more
than there is. Before each call: a directory that gets an entry has a place for
it, and the blocks that are taken are there. The allocation cursor and the
indexes of the directories are compared with nothing in the code, so the
condition is all there is to keep them. -/
theorem limits_kept (h : Fresh s) {cs : List Call}
    (hok : Run.Along callStep (fun s c => ¬ Exceeds s c ∧ OnDrive s c) s cs) : Respected s cs :=
  h.bounded.respected hok

/-! ## Nothing is refused -/

theorem addNode_not_refused {path : List UInt8} {mode r : Int} {blockType : Nat}
    {newBlock : Option Bytes} (hexceeds : ∃ p ∈ parentOf s path, p ≠ 0 ∧ DirectoryRecord s p)
    (hr : asvfsAddNode s path mode blockType newBlock = some (s', r)) : r = 0 := by
  obtain ⟨b, hmem, hb0, hdir⟩ := hexceeds
  obtain ⟨⟨p, c⟩, hparts, hr⟩ := Option.bind_eq_some_iff.mp hr
  obtain ⟨b', hb', hr⟩ := Option.bind_eq_some_iff.mp hr
  obtain rfl : b' = b := Option.some.inj ((parentOf_eq hparts hb').symm.trans hmem)
  rw [if_neg hb0, if_neg (show ¬ Meta.blockType _ ≠ _ from not_not.mpr hdir)] at hr
  obtain ⟨data, -, hr⟩ := Option.bind_eq_some_iff.mp hr
  obtain ⟨m, -, hr⟩ := Option.bind_eq_some_iff.mp hr
  exact (Prod.mk.inj (Option.some.inj hr)).2.symm

theorem renameAcross_result {src c c' : List UInt8} {Q f : Nat} {r : Int}
    (hr : renameAcross s src c c' Q f = some (s', r)) : r = 0 := by
  obtain ⟨⟨s₁, r₁⟩, -, hr⟩ := Option.bind_eq_some_iff.mp hr
  obtain ⟨data, -, hr⟩ := Option.bind_eq_some_iff.mp hr
  split at hr
  · obtain ⟨s'', -, heq⟩ := Option.map_eq_some_iff.mp hr
    exact (Prod.mk.inj heq).2.symm
  · exact (Prod.mk.inj (Option.some.inj hr)).2.symm

theorem rename_not_refused {src dst : List UInt8} {r : Int}
    (hexceeds : Exceeds s (.rename src dst)) (hr : asvfsRename s src dst = some (s', r)) :
    r = 0 := by
  obtain ⟨P, hP, Q, hQ, f, hf, hP0, hQ0, hf0, hne, -⟩ := hexceeds
  obtain ⟨⟨p, c⟩, hp, hr⟩ := Option.bind_eq_some_iff.mp hr
  obtain ⟨⟨q, c'⟩, hq, hr⟩ := Option.bind_eq_some_iff.mp hr
  obtain ⟨P', hP', hr⟩ := Option.bind_eq_some_iff.mp hr
  obtain rfl : P' = P := Option.some.inj ((parentOf_eq hp hP').symm.trans hP)
  rw [if_neg hP0] at hr
  obtain ⟨Q', hQ', hr⟩ := Option.bind_eq_some_iff.mp hr
  obtain rfl : Q' = Q := Option.some.inj ((parentOf_eq hq hQ').symm.trans hQ)
  rw [if_neg hQ0] at hr
  obtain ⟨f', hf', hr⟩ := Option.bind_eq_some_iff.mp hr
  obtain rfl : f' = f := Option.some.inj (hf'.symm.trans hf)
  rw [if_neg hf0, if_neg hne] at hr
  exact renameAcross_result hr

theorem blocksTaken_lt (s : Volume) (a : Nat) (op : FileOp) : blocksTaken s a op < 2 ^ 32 := by
  have htaken : ∀ length, taken s a length < 2 ^ 32 := by
    intro length
    unfold taken blocksNeeded asvfsDefaultBlockSize
    have hsize := le_lt 4 (Meta.setFileSize (asvfsGetMetaData s a) length) 55
    unfold Meta.fileSize
    dsimp only
    split_ifs <;> omega
  unfold blocksTaken
  cases op with
  | write buff offset size =>
      dsimp only
      split_ifs
      · exact htaken _
      · decide
  | truncate length => exact htaken _

/-- A call that exceeds a limit does not return an error with everything
unchanged. -/
theorem not_refused {c : Call} (hexceeds : Exceeds s c) : ¬ ∃ r < 0, c.run s = some (s, r) := by
  rintro ⟨r, hneg, hr⟩
  have hzero : r ≠ 0 := Int.ne_of_lt hneg
  cases c with
  | mknod path mode =>
      obtain ⟨p, hp, hp0, hdir, -⟩ := hexceeds
      exact hzero (addNode_not_refused ⟨p, hp, hp0, hdir⟩ hr)
  | mkdir path mode stack =>
      obtain ⟨p, hp, hp0, hdir, -⟩ := hexceeds
      exact hzero (addNode_not_refused ⟨p, hp, hp0, hdir⟩ hr)
  | file path op =>
      -- the header moves on
      obtain ⟨a, hpath, ha, hpos, -⟩ := hexceeds
      have hstep : fileStep path s op = some s := Option.map_eq_some_iff.mpr ⟨_, hr, rfl⟩
      have hnext := fileStep_nextFree hpath ha hstep
      have hold : Header.nextFree s.header < 2 ^ 32 := le_lt 4 _ _
      have hmore := blocksTaken_lt s a op
      omega
  | rename src dst => exact hzero (rename_not_refused hexceeds hr)

/-- So in a run that keeps the limits no call exceeds one. -/
theorem Respected.fits {cs : List Call} (h : Respected s cs) :
    Run.Along callStep (fun s c => ¬ Exceeds s c) s cs := by
  induction cs generalizing s with
  | nil => trivial
  | cons c cs ih =>
      obtain ⟨-, hrefused, hrest⟩ := h
      exact ⟨fun hexceeds => not_refused hexceeds (hrefused hexceeds),
        fun s' hr => ih (hrest s' hr)⟩

/-! ## Fresh drives -/

/-- A drive of `n` blocks with its root in block 1. -/
def freshDrive (n : UInt8) : Volume where
  header := bytesOf [(14, 16), (17, n), (21, 1), (25, 2)]
  disk := bytesOf [(157, 1), (161, 2), (224, 1), (253, 2), (349, 3), (445, 4), (541, 5), (637, 6),
    (733, 7), (4096, 2)]

theorem freshDrive_fresh {n : UInt8} (hn : n = 2 ∨ n = 8) : Fresh (freshDrive n) := by
  rcases hn with rfl | rfl
  all_goals
    exact ⟨by decide, by decide, by decide, by decide, ⟨by decide, by decide⟩, by decide +kernel,
      by decide +kernel⟩

instance (s : Volume) : ∀ c, Decidable (Exceeds s c)
  | .mknod .. | .mkdir .. => inferInstanceAs (Decidable (∃ p ∈ parentOf s _, _))
  | .file .. => inferInstanceAs (Decidable (∃ a ∈ asvfsGetBlockIdFromPathname s _, _))
  | .rename .. => inferInstanceAs (Decidable (∃ p ∈ parentOf s _, ∃ q ∈ parentOf s _, _))

instance (s : Volume) : ∀ c, Decidable (OnDrive s c)
  | .mknod .. | .mkdir .. => inferInstanceAs (Decidable (∀ p ∈ parentOf s _, _))
  | .file .. => inferInstanceAs (Decidable (∀ a ∈ asvfsGetBlockIdFromPathname s _, _))
  | .rename .. => inferInstanceAs (Decidable (∀ p ∈ parentOf s _, ∀ q ∈ parentOf s _, _))

/-- `/a` is made, and `/a/b` in it, which is written to and moved to `/c`. -/
theorem limits_kept_eight : Respected (freshDrive 8) [.mkdir [47, 97] 493 (bytesOf []),
    .mknod [47, 97, 47, 98] 420, .file [47, 97, 47, 98] (.write (fun _ => 7) 0 5),
    .rename [47, 97, 47, 98] [47, 99]] :=
  limits_kept (freshDrive_fresh (.inr rfl)) (by decide +kernel)

/-- There is no block left for `/a`. -/
theorem mknod_behind_last_block :
    Fresh (freshDrive 2) ∧ ¬ Respected (freshDrive 2) [.mknod [47, 97] 420] := by
  refine ⟨freshDrive_fresh (.inl rfl), fun h => h.fits.1 ?_⟩
  decide +kernel

end VersionSix.Asvfs
