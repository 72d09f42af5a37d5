import VersionSix.AsvfsWrite
import VersionSix.Rfs
import VersionSix.VfsMount

/-!
# Dispatch to the file systems

The entry points of `vfs.c`, as far as the file systems are concerned: which
operation of which file system they call, and with what. A call is recorded
under the names the operation gives its parameters (`FsCall`); on the way
there the arguments go through the types in `vfs_operations`.

`asvfs_read` takes size and offset, `rfs_read` offset and length, and all
pointers to them have the type of the former. `vfs_getattr` and `vfs_opendir`
know of one file system only. So the entry points agree for the mount points
of ASVFS alone (`dispatch_uniform_iff`).
-/

namespace VersionSix.Vfs

open ByteStore (Bytes)
open Asvfs (Volume)
open Asvfs.Drive (vfsDiskWrite)
open Rfs (RfsFile cInt)

/-! ## File systems -/

/-- The file systems that `vfs_register_fs` is called for. -/
inductive FileSystem
  | asvfs
  | rfs
deriving DecidableEq

/-- `fs` of a mount point is a pointer; `fileSystems` says what is there. -/
structure System where
  points : Avs.State VfsMountPoint
  fileSystems : Nat → Option FileSystem
  files : List RfsFile
  volume : Volume

/-- A call of an operation, its arguments under the names of the parameters. -/
inductive FsCall
  | create (fs : FileSystem) (pathname : List UInt8) (mode : UInt32)
  | write (fs : FileSystem) (pathname : List UInt8) (offset : UInt32) (length : UInt64)
  | read (fs : FileSystem) (pathname : List UInt8) (offset : UInt32) (length : UInt64)
  | getattr (fs : FileSystem) (pathname : List UInt8)
  | getDirList (fs : FileSystem) (pathname : List UInt8)
deriving DecidableEq

def FsCall.fs : FsCall → FileSystem
  | .create fs _ _ | .write fs _ _ _ | .read fs _ _ _ | .getattr fs _ | .getDirList fs _ => fs

/-- `op.read( pathname, buf, size, offset )`: the third argument is a `size_t`,
the fourth an `off_t`. -/
def opRead (fs : FileSystem) (pathname : List UInt8) (size : UInt64) (offset : UInt32) : FsCall :=
  match fs with
  -- `asvfs_read( pathname, buf, size, offset )`
  | .asvfs => .read .asvfs pathname offset size
  -- `rfs_read( pathname, buf, offset, length )`
  | .rfs => .read .rfs pathname size.toUInt32 offset.toUInt64

/-- `op.write`, of the same type; `asvfs_write` and `rfs_write` take the offset
first. -/
def opWrite (fs : FileSystem) (pathname : List UInt8) (size : UInt64) (offset : UInt32) : FsCall :=
  .write fs pathname size.toUInt32 offset.toUInt64

/-! ## Entry points -/

/-- The file system of the mount point of a path. -/
def selected (s : System) (pathname : List UInt8) : Option FileSystem :=
  (vfsGetMountPointFromPath s.points pathname).join.bind fun mp => s.fileSystems mp.fs

/-- `type` in the `file_stats` of `vfs_write`, which are zero before `getattr`;
`asvfs_getattr` does not set it. -/
def statsType (s : System) (fs : FileSystem) (pathname : List UInt8) : UInt8 :=
  match fs with
  | .asvfs => 0
  | .rfs => ((Rfs.rfsGetattr s.files pathname).2.map Rfs.Stat.type).getD 0

def vfsInodeTypeDevice : UInt8 := 3

/-- `sizeof(vfs_device_data)` -/
def deviceDataSize : UInt32 := 50

/-- Without a mount point no operation is called. -/
def vfsCreate (s : System) (pathname : List UInt8) (mode : UInt32) : List FsCall :=
  match selected s pathname with
  | none => []
  | some fs => [.create fs pathname mode]

/-- The data of a device comes from the file; `dev->write` is not an operation
of a file system. -/
def vfsWrite (s : System) (pathname : List UInt8) (offset : UInt32) (length : UInt64) :
    List FsCall :=
  match selected s pathname with
  | none => []
  | some fs => .getattr fs pathname ::
      if statsType s fs pathname = vfsInodeTypeDevice then [opRead fs pathname 0 deviceDataSize]
      else [opWrite fs pathname offset.toUInt64 length.toUInt32]

def vfsRead (s : System) (pathname : List UInt8) (size : UInt64) (offset : UInt32) : List FsCall :=
  match selected s pathname with
  | none => []
  | some fs => [opRead fs pathname size offset]

def vfsGetattr (pathname : List UInt8) : List FsCall := [.getattr .asvfs pathname]

/-- `asvfs_getattr` fails for a path that is not there. -/
def vfsOpendir (s : System) (pathname : List UInt8) : List FsCall :=
  .getattr .asvfs pathname ::
    if Asvfs.asvfsGetBlockIdFromPathname s.volume pathname = some 0 then []
    else [.getDirList .asvfs pathname]

/-! ## Writing and reading -/

/-- What a call of `write` does. -/
def runWrite (heap : Option Bytes) (s : System) (buff : Bytes) (fs : FileSystem)
    (pathname : List UInt8) (offset : UInt32) (length : UInt64) : Option (System × Int) :=
  match fs with
  | .asvfs => (vfsDiskWrite.asvfsWrite s.volume pathname buff offset.toNat length.toNat).map
      fun (volume, r) => ({ s with volume }, r)
  | .rfs => (Rfs.rfsWrite heap s.files pathname buff offset length).map
      fun (r, files) => ({ s with files }, r)

/-- What a call of `read` does. -/
def runRead (port : Ahci.Port) (s : System) (buf : Bytes) (fs : FileSystem)
    (pathname : List UInt8) (offset : UInt32) (length : UInt64) : Option (Int × Bytes) :=
  match fs with
  | .asvfs => (Asvfs.asvfsRead port s.volume pathname 0 length.toNat offset.toNat
      fun a => buf a.toNat).map fun (r, m) => (r, fun j => m j)
  | .rfs => Rfs.rfsRead s.files pathname buf offset length

/-! ## The law -/

/-- What is written to a file, all of it, is read back from there. On ASVFS no write of a
byte or more meets the premise, since `vfs_disk_write` transfers nothing and returns 0: there
the law is about writes of length 0 alone. -/
def ReadsBack (s : System) (pathname : List UInt8) (offset : UInt32) (length : UInt64) : Prop :=
  ∀ fs p o l, FsCall.write fs p o l ∈ vfsWrite s pathname offset length →
    ∀ heap buff s', runWrite heap s buff fs p o l = some (s', cInt length.toNat) →
      ∀ fs' p' o' l', FsCall.read fs' p' o' l' ∈ vfsRead s' pathname length offset →
        ∀ port buf, ∃ r buf', runRead port s' buf fs' p' o' l' = some (r, buf') ∧
          ∀ j < length.toNat, buf' j = buff j

/-- All entry points call the file system of the mount point, and what they
are given as offset and length is the offset and the length there; the device
hook asks for the whole data of the device. -/
structure Uniform (s : System) (pathname : List UInt8) (mode : UInt32) (offset : UInt32)
    (length : UInt64) : Prop where
  served : ∀ c ∈ vfsCreate s pathname mode ++ vfsWrite s pathname offset length ++
    vfsRead s pathname length offset ++ vfsGetattr pathname ++ vfsOpendir s pathname,
      selected s pathname = some c.fs
  written : ∀ fs p o l, FsCall.write fs p o l ∈ vfsWrite s pathname offset length →
    o = offset ∧ l = length
  read : ∀ fs p o l, FsCall.read fs p o l ∈ vfsRead s pathname length offset →
    o = offset ∧ l = length
  hook : ∀ fs p o l, FsCall.read fs p o l ∈ vfsWrite s pathname offset length →
    o = 0 ∧ l = deviceDataSize.toUInt64
  back : ReadsBack s pathname offset length

section

variable {s : System} {pathname : List UInt8} {mode offset : UInt32} {length : UInt64}

theorem length_kept_iff : length.toUInt32.toUInt64 = length ↔ length.toNat < 2 ^ 32 := by
  rw [← UInt64.toNat_inj, UInt32.toNat_toUInt64, UInt64.toNat_toUInt32]
  omega

theorem write_asvfs (h : selected s pathname = some .asvfs) :
    vfsWrite s pathname offset length = [.getattr .asvfs pathname,
      .write .asvfs pathname offset.toUInt64.toUInt32 length.toUInt32.toUInt64] := by
  unfold vfsWrite
  rw [h]
  rfl

theorem read_asvfs (h : selected s pathname = some .asvfs) :
    vfsRead s pathname length offset = [.read .asvfs pathname offset length] := by
  unfold vfsRead
  rw [h]
  rfl

theorem vfsDiskWrite_metaData (v : Volume) (b : Nat) (data : ByteStore.Bytes) :
    (vfsDiskWrite.asvfsWriteMetaData v b data).1 = v := rfl

theorem vfsDiskWrite_copyBlocks (v : Volume) (src dst k : Nat) :
    (vfsDiskWrite.copyBlocks v src dst k).disk = v.disk := by
  unfold Asvfs.Drive.copyBlocks
  induction k with
  | zero => rfl
  | succ k ih =>
      simp only [List.range_succ, List.foldl_append, List.foldl_cons, List.foldl_nil]
      exact ih

theorem vfsDiskWrite_recreate (v : Volume) (b : Nat) (data : ByteStore.Bytes) :
    (vfsDiskWrite.recreate v b data).1.disk = v.disk := by
  unfold Asvfs.Drive.recreate
  dsimp only
  rw [vfsDiskWrite_metaData]
  exact vfsDiskWrite_copyBlocks v ..

theorem vfsDiskWrite_truncate (v : Volume) (b l : Nat) :
    (vfsDiskWrite.asvfsTruncateFileBlockId v b l).1.disk = v.disk := by
  unfold Asvfs.Drive.asvfsTruncateFileBlockId
  dsimp only
  rw [vfsDiskWrite_metaData]
  split_ifs
  · exact vfsDiskWrite_recreate v ..
  · rfl

/-- Nothing is written to ASVFS. -/
theorem asvfsWrite_nothing {v v' : Volume} {buff : Bytes} {o l : Nat} {r : Int}
    (h : vfsDiskWrite.asvfsWrite v pathname buff o l = some (v', r)) :
    r = 0 ∧ v'.disk = v.disk ∧
      Asvfs.Header.rootDirectory v'.header = Asvfs.Header.rootDirectory v.header ∧
      ∃ b, Asvfs.asvfsGetBlockIdFromPathname v pathname = some b := by
  obtain ⟨b, hb, hrun⟩ := Option.map_eq_some_iff.mp h
  split_ifs at hrun
  · obtain ⟨rfl, rfl⟩ := Prod.mk.inj hrun
    exact ⟨rfl, rfl, rfl, b, hb⟩
  · rw [Asvfs.write_eq] at hrun
    obtain ⟨rfl, rfl⟩ := Prod.mk.inj hrun
    obtain ⟨hroot, -⟩ := (Asvfs.beforeData_header vfsDiskWrite v b o l).fields
    refine ⟨rfl, ?_, hroot, b, hb⟩
    show (vfsDiskWrite.beforeData v b o l).disk = v.disk
    unfold Asvfs.Drive.beforeData
    split_ifs
    · exact vfsDiskWrite_truncate v b _
    · rfl

theorem cInt_eq_zero {n : Nat} (hn : n < 2 ^ 32) (h : cInt n = 0) : n = 0 := by
  unfold cInt at h
  rw [Nat.mod_eq_of_lt hn] at h
  split_ifs at h <;> omega

/-- A write to ASVFS that says it wrote everything had nothing to write. -/
theorem readsBack_asvfs (h : selected s pathname = some .asvfs) (hlen : length.toNat < 2 ^ 32) :
    ReadsBack s pathname offset length := by
  intro fs p o l hw heap buff s' hrun fs' p' o' l' hr port buf
  rw [write_asvfs h] at hw
  simp only [List.mem_cons, List.not_mem_nil, or_false, reduceCtorEq, false_or,
    FsCall.write.injEq] at hw
  obtain ⟨rfl, rfl, -, -⟩ := hw
  obtain ⟨⟨v, r⟩, hwrite, heq⟩ := Option.map_eq_some_iff.mp hrun
  obtain ⟨rfl, rfl⟩ := Prod.mk.inj heq
  obtain ⟨hzero, hdisk, hroot, b, hb⟩ := asvfsWrite_nothing hwrite
  have hselected : selected { s with volume := v } p = some .asvfs := h
  rw [read_asvfs hselected, List.mem_singleton] at hr
  obtain ⟨rfl, rfl, rfl, rfl⟩ := FsCall.read.inj hr
  have hlook : Asvfs.asvfsGetBlockIdFromPathname v p' = some b := by
    refine (Asvfs.lookup_same hroot fun d _ => ?_).trans hb
    have hmeta : ∀ e, Asvfs.asvfsGetMetaData v e = Asvfs.asvfsGetMetaData s.volume e := by
      intro e
      unfold Asvfs.asvfsGetMetaData Asvfs.readFromDisk
      rw [hdisk]
    refine Asvfs.readdir_same ?_ fun e _ => ?_
    · unfold Asvfs.directoryBlock Asvfs.asvfsReadBlock Asvfs.readFromDisk
      rw [hdisk]
    · unfold Asvfs.dirEntry
      rw [hmeta]
  have hread : (runRead port { s with volume := v } buf .asvfs p' o' l').isSome := by
    unfold runRead Asvfs.asvfsRead
    dsimp only
    rw [hlook]
    rfl
  obtain ⟨⟨r', buf'⟩, hread⟩ := Option.isSome_iff_exists.mp hread
  refine ⟨r', buf', hread, fun j hj => ?_⟩
  rw [cInt_eq_zero hlen hzero] at hj
  cases hj

/-- **Dispatch is uniform** exactly for lengths of 32 bits on ASVFS. On RFS the
size and the offset of a read arrive in the other order, and two of the entry
points call ASVFS whatever the path; on ASVFS a length of 64 bits is cut on its
way to the drive. -/
theorem dispatch_uniform_iff : Uniform s pathname mode offset length ↔
    selected s pathname = some .asvfs ∧ length.toNat < 2 ^ 32 := by
  constructor
  · intro h
    have hselected : selected s pathname = some .asvfs :=
      h.served (.getattr .asvfs pathname) (by simp [vfsGetattr])
    refine ⟨hselected, length_kept_iff.mp ?_⟩
    refine (h.written .asvfs pathname offset.toUInt64.toUInt32 length.toUInt32.toUInt64 ?_).2
    rw [write_asvfs hselected]
    exact List.mem_cons_of_mem _ List.mem_cons_self
  · rintro ⟨hselected, hlen⟩
    have hkept := length_kept_iff.mpr hlen
    refine ⟨fun c hc => ?_, fun fs p o l hc => ?_, fun fs p o l hc => ?_, fun fs p o l hc => ?_,
      readsBack_asvfs hselected hlen⟩
    · have hfs : c.fs = .asvfs := by
        rw [write_asvfs hselected, read_asvfs hselected] at hc
        unfold vfsCreate vfsGetattr vfsOpendir at hc
        rw [hselected] at hc
        simp only [List.mem_append, List.mem_cons, List.not_mem_nil, or_false] at hc
        rcases hc with (((rfl | rfl | rfl) | rfl) | rfl) | rfl | hc
        · rfl
        · rfl
        · rfl
        · rfl
        · rfl
        · rfl
        · split_ifs at hc
          · cases hc
          · rw [List.mem_singleton.mp hc]
            rfl
      rw [hselected, hfs]
    · rw [write_asvfs hselected] at hc
      simp only [List.mem_cons, List.not_mem_nil, or_false, reduceCtorEq, false_or,
        FsCall.write.injEq] at hc
      obtain ⟨-, -, rfl, rfl⟩ := hc
      exact ⟨UInt32.toUInt32_toUInt64 offset, hkept⟩
    · rw [read_asvfs hselected, List.mem_singleton] at hc
      obtain ⟨-, -, rfl, rfl⟩ := FsCall.read.inj hc
      exact ⟨rfl, rfl⟩
    · rw [write_asvfs hselected] at hc
      simp only [List.mem_cons, List.not_mem_nil, or_false, reduceCtorEq] at hc

end

/-! ## The running system -/

/-- `/dev/x` -/
def devX : List UInt8 := [47, 100, 101, 118, 47, 120]

/-- ASVFS is mounted at `/`, RFS at `/dev`, with an empty file. -/
def bootSystem : System where
  points := bootMounts
  fileSystems fs := if fs = 0 then some .asvfs else some .rfs
  files := [⟨Rfs.rfsFileTypeFile, devX, none, 0⟩]
  volume := ⟨fun _ => 0, fun _ => 0⟩

/-- Three bytes at offset 1 are asked for as one byte at offset 3, attributes
and directories come from the other file system, and three bytes that were
written are not read back. -/
theorem dev_not_uniform : selected bootSystem devX = some .rfs ∧
    vfsRead bootSystem devX 3 1 = [.read .rfs devX 3 1] ∧
    ¬ Uniform bootSystem devX 1 1 3 ∧ ¬ ReadsBack bootSystem devX 0 3 := by
  have hselected : selected bootSystem devX = some .rfs := by decide +kernel
  refine ⟨hselected, by decide +kernel, fun h => ?_, fun h => ?_⟩
  · have hasvfs := h.served (.getattr .asvfs devX) (by simp [vfsGetattr])
    rw [hselected] at hasvfs
    cases hasvfs
  · have hrun : (Rfs.rfsWrite (some fun _ => 0) bootSystem.files devX (fun _ => 7) 0 3).any
        (fun x => x.1 = cInt 3 ∧
          (Rfs.rfsRead x.2 devX (fun _ => 0) 3 0).all (fun y => y.2 0 = 0)) = true := by
      decide +kernel
    obtain ⟨⟨r, files⟩, hwrite, hafter⟩ := (Option.any_eq_true _ _).mp hrun
    obtain ⟨hthree, hread⟩ := of_decide_eq_true hafter
    have hwritten : runWrite (some fun _ => 0) bootSystem (fun _ => 7) .rfs devX 0 3 =
        some ({ bootSystem with files }, cInt 3) := by
      unfold runWrite
      dsimp only
      rw [hwrite, Option.map_some]
      exact congrArg some (Prod.ext rfl hthree)
    have hcall : FsCall.read .rfs devX 3 0 ∈ vfsRead { bootSystem with files } devX 3 0 := by
      have hselected' : selected { bootSystem with files } devX = some .rfs := hselected
      unfold vfsRead
      rw [hselected']
      exact List.mem_singleton.mpr rfl
    obtain ⟨r', buf', hrun', hback⟩ := h .rfs devX 0 3 (by decide +kernel) _ _ _ hwritten .rfs devX
      3 0 hcall (fun _ => none) fun _ => 0
    have hfirst : buf' 0 = 0 :=
      of_decide_eq_true ((Option.all_eq_true _ _).mp hread (r', buf') hrun')
    rw [hback 0 (by decide)] at hfirst
    cases hfirst

end VersionSix.Vfs
