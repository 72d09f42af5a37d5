import VersionSix.AsvfsPath
import VersionSix.AhciRead

/-!
# ASVFS: reading a file

`asvfs_read` and the callback it reads through, `vfs_disk_read`. The bytes come
from the block of the file, at whatever offset and as many as were asked for;
the file size is not looked at, and what comes back is the status of the drive,
not a count. So a read is what it should be only if no byte is asked for that
the file has, and none of the drive (`read_confined_iff`): the answer 0 is then
the right count.

The callback takes the drive in sectors by the loop of `AhciRead`. Where its
loop covers the range, the bytes are those of the drive, and `readBytes_port`
in `AsvfsWrite` goes back to this.

Two drives that look the same along a path (`SameFile`) give the same block for
it, so what a read may depend on is a matter of the bytes it addresses.
Confinement is stated with a second drive of this kind: nothing outside of the
file may make a difference.
-/

namespace VersionSix.Asvfs

open ByteStore
open Ahci (Port Memory ahciReadAtByteOffset512Chunks LoopCovers stored)

/-! ## The callback -/

def vfsErrorNone : Int := 0
def vfsErrorUnknown : Int := -1

def vfsDiskReadNoCache (port : Port) (buff : Int) (size offset : Nat) (m : Memory) :
    Int × Memory :=
  match ahciReadAtByteOffset512Chunks port (u32 offset) (u32 size) buff m with
  | (true, m) => (vfsErrorNone, m)
  | (false, m) => (vfsErrorUnknown, m)

def vfsDiskRead (port : Port) (buff : Int) (size offset : Nat) (m : Memory) : Int × Memory :=
  vfsDiskReadNoCache port buff size offset m

def asvfsRead (port : Port) (s : Volume) (pathname : List UInt8) (buf : Int) (size offset : Nat)
    (m : Memory) : Option (Int × Memory) :=
  (asvfsGetBlockIdFromPathname s pathname).map fun blockId =>
    if blockId = 0 then (-1, m)
    else vfsDiskRead port buf size (u32 (blockId * Header.blockSize s.header + offset)) m

section Callback

variable {disk : Bytes} {port : Port} {buff : Int} {size offset : Nat} {m : Memory}

theorem diskRead_eq (hport : port.Exact disk) : vfsDiskRead port buff size offset m =
    (vfsErrorNone, (ahciReadAtByteOffset512Chunks port (u32 offset) (u32 size) buff m).2) := by
  unfold vfsDiskRead vfsDiskReadNoCache
  have hok := Ahci.read_ok hport (u32 offset) (u32 size) buff m
  generalize ahciReadAtByteOffset512Chunks port (u32 offset) (u32 size) buff m = r at hok ⊢
  obtain ⟨ok, m'⟩ := r
  dsimp only at hok
  rw [hok]

theorem diskRead_covered (hport : port.Exact disk) (hend : offset + size < 2 ^ 32)
    (hcov : LoopCovers offset size) :
    vfsDiskRead port buff size offset m = (vfsErrorNone, stored disk offset buff 0 size m) := by
  have hoff : u32 offset = offset := Nat.mod_eq_of_lt (by omega)
  have hsize : u32 size = size := Nat.mod_eq_of_lt (by omega)
  rw [diskRead_eq hport, hoff, hsize, Ahci.read_covered hport hend hcov]

end Callback

/-! ## Drives that look the same along a path -/

/-- The directories `pathLoop` reads. -/
def walked (s : Volume) : List UInt8 → Nat → List UInt8 → List Nat
  | [], _, _ => []
  | c :: cs, currentDirBlockId, name =>
      if c ≠ slash ∧ c ≠ 0 then
        if name.length < 255 then walked s cs currentDirBlockId (name ++ [c]) else []
      else if name = [] then walked s cs currentDirBlockId []
      else currentDirBlockId ::
        match asvfsGetBlockMetaFromDir s currentDirBlockId name with
        | none => []
        | some b => if b ≠ 0 then walked s cs b [] else []

def directoriesOnPath (s : Volume) (pathname : List UInt8) : List Nat :=
  if pathname = [slash] then []
  else walked s (pathname ++ [0]) (Header.rootDirectory s.header) []

/-- Where a byte of the file `b` is read from. -/
def drivePosition (s : Volume) (b i : Nat) : Nat := u32 (b * Header.blockSize s.header + i)

/-- The drives agree on where the blocks are, on the directories on the path,
and on the metadata and the contents of the file `b` it leads to. -/
structure SameFile (s s' : Volume) (pathname : List UInt8) (b : Nat) : Prop where
  root : Header.rootDirectory s'.header = Header.rootDirectory s.header
  blockSize : Header.blockSize s'.header = Header.blockSize s.header
  directories : ∀ d ∈ directoriesOnPath s pathname, asvfsReaddir s' d = asvfsReaddir s d
  metaData : asvfsGetMetaData s' b = asvfsGetMetaData s b
  contents : ∀ i < Meta.fileSize (asvfsGetMetaData s b),
    s'.disk (drivePosition s b i) = s.disk (drivePosition s b i)

theorem dirEntries_same {s s' : Volume} {ids : List Nat}
    (h : ∀ e ∈ ids, dirEntry s' e = dirEntry s e) : dirEntries s' ids = dirEntries s ids := by
  induction ids with
  | nil => rfl
  | cons e ids ih =>
      obtain ⟨he, hrest⟩ := List.forall_mem_cons.mp h
      rw [dirEntries, dirEntries, he, ih hrest]

theorem readdir_same {s s' : Volume} {d : Nat} (hblock : directoryBlock s' d = directoryBlock s d)
    (hentries : ∀ e ∈ Directory.entries (directoryBlock s d), dirEntry s' e = dirEntry s e) :
    asvfsReaddir s' d = asvfsReaddir s d := by
  unfold asvfsReaddir
  dsimp only
  rw [hblock, dirEntries_same hentries]

theorem pathLoop_same {s s' : Volume} {cs : List UInt8} {d : Nat} {name : List UInt8}
    (h : ∀ d' ∈ walked s cs d name, asvfsReaddir s' d' = asvfsReaddir s d') :
    pathLoop s' cs d name = pathLoop s cs d name := by
  induction cs generalizing d name with
  | nil => rfl
  | cons c cs ih =>
      rw [walked] at h
      rw [pathLoop, pathLoop]
      split_ifs at h ⊢ with hchar hroom hname
      · exact ih h
      · rfl
      · exact ih h
      · obtain ⟨hdir, hrest⟩ := List.forall_mem_cons.mp h
        have hfound : asvfsGetBlockMetaFromDir s' d name = asvfsGetBlockMetaFromDir s d name := by
          unfold asvfsGetBlockMetaFromDir
          rw [hdir]
        rw [hfound]
        cases hb : asvfsGetBlockMetaFromDir s d name with
        | none => rfl
        | some b =>
            simp only [hb] at hrest
            rw [Option.bind_some, Option.bind_some]
            split_ifs at hrest ⊢
            · exact ih hrest
            · rfl

theorem lookup_same {s s' : Volume} {pathname : List UInt8}
    (hroot : Header.rootDirectory s'.header = Header.rootDirectory s.header)
    (hdirs : ∀ d ∈ directoriesOnPath s pathname, asvfsReaddir s' d = asvfsReaddir s d) :
    asvfsGetBlockIdFromPathname s' pathname = asvfsGetBlockIdFromPathname s pathname := by
  unfold asvfsGetBlockIdFromPathname
  unfold directoriesOnPath at hdirs
  rw [hroot]
  split_ifs at hdirs ⊢
  · rfl
  · exact pathLoop_same hdirs

theorem SameFile.lookup {s s' : Volume} {pathname : List UInt8} {b : Nat}
    (h : SameFile s s' pathname b) :
    asvfsGetBlockIdFromPathname s' pathname = asvfsGetBlockIdFromPathname s pathname :=
  lookup_same h.root h.directories

/-! ## Confinement -/

/-- How many of the bytes asked for the file has. -/
def available (fileSize size offset : Nat) : Nat := min size (fileSize - offset)

/-- A read of the file `b` at `pathname`: what is returned is the number of
bytes the file has of those asked for, no more bytes of the buffer are
written, and nothing else on the drive makes a difference. -/
structure Confined (s : Volume) (pathname : List UInt8) (b size offset : Nat) : Prop where
  within : ∀ (port : Port) (buf : Int) (m : Memory), port.Exact s.disk →
    let n := available (Meta.fileSize (asvfsGetMetaData s b)) size offset
    ∃ m', asvfsRead port s pathname buf size offset m = some ((n : Int), m') ∧
      ∀ a, a < buf ∨ buf + n ≤ a → m' a = m a
  determined : ∀ (port : Port) (buf : Int) (m : Memory), port.Exact s.disk →
    ∀ (s' : Volume) (port' : Port), SameFile s s' pathname b → port'.Exact s'.disk →
      asvfsRead port' s' pathname buf size offset m = asvfsRead port s pathname buf size offset m

section

variable {s : Volume} {pathname : List UInt8} {b size offset : Nat}

theorem read_found {port : Port} {disk : Bytes} {buf : Int} {m : Memory}
    (hpath : asvfsGetBlockIdFromPathname s pathname = some b) (hb : b ≠ 0)
    (hport : port.Exact disk) : asvfsRead port s pathname buf size offset m =
      some (vfsErrorNone, (ahciReadAtByteOffset512Chunks port (drivePosition s b offset)
        (u32 size) buf m).2) := by
  have hmod : u32 (u32 (b * Header.blockSize s.header + offset)) = drivePosition s b offset :=
    Nat.mod_mod ..
  unfold asvfsRead
  rw [hpath, Option.map_some, if_neg hb, diskRead_eq hport, hmod]

/-- As many bytes as were asked for come in, whatever the size of the file. -/
theorem read_covered {port : Port} {buf : Int} {m : Memory}
    (hpath : asvfsGetBlockIdFromPathname s pathname = some b) (hb : b ≠ 0)
    (hport : port.Exact s.disk) (hend : drivePosition s b offset + size < 2 ^ 32)
    (hcov : LoopCovers (drivePosition s b offset) size) :
    asvfsRead port s pathname buf size offset m =
      some (vfsErrorNone, stored s.disk (drivePosition s b offset) buf 0 size m) := by
  have hsize : u32 size = size := Nat.mod_eq_of_lt (by omega)
  rw [read_found hpath hb hport, hsize, Ahci.read_covered hport hend hcov]

theorem read_nothing {port : Port} {disk : Bytes} {buf : Int} {m : Memory}
    (hpath : asvfsGetBlockIdFromPathname s pathname = some b) (hb : b ≠ 0)
    (hport : port.Exact disk) (hsize : u32 size = 0) :
    asvfsRead port s pathname buf size offset m = some (vfsErrorNone, m) := by
  have hin := Nat.mod_lt (drivePosition s b offset) (show 512 > 0 by decide)
  rw [read_found hpath hb hport, hsize,
    Ahci.read_short hport (by decide) (Nat.le_of_lt (by rwa [Nat.add_zero])), Ahci.stored_empty]

def diskPort (disk : Bytes) : Port := fun sector => some (read disk (512 * sector) 512)

theorem diskPort_exact (disk : Bytes) : (diskPort disk).Exact disk := fun _ => rfl

/-- A confined read is one for which there is nothing to read. -/
theorem Confined.nothing (hpath : asvfsGetBlockIdFromPathname s pathname = some b) (hb : b ≠ 0)
    (h : Confined s pathname b size offset) :
    u32 size = 0 ∧ available (Meta.fileSize (asvfsGetMetaData s b)) size offset = 0 := by
  have hport := diskPort_exact s.disk
  have hread : ∀ m : Memory, ∃ m',
      some (vfsErrorNone, (ahciReadAtByteOffset512Chunks (diskPort s.disk)
        (drivePosition s b offset) (u32 size) 0 m).2) =
          some (((available (Meta.fileSize (asvfsGetMetaData s b)) size offset : Nat) : Int), m') ∧
        ∀ a, a < 0 ∨ 0 + (available (Meta.fileSize (asvfsGetMetaData s b)) size offset : Int) ≤ a →
          m' a = m a := by
    intro m
    rw [← read_found hpath hb hport]
    exact h.within _ 0 m hport
  have hzero : available (Meta.fileSize (asvfsGetMetaData s b)) size offset = 0 := by
    obtain ⟨m', heq, -⟩ := hread fun _ => 0
    have hcount := (Prod.mk.inj (Option.some.inj heq)).1
    exact Int.ofNat_eq_zero.mp hcount.symm
  refine ⟨Nat.eq_zero_of_not_pos fun hsize => ?_, hzero⟩
  -- the byte at 0 is overwritten, so it cannot be kept both for a memory of
  -- zeros and for a memory of ones
  have hkept : ∀ m : Memory, (ahciReadAtByteOffset512Chunks (diskPort s.disk)
      (drivePosition s b offset) (u32 size) 0 m).2 0 = m 0 := by
    intro m
    obtain ⟨m', heq, hframe⟩ := hread m
    rw [(Prod.mk.inj (Option.some.inj heq)).2]
    exact hframe 0 (.inr (by rw [hzero, Int.zero_add, Nat.cast_zero]))
  have hfirst := Ahci.read_first hport (drivePosition s b offset) hsize 0 (fun _ => 0) fun _ => 1
  rw [hkept, hkept] at hfirst
  exact absurd hfirst (by decide)

theorem confined_of_nothing (hpath : asvfsGetBlockIdFromPathname s pathname = some b) (hb : b ≠ 0)
    (hsize : u32 size = 0)
    (hzero : available (Meta.fileSize (asvfsGetMetaData s b)) size offset = 0) :
    Confined s pathname b size offset where
  within := by
    intro port buf m hport
    rw [hzero]
    exact ⟨m, read_nothing hpath hb hport hsize, fun a _ => rfl⟩
  determined := by
    intro port buf m hport s' port' hsame hport'
    rw [read_nothing hpath hb hport hsize,
      read_nothing (hsame.lookup.trans hpath) hb hport' hsize]

/-- A read is confined to the file exactly if no byte is asked for that the
file has, and none of the drive. The file size does not take part in what is
transferred, and the status 0 is returned as the count, so whenever a byte
should come the count is wrong already. -/
theorem read_confined_iff (hpath : asvfsGetBlockIdFromPathname s pathname = some b) (hb : b ≠ 0) :
    Confined s pathname b size offset ↔ u32 size = 0 ∧
      available (Meta.fileSize (asvfsGetMetaData s b)) size offset = 0 :=
  ⟨Confined.nothing hpath hb, fun h => confined_of_nothing hpath hb h.1 h.2⟩

end

/-! ## A drive with one file -/

/-- The root is block 1 and lists `/a`, block 2, a file of 3 bytes: `xyz`. -/
def oneFile : Volume where
  header := bytesOf [(14, 16), (17, 8), (21, 1), (25, 3)]
  disk := bytesOf [(157, 1), (161, 2), (253, 2), (257, 1), (258, 97), (308, 3),
    (4096, 2), (4100, 2), (5124, 1), (8192, 120), (8193, 121), (8194, 122)]

theorem read_confined_iff_oneFile : Confined oneFile [47, 97] 2 0 5 ↔ u32 0 = 0 ∧
    available (Meta.fileSize (asvfsGetMetaData oneFile 2)) 0 5 = 0 :=
  read_confined_iff (by decide +kernel) (by decide)

theorem read_not_confined :
    asvfsGetBlockIdFromPathname oneFile [47, 97] = some 2 ∧
      Meta.blockType (asvfsGetMetaData oneFile 2) = asvfsBlockTypeFile ∧
      ¬ Confined oneFile [47, 97] 2 1 0 := by
  have hpath : asvfsGetBlockIdFromPathname oneFile [47, 97] = some 2 := by decide +kernel
  exact ⟨hpath, by decide +kernel, fun h => absurd (h.nothing hpath (by decide)).1 (by decide)⟩

end VersionSix.Asvfs
