import VersionSix.Bytes

/-!
# ASVFS: the drive

The records of `asvfs.h` as bytes (the header, the metadata records, the
directory blocks) and the functions that move them between memory and the
drive. `read_from_disk` and `write_to_disk` transfer exactly the addressed
bytes here; `AsvfsDrive` has the functions that write file data over any
callback. Offsets are computed as the source computes them: in 64 bits where a
metadata record is read, in 32 bits elsewhere (`off_t` is 32 bits wide).

A record is not taken apart into fields when it is read. It stays the bytes
that were on the drive, and a field is a word at an offset, so that a name that
runs over its 50 bytes changes the fields behind it as it does in the packed
structure, and a record that is written back keeps what no function has looked
at.

The header lives twice, on the drive and in memory, and the functions use the
one in memory: `Mounted` has both. The frame lemmas at the end say what each
kind of write leaves alone, given where records and blocks lie (`Placed`).
-/

namespace VersionSix.Asvfs

open ByteStore

/-! ## Constants -/

def asvfsDefaultBlockSize : Nat := 4096
def asvfsMaxNameSize : Nat := 50
def asvfsBlockTypeFile : Nat := 1
def asvfsBlockTypeDirectory : Nat := 2

def asvfsErrorNone : Int := 0
def asvfsErrorPathNotFound : Int := -3
def asvfsErrorNotADirectory : Int := -5

/-! ## Layout -/

/-- `sizeof(asvfs_header)` -/
def headerSize : Nat := 61

/-- `sizeof(asvfs_block_meta_data)` -/
def metaSize : Nat := 96

/-- `sizeof(asvfs_block_directory)` -/
def directorySize : Nat := 1064

/-- A `uint32_t`. -/
def u32 (x : Nat) : Nat := x % 2 ^ 32

namespace Header

def blockSize (h : Bytes) : Nat := le 4 h 13
def blockCount (h : Bytes) : Nat := le 4 h 17
def rootDirectory (h : Bytes) : Nat := le 4 h 21
def nextFree (h : Bytes) : Nat := le 4 h 25
def setNextFree (h : Bytes) (v : Nat) : Bytes := setLe 4 h 25 v

end Header

namespace Meta

def id (m : Bytes) : Nat := le 4 m 0
def blockType (m : Bytes) : Nat := le 1 m 4
def name (m : Bytes) : Option (List UInt8) := cstr asvfsMaxNameSize m 5

/-- The string that starts at the name: without a NUL in its field it goes on
through the fields behind it, and it has to end in the record. -/
def nameString (m : Bytes) : Option (List UInt8) := cstr (metaSize - 5) m 5

def fileSize (m : Bytes) : Nat := le 4 m 55
def startingBlock (m : Bytes) : Nat := le 4 m 59
def numBlocks (m : Bytes) : Nat := le 4 m 63
def inUse (m : Bytes) : Nat := le 1 m 67

def setBlockType (m : Bytes) (v : Nat) : Bytes := setLe 1 m 4 v
def setFileSize (m : Bytes) (v : Nat) : Bytes := setLe 4 m 55 v
def setStartingBlock (m : Bytes) (v : Nat) : Bytes := setLe 4 m 59 v
def setNumBlocks (m : Bytes) (v : Nat) : Bytes := setLe 4 m 63 v
def setInUse (m : Bytes) (v : Nat) : Bytes := setLe 1 m 67 v
def setPermissions (m : Bytes) (v : Nat) : Bytes := setLe 2 m 68 v

/-- `strcpy( m.name, s )`. A long name runs on into the fields behind it; one
that leaves the record is an overrun. -/
def strcpyName (m : Bytes) (s : List UInt8) : Option Bytes :=
  if 5 + s.length < metaSize then some (putStr m 5 s) else none

end Meta

namespace Directory

def type (b : Bytes) : Nat := le 4 b 0
def index (b : Bytes) (i : Nat) : Nat := le 4 b (4 + 4 * i)
def nextIndex (b : Bytes) : Nat := le 4 b 1028
def setType (b : Bytes) (v : Nat) : Bytes := setLe 4 b 0 v
def setIndex (b : Bytes) (i v : Nat) : Bytes := setLe 4 b (4 + 4 * i) v
def setNextIndex (b : Bytes) (v : Nat) : Bytes := setLe 4 b 1028 v

def entries (b : Bytes) : List Nat := (List.range (nextIndex b)).map (index b)

end Directory

/-! ## State -/

/-- The state of the drive, and the header in memory. -/
structure Mounted (δ : Type) where
  disk : δ
  header : Bytes

/-- A drive whose state is what is stored on it. -/
abbrev Volume := Mounted Bytes

def bytesOf (l : List (Nat × UInt8)) : Bytes := fun i => (l.lookup i).getD 0

def readFromDisk (s : Volume) (size offset : Nat) : Bytes := read s.disk offset size

def writeToDisk (s : Volume) (offset : Int) (size : Nat) (buff : Bytes) : Volume :=
  { s with disk := write s.disk offset size buff }

/-! ## Records on the drive -/

def metaOffset (blockId : Nat) : Nat := headerSize + metaSize * blockId

def asvfsGetMetaData (s : Volume) (blockId : Nat) : Bytes :=
  readFromDisk s metaSize (metaOffset blockId)

def asvfsReadBlock (s : Volume) (blockId size : Nat) : Bytes :=
  readFromDisk s size (u32 (blockId * 4096))

def asvfsWriteBlock (s : Volume) (blockId size : Nat) (data : Bytes) : Volume :=
  writeToDisk s (u32 (blockId * Header.blockSize s.header) : Nat) size data

def asvfsWriteHeader (s : Volume) (h : Bytes) : Volume := writeToDisk s 0 headerSize h

def asvfsWriteMetaData (s : Volume) (blockId : Nat) (m : Bytes) : Volume :=
  writeToDisk s (u32 (metaOffset blockId) : Nat) metaSize m

/-- The directory block of `b`. -/
def directoryBlock (s : Volume) (b : Nat) : Bytes := asvfsReadBlock s b directorySize

/-! ## What a write leaves alone -/

@[simp] theorem writeToDisk_header (s : Volume) (o : Int) (n : Nat) (b : Bytes) :
    (writeToDisk s o n b).header = s.header := by
  rw [writeToDisk]

@[simp] theorem writeBlock_header (s : Volume) (b n : Nat) (d : Bytes) :
    (asvfsWriteBlock s b n d).header = s.header := by
  rw [asvfsWriteBlock, writeToDisk_header]

@[simp] theorem writeMeta_header (s : Volume) (b : Nat) (m : Bytes) :
    (asvfsWriteMetaData s b m).header = s.header := by
  rw [asvfsWriteMetaData, writeToDisk_header]

@[simp] theorem writeHeader_header (s : Volume) (h : Bytes) :
    (asvfsWriteHeader s h).header = s.header := by
  rw [asvfsWriteHeader, writeToDisk_header]

theorem u32_block {b : Nat} (hb : b < 2 ^ 20) : u32 (b * 4096) = 4096 * b := by
  unfold u32
  omega

/-- The places of the metadata records below `n` and of the blocks that lie
behind them. -/
structure Placed (n b : Nat) : Prop where
  address : b < 2 ^ 20
  behind : headerSize + metaSize * n ≤ 4096 * b

theorem Placed.metaOffset_lt {n b i : Nat} (hb : Placed n b) (hi : i < n) :
    metaOffset i < 2 ^ 32 := by
  have haddress := hb.address
  have hbehind := hb.behind
  unfold metaOffset headerSize metaSize at *
  omega

theorem metaOffset_lt {b : Nat} (hb : b < 2 ^ 20) : metaOffset b < 2 ^ 32 := by
  unfold metaOffset headerSize metaSize
  omega

section Frames

variable {s : Volume} {n i b : Nat}

theorem getMeta_writeBlock (hsize : Header.blockSize s.header = 4096) (hi : i < n)
    (hb : Placed n b) (k : Nat) (d : Bytes) :
    asvfsGetMetaData (asvfsWriteBlock s b k d) i = asvfsGetMetaData s i := by
  have hbehind := hb.behind
  unfold asvfsGetMetaData asvfsWriteBlock readFromDisk writeToDisk metaOffset
  rw [hsize, u32_block hb.address]
  unfold headerSize metaSize at *
  exact read_write_disjoint (.inl (by omega))

theorem directoryBlock_writeBlock_same (hsize : Header.blockSize s.header = 4096)
    (hb : Placed n b) (d : Bytes) :
    directoryBlock (asvfsWriteBlock s b directorySize d) b = read d 0 directorySize := by
  unfold directoryBlock asvfsReadBlock asvfsWriteBlock readFromDisk writeToDisk
  rw [hsize, u32_block hb.address]
  exact read_write_same ..

theorem directoryBlock_writeBlock_ne {b' : Nat} (hsize : Header.blockSize s.header = 4096)
    (hb : Placed n b) (hb' : Placed n b') (hne : b' ≠ b) (d : Bytes) :
    directoryBlock (asvfsWriteBlock s b directorySize d) b' = directoryBlock s b' := by
  unfold directoryBlock asvfsReadBlock asvfsWriteBlock readFromDisk writeToDisk
  rw [hsize, u32_block hb.address, u32_block hb'.address]
  unfold directorySize
  exact read_write_disjoint (by omega)

theorem writeMeta_eq (hi : metaOffset i < 2 ^ 32) (m : Bytes) :
    asvfsWriteMetaData s i m = writeToDisk s (metaOffset i : Nat) metaSize m := by
  unfold asvfsWriteMetaData u32
  rw [Nat.mod_eq_of_lt hi]

theorem getMeta_writeMeta_same (hi : metaOffset i < 2 ^ 32) (m : Bytes) :
    asvfsGetMetaData (asvfsWriteMetaData s i m) i = read m 0 metaSize := by
  rw [writeMeta_eq hi]
  unfold asvfsGetMetaData readFromDisk writeToDisk
  exact read_write_same ..

theorem getMeta_writeMeta_ne (hi : metaOffset i < 2 ^ 32) {i' : Nat} (hne : i' ≠ i) (m : Bytes) :
    asvfsGetMetaData (asvfsWriteMetaData s i m) i' = asvfsGetMetaData s i' := by
  rw [writeMeta_eq hi]
  unfold asvfsGetMetaData readFromDisk writeToDisk metaOffset metaSize
  exact read_write_disjoint (by omega)

theorem directoryBlock_writeMeta (hi : i < n) (hb : Placed n b) (m : Bytes) :
    directoryBlock (asvfsWriteMetaData s i m) b = directoryBlock s b := by
  have hbehind := hb.behind
  rw [writeMeta_eq (hb.metaOffset_lt hi)]
  unfold directoryBlock asvfsReadBlock readFromDisk writeToDisk metaOffset
  rw [u32_block hb.address]
  unfold headerSize metaSize at *
  exact read_write_disjoint (.inr (by omega))

theorem getMeta_writeHeader (h : Bytes) :
    asvfsGetMetaData (asvfsWriteHeader s h) i = asvfsGetMetaData s i := by
  unfold asvfsGetMetaData asvfsWriteHeader readFromDisk writeToDisk metaOffset headerSize
  exact read_write_disjoint (.inr (by omega))

theorem directoryBlock_writeHeader (hb : Placed n b) (h : Bytes) :
    directoryBlock (asvfsWriteHeader s h) b = directoryBlock s b := by
  have hbehind := hb.behind
  unfold directoryBlock asvfsReadBlock asvfsWriteHeader readFromDisk writeToDisk
  rw [u32_block hb.address]
  unfold headerSize at *
  exact read_write_disjoint (.inr (by omega))

end Frames

/-! ## Fields of records -/

theorem nextFree_setNextFree {h : Bytes} {v : Nat} (hv : v < 2 ^ 32) :
    Header.nextFree (Header.setNextFree h v) = v := by
  rw [Header.nextFree, Header.setNextFree, le_setLe_same]
  exact Nat.mod_eq_of_lt hv

theorem blockSize_setNextFree (h : Bytes) (v : Nat) :
    Header.blockSize (Header.setNextFree h v) = Header.blockSize h :=
  le_setLe_disjoint (by decide)

theorem blockCount_setNextFree (h : Bytes) (v : Nat) :
    Header.blockCount (Header.setNextFree h v) = Header.blockCount h :=
  le_setLe_disjoint (by decide)

theorem rootDirectory_setNextFree (h : Bytes) (v : Nat) :
    Header.rootDirectory (Header.setNextFree h v) = Header.rootDirectory h :=
  le_setLe_disjoint (by decide)

/-- The fields of a directory block lie in the part that is transferred. -/
theorem Directory.type_read (d : Bytes) :
    Directory.type (read d 0 directorySize) = Directory.type d := by
  unfold Directory.type
  rw [le_read (by decide)]

theorem Directory.nextIndex_read (d : Bytes) :
    Directory.nextIndex (read d 0 directorySize) = Directory.nextIndex d := by
  unfold Directory.nextIndex
  rw [le_read (by decide)]

theorem Directory.index_read (d : Bytes) {i : Nat} (hi : i < 256) :
    Directory.index (read d 0 directorySize) i = Directory.index d i := by
  unfold Directory.index directorySize
  rw [le_read (by omega), Nat.zero_add]

theorem Meta.id_read (m : Bytes) : Meta.id (read m 0 metaSize) = Meta.id m := by
  unfold Meta.id
  rw [le_read (by decide)]

theorem Meta.name_read (m : Bytes) : Meta.name (read m 0 metaSize) = Meta.name m := by
  unfold Meta.name
  rw [cstr_read (by decide)]

theorem Meta.blockType_read (m : Bytes) :
    Meta.blockType (read m 0 metaSize) = Meta.blockType m := by
  unfold Meta.blockType
  rw [le_read (by decide)]

end VersionSix.Asvfs
