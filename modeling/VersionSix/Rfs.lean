import VersionSix.Bytes
import VersionSix.Run

/-!
# RAM files

The operations of `rfs.c` on the files in `rfs_file_objs`: a file is a
record with a pathname, a size and a block of `kmalloc`. The list is kept
by `avs_list.c`; here it is the sequence of records, oldest first, and a
lookup takes the first one with the pathname.

What `kmalloc` returns is passed in: a block with some content, or `NULL`.
A result `none` is a fault of the kernel: a `NULL` pointer followed, or a
byte read or written outside a block.

The reference is a growable array of bytes (`refStep`). The RAM file keeps
up with it as long as a file is written in one piece and then only
overwritten, in its first 256 bytes of offset, and read from the start
(`ram_file_refines`): the size is set by the first write alone, and offsets
are cut to one byte.
-/

namespace VersionSix.Rfs

open ByteStore (Bytes)

/-! ## Constants and records -/

def vfsErrorNone : Int := 0
def vfsErrorMemory : Int := -2
def vfsErrorFileNotFound : Int := -8

def vfsInodeTypeFile : Nat := 1
def vfsInodeTypeDir : Nat := 2
def vfsInodeTypeDevice : Nat := 3

def rfsFileTypeDir : UInt8 := 0
def rfsFileTypeFile : UInt8 := 1
def rfsFileTypeDevice : UInt8 := 3

/-- The array `pathname` of a record, with room for the NUL. -/
def pathnameMax : Nat := 1024

/-- A block of `kmalloc`: its content and how many bytes were asked for. -/
structure Block where
  bytes : Bytes
  size : Nat

structure RfsFile where
  rfsFileType : UInt8
  pathname : List UInt8
  data : Option Block
  size : Nat

/-- `(int) n` -/
def cInt (n : Nat) : Int :=
  if n % 2 ^ 32 < 2 ^ 31 then (n % 2 ^ 32 : Nat) else (n % 2 ^ 32 : Nat) - 2 ^ 32

/-! ## Memory -/

/-- `kmalloc`, when the memory it finds holds `heap`. -/
def kmalloc (heap : Option Bytes) (n : Nat) : Option Block := heap.map fun bytes => ⟨bytes, n⟩

/-- `krealloc` of a block, for `n` other than 0. A block that is large enough
stays where it is; `kmalloc` is not checked before the copy. -/
def krealloc (heap : Option Bytes) (b : Block) (n : Nat) : Option Block :=
  if n ≤ b.size then some { b with size := n }
  else (kmalloc heap n).map fun b' => { b' with bytes := ByteStore.write b'.bytes 0 b.size b.bytes }

def Block.store (b : Block) (off : Nat) (src : Bytes) (n : Nat) : Block :=
  { b with bytes := ByteStore.write b.bytes off n src }

/-- `memcpy` to `off` of a block. -/
def memcpyTo (b : Block) (off : Nat) (src : Bytes) (n : Nat) : Option Block :=
  if n = 0 ∨ off + n ≤ b.size then some (b.store off src n) else none

/-! ## The operations -/

def rfsLookupByPathname (files : List RfsFile) (pathname : List UInt8) : Option Nat :=
  files.findIdx? fun f => pathname = f.pathname

/-- What `rfs_getattr` puts into the `struct stat`; `st_size` is an `off_t`. -/
structure Stat where
  stSize : Nat
  type : UInt8

def rfsGetattr (files : List RfsFile) (pathname : List UInt8) : Int × Option Stat :=
  match (rfsLookupByPathname files pathname).bind fun i => files[i]? with
  | none => (vfsErrorFileNotFound, none)
  | some f => (vfsErrorNone, some { stSize := f.size % 2 ^ 32, type := f.rfsFileType })

/-- `rfs_create`. `record` is what the new record holds in `rfs_file_type`;
`none` is a `NULL` from `kmalloc`. -/
def rfsCreate (record : Option UInt8) (files : List RfsFile) (pathname : List UInt8) (mode : Nat) :
    Option (Int × List RfsFile) :=
  record.bind fun left =>
    if pathnameMax ≤ pathname.length then none
    else
      let rfsFileType :=
        if mode = vfsInodeTypeDir then rfsFileTypeDir
        else if mode = vfsInodeTypeFile then rfsFileTypeFile
        else if mode = vfsInodeTypeDevice then rfsFileTypeDevice
        else left
      some (vfsErrorNone, files ++ [{ rfsFileType, pathname, data := none, size := 0 }])

/-- `rfs_read`: the buffer after the call. -/
def rfsRead (files : List RfsFile) (pathname : List UInt8) (buf : Bytes) (offset : UInt32)
    (length : UInt64) : Option (Int × Bytes) :=
  match (rfsLookupByPathname files pathname).bind fun i => files[i]? with
  | none => some (vfsErrorFileNotFound, buf)
  | some f =>
      if length = 0 then some (0, buf)
      else f.data.bind fun b =>
        if length.toNat ≤ b.size then
          some (cInt length.toNat,
            ByteStore.write buf (offset.toUInt8.toNat : Nat) length.toNat b.bytes)
        else none

/-- The part of `rfs_write` after the first allocation. -/
def storeData (heap : Option Bytes) (f : RfsFile) (buff : Bytes) (offset : UInt32)
    (size : UInt64) : Option (Int × RfsFile) :=
  f.data.bind fun b =>
    let spaceToRealloc :=
      if f.size < (offset.toUInt64 + size).toNat then (size + offset.toUInt64).toNat else 0
    (if spaceToRealloc ≠ 0 then krealloc heap b spaceToRealloc else some b).bind fun b =>
      (memcpyTo b offset.toUInt8.toNat buff size.toNat).map fun b =>
        (cInt size.toNat, { f with data := some b })

def writeFile (heap : Option Bytes) (f : RfsFile) (buff : Bytes) (offset : UInt32)
    (size : UInt64) : Option (Int × RfsFile) :=
  if f.size = 0 then
    match kmalloc heap size.toNat with
    | none => some (vfsErrorMemory, { f with data := none })
    | some b => storeData heap { f with data := some b, size := size.toNat } buff offset size
  else storeData heap f buff offset size

def rfsWrite (heap : Option Bytes) (files : List RfsFile) (pathname : List UInt8) (buff : Bytes)
    (offset : UInt32) (size : UInt64) : Option (Int × List RfsFile) :=
  match rfsLookupByPathname files pathname with
  | none => some (vfsErrorFileNotFound, files)
  | some i => (files[i]?).bind fun f =>
      (writeFile heap f buff offset size).map fun (r, f) => (r, files.set i f)

/-! ## Calls on one pathname -/

inductive Op
  | create (mode : Nat) (record : Option UInt8)
  | write (buff : Bytes) (offset : UInt32) (size : UInt64) (heap : Option Bytes)
  | read (buf : Bytes) (offset : UInt32) (length : UInt64)
  | getattr

inductive Result
  | status (r : Int)
  | buffer (r : Int) (buf : Bytes)
  | size (r : Int) (stSize : Option Nat)

def rfsStep (pathname : List UInt8) (files : List RfsFile) : Op → Option (List RfsFile × Result)
  | .create mode record =>
      (rfsCreate record files pathname mode).map fun (r, files) => (files, .status r)
  | .write buff offset size heap =>
      (rfsWrite heap files pathname buff offset size).map fun (r, files) => (files, .status r)
  | .read buf offset length =>
      (rfsRead files pathname buf offset length).map fun (r, buf) => (files, .buffer r buf)
  | .getattr =>
      let (r, stat) := rfsGetattr files pathname
      some (files, .size r (stat.map Stat.stSize))

/-! ### The reference -/

/-- The array with `n` bytes of `buff` stored at `offset`, grown to hold them. -/
def overlay (a : List UInt8) (offset n : Nat) (buff : Bytes) : List UInt8 :=
  (List.range (max a.length (offset + n))).map fun i =>
    if offset ≤ i ∧ i < offset + n then buff (i - offset) else a.getD i 0

def refStep (a : Option (List UInt8)) : Op → Option (List UInt8) × Result
  | .create _ _ => (some (a.getD []), .status vfsErrorNone)
  | .write buff offset size _ =>
      match a with
      | none => (none, .status vfsErrorFileNotFound)
      | some a => (some (overlay a offset.toNat size.toNat buff), .status (cInt size.toNat))
  | .read buf offset length =>
      match a with
      | none => (none, .buffer vfsErrorFileNotFound buf)
      | some a => (some a, .buffer (cInt length.toNat)
          (ByteStore.write buf 0 length.toNat fun i => a.getD (offset.toNat + i) 0))
  | .getattr =>
      match a with
      | none => (none, .size vfsErrorFileNotFound none)
      | some a => (some a, .size vfsErrorNone (some a.length))

/-- When a call keeps up with the reference: memory is there, a write to an
empty file starts at its beginning, any other stays inside the file, the
offset of a write fits in a byte, a read inside the file starts at its
beginning, and the size fits in `st_size`. -/
def OpOk (pathname : List UInt8) (a : Option (List UInt8)) : Op → Prop
  | .create _ record => record ≠ none ∧ pathname.length < pathnameMax
  | .write _ offset size heap => ∀ a', a = some a' →
      (a' = [] → heap ≠ none ∧ offset = 0) ∧
      (a' ≠ [] → offset.toNat + size.toNat ≤ a'.length) ∧
      (size ≠ 0 → offset.toNat < 256)
  | .read _ offset length => ∀ a', a = some a' →
      offset.toNat + length.toNat ≤ a'.length ∧ (offset = 0 ∨ length = 0)
  | .getattr => ∀ a', a = some a' → a'.length < 2 ^ 32

/-! ## One call -/

/-- The file holds the array. -/
structure Holds (f : RfsFile) (a : List UInt8) : Prop where
  size : f.size = a.length
  data : a ≠ [] → ∃ b, f.data = some b ∧ a.length ≤ b.size ∧ ∀ j < a.length, b.bytes j = a.getD j 0

def Represents (pathname : List UInt8) (files : List RfsFile) : Option (List UInt8) → Prop
  | none => ∀ f ∈ files, f.pathname ≠ pathname
  | some a => ∃ i f, rfsLookupByPathname files pathname = some i ∧ files[i]? = some f ∧ Holds f a

theorem lookup_none {files : List RfsFile} {pathname : List UInt8}
    (h : ∀ f ∈ files, f.pathname ≠ pathname) : rfsLookupByPathname files pathname = none := by
  unfold rfsLookupByPathname
  rw [List.findIdx?_eq_none_iff]
  intro f hf
  exact decide_eq_false fun heq => h f hf heq.symm

theorem lookup_set {files : List RfsFile} {pathname : List UInt8} {i : Nat} {f f' : RfsFile}
    (h : rfsLookupByPathname files pathname = some i) (hf : files[i]? = some f)
    (hname : f'.pathname = f.pathname) :
    rfsLookupByPathname (files.set i f') pathname = some i := by
  unfold rfsLookupByPathname at h ⊢
  rw [List.findIdx?_eq_some_iff_getElem] at h ⊢
  obtain ⟨hi, hfound, hbefore⟩ := h
  obtain rfl : f = files[i] := (Option.some.inj ((List.getElem?_eq_getElem hi).symm.trans hf)).symm
  refine ⟨by rwa [List.length_set], ?_, fun j hj => ?_⟩
  · rw [List.getElem_set_self, hname]
    exact hfound
  · rw [List.getElem_set_ne (by omega)]
    exact hbefore j hj

theorem length_overlay (a : List UInt8) (offset n : Nat) (buff : Bytes) :
    (overlay a offset n buff).length = max a.length (offset + n) := by
  rw [overlay, List.length_map, List.length_range]

theorem getD_overlay {a : List UInt8} {offset n j : Nat} {buff : Bytes}
    (h : j < max a.length (offset + n)) : (overlay a offset n buff).getD j 0 =
      if offset ≤ j ∧ j < offset + n then buff (j - offset) else a.getD j 0 := by
  unfold overlay
  rw [List.getD_eq_getElem?_getD, List.getElem?_map, List.getElem?_range h]
  rfl

/-- A write inside the file, with an offset of one byte, goes where it should. -/
theorem storeData_inside {heap : Option Bytes} {f : RfsFile} {b : Block} {buff : Bytes}
    {offset : UInt32} {size : UInt64} (hdata : f.data = some b)
    (hinside : offset.toNat + size.toNat ≤ f.size) (hcap : f.size ≤ b.size)
    (hbyte : size ≠ 0 → offset.toNat < 256) :
    storeData heap f buff offset size = some (cInt size.toNat,
      { f with data := some (b.store offset.toNat buff size.toNat) }) := by
  have hsum : (offset.toUInt64 + size).toNat ≤ f.size := by
    rw [UInt64.toNat_add, UInt32.toNat_toUInt64]
    exact (Nat.mod_le _ _).trans hinside
  have hcopy : memcpyTo b offset.toUInt8.toNat buff size.toNat =
      some (b.store offset.toNat buff size.toNat) := by
    unfold memcpyTo
    by_cases hzero : size.toNat = 0
    · unfold Block.store
      rw [if_pos (.inl hzero), hzero, ByteStore.write_zero, ByteStore.write_zero]
    · have hlt := hbyte fun h => hzero (congrArg UInt64.toNat h)
      have hoff : offset.toUInt8.toNat = offset.toNat := by
        rw [UInt32.toNat_toUInt8]
        exact Nat.mod_eq_of_lt hlt
      rw [hoff, if_pos (.inr (hinside.trans hcap))]
  unfold storeData
  rw [hdata, Option.bind_some, if_neg (Nat.not_lt.mpr hsum)]
  simp only [ne_eq, not_true_eq_false, if_false, Option.bind_some, hcopy, Option.map_some]

theorem Holds.stored {f : RfsFile} {a : List UInt8} {b : Block} {buff : Bytes}
    {offset n : Nat} (h : f.size = a.length) (hcap : a.length ≤ b.size)
    (hbytes : ∀ j < a.length, b.bytes j = a.getD j 0) (hinside : offset + n ≤ a.length) :
    Holds { f with data := some (b.store offset buff n) } (overlay a offset n buff) := by
  have hlen : (overlay a offset n buff).length = a.length := by
    rw [length_overlay]
    exact Nat.max_eq_left hinside
  refine ⟨h.trans hlen.symm, fun _ => ⟨_, rfl, hlen.le.trans hcap, fun j hj => ?_⟩⟩
  rw [getD_overlay (by rwa [← length_overlay])]
  rw [hlen] at hj
  by_cases hin : offset ≤ j ∧ j < offset + n
  · rw [if_pos hin]
    obtain ⟨i, rfl⟩ := Nat.exists_eq_add_of_le hin.1
    rw [Nat.add_sub_cancel_left]
    exact ByteStore.write_in (by omega)
  · rw [if_neg hin, ← hbytes j hj]
    exact ByteStore.write_out (by omega)

theorem Holds.first (f : RfsFile) (bytes buff : Bytes) (n : Nat) :
    Holds { f with data := some ((⟨bytes, n⟩ : Block).store 0 buff n), size := n }
      (overlay [] 0 n buff) := by
  have hlen : (overlay [] 0 n buff).length = n := by
    rw [length_overlay, Nat.zero_add]
    exact Nat.max_eq_right (Nat.zero_le _)
  refine ⟨hlen.symm, fun _ => ⟨_, rfl, hlen.le, fun j hj => ?_⟩⟩
  rw [getD_overlay (by rwa [← length_overlay])]
  rw [hlen] at hj
  rw [if_pos ⟨Nat.zero_le _, by rwa [Nat.zero_add]⟩, Nat.sub_zero]
  have hin : ByteStore.write bytes 0 n buff (0 + j) = buff j := ByteStore.write_in hj
  rwa [Nat.zero_add] at hin

theorem write_congr {d buf buf' : Bytes} {n : Nat} (h : ∀ j < n, buf j = buf' j) :
    ByteStore.write d 0 n buf = ByteStore.write d 0 n buf' := by
  funext x
  by_cases hx : x < n
  · rw [← Nat.zero_add x]
    exact (ByteStore.write_in hx).trans ((h x hx).trans (ByteStore.write_in hx).symm)
  · rw [ByteStore.write_out (by omega), ByteStore.write_out (by omega)]

section

variable {pathname : List UInt8} {files : List RfsFile}

theorem create_refines {a : Option (List UInt8)} (mode : Nat) (left : UInt8)
    (hname : pathname.length < pathnameMax) (h : Represents pathname files a) :
    ∃ files', rfsCreate (some left) files pathname mode = some (vfsErrorNone, files') ∧
      Represents pathname files' (some (a.getD [])) := by
  unfold rfsCreate
  rw [Option.bind_some, if_neg (Nat.not_le.mpr hname)]
  refine ⟨_, rfl, ?_⟩
  cases a with
  | none =>
      refine ⟨files.length, _, ?_, List.getElem?_concat_length .., rfl, fun hne => absurd rfl hne⟩
      have hnone : List.findIdx? (fun f : RfsFile => decide (pathname = f.pathname)) files = none :=
        lookup_none h
      rw [rfsLookupByPathname, List.findIdx?_append, hnone]
      simp
  | some a =>
      obtain ⟨i, f, hlookup, hf, hholds⟩ := h
      have hlt : i < files.length := (List.getElem?_eq_some_iff.mp hf).1
      unfold rfsLookupByPathname at hlookup
      refine ⟨i, f, ?_, ?_, hholds⟩
      · rw [rfsLookupByPathname, List.findIdx?_append, hlookup]
        rfl
      · rw [List.getElem?_append_left hlt, hf]

theorem write_refines {a : List UInt8} (buff : Bytes) {offset : UInt32} {size : UInt64}
    {heap : Option Bytes} (h : Represents pathname files (some a))
    (hempty : a = [] → heap ≠ none ∧ offset = 0)
    (hinside : a ≠ [] → offset.toNat + size.toNat ≤ a.length)
    (hbyte : size ≠ 0 → offset.toNat < 256) :
    ∃ files', rfsWrite heap files pathname buff offset size =
        some (cInt size.toNat, files') ∧
      Represents pathname files' (some (overlay a offset.toNat size.toNat buff)) := by
  obtain ⟨i, f, hlookup, hf, hsize, hdata⟩ := h
  have hlt : i < files.length := (List.getElem?_eq_some_iff.mp hf).1
  -- it is enough to follow the record
  suffices hfile : ∃ f', writeFile heap f buff offset size = some (cInt size.toNat, f') ∧
      f'.pathname = f.pathname ∧ Holds f' (overlay a offset.toNat size.toNat buff) by
    obtain ⟨f', hwrite, hname, hholds⟩ := hfile
    refine ⟨files.set i f', ?_, i, f', lookup_set hlookup hf hname, ?_, hholds⟩
    · unfold rfsWrite
      simp only [hlookup, hf, Option.bind_some, hwrite, Option.map_some]
    · rw [List.getElem?_set_self hlt]
  unfold writeFile
  by_cases hnil : a = []
  · obtain ⟨hheap, rfl⟩ := hempty hnil
    obtain ⟨bytes, rfl⟩ := Option.ne_none_iff_exists'.mp hheap
    subst hnil
    have hzero : f.size = 0 := hsize
    rw [if_pos hzero]
    refine ⟨_, storeData_inside
      (f := { f with data := some ⟨bytes, size.toNat⟩, size := size.toNat })
      (b := ⟨bytes, size.toNat⟩) rfl ?_ le_rfl hbyte, rfl, ?_⟩
    · exact (Nat.zero_add _).le
    · exact Holds.first ..
  · obtain ⟨b, hb, hcap, hbytes⟩ := hdata hnil
    have hin := hinside hnil
    have hpos : f.size ≠ 0 := fun h0 => hnil (List.length_eq_zero_iff.mp (hsize.symm.trans h0))
    rw [if_neg hpos]
    refine ⟨_, storeData_inside hb (hsize ▸ hin) (hsize ▸ hcap) hbyte, rfl, ?_⟩
    exact Holds.stored hsize hcap hbytes hin

theorem read_refines {a : List UInt8} {buf : Bytes} {offset : UInt32} {length : UInt64}
    (h : Represents pathname files (some a)) (hin : offset.toNat + length.toNat ≤ a.length)
    (hstart : offset = 0 ∨ length = 0) :
    rfsRead files pathname buf offset length = some (cInt length.toNat,
      ByteStore.write buf 0 length.toNat fun i => a.getD (offset.toNat + i) 0) := by
  obtain ⟨i, f, hlookup, hf, hsize, hdata⟩ := h
  unfold rfsRead
  simp only [hlookup, hf, Option.bind_some]
  by_cases hzero : length = 0
  · subst hzero
    rw [if_pos rfl]
    have hlen : (0 : UInt64).toNat = 0 := rfl
    rw [hlen, ByteStore.write_zero]
    rfl
  · obtain rfl := hstart.resolve_right hzero
    rw [if_neg hzero]
    have hpos : length.toNat ≠ 0 := fun h => hzero (UInt64.toNat_inj.mp h)
    have hlen : length.toNat ≤ a.length := (Nat.le_add_left ..).trans hin
    have hnil : a ≠ [] := fun hnil => by
      rw [hnil] at hlen
      exact hpos (Nat.le_zero.mp hlen)
    obtain ⟨b, hb, hcap, hbytes⟩ := hdata hnil
    rw [hb, Option.bind_some, if_pos (hlen.trans hcap)]
    have hbytes' : ∀ j < length.toNat, b.bytes j = a.getD ((0 : UInt32).toNat + j) 0 :=
      fun j hj => by
        rw [hbytes j (hj.trans_le hlen)]
        exact congrArg (a.getD · 0) (Nat.zero_add j).symm
    rw [← write_congr hbytes']
    rfl

theorem getattr_refines {a : List UInt8} (h : Represents pathname files (some a))
    (hfits : a.length < 2 ^ 32) : ∃ stat, rfsGetattr files pathname = (vfsErrorNone, some stat) ∧
      stat.stSize = a.length := by
  obtain ⟨i, f, hlookup, hf, hsize, -⟩ := h
  unfold rfsGetattr
  simp only [hlookup, hf, Option.bind_some]
  exact ⟨_, rfl, by rw [hsize, Nat.mod_eq_of_lt hfits]⟩

theorem step_refines {a : Option (List UInt8)} {op : Op} (h : Represents pathname files a)
    (hok : OpOk pathname a op) : ∃ files', rfsStep pathname files op =
      some (files', (refStep a op).2) ∧ Represents pathname files' (refStep a op).1 := by
  cases op with
  | create mode record =>
      obtain ⟨left, rfl⟩ := Option.ne_none_iff_exists'.mp hok.1
      obtain ⟨files', hcreate, hrep⟩ := create_refines mode left hok.2 h
      exact ⟨files', by rw [rfsStep, hcreate]; rfl, hrep⟩
  | write buff offset size heap =>
      cases a with
      | none =>
          refine ⟨files, ?_, h⟩
          rw [rfsStep, rfsWrite, lookup_none h]
          rfl
      | some a =>
          obtain ⟨hempty, hinside, hbyte⟩ := hok a rfl
          obtain ⟨files', hwrite, hrep⟩ := write_refines buff h hempty hinside hbyte
          exact ⟨files', by rw [rfsStep, hwrite]; rfl, hrep⟩
  | read buf offset length =>
      cases a with
      | none =>
          refine ⟨files, ?_, h⟩
          rw [rfsStep, rfsRead, lookup_none h]
          rfl
      | some a =>
          obtain ⟨hin, hstart⟩ := hok a rfl
          exact ⟨files, by rw [rfsStep, read_refines h hin hstart]; rfl, h⟩
  | getattr =>
      cases a with
      | none =>
          refine ⟨files, ?_, h⟩
          rw [rfsStep, rfsGetattr, lookup_none h]
          rfl
      | some a =>
          obtain ⟨stat, hstat, hsize⟩ := getattr_refines h (hok a rfl)
          refine ⟨files, ?_, h⟩
          rw [rfsStep, hstat]
          exact congrArg (fun n => some (files, Result.size vfsErrorNone (some n))) hsize

end

/-! ## Runs -/

/-- Every call of a run keeps within `OpOk`. -/
abbrev KeepsWithin (pathname : List UInt8) (files : List RfsFile) (a : Option (List UInt8))
    (ops : List Op) : Prop :=
  Run.Guarded (rfsStep pathname) refStep (fun _ a op => OpOk pathname a op) files a ops

/-- Such a run runs through, so that no call leaves the storage of the file,
and its results are those of the growable array. The condition on a call is one
on its arguments and on the size of the file before it. What relates the two is
the size, and the bytes of the storage below it. -/
theorem ram_file_refines {pathname : List UInt8} {files : List RfsFile}
    (hnew : ∀ f ∈ files, f.pathname ≠ pathname) {ops : List Op}
    (hok : KeepsWithin pathname files none ops) :
    ∃ files', Run.trace (rfsStep pathname) files ops =
      some (files', (Run.outputs refStep none ops).2) := by
  have hrep : Represents pathname files none := hnew
  have hstep : ∀ files a op, Represents pathname files a → OpOk pathname a op →
      ∃ files', rfsStep pathname files op = some (files', (refStep a op).2) ∧
        Represents pathname files' (refStep a op).1 := fun _ _ _ h hop => step_refines h hop
  obtain ⟨files', htrace, -⟩ := Run.trace_refines hstep hrep hok
  exact ⟨files', htrace⟩

/-! ### A file that is overwritten and one that grows -/

def pathA : List UInt8 := [47, 97]

def allOf (c : UInt8) : Bytes := fun _ => c

def overwriting : List Op :=
  [.create vfsInodeTypeFile (some 0), .write (allOf 65) 0 3 (some (allOf 0)),
    .write (allOf 66) 1 2 none, .read (allOf 0) 0 2, .getattr]

theorem ram_file_refines_overwriting : ∃ files', Run.trace (rfsStep pathA) [] overwriting =
    some (files', (Run.outputs refStep none overwriting).2) := by
  refine ram_file_refines (fun f hf => absurd hf List.not_mem_nil) ?_
  refine ⟨⟨nofun, by decide⟩, fun _ _ _ => ⟨?_, fun _ _ _ => ⟨?_, fun _ _ _ => ⟨?_, fun _ _ _ =>
    ⟨?_, fun _ _ _ => trivial⟩⟩⟩⟩⟩
  · rintro a ⟨⟩
    exact ⟨fun _ => ⟨nofun, rfl⟩, fun h => absurd rfl h, fun _ => by decide⟩
  · rintro a ⟨⟩
    exact ⟨nofun, fun _ => by decide, fun _ => by decide⟩
  · rintro a ⟨⟩
    exact ⟨by decide, .inl rfl⟩
  · rintro a ⟨⟩
    decide

def growing : List Op :=
  [.create vfsInodeTypeFile (some 0), .write (allOf 65) 0 1 (some (allOf 0)),
    .write (allOf 66) 1 1 (some (allOf 0)), .getattr]

def Result.stSize? : Result → Option Nat
  | .size _ stSize => stSize
  | _ => none

theorem growth_not_recorded :
    ((Run.trace (rfsStep pathA) [] growing).map fun x => x.2.filterMap Result.stSize?) = some [1] ∧
      (Run.outputs refStep none growing).2.filterMap Result.stSize? = [2] := by
  decide +kernel

end VersionSix.Rfs
