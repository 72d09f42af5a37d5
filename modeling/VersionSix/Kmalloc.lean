import Mathlib.Logic.Function.Basic
import VersionSix.CInt
import VersionSix.Fields

/-!
# The kernel's heap

`kmalloc.c`, over the bytes of memory. A pointer is an address, NULL is 0. The
allocator keeps the blocks of pages it got (`struct liballoc_major`) in a list,
and in each of them a list of the pieces in use (`struct liballoc_minor`), both
inside the memory that it hands out.

`liballoc_alloc` is a parameter, with a state of its own. A loop that ran
through more nodes than the heap has room for does not return; the lock is a
flag whose result nothing looks at, and is left out.

The cases of `kmalloc` are those of its comments, each a definition of its own,
with the stores in the order in which they are made. The types are narrow in
places: a number of pages is an `unsigned int`, what is free in a block an
`int`, the distance that a pointer was moved by a byte.
-/

namespace VersionSix.Kmalloc

open ByteStore

/-! ## The records -/

def alignment : Nat := 16
def alignInfo : Nat := 16

def liballocMagic : Nat := 0xc001c0de
def liballocDead : Nat := 0xdeaddead

namespace LiballocMajor

@[simp] def prev : Field := ⟨0, 8⟩
@[simp] def next : Field := ⟨8, 8⟩
@[simp] def pages : Field := ⟨16, 4⟩
@[simp] def size : Field := ⟨20, 4⟩
@[simp] def usage : Field := ⟨24, 4⟩
@[simp] def first : Field := ⟨32, 8⟩

/-- `sizeof(struct liballoc_major)` -/
def bytes : Nat := 40

end LiballocMajor

namespace LiballocMinor

@[simp] def prev : Field := ⟨0, 8⟩
@[simp] def next : Field := ⟨8, 8⟩
@[simp] def block : Field := ⟨16, 8⟩
@[simp] def magic : Field := ⟨24, 4⟩
@[simp] def size : Field := ⟨28, 4⟩
@[simp] def reqSize : Field := ⟨32, 4⟩

/-- `sizeof(struct liballoc_minor)` -/
def bytes : Nat := 40

end LiballocMinor

def lPageSize : Nat := 4096
def lPageCount : Nat := 1

/-- Memory, the state of `liballoc_alloc` and the variables of `kmalloc.c`. -/
structure Heap (P : Type) where
  memory : Bytes
  pages : P
  lMemRoot : Nat
  lBestBet : Nat
  lAllocated : Nat
  lInuse : Nat
  lWarningCount : Nat
  lErrorCount : Nat
  lPossibleOverruns : Nat

/-- The variables as `kmalloc.c` initializes them. -/
def Heap.start {P : Type} (memory : Bytes) (pages : P) : Heap P where
  memory := memory
  pages := pages
  lMemRoot := 0
  lBestBet := 0
  lAllocated := 0
  lInuse := 0
  lWarningCount := 0
  lErrorCount := 0
  lPossibleOverruns := 0

/-! ## Words -/

def sub64 (a b : Nat) : Nat := (a + 2 ^ 64 - b) % 2 ^ 64

def sub32 (a b : Nat) : Nat := (a + 2 ^ 32 - b) % 2 ^ 32

theorem sub64_eq {a b : Nat} (h : b ≤ a) (ha : a < 2 ^ 64) : sub64 a b = a - b := by
  unfold sub64
  omega

theorem sub32_eq {a b : Nat} (h : b ≤ a) (ha : a < 2 ^ 32) : sub32 a b = a - b := by
  unfold sub32
  omega

/-! ## Alignment -/

/-- `ALIGN( ptr )`. How far the pointer was moved is stored in front of it. -/
def align (m : Bytes) (ptr : Nat) : Bytes × Nat :=
  let ptr := ptr + alignInfo
  let diff := ptr &&& (alignment - 1)
  if diff ≠ 0 then
    let diff := alignment - diff
    let ptr := ptr + diff
    (setLe 1 m (ptr - alignInfo) (diff + alignInfo), ptr)
  else (setLe 1 m (ptr - alignInfo) (diff + alignInfo), ptr)

/-- A `char` as a `uintptr_t`. -/
def signExtend (c : UInt8) : Nat := if c.toNat < 128 then c.toNat else 2 ^ 64 - 256 + c.toNat

/-- `UNALIGN( ptr )` -/
def unalign (m : Bytes) (ptr : Nat) : Nat :=
  let diff := signExtend (m (ptr - alignInfo))
  if diff < alignment + alignInfo then sub64 ptr diff else ptr

variable {P : Type}

/-! ## `kmalloc` -/

/-- The number of pages `allocate_new_page` asks for. Its parameter and `st` are
`unsigned int`. -/
def pagesFor (size : Nat) : Nat :=
  let st := (size % 2 ^ 32 + LiballocMajor.bytes) % 2 ^ 32
  let st := (st + LiballocMinor.bytes) % 2 ^ 32
  let st := if st % lPageSize = 0 then st / lPageSize else st / lPageSize + 1
  if st < lPageCount then lPageCount else st

def allocateNewPage (liballocAlloc : Nat → P → Option (Nat × P)) (h : Heap P) (size : Nat) :
    Option (Heap P × Nat) := do
  let st := pagesFor size
  let (maj, pages) ← liballocAlloc st h.pages
  if maj = 0 then some ({ h with pages, lWarningCount := h.lWarningCount + 1 }, 0)
  else
    let m := store h.memory LiballocMajor.prev maj 0
    let m := store m LiballocMajor.next maj 0
    let m := store m LiballocMajor.pages maj st
    let m := store m LiballocMajor.size maj (st * lPageSize)
    let m := store m LiballocMajor.usage maj LiballocMajor.bytes
    let m := store m LiballocMajor.first maj 0
    some ({ h with
      memory := m
      pages := pages
      lAllocated := (h.lAllocated + load m LiballocMajor.size maj) % 2 ^ 64 }, maj)

/-- `size + sizeof( struct liballoc_minor )` -/
def spaceFor (size : Nat) : Nat := (size + LiballocMinor.bytes) % 2 ^ 64

/-- The end of every case: what is in use, and the pointer behind `min`, aligned. -/
def handOut (h : Heap P) (m : Bytes) (maj min size : Nat) : Heap P × Nat :=
  let m := store m LiballocMajor.usage maj (load m LiballocMajor.usage maj + spaceFor size)
  let (m, p) := align m (min + LiballocMinor.bytes)
  ({ h with memory := m, lInuse := (h.lInuse + size) % 2 ^ 64 }, p)

/-- CASE 2: a brand new block. -/
def brandNew (h : Heap P) (maj size reqSize : Nat) : Heap P × Nat :=
  let min := maj + LiballocMajor.bytes
  let m := store h.memory LiballocMajor.first maj min
  let m := store m LiballocMinor.magic min liballocMagic
  let m := store m LiballocMinor.prev min 0
  let m := store m LiballocMinor.next min 0
  let m := store m LiballocMinor.block min maj
  let m := store m LiballocMinor.size min size
  let m := store m LiballocMinor.reqSize min reqSize
  handOut h m maj min size

/-- CASE 3: space at the start of the block. -/
def squeezeIn (h : Heap P) (maj size reqSize : Nat) : Heap P × Nat :=
  let min := maj + LiballocMajor.bytes
  let first := load h.memory LiballocMajor.first maj
  let m := store h.memory LiballocMinor.prev first min
  let m := store m LiballocMinor.next min first
  let m := store m LiballocMajor.first maj min
  let m := store m LiballocMinor.magic min liballocMagic
  let m := store m LiballocMinor.prev min 0
  let m := store m LiballocMinor.block min maj
  let m := store m LiballocMinor.size min size
  let m := store m LiballocMinor.reqSize min reqSize
  handOut h m maj min size

/-- CASE 4.1: space behind the last minor. -/
def putBehind (h : Heap P) (maj min size reqSize : Nat) : Heap P × Nat :=
  let newMin := min + LiballocMinor.bytes + load h.memory LiballocMinor.size min
  let m := store h.memory LiballocMinor.next min newMin
  let m := store m LiballocMinor.prev newMin min
  let m := store m LiballocMinor.next newMin 0
  let m := store m LiballocMinor.magic newMin liballocMagic
  let m := store m LiballocMinor.block newMin maj
  let m := store m LiballocMinor.size newMin size
  let m := store m LiballocMinor.reqSize newMin reqSize
  handOut h m maj newMin size

/-- CASE 4.2: space between two minors. -/
def putBetween (h : Heap P) (maj min size reqSize : Nat) : Heap P × Nat :=
  let newMin := min + LiballocMinor.bytes + load h.memory LiballocMinor.size min
  let m := store h.memory LiballocMinor.magic newMin liballocMagic
  let m := store m LiballocMinor.next newMin (load m LiballocMinor.next min)
  let m := store m LiballocMinor.prev newMin min
  let m := store m LiballocMinor.size newMin size
  let m := store m LiballocMinor.reqSize newMin reqSize
  let m := store m LiballocMinor.block newMin maj
  let m := store m LiballocMinor.prev (load m LiballocMinor.next min) newMin
  let m := store m LiballocMinor.next min newMin
  handOut h m maj newMin size

/-- CASE 4: the loop within a block, for at most so many turns. The result is
`none` inside if there is no place. -/
def searchMinors (h : Heap P) (maj size reqSize : Nat) : Nat → Nat → Option (Option (Heap P × Nat))
  | 0, _ => none
  | turns + 1, min =>
      if min = 0 then some none
      else
        let next := load h.memory LiballocMinor.next min
        let behind := fun stop => sub64 (sub64 (sub64 stop min) LiballocMinor.bytes)
          (load h.memory LiballocMinor.size min)
        if next = 0 then
          if spaceFor size ≤ behind ((maj + load h.memory LiballocMajor.size maj) % 2 ^ 64) then
            some (some (putBehind h maj min size reqSize))
          else searchMinors h maj size reqSize turns next
        else if spaceFor size ≤ behind next then
          some (some (putBetween h maj min size reqSize))
        else searchMinors h maj size reqSize turns next

/-- CASE 2 to CASE 4. A block of `size` bytes has fewer than `size / 40` minors. -/
def searchMajor (h : Heap P) (maj size reqSize : Nat) : Option (Option (Heap P × Nat)) :=
  let first := load h.memory LiballocMajor.first maj
  if first = 0 then some (some (brandNew h maj size reqSize))
  else if spaceFor size ≤ sub64 (sub64 first maj) LiballocMajor.bytes then
    some (some (squeezeIn h maj size reqSize))
  else
    searchMinors h maj size reqSize
      (load h.memory LiballocMajor.size maj / LiballocMinor.bytes + 1) first

/-- Where the loop through the blocks goes on when there is no place in one. -/
inductive NextMajor
  | noMemory
  | known (maj : Nat) (startedBet : Bool)
  | fresh (maj : Nat)

variable (liballocAlloc : Nat → P → Option (Nat × P)) (size reqSize : Nat)

/-- The end of CASE 1 and of CASE 5: the next block, the first one after a start at
the best bet, or a new one. -/
def nextMajor (h : Heap P) (maj : Nat) (startedBet : Bool) : Option (Heap P × NextMajor) :=
  let next := load h.memory LiballocMajor.next maj
  if next ≠ 0 then some (h, .known next startedBet)
  else if startedBet then some (h, .known h.lMemRoot false)
  else
    (allocateNewPage liballocAlloc h size).map fun (h, next) =>
      let m := store h.memory LiballocMajor.next maj next
      if next = 0 then ({ h with memory := m }, .noMemory)
      else ({ h with memory := store m LiballocMajor.prev next maj }, .fresh next)

/-- CASE 2 to CASE 5, where `again` is the rest of the loop. -/
def tryMajor (again : Heap P → Nat → Bool → Option (Heap P × Nat)) (h : Heap P) (maj : Nat)
    (startedBet : Bool) : Option (Heap P × Nat) :=
  (searchMajor h maj size reqSize).bind fun
    | some result => some result
    | none => (nextMajor liballocAlloc size h maj startedBet).bind fun
        | (h, .noMemory) => some (h, 0)
        | (h, .known maj startedBet) => again h maj startedBet
        | (h, .fresh maj) => again h maj startedBet

/-- The loop through the blocks, for at most so many turns. -/
def searchMajors : Nat → Heap P → Nat → Bool → Nat → Option (Heap P × Nat)
  | 0, _, _, _, _ => none
  | turns + 1, h, maj, startedBet, bestSize =>
      if maj = 0 then some (h, 0)
      else
        let diff := sub32 (load h.memory LiballocMajor.size maj)
          (load h.memory LiballocMajor.usage maj)
        let h := if bestSize < diff then { h with lBestBet := maj } else h
        let bestSize := if bestSize < diff then diff else bestSize
        let again := fun h maj startedBet => searchMajors turns h maj startedBet bestSize
        if diff < spaceFor size then
          -- CASE 1; after a new block it falls through
          (nextMajor liballocAlloc size h maj startedBet).bind fun
            | (h, .noMemory) => some (h, 0)
            | (h, .known maj startedBet) => again h maj startedBet
            | (h, .fresh maj) => tryMajor liballocAlloc size reqSize again h maj startedBet
        else tryMajor liballocAlloc size reqSize again h maj startedBet

/-- The search in a heap that has a block. All blocks have a page at least, and each
is looked at twice at most. -/
def search (h : Heap P) : Option (Heap P × Nat) :=
  let turns := 2 * (h.lAllocated / lPageSize) + 2
  let bestSize := sub32 (load h.memory LiballocMajor.size h.lBestBet)
    (load h.memory LiballocMajor.usage h.lBestBet)
  if h.lBestBet ≠ 0 then
    if spaceFor size < bestSize then
      searchMajors liballocAlloc size reqSize turns h h.lBestBet true bestSize
    else searchMajors liballocAlloc size reqSize turns h h.lMemRoot false bestSize
  else searchMajors liballocAlloc size reqSize turns h h.lMemRoot false 0

/-- `kmalloc`, after the space for the alignment was added to the size. -/
def kmallocSized (h : Heap P) : Option (Heap P × Nat) :=
  if h.lMemRoot = 0 then
    -- this is the first time we are being used
    (allocateNewPage liballocAlloc h size).bind fun (h, maj) =>
      if maj = 0 then some (h, 0)
      else search liballocAlloc size reqSize { h with lMemRoot := maj }
  else search liballocAlloc size reqSize h

def kmalloc (h : Heap P) (reqSize : Nat) : Option (Heap P × Nat) :=
  let size := (reqSize + alignment + alignInfo) % 2 ^ 64
  if size = 0 then
    -- `return kmalloc(1)`
    kmallocSized liballocAlloc (1 + alignment + alignInfo) 1
      { h with lWarningCount := h.lWarningCount + 1 }
  else kmallocSized liballocAlloc size reqSize h

/-! ## `kfree` -/

/-- A pointer that is not one of the heap's, and which bytes of the magic number are
there all the same. -/
def notMagic (h : Heap P) (min : Nat) : Heap P :=
  let magic := load h.memory LiballocMinor.magic min
  let h := { h with lErrorCount := h.lErrorCount + 1 }
  if magic % 2 ^ 24 = liballocMagic % 2 ^ 24 ∨ magic % 2 ^ 16 = liballocMagic % 2 ^ 16 ∨
      magic % 2 ^ 8 = liballocMagic % 2 ^ 8 then
    { h with lPossibleOverruns := h.lPossibleOverruns + 1 }
  else h

def unlinkMinor (h : Heap P) (maj min : Nat) : Heap P :=
  let next := load h.memory LiballocMinor.next min
  let prev := load h.memory LiballocMinor.prev min
  let m := if next ≠ 0 then store h.memory LiballocMinor.prev next prev else h.memory
  let m := if prev ≠ 0 then store m LiballocMinor.next prev next else m
  { h with memory := if prev = 0 then store m LiballocMajor.first maj next else m }

/-- A block without minors is taken out of its list. `liballoc_free` does nothing. -/
def releaseMajor (h : Heap P) (maj : Nat) : Heap P :=
  let next := load h.memory LiballocMajor.next maj
  let prev := load h.memory LiballocMajor.prev maj
  let m := if prev ≠ 0 then store h.memory LiballocMajor.next prev next else h.memory
  let m := if next ≠ 0 then store m LiballocMajor.prev next prev else m
  { h with
    memory := m
    lMemRoot := if h.lMemRoot = maj then next else h.lMemRoot
    lBestBet := if h.lBestBet = maj then 0 else h.lBestBet
    lAllocated := sub64 h.lAllocated (load m LiballocMajor.size maj) }

/-- What is free in a block, as an `int`. -/
def freeInt (m : Bytes) (maj : Nat) : Int :=
  CInt.int32 (sub32 (load m LiballocMajor.size maj) (load m LiballocMajor.usage maj))

def betterBet (h : Heap P) (maj : Nat) : Heap P :=
  if h.lBestBet ≠ 0 then
    if freeInt h.memory h.lBestBet < freeInt h.memory maj then { h with lBestBet := maj } else h
  else h

def kfree (h : Heap P) (ptr : Nat) : Heap P :=
  if ptr = 0 then { h with lWarningCount := h.lWarningCount + 1 }
  else
    let min := sub64 (unalign h.memory ptr) LiballocMinor.bytes
    if load h.memory LiballocMinor.magic min ≠ liballocMagic then notMagic h min
    else
      let maj := load h.memory LiballocMinor.block min
      let size := load h.memory LiballocMinor.size min
      let m := store h.memory LiballocMajor.usage maj
        (sub32 (load h.memory LiballocMajor.usage maj) (size + LiballocMinor.bytes))
      let m := store m LiballocMinor.magic min liballocDead
      let h := unlinkMinor { h with memory := m, lInuse := sub64 h.lInuse size } maj min
      if load h.memory LiballocMajor.first maj = 0 then releaseMajor h maj else betterBet h maj

/-! ## `kcalloc` and `krealloc` -/

/-- `liballoc_memset`, with an index of 32 bits. Writing at NULL faults. -/
def liballocMemset (m : Bytes) (s : Nat) (c : UInt8) (n : Nat) : Option Bytes :=
  if n = 0 then some m
  else if s = 0 ∨ 2 ^ 32 ≤ n then none
  else some fun i => if s ≤ i ∧ i < s + n then c else m i

/-- The first loop of `liballoc_memcpy`: words of four bytes. -/
def copyWords : Nat → Bytes → Nat → Nat → Bytes
  | 0, m, _, _ => m
  | n + 1, m, dest, src => copyWords n (setLe 4 m dest (le 4 m src)) (dest + 4) (src + 4)

def copyBytes : Nat → Bytes → Nat → Nat → Bytes
  | 0, m, _, _ => m
  | n + 1, m, dest, src => copyBytes n (Function.update m dest (m src)) (dest + 1) (src + 1)

def liballocMemcpy (m : Bytes) (s1 s2 n : Nat) : Option Bytes :=
  if n = 0 then some m
  else if s1 = 0 then none
  else
    let m := copyWords (n / 4) m s1 s2
    some (copyBytes (n % 4) m (s1 + 4 * (n / 4)) (s2 + 4 * (n / 4)))

/-- The product is an `int`, and a `size_t` again for both calls. -/
def kcalloc (h : Heap P) (nobj size : Nat) : Option (Heap P × Nat) := do
  let realSize := CInt.uint64 (CInt.int32 (nobj * size))
  let (h, p) ← kmalloc liballocAlloc h realSize
  let m ← liballocMemset h.memory p 0 realSize
  some ({ h with memory := m }, p)

def krealloc (h : Heap P) (p size : Nat) : Option (Heap P × Nat) :=
  if size = 0 then some (kfree h p, 0)
  else if p = 0 then kmalloc liballocAlloc h size
  else
    let min := sub64 (unalign h.memory p) LiballocMinor.bytes
    if load h.memory LiballocMinor.magic min ≠ liballocMagic then some (notMagic h min, 0)
    else
      let realSize := load h.memory LiballocMinor.reqSize min
      if size ≤ realSize then
        some ({ h with memory := store h.memory LiballocMinor.reqSize min size }, p)
      else do
        let (h, ptr) ← kmalloc liballocAlloc h size
        let m ← liballocMemcpy h.memory ptr p realSize
        some (kfree { h with memory := m } p, ptr)

end VersionSix.Kmalloc
