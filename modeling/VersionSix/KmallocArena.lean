import VersionSix.Kmalloc
import VersionSix.Linked
import VersionSix.Placement

/-!
# The heap as blocks of pages

What the lists of `kmalloc.c` stand for: an `Arena`, blocks of pages in the
order of their addresses, each with pieces in use in the order of theirs.
`Stored` relates an arena to the bytes of memory, `Holds` to all variables of
the heap.

Nothing in memory is trusted but the records themselves and the byte in front
of every pointer that was handed out; what the user of a piece may write is
left alone. So a piece is known by four words and a byte, and whoever writes
elsewhere leaves the arena what it was (`Major.Stored.frame`).

Where there is room is then a matter of numbers: pieces and gaps in a range of
addresses (`Placement`), which say nothing of lists or records.
-/

namespace VersionSix.Kmalloc

open ByteStore Linked Placement

/-! ## Arenas -/

/-- A piece in use. Its size includes the space for the alignment. -/
structure Minor where
  addr : Nat
  size : Nat
  req : Nat

structure Major where
  addr : Nat
  pages : Nat
  minors : List Minor

abbrev Arena := List Major

/-- The pointer for what starts at `q`. -/
def alignUp (q : Nat) : Nat := (q + 31) / 16 * 16

namespace Minor

def region (c : Minor) : Region := ⟨c.addr, 40 + c.size⟩

/-- What `kmalloc` returns. -/
def ptr (c : Minor) : Nat := alignUp (c.addr + 40)

end Minor

namespace Major

def stop (x : Major) : Nat := x.addr + 4096 * x.pages

def region (x : Major) : Region := ⟨x.addr, 4096 * x.pages⟩

/-- Everything but the record of the block is taken or free. -/
def Packed (x : Major) (minors : List Minor) : Prop :=
  Placed Minor.region (x.addr + 40) x.stop minors

structure Ok (x : Major) : Prop where
  packed : x.Packed x.minors
  room : ∀ c ∈ x.minors, c.req + 32 ≤ c.size
  bytes : 4096 * x.pages < 2 ^ 32

end Major

theorem alignUp_bounds (q : Nat) : q + 16 ≤ alignUp q ∧ alignUp q ≤ q + 31 := by
  unfold alignUp
  omega

theorem alignUp_mod (q : Nat) : alignUp q % 16 = 0 := by
  unfold alignUp
  omega

theorem Minor.ptr_bounds (c : Minor) : c.addr + 56 ≤ c.ptr ∧ c.ptr ≤ c.addr + 71 := by
  have h := alignUp_bounds (c.addr + 40)
  unfold Minor.ptr
  omega

/-! ## The records in memory -/

structure MinorData where
  block : Nat
  magic : Nat
  size : Nat
  reqSize : Nat

structure MajorData where
  pages : Nat
  size : Nat
  usage : Nat
  first : Nat

def minorNode (m : Bytes) (a : Nat) : Node MinorData where
  data :=
    { block := load m LiballocMinor.block a
      magic := load m LiballocMinor.magic a
      size := load m LiballocMinor.size a
      reqSize := load m LiballocMinor.reqSize a }
  prev := load m LiballocMinor.prev a
  next := load m LiballocMinor.next a

def majorNode (m : Bytes) (a : Nat) : Node MajorData where
  data :=
    { pages := load m LiballocMajor.pages a
      size := load m LiballocMajor.size a
      usage := load m LiballocMajor.usage a
      first := load m LiballocMajor.first a }
  prev := load m LiballocMajor.prev a
  next := load m LiballocMajor.next a

def minorNodes (m : Bytes) : Nodes MinorData := fun a => some (minorNode m a)

def majorNodes (m : Bytes) : Nodes MajorData := fun a => some (majorNode m a)

theorem minorNode_eq (m : Bytes) (a : Nat) : minorNode m a =
    ⟨⟨le 8 m (a + 16), le 4 m (a + 24), le 4 m (a + 28), le 4 m (a + 32)⟩, le 8 m a,
      le 8 m (a + 8)⟩ :=
  rfl

theorem majorNode_eq (m : Bytes) (a : Nat) : majorNode m a =
    ⟨⟨le 4 m (a + 16), le 4 m (a + 20), le 4 m (a + 24), le 8 m (a + 32)⟩, le 8 m a,
      le 8 m (a + 8)⟩ :=
  rfl

theorem Same.minorNode {m m' : Bytes} {a : Nat} (h : Same m m' a (a + 40)) :
    Kmalloc.minorNode m' a = Kmalloc.minorNode m a := by
  have hle {n off : Nat} (hoff : off + n ≤ 40) : le n m' (a + off) = le n m (a + off) :=
    h.le (Nat.le_add_right ..) (by omega)
  rw [minorNode_eq, minorNode_eq, hle (by decide), hle (by decide), hle (by decide),
    hle (by decide), hle (by decide), h.le (Nat.le_refl a) (by omega)]

theorem Same.majorNode {m m' : Bytes} {a : Nat} (h : Same m m' a (a + 40)) :
    Kmalloc.majorNode m' a = Kmalloc.majorNode m a := by
  have hle {n off : Nat} (hoff : off + n ≤ 40) : le n m' (a + off) = le n m (a + off) :=
    h.le (Nat.le_add_right ..) (by omega)
  rw [majorNode_eq, majorNode_eq, hle (by decide), hle (by decide), hle (by decide),
    hle (by decide), hle (by decide), h.le (Nat.le_refl a) (by omega)]

/-! ## Arenas in memory -/

def Minor.cell (maj : Nat) (c : Minor) : Cell MinorData :=
  (c.addr, { block := maj, magic := liballocMagic, size := c.size, reqSize := c.req })

def minorCells (maj : Nat) (minors : List Minor) : List (Cell MinorData) :=
  minors.map (Minor.cell maj)

def Major.cell (x : Major) : Cell MajorData :=
  (x.addr,
    { pages := x.pages
      size := 4096 * x.pages
      usage := 40 + total Minor.region x.minors
      first := first (minorCells x.addr x.minors) 0 })

/-- The minors of a block, and the byte in front of every pointer. -/
structure Major.Stored (m : Bytes) (x : Major) : Prop where
  seg : Seg (minorNodes m) 0 (minorCells x.addr x.minors) 0
  distance : ∀ c ∈ x.minors, m (c.ptr - 16) = UInt8.ofNat (c.ptr - (c.addr + 40))

structure Stored (m : Bytes) (arena : Arena) : Prop where
  seg : Seg (majorNodes m) 0 (arena.map Major.cell) 0
  minors : ∀ x ∈ arena, x.Stored m

/-- No block is kept that has nothing in it. -/
def Settled (arena : Arena) : Prop := ∀ x ∈ arena, x.minors ≠ []

def bytesInUse (arena : Arena) : Nat := (arena.map fun x => (x.minors.map Minor.size).sum).sum

/-- All of the heap: `next` is where the next block of pages would start. -/
structure Holds {P : Type} (next : P → Nat) (h : Heap P) (arena : Arena) : Prop where
  placed : Placed Major.region 1 (next h.pages) arena
  limit : next h.pages < 2 ^ 64
  ok : ∀ x ∈ arena, x.Ok
  stored : Stored h.memory arena
  root : h.lMemRoot = first (arena.map Major.cell) 0
  bet : h.lBestBet = 0 ∨ ∃ x ∈ arena, x.addr = h.lBestBet
  allocated : h.lAllocated = total Major.region arena
  inuse : h.lInuse = bytesInUse arena

def Kept (m m' : Bytes) (arena : Arena) : Prop :=
  ∀ x ∈ arena, ∀ c ∈ x.minors, Same m m' (c.addr + 40) (c.addr + 40 + c.size)

/-! ## Frames -/

/-- A block only depends on the records of its pieces and the bytes in front of their
pointers. -/
theorem Major.Stored.frame {m m' : Bytes} {x : Major} (h : x.Stored m)
    (hsame : ∀ c ∈ x.minors, Same m m' c.addr c.ptr) : x.Stored m' where
  seg := by
    refine h.seg.frame fun d hd => ?_
    obtain ⟨c, hc, rfl⟩ := List.mem_map.mp hd
    have hptr := c.ptr_bounds
    exact congrArg some
      (Same.minorNode (a := c.addr) ((hsame c hc).part (Nat.le_refl _) (by omega)))
  distance c hc := by
    have hptr := c.ptr_bounds
    rw [← h.distance c hc]
    exact hsame c hc _ (by omega) (by omega)

theorem Major.Ok.ptr_le {x : Major} {c : Minor} (h : x.Ok) (hc : c ∈ x.minors) :
    c.ptr + c.req ≤ c.addr + 40 + c.size := by
  have hptr := c.ptr_bounds
  have hroom := h.room c hc
  omega

end VersionSix.Kmalloc
