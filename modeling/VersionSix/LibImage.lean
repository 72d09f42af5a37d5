import VersionSix.Elf2
import VersionSix.Pieces
import VersionSix.Process

/-!
# The image of a library

`lib_load_program_headers` (`libraries.c`) gets pages up to the highest end of
the `PT_LOAD` segments, clears them and copies the segments there. It works on
the headers that `elf2_new_initalize_file` has collected with 8 bits for their
numbers, and the number of bytes to clear is an `int`.

`image_laid_iff` says for which files the image is right: the segments leave
out the last page of 2 GiB, where the product with the page size turns negative
and `memset` clears almost the whole memory, and the headers from the 257th on
bring nothing but zeros to the image.

The copies are pieces of memory that do not meet (`Pieces`), so their order
does not matter, and the memory afterwards is known at every address: a byte of
a segment, a zero, or what was there. Both halves of the equivalence are read
off that.
-/

namespace VersionSix.Elf

open ByteStore (Bytes Heap Piece setLe)
open Process (pageSize)

/-! ## `libraries.c` -/

/-- A turn of the first loop: `virt_mem_max` is an `int` and compared with a `uint64_t`. -/
def raiseMax (virtMemMax : Int) (ph : Elf2ProgramHeader) : Int :=
  if ph.type ≠ ptLoad then virtMemMax
  else
    let entEndAddr : Nat := (ph.virtAddr + ph.virtSize) % 2 ^ 64
    if (virtMemMax % 2 ^ 64).toNat < entEndAddr then Int.bmod entEndAddr (2 ^ 32) else virtMemMax

def virtMemMax (headers : List Elf2ProgramHeader) : Int := headers.foldl raiseMax 0

def copyProgramHeader (data : Bytes) (libBase : Nat) (h : Heap) (ph : Elf2ProgramHeader) : Heap :=
  if ph.type ≠ ptLoad then h
  else h.put ⟨⟨(libBase + ph.virtAddr) % 2 ^ 64, ph.physSize⟩, fun i => data (ph.physOffset + i)⟩

structure LibImage where
  totalPages : Int
  libBase : Nat
  heap : Heap

/-- `lib_load_program_headers`, for a file with the bytes `data`. The address of `n` new pages
is `pages n`. The product `total_pages * PAGE_SIZE` is an `int`. -/
def libLoadProgramHeaders (pages : Nat → Nat) (data : Bytes) (fElf : Elf2File) (h : Heap) :
    LibImage :=
  if fElf.hasProgramHeaders then
    let totalPages := (virtMemMax fElf.programHeaders).tdiv pageSize + 1
    let libBase := pages (totalPages % 2 ^ 32).toNat
    let size := (Int.bmod (totalPages * pageSize) (2 ^ 32) % 2 ^ 64).toNat
    let h := h.put ⟨⟨libBase, size⟩, fun _ => 0⟩
    { totalPages := totalPages
      libBase := libBase
      heap := fElf.programHeaders.foldl (copyProgramHeader data libBase) h }
  else { totalPages := 0, libBase := 0, heap := h }

/-! ## What is to hold -/

/-- The address `a` of the image is one of the segment, or of what the file has of it. -/
def Elf64Phdr.Occupies (ph : Elf64Phdr) (a : Nat) : Prop :=
  ph.pType = ptLoad ∧ ph.pVaddr ≤ a ∧ a < ph.pVaddr + ph.pMemsz

def Elf64Phdr.Holds (ph : Elf64Phdr) (a : Nat) : Prop :=
  ph.pType = ptLoad ∧ ph.pVaddr ≤ a ∧ a < ph.pVaddr + ph.pFilesz

def Elf64Phdr.fileByte (ph : Elf64Phdr) (data : Bytes) (a : Nat) : UInt8 :=
  data (ph.pOffset + (a - ph.pVaddr))

/-- The program header with the number `i`. -/
def phdrNo (data : Bytes) (i : Nat) : Elf64Phdr :=
  programHeaderAt data ((elfHeader data).ePhoff + i * (elfHeader data).ePhentsize)

/-- Disjoint segments below 2 GiB. -/
structure Segments (data : Bytes) : Prop where
  disjoint : ∀ i < (elfHeader data).ePhnum, ∀ j < (elfHeader data).ePhnum, ∀ a,
    (phdrNo data i).Occupies a → (phdrNo data j).Occupies a → i = j
  filesz : ∀ ph ∈ programHeaders data, ph.pType = ptLoad → ph.pFilesz ≤ ph.pMemsz
  below : ∀ ph ∈ programHeaders data, ph.pType = ptLoad → ph.pVaddr + ph.pMemsz < 2 ^ 31

def LibImage.size (im : LibImage) : Nat := (im.totalPages * pageSize).toNat

/-- The image holds the segments and zeros, and nothing else was written. -/
structure ImageLaid (data : Bytes) (im : LibImage) : Prop where
  inside : ∀ r ∈ im.heap.stores, r.Within ⟨im.libBase, im.size⟩
  segment : ∀ ph ∈ programHeaders data, ∀ a, ph.Holds a →
    a < im.size ∧ im.heap.memory (im.libBase + a) = ph.fileByte data a
  zero : ∀ a < im.size, (∀ ph ∈ programHeaders data, ¬ ph.Holds a) →
    im.heap.memory (im.libBase + a) = 0

def raiseEnd (m : Nat) (ph : Elf64Phdr) : Nat :=
  if ph.pType = ptLoad then max m (ph.pVaddr + ph.pMemsz) else m

/-- The highest end of the segments, 0 if there are none. -/
def segmentsEnd (headers : List Elf64Phdr) : Nat := headers.foldl raiseEnd 0

def imageEnd (data : Bytes) : Nat := segmentsEnd ((programHeaders data).take 256)

/-- The image stays below the last page of 2 GiB, and the segments from the 257th header on
bring nothing but zeros to it. -/
structure ImageFits (data : Bytes) : Prop where
  below : imageEnd data < 2 ^ 31 - pageSize
  late : ∀ i, 256 ≤ i → i < (elfHeader data).ePhnum → ∀ a, (phdrNo data i).Holds a →
    a / pageSize ≤ imageEnd data / pageSize ∧ (phdrNo data i).fileByte data a = 0

/-! ## The headers -/

variable {data : Bytes}

theorem programHeaders_eq : programHeaders data =
    (List.range (elfHeader data).ePhnum).map (phdrNo data) := rfl

theorem byIndex_eq (i : Nat) : elf2NewGetProgramHeaderByIndex data i = phdrNo data (i % 2 ^ 8) := by
  rw [elf2NewGetProgramHeaderByIndex, phdrNo, Nat.mul_comm]

def readHeaders (data : Bytes) : List Elf64Phdr :=
  (List.range (elfHeader data).ePhnum).map fun i => phdrNo data (i % 2 ^ 8)

theorem mem_readHeaders {ph : Elf64Phdr} :
    ph ∈ readHeaders data ↔ ∃ i < 256, i < (elfHeader data).ePhnum ∧ phdrNo data i = ph := by
  simp only [readHeaders, List.mem_map, List.mem_range]
  constructor
  · rintro ⟨i, hi, rfl⟩
    exact ⟨i % 2 ^ 8, Nat.mod_lt _ (by decide), Nat.lt_of_le_of_lt (Nat.mod_le ..) hi, rfl⟩
  · rintro ⟨i, hi, hn, rfl⟩
    exact ⟨i, hn, by rw [Nat.mod_eq_of_lt (by omega)]⟩

theorem mem_take_headers {ph : Elf64Phdr} :
    ph ∈ (programHeaders data).take 256 ↔ ph ∈ readHeaders data := by
  rw [mem_readHeaders, programHeaders_eq, ← List.map_take, List.take_range]
  simp only [List.mem_map, List.mem_range, Nat.lt_min]
  constructor
  · rintro ⟨i, ⟨hi, hn⟩, hph⟩
    exact ⟨i, hi, hn, hph⟩
  · rintro ⟨i, hi, hn, hph⟩
    exact ⟨i, ⟨hi, hn⟩, hph⟩

theorem mem_programHeaders {ph : Elf64Phdr} (hph : ph ∈ readHeaders data) :
    ph ∈ programHeaders data :=
  List.mem_of_mem_take (mem_take_headers.mpr hph)

/-! ## The end of the image -/

theorem foldl_raiseEnd_le {headers : List Elf64Phdr} {k m : Nat} :
    headers.foldl raiseEnd k ≤ m ↔
      k ≤ m ∧ ∀ ph ∈ headers, ph.pType = ptLoad → ph.pVaddr + ph.pMemsz ≤ m := by
  induction headers generalizing k with
  | nil => simp
  | cons ph headers ih =>
      rw [List.foldl_cons, ih, List.forall_mem_cons, raiseEnd]
      by_cases hload : ph.pType = ptLoad
      · rw [if_pos hload, Nat.max_le, and_assoc, imp_iff_right hload]
      · rw [if_neg hload]
        exact and_congr_right fun _ => (and_iff_right fun h => absurd h hload).symm

theorem segmentsEnd_le {headers : List Elf64Phdr} {m : Nat} :
    segmentsEnd headers ≤ m ↔ ∀ ph ∈ headers, ph.pType = ptLoad → ph.pVaddr + ph.pMemsz ≤ m := by
  rw [segmentsEnd, foldl_raiseEnd_le, and_iff_right (Nat.zero_le m)]

theorem imageEnd_eq : imageEnd data = segmentsEnd (readHeaders data) := by
  refine Nat.le_antisymm (segmentsEnd_le.mpr fun ph hph => ?_) (segmentsEnd_le.mpr fun ph hph => ?_)
  · exact segmentsEnd_le.mp le_rfl ph (mem_take_headers.mp hph)
  · exact segmentsEnd_le.mp le_rfl ph (mem_take_headers.mpr hph)

/-- What `elf2_new_initalize_file` keeps of a header. -/
def entryOf (ph : Elf64Phdr) : Elf2ProgramHeader where
  type := ph.pType
  physAddr := ph.pPaddr
  physOffset := ph.pOffset
  virtAddr := ph.pVaddr
  physSize := ph.pFilesz
  virtSize := ph.pMemsz
  read := ph.pFlags &&& pfR ≠ 0
  write := ph.pFlags &&& pfW ≠ 0
  execute := ph.pFlags &&& pfX ≠ 0

theorem entries_eq : (List.range (elfHeader data).ePhnum).map (programHeaderEntry data) =
    (readHeaders data).map entryOf := by
  rw [readHeaders, List.map_map]
  refine List.map_congr_left fun i _ => ?_
  rw [programHeaderEntry, byIndex_eq]
  rfl

theorem raiseMax_eq {k : Nat} {ph : Elf64Phdr} (hk : k < 2 ^ 31)
    (hbelow : ph.pType = ptLoad → ph.pVaddr + ph.pMemsz < 2 ^ 31) :
    raiseMax k (entryOf ph) = raiseEnd k ph ∧ raiseEnd k ph < 2 ^ 31 := by
  unfold raiseMax raiseEnd
  by_cases hload : ph.pType = ptLoad
  · have he := hbelow hload
    have hword : (ph.pVaddr + ph.pMemsz) % 2 ^ 64 = ph.pVaddr + ph.pMemsz :=
      Nat.mod_eq_of_lt (by omega)
    have hmax : ((k : Int) % 2 ^ 64).toNat = k := by omega
    have hint : Int.bmod ((ph.pVaddr + ph.pMemsz : Nat) : Int) (2 ^ 32)
        = (ph.pVaddr + ph.pMemsz : Nat) := by
      rw [Int.bmod_def]
      split <;> omega
    have htype : ¬ (entryOf ph).type ≠ ptLoad := not_not_intro hload
    rw [if_neg htype, if_pos hload]
    refine ⟨?_, Nat.max_lt.mpr ⟨hk, he⟩⟩
    dsimp only [entryOf]
    rw [hword, hmax, hint]
    split <;> omega
  · have htype : (entryOf ph).type ≠ ptLoad := hload
    rw [if_pos htype, if_neg hload]
    exact ⟨rfl, hk⟩

theorem virtMemMax_eq {headers : List Elf64Phdr}
    (hbelow : ∀ ph ∈ headers, ph.pType = ptLoad → ph.pVaddr + ph.pMemsz < 2 ^ 31) :
    virtMemMax (headers.map entryOf) = segmentsEnd headers := by
  have hfold : ∀ k : Nat, k < 2 ^ 31 →
      (headers.map entryOf).foldl raiseMax k = (headers.foldl raiseEnd k : Nat) := by
    induction headers with
    | nil => exact fun k _ => rfl
    | cons ph headers ih =>
        intro k hk
        obtain ⟨hturn, hlt⟩ := raiseMax_eq hk (hbelow ph List.mem_cons_self)
        rw [List.map_cons, List.foldl_cons, List.foldl_cons, hturn]
        exact ih (fun g hg => hbelow g (List.mem_cons_of_mem ph hg)) _ hlt
  exact hfold 0 (by decide)

/-! ## The copies -/

def Elf64Phdr.piece (data : Bytes) (libBase : Nat) (ph : Elf64Phdr) : Piece :=
  ⟨⟨libBase + ph.pVaddr, ph.pFilesz⟩, fun i => data (ph.pOffset + i)⟩

def segmentPieces (data : Bytes) (libBase : Nat) (headers : List Elf64Phdr) : List Piece :=
  (headers.filter fun ph => ph.pType = ptLoad).map (Elf64Phdr.piece data libBase)

theorem mem_segmentPieces {libBase : Nat} {headers : List Elf64Phdr} {p : Piece} :
    p ∈ segmentPieces data libBase headers ↔
      ∃ ph ∈ headers, ph.pType = ptLoad ∧ ph.piece data libBase = p := by
  simp [segmentPieces, and_assoc]

theorem piece_covers {libBase a : Nat} {ph : Elf64Phdr} (hload : ph.pType = ptLoad) :
    (ph.piece data libBase).Covers (libBase + a) ↔ ph.Holds a := by
  simp only [Piece.Covers, Elf64Phdr.piece, Elf64Phdr.Holds, hload, true_and]
  omega

theorem piece_byteAt (libBase a : Nat) (ph : Elf64Phdr) :
    (ph.piece data libBase).byteAt (libBase + a) = ph.fileByte data a := by
  rw [Piece.byteAt, Elf64Phdr.piece, Elf64Phdr.fileByte]
  dsimp only
  rw [Nat.add_sub_add_left]

theorem copies_eq {libBase : Nat} {headers : List Elf64Phdr}
    (hword : ∀ ph ∈ headers, ph.pType = ptLoad → libBase + ph.pVaddr < 2 ^ 64) (h : Heap) :
    (headers.map entryOf).foldl (copyProgramHeader data libBase) h =
      (segmentPieces data libBase headers).foldl Heap.put h := by
  induction headers generalizing h with
  | nil => rfl
  | cons ph headers ih =>
      have ih := ih fun g hg => hword g (List.mem_cons_of_mem ph hg)
      rw [List.map_cons, List.foldl_cons, ih, copyProgramHeader, segmentPieces, segmentPieces]
      by_cases hload : ph.pType = ptLoad
      · have htype : ¬ (entryOf ph).type ≠ ptLoad := not_not_intro hload
        have haddr : (libBase + (entryOf ph).virtAddr) % 2 ^ 64 = libBase + ph.pVaddr :=
          Nat.mod_eq_of_lt (hword ph List.mem_cons_self hload)
        rw [if_neg htype, haddr, List.filter_cons_of_pos (by simpa using hload)]
        rfl
      · have htype : (entryOf ph).type ≠ ptLoad := hload
        rw [if_pos htype, List.filter_cons_of_neg (by simpa using hload)]

/-- `total_pages` -/
def pagesOf (data : Bytes) : Nat := imageEnd data / pageSize + 1

/-- How many bytes `memset` clears. -/
def clearedSize (data : Bytes) : Nat :=
  (Int.bmod ((pagesOf data : Int) * pageSize) (2 ^ 32) % 2 ^ 64).toNat

theorem imageEnd_lt_pages (data : Bytes) : imageEnd data < pagesOf data * pageSize := by
  rw [pagesOf, pageSize]
  omega

section Laid

variable (hsegments : Segments data)
include hsegments

theorem Segments.holds_occupies {ph : Elf64Phdr} (hph : ph ∈ programHeaders data) {a : Nat}
    (ha : ph.Holds a) : ph.Occupies a := by
  obtain ⟨hload, hle, hlt⟩ := ha
  exact ⟨hload, hle, Nat.lt_of_lt_of_le hlt
    (Nat.add_le_add_left (hsegments.filesz ph hph hload) _)⟩

theorem Segments.holds_unique {i j a : Nat} (hi : i < (elfHeader data).ePhnum)
    (hj : j < (elfHeader data).ePhnum) (hia : (phdrNo data i).Holds a)
    (hja : (phdrNo data j).Holds a) : i = j := by
  have hmem : ∀ k < (elfHeader data).ePhnum, phdrNo data k ∈ programHeaders data :=
    fun k hk => List.mem_map.mpr ⟨k, List.mem_range.mpr hk, rfl⟩
  exact hsegments.disjoint i hi j hj a (hsegments.holds_occupies (hmem i hi) hia)
    (hsegments.holds_occupies (hmem j hj) hja)

theorem Segments.agree (libBase : Nat) :
    ByteStore.Agree (segmentPieces data libBase (readHeaders data)) := by
  intro p hp q hq x hpx hqx
  obtain ⟨ph, hph, hload, rfl⟩ := mem_segmentPieces.mp hp
  obtain ⟨qh, hqh, hqload, rfl⟩ := mem_segmentPieces.mp hq
  obtain ⟨a, rfl⟩ := Nat.exists_eq_add_of_le (Nat.le_of_add_right_le hpx.1)
  obtain ⟨i, -, hi, rfl⟩ := mem_readHeaders.mp hph
  obtain ⟨j, -, hj, rfl⟩ := mem_readHeaders.mp hqh
  rw [hsegments.holds_unique hi hj ((piece_covers hload).mp hpx) ((piece_covers hqload).mp hqx)]

theorem Segments.imageEnd_lt : imageEnd data < 2 ^ 31 := by
  rw [imageEnd_eq, Nat.lt_iff_le_pred (by decide)]
  refine segmentsEnd_le.mpr fun ph hph hload => Nat.le_sub_one_of_lt ?_
  exact hsegments.below ph (mem_programHeaders hph) hload

theorem libLoadProgramHeaders_spec {pages : Nat → Nat}
    (hpages : ∀ n < 2 ^ 32, pages n + n * pageSize ≤ 2 ^ 64) {fElf : Elf2File}
    (hinit : elf2NewInitalizeFile data = some fElf) (hsome : 0 < (elfHeader data).ePhnum)
    (h : Heap) :
    libLoadProgramHeaders pages data fElf h =
      { totalPages := pagesOf data
        libBase := pages (pagesOf data)
        heap := (segmentPieces data (pages (pagesOf data)) (readHeaders data)).foldl Heap.put
          (h.put ⟨⟨pages (pagesOf data), clearedSize data⟩, fun _ => 0⟩) } := by
  obtain ⟨-, hhas, hheaders⟩ := elf2NewInitalizeFile_headers hinit
  have hlt := hsegments.imageEnd_lt
  have hmax : virtMemMax fElf.programHeaders = imageEnd data := by
    rw [hheaders, entries_eq, imageEnd_eq]
    exact virtMemMax_eq fun ph hph => hsegments.below ph (mem_programHeaders hph)
  have htotal : (virtMemMax fElf.programHeaders).tdiv pageSize + 1 = pagesOf data := by
    rw [hmax, ← Int.ofNat_tdiv]
    rfl
  have hcount : pagesOf data < 2 ^ 32 := by
    rw [pagesOf, pageSize]
    omega
  have hword : ∀ ph ∈ readHeaders data, ph.pType = ptLoad →
      pages (pagesOf data) + ph.pVaddr < 2 ^ 64 := by
    intro ph hph hload
    have hfit := hpages _ hcount
    have hend : ph.pVaddr + ph.pMemsz ≤ imageEnd data :=
      segmentsEnd_le.mp le_rfl ph (mem_take_headers.mpr hph) hload
    have hin := imageEnd_lt_pages data
    omega
  have harg : ((pagesOf data : Int) % 2 ^ 32).toNat = pagesOf data := by omega
  rw [libLoadProgramHeaders, if_pos (by rw [hhas]; exact decide_eq_true hsome)]
  simp only [htotal, harg]
  rw [hheaders, entries_eq, copies_eq hword]
  rfl

end Laid

/-! ## The image -/

/-- The product as an `int` and then as a `size_t` is exact below 2 GiB. -/
theorem intBytes_exact {n : Nat} (h : n * 4096 < 2 ^ 31) :
    (Int.bmod ((n : Int) * 4096) (2 ^ 32) % 2 ^ 64).toNat = n * 4096 := by
  rw [Int.bmod_def]
  split <;> omega

theorem intBytes_negative {n : Nat} (hlo : 2 ^ 31 ≤ n * 4096) (hhi : n * 4096 < 2 ^ 32) :
    n * 4096 < (Int.bmod ((n : Int) * 4096) (2 ^ 32) % 2 ^ 64).toNat := by
  rw [Int.bmod_def]
  split <;> omega

theorem clearedSize_eq (h : imageEnd data < 2 ^ 31 - pageSize) :
    clearedSize data = pagesOf data * pageSize := by
  have hsize : pageSize = 4096 := rfl
  refine intBytes_exact ?_
  unfold pagesOf
  rw [hsize] at h ⊢
  omega

theorem clearedSize_overflow (hlo : 2 ^ 31 - pageSize ≤ imageEnd data)
    (hhi : imageEnd data < 2 ^ 31) : pagesOf data * pageSize < clearedSize data := by
  have hsize : pageSize = 4096 := rfl
  refine intBytes_negative ?_ ?_
  · unfold pagesOf
    rw [hsize] at hlo ⊢
    omega
  · unfold pagesOf
    rw [hsize]
    omega

theorem size_pagesOf (libBase : Nat) (h : Heap) :
    LibImage.size ⟨pagesOf data, libBase, h⟩ = pagesOf data * pageSize := by
  rw [LibImage.size, ← Int.natCast_mul, Int.toNat_natCast]

/-- The image of the headers that are read. -/
structure Filled (data : Bytes) (libBase : Nat) (h : Heap) : Prop where
  inside : ∀ r ∈ h.stores, r.Within ⟨libBase, pagesOf data * pageSize⟩
  segment : ∀ ph ∈ readHeaders data, ∀ a, ph.Holds a →
    h.memory (libBase + a) = ph.fileByte data a
  zero : ∀ a < pagesOf data * pageSize, (∀ ph ∈ readHeaders data, ¬ ph.Holds a) →
    h.memory (libBase + a) = 0

theorem Segments.filled (hsegments : Segments data) (hbelow : imageEnd data < 2 ^ 31 - pageSize)
    (libBase : Nat) (memory : Bytes) :
    Filled data libBase ((segmentPieces data libBase (readHeaders data)).foldl Heap.put
      (Heap.put ⟨memory, []⟩ ⟨⟨libBase, clearedSize data⟩, fun _ => 0⟩)) := by
  have hin := imageEnd_lt_pages data
  rw [clearedSize_eq hbelow]
  refine ⟨fun r hr => ?_, fun ph hph a ha => ?_, fun a ha hnone => ?_⟩
  · rw [Heap.putAll_stores, Heap.put, List.nil_append, List.mem_append] at hr
    rcases hr with hr | hr
    · obtain rfl := List.mem_singleton.mp hr
      exact ⟨Nat.le_refl _, Nat.le_refl _⟩
    · obtain ⟨p, hp, rfl⟩ := List.mem_map.mp hr
      obtain ⟨ph, hph, hload, rfl⟩ := mem_segmentPieces.mp hp
      have hend : ph.pVaddr + ph.pMemsz ≤ imageEnd data :=
        segmentsEnd_le.mp le_rfl ph (mem_take_headers.mpr hph) hload
      have hfilesz := hsegments.filesz ph (mem_programHeaders hph) hload
      refine ⟨Nat.le_add_right .., ?_⟩
      simp only [Elf64Phdr.piece]
      omega
  · rw [Heap.putAll_memory, ByteStore.placeAll_covered _ (hsegments.agree libBase)
      (mem_segmentPieces.mpr ⟨ph, hph, ha.1, rfl⟩) ((piece_covers ha.1).mpr ha), piece_byteAt]
  · rw [Heap.putAll_memory, ByteStore.placeAll_other _ fun p hp hpa => ?_]
    · exact ByteStore.place_covered ⟨Nat.le_add_right .., Nat.add_lt_add_left ha _⟩
    · obtain ⟨ph, hph, hload, rfl⟩ := mem_segmentPieces.mp hp
      exact hnone ph hph ((piece_covers hload).mp hpa)

/-- A header is read, or its number needs more than 8 bits. -/
theorem header_cases {ph : Elf64Phdr} (hph : ph ∈ programHeaders data) :
    ph ∈ readHeaders data ∨ ∃ i, 256 ≤ i ∧ i < (elfHeader data).ePhnum ∧ phdrNo data i = ph := by
  obtain ⟨i, hi, rfl⟩ := List.mem_map.mp hph
  have hi := List.mem_range.mp hi
  rcases Nat.lt_or_ge i 256 with hlt | hge
  · exact .inl (mem_readHeaders.mpr ⟨i, hlt, hi, rfl⟩)
  · exact .inr ⟨i, hge, hi, rfl⟩

/-- What a late header has in the file is in no segment that is read. -/
theorem Segments.late_unread (hsegments : Segments data) {i a : Nat} (hge : 256 ≤ i)
    (hi : i < (elfHeader data).ePhnum) (ha : (phdrNo data i).Holds a) :
    ∀ ph ∈ readHeaders data, ¬ ph.Holds a := by
  intro ph hph hpa
  obtain ⟨j, hlt, hj, rfl⟩ := mem_readHeaders.mp hph
  have hsame := hsegments.holds_unique hi hj ha hpa
  omega

/-- An address is in the pages up to `e` if its page is. -/
theorem lt_pages_iff (a e : Nat) :
    a < (e / pageSize + 1) * pageSize ↔ a / pageSize ≤ e / pageSize := by
  rw [← Nat.div_lt_iff_lt_mul (by decide), Nat.lt_succ_iff]

theorem image_laid_none {fElf : Elf2File} (pages : Nat → Nat) (memory : Bytes)
    (hinit : elf2NewInitalizeFile data = some fElf) (hnone : (elfHeader data).ePhnum = 0) :
    ImageLaid data (libLoadProgramHeaders pages data fElf ⟨memory, []⟩) ∧ ImageFits data := by
  have hheaders : programHeaders data = [] := by
    rw [programHeaders_eq, hnone]
    rfl
  have hhas : fElf.hasProgramHeaders = false := by
    rw [(elf2NewInitalizeFile_headers hinit).2.1, hnone]
    rfl
  rw [libLoadProgramHeaders, if_neg (by rw [hhas]; decide)]
  refine ⟨⟨?_, ?_, ?_⟩, ?_, ?_⟩
  · exact fun r hr => absurd hr List.not_mem_nil
  · intro ph hph
    rw [hheaders] at hph
    cases hph
  · exact fun a ha => absurd ha (Nat.not_lt_zero a)
  · rw [imageEnd, hheaders]
    decide
  · intro i _ hi
    rw [hnone] at hi
    exact absurd hi (Nat.not_lt_zero i)

/-- What an image that is laid out says of the late headers. -/
theorem Segments.late_of_laid (hsegments : Segments data) {libBase : Nat} {h : Heap}
    (hfilled : Filled data libBase h) (hlaid : ImageLaid data ⟨pagesOf data, libBase, h⟩)
    {i a : Nat} (hge : 256 ≤ i) (hi : i < (elfHeader data).ePhnum)
    (ha : (phdrNo data i).Holds a) :
    a / pageSize ≤ imageEnd data / pageSize ∧ (phdrNo data i).fileByte data a = 0 := by
  have hph : phdrNo data i ∈ programHeaders data :=
    List.mem_map.mpr ⟨i, List.mem_range.mpr hi, rfl⟩
  obtain ⟨hsize, hbyte⟩ := hlaid.segment _ hph a ha
  refine ⟨(lt_pages_iff a _).mp hsize, ?_⟩
  rw [← hbyte]
  exact hfilled.zero a hsize (hsegments.late_unread hge hi ha)

theorem Segments.laid_of_fits (hsegments : Segments data) {libBase : Nat} {h : Heap}
    (hfilled : Filled data libBase h) (hfits : ImageFits data) :
    ImageLaid data ⟨pagesOf data, libBase, h⟩ := by
  have hin := imageEnd_lt_pages data
  refine ⟨hfilled.inside, fun ph hph a ha => ?_, fun a ha hnot => ?_⟩
  · rcases header_cases hph with hread | ⟨i, hge, hi, rfl⟩
    · have hend : ph.pVaddr + ph.pMemsz ≤ imageEnd data :=
        segmentsEnd_le.mp le_rfl ph (mem_take_headers.mpr hread) ha.1
      have hoccupies := hsegments.holds_occupies hph ha
      refine ⟨?_, hfilled.segment ph hread a ha⟩
      exact hoccupies.2.2.trans_le (hend.trans hin.le)
    · obtain ⟨hpage, hzero⟩ := hfits.late i hge hi a ha
      have hsize : a < pagesOf data * pageSize := (lt_pages_iff a _).mpr hpage
      refine ⟨hsize, ?_⟩
      rw [hzero]
      exact hfilled.zero a hsize (hsegments.late_unread hge hi ha)
  · exact hfilled.zero a ha fun ph hph => hnot ph (mem_programHeaders hph)

/-- The image is right for files that leave out the last page of 2 GiB and have
their segments in the first 256 headers, and for no others. The segments are
disjoint and below 2 GiB; a header that is not read does no harm if it brings
nothing but zeros to a page that is there anyway. -/
theorem image_laid_iff (pages : Nat → Nat) (data memory : Bytes) (fElf : Elf2File)
    (hpages : ∀ n < 2 ^ 32, pages n + n * pageSize ≤ 2 ^ 64)
    (hinit : elf2NewInitalizeFile data = some fElf) (hsegments : Segments data) :
    ImageLaid data (libLoadProgramHeaders pages data fElf ⟨memory, []⟩) ↔ ImageFits data := by
  rcases Nat.eq_zero_or_pos (elfHeader data).ePhnum with hnone | hsome
  · obtain ⟨hlaid, hfits⟩ := image_laid_none pages memory hinit hnone
    exact iff_of_true hlaid hfits
  rw [libLoadProgramHeaders_spec hsegments hpages hinit hsome]
  constructor
  · intro hlaid
    have hbelow : imageEnd data < 2 ^ 31 - pageSize := by
      by_contra hover
      have hcleared := clearedSize_overflow (Nat.le_of_not_lt hover) hsegments.imageEnd_lt
      obtain ⟨-, hend⟩ := hlaid.inside ⟨pages (pagesOf data), clearedSize data⟩ (by
        rw [Heap.putAll_stores]
        exact List.mem_append_left _ List.mem_cons_self)
      rw [size_pagesOf] at hend
      dsimp only at hend
      omega
    have hfilled := hsegments.filled hbelow (pages (pagesOf data)) memory
    exact ⟨hbelow, fun i hge hi a ha => hsegments.late_of_laid hfilled hlaid hge hi ha⟩
  · intro hfits
    exact hsegments.laid_of_fits
      (hsegments.filled hfits.below (pages (pagesOf data)) memory) hfits

/-! ## One segment -/

/-- A file with a segment of one byte, for the given address. -/
def imageFile (vaddr : Nat) : Bytes :=
  [(8, 32, 64), (2, 54, 56), (2, 56, 1), (4, 64, 1), (8, 72, 120), (8, 80, vaddr), (8, 96, 1),
    (8, 104, 1), (1, 120, 97)].foldl
    (fun data field => setLe field.1 data field.2.1 field.2.2) fun _ => 0

def imageElf (vaddr : Nat) : Elf2File where
  strTblSectionNames := 0
  hasProgramHeaders := true
  programHeadersNumLoads := 1
  programHeaders := [entryOf ⟨ptLoad, 0, 120, vaddr, 0, 1, 1⟩]
  hasDynsym := false
  dynsymEnts := []
  numSymbols := 0

theorem imageFile_segments {vaddr : Nat} (hlt : vaddr + 1 < 2 ^ 31)
    (hnum : (elfHeader (imageFile vaddr)).ePhnum = 1)
    (hheaders : programHeaders (imageFile vaddr) = [⟨ptLoad, 0, 120, vaddr, 0, 1, 1⟩]) :
    Segments (imageFile vaddr) := by
  refine ⟨fun i hi j hj a _ _ => ?_, fun ph hph _ => ?_, fun ph hph _ => ?_⟩
  · omega
  · rw [hheaders, List.mem_singleton] at hph
    rw [hph]
  · rw [hheaders, List.mem_singleton] at hph
    rw [hph]
    exact hlt

def lowPages (_ : Nat) : Nat := 0x10000

theorem lowPages_fit : ∀ n < 2 ^ 32, lowPages n + n * pageSize ≤ 2 ^ 64 := by
  intro n hn
  rw [lowPages, pageSize]
  omega

theorem image_laid_iff_low :
    ImageLaid (imageFile 4096)
      (libLoadProgramHeaders lowPages (imageFile 4096) (imageElf 4096) ⟨fun _ => 1, []⟩) := by
  refine (image_laid_iff lowPages (imageFile 4096) (fun _ => 1) (imageElf 4096) lowPages_fit rfl
    (imageFile_segments (by decide) rfl rfl)).mpr ⟨by decide, fun i hge hi => ?_⟩
  have hnum : (elfHeader (imageFile 4096)).ePhnum = 1 := rfl
  omega

/-- For a segment in the last page of 2 GiB almost the whole memory is cleared. -/
theorem last_page_cleared :
    Segments (imageFile (2 ^ 31 - 4096)) ∧
      elf2NewInitalizeFile (imageFile (2 ^ 31 - 4096)) = some (imageElf (2 ^ 31 - 4096)) ∧
      ¬ ImageLaid (imageFile (2 ^ 31 - 4096)) (libLoadProgramHeaders lowPages
        (imageFile (2 ^ 31 - 4096)) (imageElf (2 ^ 31 - 4096)) ⟨fun _ => 1, []⟩) := by
  refine ⟨imageFile_segments (by decide) rfl rfl, rfl, fun hlaid => ?_⟩
  have hcleared := hlaid.inside ⟨0x10000, 2 ^ 64 - 2 ^ 31⟩ (by decide)
  exact absurd hcleared.2 (by decide)

end VersionSix.Elf
