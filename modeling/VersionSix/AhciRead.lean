import VersionSix.Bytes

/-!
# Byte-granular reads from the AHCI drive

`ahci_read_at_byte_offset_512_chunks` is the only way the file systems get at
the drive: it fetches the sectors of a byte range one at a time through the
bounce buffer `global_buffer` and copies the interesting part of each into the
caller's buffer. The drive is a parameter (`Port`): `read_ahci` for one sector
either fails or fills the bounce buffer.

The sector count is computed from `size` and the start offset separately, so a
range can reach one sector further than the loop goes. `chunksFrom_spec` says
exactly which bytes a run of the loop stores; everything about the whole call
follows from it.

A range that the loop does not reach to the end of fails for some drive: what
comes back there does not depend on the last byte, so a drive with another byte
tells the two apart (`not_readsExactly_of_short`). The other failure is a
product of 32 bits, which makes the loop store in front of the buffer.
-/

namespace VersionSix

open ByteStore

namespace Ahci

/-! ## The model -/

/-- `read_ahci( &abar->ports[1], sector, 0, 1, global_buffer_phys )`: the
sector's bytes, or `none` when the command fails. -/
abbrev Port := Nat → Option Bytes

/-- The drive answers every single-sector read with that sector's bytes. -/
def Port.Exact (port : Port) (disk : Bytes) : Prop :=
  ∀ sector, port sector = some (read disk (512 * sector) 512)

/-- The memory the caller's buffer lies in; addresses below the buffer are
memory too, so they are signed. -/
abbrev Memory := Int → UInt8

def memcpy (m : Memory) (dest : Int) (src : Bytes) (n : Nat) : Memory :=
  fun a => if dest ≤ a ∧ a < dest + n then src (a - dest).toNat else m a

/-- `global_buffer` after the `memset` and a successful `read_ahci`: the
sector, then zeros. -/
def globalBuffer (sector : Bytes) : Bytes := read sector 0 512

def sectorCount (offset size : Nat) : Nat :=
  if size < 512 then 1
  else if (size + offset % 512) % 512 ≠ 0 then size / 512 + 1
  else size / 512

/-- One iteration after its sector arrived: the bytes left to read and the
memory. In the source `i * 512` is a 32-bit signed product. -/
def copyChunk (internalOffset : Nat) (buffer : Int) (i sizeLeft : Nat) (gb : Bytes)
    (m : Memory) : Nat × Memory :=
  if i = 0 then
    if sizeLeft < 512 then
      (sizeLeft, memcpy m buffer (fun j => gb (internalOffset + j)) sizeLeft)
    else
      (sizeLeft - (512 - internalOffset),
        memcpy m buffer (fun j => gb (internalOffset + j)) (512 - internalOffset))
  else
    let dest := buffer + Int.bmod (i * 512) (2 ^ 32) - internalOffset
    if sizeLeft < 512 then (sizeLeft, memcpy m dest gb sizeLeft)
    else (sizeLeft - 512, memcpy m dest gb 512)

/-- Iterations `i`, `i + 1`, ..., `i + k - 1` of the loop; `false` as soon as
a sector cannot be read. -/
def chunksFrom (port : Port) (sector internalOffset : Nat) (buffer : Int) :
    Nat → Nat → Nat → Memory → Bool × Memory
  | _, 0, _, m => (true, m)
  | i, k + 1, sizeLeft, m =>
      match port (sector + i) with
      | none => (false, m)
      | some b =>
          let r := copyChunk internalOffset buffer i sizeLeft (globalBuffer b) m
          chunksFrom port sector internalOffset buffer (i + 1) k r.1 r.2

/-- `ahci_read_at_byte_offset_512_chunks`: `offset` and `size` are `uint32_t`. -/
def ahciReadAtByteOffset512Chunks (port : Port) (offset size : Nat) (buffer : Int)
    (m : Memory) : Bool × Memory :=
  let sector := offset / 512
  let internalOffset := offset - sector * 512
  let count := sectorCount offset size
  match chunksFrom port sector internalOffset buffer 0 count size m with
  | (false, m) => (false, m)
  | (true, m) =>
      -- a single-sector request that runs over the end of its sector
      if count = 1 ∧ internalOffset + size > 512 then
        ahciReadAtByteOffset512Chunks port ((sector + 1) * 512 % 2 ^ 32)
          (size - (512 - internalOffset)) (buffer + (512 - internalOffset : Nat)) m
      else (true, m)
termination_by size
decreasing_by omega

/-! ## What the loop stores -/

/-- `m` with the bytes `lo`, ..., `hi - 1` of the range that starts at
`offset` stored at their places in the buffer. -/
def stored (disk : Bytes) (offset : Nat) (buffer : Int) (lo hi : Nat) (m : Memory) : Memory :=
  fun a => if buffer + lo ≤ a ∧ a < buffer + hi then disk (offset + (a - buffer).toNat) else m a

theorem stored_empty (disk : Bytes) (offset : Nat) (buffer : Int) (lo : Nat) (m : Memory) :
    stored disk offset buffer lo lo m = m := by
  funext a
  exact if_neg (by omega)

/-- Copying the next `n` bytes of the range behind what is stored already. -/
theorem memcpy_stored {disk src : Bytes} {offset lo mid n : Nat} {buffer dest : Int} {m : Memory}
    (hlo : lo ≤ mid) (hdest : dest = buffer + mid)
    (hsrc : ∀ j, j < n → src j = disk (offset + mid + j)) :
    memcpy (stored disk offset buffer lo mid m) dest src n
      = stored disk offset buffer lo (mid + n) m := by
  subst hdest
  funext a
  unfold memcpy stored
  by_cases hin : buffer + mid ≤ a ∧ a < buffer + mid + n
  · rw [if_pos hin, if_pos (by omega), hsrc _ (by omega)]
    congr 1
    omega
  · rw [if_neg hin]
    by_cases hold : buffer + lo ≤ a ∧ a < buffer + mid
    · rw [if_pos hold, if_pos (by omega)]
    · rw [if_neg hold, if_neg (by omega)]

/-- The product `i * 512` is exact as long as it is below 2^31. -/
theorem bmod_sector {i : Nat} (h : i < 2 ^ 22) : Int.bmod (i * 512) (2 ^ 32) = i * 512 := by
  rw [Int.bmod_def]
  split <;> omega

theorem bmod_sector_wrap : Int.bmod ((2 ^ 22 : Nat) * 512) (2 ^ 32) = -2 ^ 31 := by
  decide

theorem globalBuffer_read {disk : Bytes} {sector j : Nat} (h : j < 512) :
    globalBuffer (read disk (512 * sector) 512) j = disk (512 * sector + j) := by
  rw [globalBuffer, read_eq h, Nat.zero_add, read_eq h]

section Loop

variable {disk : Bytes} {port : Port} {offset : Nat} {buffer : Int} {m : Memory}

/-- A later iteration appends its sector, or what is left of the range. -/
theorem copyChunk_next {i left : Nat} (hi : 1 ≤ i) (hi' : i < 2 ^ 22) :
    copyChunk (offset % 512) buffer i left
        (globalBuffer (read disk (512 * (offset / 512 + i)) 512))
        (stored disk offset buffer 0 (512 * i - offset % 512) m)
      = (if left < 512 then left else left - 512,
          stored disk offset buffer 0 (512 * i - offset % 512 + min left 512) m) := by
  have hdest : buffer + Int.bmod (i * 512) (2 ^ 32) - (offset % 512 : Nat)
      = buffer + (512 * i - offset % 512 : Nat) := by
    rw [bmod_sector hi']
    omega
  have hsrc : ∀ n ≤ 512, ∀ j, j < n →
      globalBuffer (read disk (512 * (offset / 512 + i)) 512) j
        = disk (offset + (512 * i - offset % 512) + j) := by
    intro n hn j hj
    rw [globalBuffer_read (by omega)]
    congr 1
    omega
  unfold copyChunk
  rw [if_neg (by omega)]
  by_cases hleft : left < 512
  · simp only [hleft, if_true]
    rw [memcpy_stored (Nat.zero_le _) hdest (hsrc left (by omega)), Nat.min_eq_left (by omega)]
  · simp only [hleft, if_false]
    rw [memcpy_stored (Nat.zero_le _) hdest (hsrc 512 (Nat.le_refl _)),
      Nat.min_eq_right (by omega)]

/-- Iterations `i`, ..., `i + k - 1` of a request of at least one sector,
when all but the last fetch a full sector: everything up to the end of the
last sector fetched, or to the end of the range, is in the buffer. -/
theorem chunksFrom_spec (size : Nat) (hport : port.Exact disk) {i k left : Nat} (hi : 1 ≤ i)
    (hik : i + k ≤ 2 ^ 22) (hdone : 512 * i ≤ size + offset % 512)
    (hleft : left = size + offset % 512 - 512 * i)
    (hfull : 0 < k → 512 * (i + k - 1) ≤ size + offset % 512) :
    chunksFrom port (offset / 512) (offset % 512) buffer i k left
        (stored disk offset buffer 0 (512 * i - offset % 512) m)
      = (true, stored disk offset buffer 0 (min (512 * (i + k) - offset % 512) size) m) := by
  induction k generalizing i left with
  | zero =>
      rw [chunksFrom, Nat.add_zero, Nat.min_eq_left (by omega)]
  | succ k ih =>
      rw [chunksFrom, hport]
      simp only
      rw [copyChunk_next hi (by omega)]
      by_cases hlast : left < 512
      · -- only the last iteration can run short
        obtain rfl : k = 0 := by have := hfull (Nat.succ_pos k); omega
        have hend : 512 * i - offset % 512 + min left 512
            = min (512 * (i + (0 + 1)) - offset % 512) size := by omega
        rw [chunksFrom, hend]
      · simp only [hlast, if_false]
        have hnext : 512 * i - offset % 512 + min left 512 = 512 * (i + 1) - offset % 512 := by
          have := Nat.mod_lt offset (show 512 > 0 by omega)
          omega
        rw [hnext, ih (by omega) (by omega) (by omega) (by omega)
          (fun _ => by have := hfull (Nat.succ_pos k); omega)]
        congr 3
        omega

/-- What the first sector of a request holds from its offset on. -/
theorem globalBuffer_first (disk : Bytes) (offset : Nat) {j : Nat} (hj : offset % 512 + j < 512) :
    globalBuffer (read disk (512 * (offset / 512 + 0)) 512) (offset % 512 + j)
      = disk (offset + 0 + j) := by
  rw [globalBuffer_read hj]
  congr 1
  omega

theorem chunks_spec {size : Nat} (buffer : Int) (m : Memory) (hport : port.Exact disk) {c : Nat}
    (hsize : 512 ≤ size) (hc : 1 ≤ c)
    (hc' : c ≤ 2 ^ 22) (hfull : 512 * (c - 1) ≤ size + offset % 512) :
    chunksFrom port (offset / 512) (offset % 512) buffer 0 c size m
      = (true, stored disk offset buffer 0 (min (512 * c - offset % 512) size) m) := by
  obtain ⟨k, rfl⟩ : ∃ k, c = 1 + k := ⟨c - 1, by omega⟩
  have hio := Nat.mod_lt offset (show 512 > 0 by omega)
  have hfirst : copyChunk (offset % 512) buffer 0 size
        (globalBuffer (read disk (512 * (offset / 512 + 0)) 512)) m
      = (size - (512 - offset % 512), stored disk offset buffer 0 (512 * 1 - offset % 512) m) := by
    rw [copyChunk, if_pos rfl, if_neg (by omega)]
    congr 1
    conv_lhs => rw [← stored_empty disk offset buffer 0 m]
    have hsrc : ∀ j, j < 512 - offset % 512 →
        globalBuffer (read disk (512 * (offset / 512 + 0)) 512) (offset % 512 + j)
          = disk (offset + 0 + j) := fun j hj => globalBuffer_first disk offset (by omega)
    rw [memcpy_stored (Nat.le_refl 0) (by omega) hsrc, Nat.zero_add]
  rw [Nat.add_comm, chunksFrom, hport]
  simp only
  rw [hfirst, chunksFrom_spec size hport (Nat.le_refl 1) (by omega) (by omega) (by omega)
    (fun _ => by omega)]
  congr 3
  omega

theorem chunksFrom_ok (hport : port.Exact disk) {sector io i k left : Nat} :
    (chunksFrom port sector io buffer i k left m).1 = true := by
  induction k generalizing i left m with
  | zero => rfl
  | succ k ih =>
      rw [chunksFrom, hport]
      exact ih

end Loop

/-! ## The whole call -/

theorem stored_append {disk : Bytes} {offset lo mid hi : Nat} {buffer : Int} {m : Memory}
    (h1 : lo ≤ mid) (h2 : mid ≤ hi) :
    stored disk offset buffer mid hi (stored disk offset buffer lo mid m)
      = stored disk offset buffer lo hi m := by
  funext a
  unfold stored
  split_ifs <;> first | rfl | omega

theorem stored_shift (disk : Bytes) (offset k n : Nat) (buffer : Int) (m : Memory) :
    stored disk (offset + k) (buffer + k) 0 n m = stored disk offset buffer k (k + n) m := by
  funext a
  unfold stored
  by_cases h : buffer + k ≤ a ∧ a < buffer + k + n
  · rw [if_pos (by omega), if_pos (by omega)]
    congr 1
    omega
  · rw [if_neg (by omega), if_neg (by omega)]

section Call

variable {disk : Bytes} {port : Port} {offset size : Nat} {buffer : Int} {m m' : Memory}

theorem read_of_loop
    (hloop : chunksFrom port (offset / 512) (offset % 512) buffer 0 (sectorCount offset size)
      size m = (true, m'))
    (hone : ¬ (sectorCount offset size = 1 ∧ offset % 512 + size > 512)) :
    ahciReadAtByteOffset512Chunks port offset size buffer m = (true, m') := by
  rw [ahciReadAtByteOffset512Chunks]
  simp only [← Nat.mod_eq_sub_div_mul]
  rw [hloop]
  simp only
  rw [if_neg hone]

/-- A call whose loop reads one sector of a range that runs over its end. -/
theorem read_of_loop_rest
    (hloop : chunksFrom port (offset / 512) (offset % 512) buffer 0 (sectorCount offset size)
      size m = (true, m'))
    (hone : sectorCount offset size = 1) (hover : offset % 512 + size > 512)
    (hend : offset + size < 2 ^ 32) :
    ahciReadAtByteOffset512Chunks port offset size buffer m
      = ahciReadAtByteOffset512Chunks port (offset + (512 - offset % 512))
          (size - (512 - offset % 512)) (buffer + (512 - offset % 512 : Nat)) m' := by
  have hnext : (offset / 512 + 1) * 512 % 2 ^ 32 = offset + (512 - offset % 512) := by
    rw [Nat.mod_eq_of_lt (by omega)]
    omega
  conv_lhs => rw [ahciReadAtByteOffset512Chunks]
  simp only [← Nat.mod_eq_sub_div_mul]
  rw [hloop]
  simp only
  rw [if_pos ⟨hone, hover⟩, hnext]

theorem read_short (hport : port.Exact disk) (hsize : size < 512)
    (hin : offset % 512 + size ≤ 512) :
    ahciReadAtByteOffset512Chunks port offset size buffer m
      = (true, stored disk offset buffer 0 size m) := by
  have hcount : sectorCount offset size = 1 := if_pos hsize
  refine read_of_loop ?_ (by omega)
  have hsrc : ∀ j, j < size →
      globalBuffer (read disk (512 * (offset / 512 + 0)) 512) (offset % 512 + j)
        = disk (offset + 0 + j) := fun j hj => globalBuffer_first disk offset (by omega)
  rw [hcount, chunksFrom, hport]
  simp only [chunksFrom, copyChunk, if_true, hsize]
  conv_lhs => rw [← stored_empty disk offset buffer 0 m]
  rw [memcpy_stored (Nat.le_refl 0) (by omega) hsrc, Nat.zero_add]

/-- Less than a sector, across a sector boundary: the loop stores zeros for
the part behind the boundary and the second call replaces them. -/
theorem read_short_crossing (hport : port.Exact disk) (hsize : size < 512)
    (hover : offset % 512 + size > 512) (hend : offset + size < 2 ^ 32) :
    ahciReadAtByteOffset512Chunks port offset size buffer m
      = (true, stored disk offset buffer 0 size m) := by
  have hcount : sectorCount offset size = 1 := if_pos hsize
  have hio := Nat.mod_lt offset (show 512 > 0 by omega)
  have hloop : chunksFrom port (offset / 512) (offset % 512) buffer 0 (sectorCount offset size)
      size m = (true, memcpy m buffer
        (fun j => globalBuffer (read disk (512 * (offset / 512 + 0)) 512) (offset % 512 + j))
        size) := by
    rw [hcount, chunksFrom, hport]
    simp only [chunksFrom, copyChunk, if_true, hsize]
  rw [read_of_loop_rest hloop hcount hover hend, read_short hport (by omega) (by omega),
    stored_shift]
  congr 1
  funext a
  unfold stored memcpy
  by_cases hfront : buffer ≤ a ∧ a < buffer + (512 - offset % 512 : Nat)
  · rw [if_neg (by omega), if_pos (by omega), if_pos (by omega)]
    beta_reduce
    rw [globalBuffer_read (by omega)]
    congr 1
    omega
  · split_ifs <;> first | rfl | omega

/-- The requests whose loop reaches the last sector of the range: shorter
than a sector, or with a start offset and a tail that together stay inside
one sector. `i * 512` must stay below 2^31 for every sector of the range. -/
def LoopCovers (offset size : Nat) : Prop :=
  (size < 512 ∨ offset % 512 + size % 512 < 512
      ∨ (size < 1024 ∧ offset % 512 + size % 512 = 512))
    ∧ (offset % 512 + size - 1) / 512 < 2 ^ 22

instance (offset size : Nat) : Decidable (LoopCovers offset size) :=
  inferInstanceAs (Decidable (_ ∧ _))

theorem sectorCount_pos (offset size : Nat) : 1 ≤ sectorCount offset size := by
  unfold sectorCount
  split_ifs <;> omega

/-- The loop never starts an iteration past the end of the range. -/
theorem sectorCount_lt (offset : Nat) {size : Nat} (h : 512 ≤ size) :
    512 * (sectorCount offset size - 1) < size + offset % 512 := by
  unfold sectorCount
  split_ifs <;> omega

theorem read_covered (hport : port.Exact disk) (hend : offset + size < 2 ^ 32)
    (hcov : LoopCovers offset size) :
    ahciReadAtByteOffset512Chunks port offset size buffer m
      = (true, stored disk offset buffer 0 size m) := by
  obtain ⟨halign, hsectors⟩ := hcov
  have hio := Nat.mod_lt offset (show 512 > 0 by omega)
  by_cases hsize : size < 512
  · by_cases hin : offset % 512 + size ≤ 512
    · exact read_short hport hsize hin
    · exact read_short_crossing hport hsize (by omega) hend
  · have hlt := sectorCount_lt offset (Nat.le_of_not_lt hsize)
    have hloop := chunks_spec buffer m hport (Nat.le_of_not_lt hsize)
      (sectorCount_pos offset size) (by omega) (Nat.le_of_lt hlt)
    by_cases hone : sectorCount offset size = 1 ∧ offset % 512 + size > 512
    · -- one sector and the start of the next one: 512 bytes are left
      have hrest : size - (512 - offset % 512) = 512 := by
        obtain ⟨h1, h2⟩ := hone
        unfold sectorCount at h1
        split_ifs at h1 <;> omega
      have hfirst : min (512 * sectorCount offset size - offset % 512) size
          = 512 - offset % 512 := by
        rw [hone.1]
        omega
      have hone' : sectorCount (offset + (512 - offset % 512)) 512 = 1 := by
        unfold sectorCount
        split_ifs <;> omega
      rw [hfirst] at hloop
      rw [read_of_loop_rest hloop hone.1 hone.2 hend, hrest]
      have hlt' := sectorCount_lt (offset + (512 - offset % 512)) (Nat.le_refl 512)
      have hloop' := chunks_spec (buffer + (512 - offset % 512 : Nat))
        (stored disk offset buffer 0 (512 - offset % 512) m) hport (Nat.le_refl _)
        (Nat.le_of_eq hone'.symm) (by omega) (Nat.le_of_lt hlt')
      rw [read_of_loop hloop' (by omega), stored_shift, stored_append (by omega) (by omega)]
      congr 2
      omega
    · have hall : min (512 * sectorCount offset size - offset % 512) size = size := by
        unfold sectorCount at hone ⊢
        split_ifs at hone ⊢ <;> omega
      rw [hall] at hloop
      exact read_of_loop hloop hone

end Call

/-! ## The first byte of the buffer -/

section First

variable {disk : Bytes} {port : Port} {m m' : Memory} {a : Int}

theorem memcpy_same (h : m a = m' a) (dest : Int) (src : Bytes) (n : Nat) :
    memcpy m dest src n a = memcpy m' dest src n a := by
  unfold memcpy
  rw [h]

theorem memcpy_first {src : Bytes} {n : Nat} (hn : 0 < n) (dest : Int) (m : Memory) :
    memcpy m dest src n dest = src 0 := by
  unfold memcpy
  rw [if_pos (by omega), Int.sub_self]
  rfl

/-- What an iteration leaves at an address depends on what was there, and on
nothing else in the memory. -/
theorem copyChunk_same (h : m a = m' a) (io : Nat) (buffer : Int) (i left : Nat) (gb : Bytes) :
    (copyChunk io buffer i left gb m).1 = (copyChunk io buffer i left gb m').1 ∧
      (copyChunk io buffer i left gb m).2 a = (copyChunk io buffer i left gb m').2 a := by
  unfold copyChunk
  dsimp only
  split_ifs
  all_goals
    refine ⟨rfl, ?_⟩
    dsimp only
    exact memcpy_same h ..

theorem chunksFrom_same (port : Port) (h : m a = m' a) (sector io i k left : Nat) (buffer : Int) :
    (chunksFrom port sector io buffer i k left m).1 =
        (chunksFrom port sector io buffer i k left m').1 ∧
      (chunksFrom port sector io buffer i k left m).2 a =
        (chunksFrom port sector io buffer i k left m').2 a := by
  induction k generalizing i left m m' with
  | zero => exact ⟨rfl, h⟩
  | succ k ih =>
      rw [chunksFrom, chunksFrom]
      cases port (sector + i) with
      | none => exact ⟨rfl, h⟩
      | some b =>
          obtain ⟨hleft, hbyte⟩ := copyChunk_same h io buffer i left (globalBuffer b)
          dsimp only
          rw [hleft]
          exact ih hbyte _ _

theorem read_of_chunks (hport : port.Exact disk) (offset size : Nat) (buffer : Int) (m : Memory) :
    ahciReadAtByteOffset512Chunks port offset size buffer m =
      let m' := (chunksFrom port (offset / 512) (offset % 512) buffer 0 (sectorCount offset size)
        size m).2
      if sectorCount offset size = 1 ∧ offset % 512 + size > 512 then
        ahciReadAtByteOffset512Chunks port ((offset / 512 + 1) * 512 % 2 ^ 32)
          (size - (512 - offset % 512)) (buffer + (512 - offset % 512 : Nat)) m'
      else (true, m') := by
  rw [ahciReadAtByteOffset512Chunks]
  simp only [← Nat.mod_eq_sub_div_mul]
  generalize hr : chunksFrom port (offset / 512) (offset % 512) buffer 0 (sectorCount offset size)
    size m = r
  obtain ⟨ok, m'⟩ := r
  obtain rfl : ok = true := (congrArg Prod.fst hr).symm.trans (chunksFrom_ok hport)
  rfl

theorem read_same (hport : port.Exact disk) (h : m a = m' a) (offset size : Nat) (buffer : Int) :
    (ahciReadAtByteOffset512Chunks port offset size buffer m).2 a =
      (ahciReadAtByteOffset512Chunks port offset size buffer m').2 a := by
  induction size using Nat.strong_induction_on generalizing offset buffer m m' with
  | _ size ih =>
      have hio := Nat.mod_lt offset (show 512 > 0 by decide)
      have hloop := (chunksFrom_same port h (offset / 512) (offset % 512) 0
        (sectorCount offset size) size buffer).2
      rw [read_of_chunks hport, read_of_chunks hport]
      dsimp only
      split_ifs with hmore
      · exact ih _ (by omega) hloop _ _
      · exact hloop

theorem read_ok (hport : port.Exact disk) (offset size : Nat) (buffer : Int) (m : Memory) :
    (ahciReadAtByteOffset512Chunks port offset size buffer m).1 = true := by
  induction size using Nat.strong_induction_on generalizing offset buffer m with
  | _ size ih =>
      have hio := Nat.mod_lt offset (show 512 > 0 by decide)
      rw [read_of_chunks hport]
      dsimp only
      split_ifs with hmore
      · exact ih _ (by omega) _ _ _
      · rfl

/-- A request of a byte or more overwrites the first byte of the buffer,
whatever it was. -/
theorem read_first (hport : port.Exact disk) (offset : Nat) {size : Nat} (hsize : 1 ≤ size)
    (buffer : Int) (m m' : Memory) :
    (ahciReadAtByteOffset512Chunks port offset size buffer m).2 buffer =
      (ahciReadAtByteOffset512Chunks port offset size buffer m').2 buffer := by
  have hio := Nat.mod_lt offset (show 512 > 0 by decide)
  obtain ⟨k, hk⟩ : ∃ k, sectorCount offset size = k + 1 :=
    ⟨_, (Nat.sub_add_cancel (sectorCount_pos offset size)).symm⟩
  have hcopy : ∀ gb, (copyChunk (offset % 512) buffer 0 size gb m).1 =
        (copyChunk (offset % 512) buffer 0 size gb m').1 ∧
      (copyChunk (offset % 512) buffer 0 size gb m).2 buffer =
        (copyChunk (offset % 512) buffer 0 size gb m').2 buffer := by
    intro gb
    unfold copyChunk
    rw [if_pos rfl, if_pos rfl]
    split_ifs
    all_goals
      refine ⟨rfl, ?_⟩
      dsimp only
      rw [memcpy_first (by omega), memcpy_first (by omega)]
  have hloop : (chunksFrom port (offset / 512) (offset % 512) buffer 0 (sectorCount offset size)
        size m).2 buffer =
      (chunksFrom port (offset / 512) (offset % 512) buffer 0 (sectorCount offset size)
        size m').2 buffer := by
    rw [hk, chunksFrom, chunksFrom, hport]
    dsimp only
    rw [(hcopy _).1]
    exact (chunksFrom_same _ (hcopy _).2 ..).2
  rw [read_of_chunks hport, read_of_chunks hport]
  dsimp only
  split_ifs with hmore
  · exact read_same hport hloop _ _ _
  · exact hloop

end First

/-! ## The requests the loop does not cover -/

def ones : Bytes := fun _ => 1

def onesPort : Port := fun sector => some (read ones (512 * sector) 512)

theorem globalBuffer_ones {sector j : Nat} (h : j < 512) :
    globalBuffer (read ones (512 * sector) 512) j = 1 := by
  rw [globalBuffer_read h]
  rfl

/-- Later iterations never unset a byte that is one. -/
theorem chunksFrom_ones_stay {sector io i k left : Nat} {buffer a : Int} {m : Memory}
    (hi : 1 ≤ i) (ha : m a = 1) :
    (chunksFrom onesPort sector io buffer i k left m).2 a = 1 := by
  induction k generalizing i left m with
  | zero => exact ha
  | succ k ih =>
      rw [chunksFrom, onesPort]
      refine ih (by omega) ?_
      unfold copyChunk memcpy
      rw [if_neg (by omega)]
      split_ifs
      all_goals
        dsimp only
        split_ifs
        · exact globalBuffer_ones (by omega)
        · exact ha

/-- The iteration whose index product wraps stores its bytes in front of
the buffer. -/
theorem chunksFrom_wraps (size : Nat) {sector io i k left : Nat} {buffer : Int} {m : Memory}
    (hi : 1 ≤ i) (hi' : i ≤ 2 ^ 22) (hik : 2 ^ 22 < i + k) (hleft : left = size + io - 512 * i)
    (hfull : 512 * (i + k - 1) < size + io) :
    (chunksFrom onesPort sector io buffer i k left m).2 (buffer - 2 ^ 31 - io) = 1 := by
  induction k generalizing i left m with
  | zero => omega
  | succ k ih =>
      rw [chunksFrom, onesPort]
      simp only
      rcases Nat.lt_or_eq_of_le hi' with hlt | rfl
      · refine ih (by omega) (by omega) (by omega) ?_ (by omega)
        unfold copyChunk
        rw [if_neg (by omega)]
        split_ifs <;> dsimp only <;> omega
      · refine chunksFrom_ones_stay (by omega) ?_
        unfold copyChunk memcpy
        rw [if_neg (by omega), bmod_sector_wrap]
        split_ifs
        all_goals
          dsimp only
          rw [if_pos (by omega)]
          exact globalBuffer_ones (by omega)

/-- What the call promises its callers: it succeeds, the buffer holds the
requested bytes, and no other byte of memory changes. -/
def ReadsExactly (offset size : Nat) : Prop :=
  ∀ (disk : Bytes) (port : Port) (buffer : Int) (m : Memory), port.Exact disk →
    let r := ahciReadAtByteOffset512Chunks port offset size buffer m
    r.1 = true
      ∧ (∀ i, i < size → r.2 (buffer + (i : Nat)) = disk (offset + i))
      ∧ ∀ a, a < buffer ∨ buffer + size ≤ a → r.2 a = m a

/-- More than 2^22 sectors: a byte far in front of the buffer is written. -/
theorem not_readsExactly_of_wrap {offset size : Nat} (hsize : 512 ≤ size)
    (hcount : 2 ^ 22 < sectorCount offset size) : ¬ ReadsExactly offset size := by
  intro h
  obtain ⟨-, -, hframe⟩ := h ones onesPort 0 (fun _ => 0) (fun _ => rfl)
  have hio := Nat.mod_lt offset (show 512 > 0 by omega)
  obtain ⟨k, hk⟩ : ∃ k, sectorCount offset size = k + 1 := ⟨_, (Nat.sub_add_cancel
    (sectorCount_pos offset size)).symm⟩
  have hlt := sectorCount_lt offset hsize
  have hstray : ∀ m : Memory,
      (ahciReadAtByteOffset512Chunks onesPort offset size 0 m).2 (0 - 2 ^ 31 - (offset % 512 : Nat))
        = 1 := by
    intro m
    rw [ahciReadAtByteOffset512Chunks]
    simp only [← Nat.mod_eq_sub_div_mul]
    have hport : onesPort.Exact ones := fun _ => rfl
    have hloop : (chunksFrom onesPort (offset / 512) (offset % 512) 0 0
        (sectorCount offset size) size m).2 (0 - 2 ^ 31 - (offset % 512 : Nat)) = 1 := by
      rw [hk, chunksFrom, onesPort]
      refine chunksFrom_wraps size (Nat.le_refl 1) (by omega) (by omega) ?_ (by omega)
      rw [copyChunk, if_pos rfl, if_neg (by omega)]
      dsimp only
      omega
    generalize hr : chunksFrom onesPort (offset / 512) (offset % 512) 0 0
        (sectorCount offset size) size m = r at hloop
    obtain ⟨ok, m'⟩ := r
    obtain rfl : ok = true := (congrArg Prod.fst hr).symm.trans (chunksFrom_ok hport)
    dsimp only
    rw [if_neg (by omega)]
    exact hloop
  have h0 := hframe (0 - 2 ^ 31 - (offset % 512 : Nat)) (by omega)
  rw [hstray] at h0
  exact absurd h0 (by decide)

/-- A loop that stops one sector early leaves the last byte as it was. -/
theorem not_readsExactly_of_short {offset size : Nat} (hsize : 512 ≤ size)
    (hcount : sectorCount offset size ≤ 2 ^ 22)
    (hshort : 512 * sectorCount offset size - offset % 512 < size)
    (hone : sectorCount offset size ≠ 1) : ¬ ReadsExactly offset size := by
  intro h
  obtain ⟨-, hread, -⟩ := h ones onesPort 0 (fun _ => 0) (fun _ => rfl)
  have hport : onesPort.Exact ones := fun _ => rfl
  have hloop := chunks_spec 0 (fun _ => 0) hport hsize (sectorCount_pos offset size) hcount
    (Nat.le_of_lt (sectorCount_lt offset hsize))
  have hlast := hread (size - 1) (by omega)
  rw [read_of_loop hloop (fun hc => hone hc.1)] at hlast
  unfold stored at hlast
  dsimp only at hlast
  rw [if_neg (by omega)] at hlast
  exact absurd hlast (show (0 : UInt8) ≠ 1 by decide)

/-! ## Main results -/

/-- A read is exact for every disk precisely when its loop covers the range:
the request is shorter than a sector, or its start offset and its tail together
stay inside one, and the index product stays below 2^31. Where the loop does
not cover the range, two drives that differ in one byte are answered alike, or
a byte in front of the buffer is written. -/
theorem readsExactly_iff_loopCovers {offset size : Nat} (hsize : 1 ≤ size)
    (hend : offset + size < 2 ^ 32) : ReadsExactly offset size ↔ LoopCovers offset size := by
  have hio := Nat.mod_lt offset (show 512 > 0 by omega)
  constructor
  · intro h
    by_contra hcov
    unfold LoopCovers at hcov
    have hge : 512 ≤ size := by
      by_contra hlt
      exact hcov ⟨Or.inl (by omega), by omega⟩
    by_cases hcount : sectorCount offset size ≤ 2 ^ 22
    · refine not_readsExactly_of_short hge hcount ?_ ?_ h
      · unfold sectorCount at hcount ⊢
        split_ifs at hcount ⊢ <;> omega
      · intro hone
        unfold sectorCount at hone
        split_ifs at hone <;> omega
    · exact not_readsExactly_of_wrap hge (Nat.lt_of_not_le hcount) h
  · intro hcov disk port buffer m hport
    dsimp only
    rw [read_covered hport hend hcov]
    refine ⟨rfl, fun i hi => ?_, fun a ha => if_neg (by omega)⟩
    unfold stored
    dsimp only
    rw [if_pos (by omega)]
    congr 1
    omega

theorem readsExactly_iff_loopCovers_two_sectors :
    1 ≤ 700 ∧ 300 + 700 < 2 ^ 32 ∧ (ReadsExactly 300 700 ↔ LoopCovers 300 700) :=
  ⟨by decide, by decide, readsExactly_iff_loopCovers (by decide) (by decide)⟩

/-- 1000 bytes at offset 100 touch three sectors and the loop fetches two. -/
theorem not_readsExactly_1000_at_100 :
    1 ≤ 1000 ∧ 100 + 1000 < 2 ^ 32 ∧ ¬ ReadsExactly 100 1000 :=
  ⟨by decide, by decide,
    not_readsExactly_of_short (by decide) (by decide) (by decide) (by decide)⟩

end Ahci

end VersionSix
