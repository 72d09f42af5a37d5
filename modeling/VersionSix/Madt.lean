import VersionSix.CInt

/-!
# The walk over the MADT

`acpi_initalize` goes over the entries behind the fixed part of the table, and
takes the step from the length byte of each entry. It ends inside of the table
if and only if the length of the table covers the fixed part and the entries
are well formed (`madt_walk_iff`).

The step of a loop with an `i++` in its head is the length less one, so an
entry of length 0 keeps the loop in place for ever (`madt_walk_stuck`). The
bound is a difference of unsigned numbers: for a table shorter than its fixed
part it is huge.

`Entries` is the walk as a chain: each entry with the bytes that are read of it
in the table, one behind the other. The last one may end behind the table,
since nothing of it is read there. The counter is an `int`, and the entries
that it cannot count are never reached.
-/

namespace VersionSix.Acpi

open CInt

def APIC_ENTRY_TYPE_LOCAL_APIC_ADDR_OVERRIDE : UInt8 := 5

/-! ## Functions -/

/-- The table: `header.length`, and the bytes by their distance from its start. Those
from `length` on are of the memory behind it. -/
structure ApicMadt where
  length : UInt32
  byte : Nat → UInt8

namespace ApicMadt

/-- `sizeof(apic_madt)`. -/
def size : Nat := 44

/-- The place of `b[i]`, for an `int`. -/
def place (i : Int) : Nat := uint64 (size + int32 i)

/-- `header.length - sizeof(apic_madt)`, which is unsigned. -/
def bound (m : ApicMadt) : Nat := uint64 (m.length.toNat - size)

def turnReads (m : ApicMadt) (i : Int) : List Nat :=
  let entryType := m.byte (place i)
  if entryType = APIC_ENTRY_TYPE_LOCAL_APIC_ADDR_OVERRIDE then
    [place i, place (i + 1), place (i + 10)]
  else [place i, place (i + 1)]

/-- `i` after a turn: `i = i + entry_length - 1`, and the `i++` of the loop. -/
def advance (m : ApicMadt) (i : Int) : Int :=
  let entryLength := (m.byte (place (i + 1))).toNat
  int32 (int32 (i + entryLength - 1) + 1)

end ApicMadt

/-- The loop, and the places it reads; `none` is a loop that does not end in `fuel` turns. -/
def entryLoop (m : ApicMadt) : Nat → Int → Option (List Nat)
  | 0, _ => none
  | fuel + 1, i =>
      if uint64 i < m.bound then
        (entryLoop m fuel (m.advance i)).map (m.turnReads i ++ ·)
      else some []

/-! ## Statement -/

/-- The loop ends, and what it reads is of the table. -/
def WalkEnds (m : ApicMadt) : Prop :=
  ∃ fuel reads, entryLoop m fuel 0 = some reads ∧ ∀ place ∈ reads, place < m.length.toNat

namespace ApicMadt

/-- The bytes for entries. Those an `int` does not count are out of reach. -/
def room (m : ApicMadt) : Nat := min (m.length.toNat - size) (2 ^ 31)

def entryType (m : ApicMadt) (i : Nat) : UInt8 := m.byte (size + i)

def entryLength (m : ApicMadt) (i : Nat) : Nat := (m.byte (size + i + 1)).toNat

end ApicMadt

/-- The entries from the byte `i` on, one behind the other, each with the bytes that are
read of it in the table. Only the last one may end behind it. -/
inductive Entries (m : ApicMadt) : Nat → Prop
  | done {i : Nat} : m.room ≤ i → Entries m i
  | entry {i : Nat} : i + 1 < m.room → m.entryLength i ≠ 0 →
      (m.entryType i = APIC_ENTRY_TYPE_LOCAL_APIC_ADDR_OVERRIDE → i + 10 < m.room) →
      Entries m (i + m.entryLength i) → Entries m i

/-! ## One turn -/

variable {m : ApicMadt} {i fuel : Nat} {reads : List Nat}

theorem place_eq (h : i < 2 ^ 31) : ApicMadt.place i = ApicMadt.size + i := by
  have hi : int32 i = i := int32_eq (by omega) (by omega)
  rw [ApicMadt.place, hi, ← Int.natCast_add, uint64_natCast]
  simp only [ApicMadt.size]
  omega

/-- The first numbers that an `int` does not count have their places far away. -/
theorem place_over (hle : 2 ^ 31 ≤ i) (hlt : i < 3 * 2 ^ 30) : 2 ^ 63 ≤ ApicMadt.place i := by
  have hi : int32 i = i - 2 ^ 32 := int32_over (by omega) (by omega)
  rw [ApicMadt.place, hi]
  refine uint64_neg ?_ ?_ <;> simp only [ApicMadt.size] <;> omega

section Turn

variable (hsize : ApicMadt.size ≤ m.length.toNat)

include hsize

theorem place_in_table_iff (h : i < 3 * 2 ^ 30) :
    ApicMadt.place i < m.length.toNat ↔ i < m.room := by
  have hlength := m.length.toNat_lt
  rcases Nat.lt_or_ge i (2 ^ 31) with hlt | hge
  · rw [place_eq hlt, ApicMadt.room]
    omega
  · have hplace := place_over hge h
    rw [ApicMadt.room]
    omega

theorem bound_eq : m.bound = m.length.toNat - ApicMadt.size := by
  have hlength := m.length.toNat_lt
  rw [ApicMadt.bound, ← Int.natCast_sub hsize, uint64_natCast (by omega)]

theorem turn_iff (h : i < 2 ^ 32) : uint64 (int32 i) < m.bound ↔ i < m.room := by
  have hlength := m.length.toNat_lt
  rw [bound_eq hsize, ApicMadt.room]
  rcases Nat.lt_or_ge i (2 ^ 31) with hlt | hge
  · have hi : int32 i = i := int32_eq (by omega) (by omega)
    rw [hi, uint64_natCast (by omega)]
    omega
  · have hi : int32 i = i - 2 ^ 32 := int32_over (by omega) (by omega)
    have hneg : 2 ^ 63 ≤ uint64 (int32 i) := by
      rw [hi]
      exact uint64_neg (by omega) (by omega)
    omega

theorem turnReads_in_iff (h : i < 2 ^ 31) :
    (∀ place ∈ m.turnReads i, place < m.length.toNat) ↔
      i + 1 < m.room ∧
        (m.entryType i = APIC_ENTRY_TYPE_LOCAL_APIC_ADDR_OVERRIDE → i + 10 < m.room) := by
  have h0 := place_in_table_iff hsize (i := i) (by omega)
  have h1 : ApicMadt.place (i + 1) < m.length.toNat ↔ i + 1 < m.room :=
    place_in_table_iff hsize (i := i + 1) (by omega)
  have h10 : ApicMadt.place (i + 10) < m.length.toNat ↔ i + 10 < m.room :=
    place_in_table_iff hsize (i := i + 10) (by omega)
  rw [ApicMadt.turnReads, place_eq h, ApicMadt.entryType]
  rw [place_eq h] at h0
  split
  case isTrue htype =>
    simp only [List.forall_mem_cons, List.not_mem_nil, false_implies, implies_true, and_true, h0,
      h1, h10, htype, forall_const]
    omega
  case isFalse htype =>
    simp only [List.forall_mem_cons, List.not_mem_nil, false_implies, implies_true, and_true, h0,
      h1, htype]
    omega

end Turn

theorem advance_eq (h : i + 1 < 2 ^ 31) : m.advance i = int32 (i + m.entryLength i : Nat) := by
  have hplace : ApicMadt.place (i + 1) = ApicMadt.size + (i + 1) := place_eq (i := i + 1) h
  have hsum : (i : Int) + m.entryLength i - 1 + 1 = (i + m.entryLength i : Nat) := by omega
  rw [← hsum, ← int32_add, ApicMadt.advance, hplace]
  rfl

/-! ## The run -/

theorem entryLoop_stuck {i : Int} (h : uint64 i < m.bound) (hstay : m.advance i = i) :
    entryLoop m fuel i = none := by
  induction fuel with
  | zero => rfl
  | succ fuel ih =>
      rw [entryLoop, if_pos h, hstay, ih]
      rfl

theorem entryLoop_of_entries (hsize : ApicMadt.size ≤ m.length.toNat) (h : Entries m i)
    (hi : i < 2 ^ 32) :
    ∃ fuel reads, entryLoop m fuel (int32 i) = some reads ∧
      ∀ place ∈ reads, place < m.length.toNat := by
  induction h with
  | @done i hdone =>
      refine ⟨1, [], ?_, by simp⟩
      rw [entryLoop, if_neg]
      rw [turn_iff hsize hi]
      omega
  | @entry i hnext hne htype _ ih =>
      have hroom : m.room ≤ 2 ^ 31 := Nat.min_le_right ..
      have hL : m.entryLength i < 256 := UInt8.toNat_lt _
      have hint : int32 i = i := int32_eq (by omega) (by omega)
      obtain ⟨fuel, reads, hrun, hin⟩ := ih (by omega)
      refine ⟨fuel + 1, m.turnReads i ++ reads, ?_, ?_⟩
      · rw [entryLoop, if_pos ((turn_iff hsize hi).mpr (by omega)), hint, advance_eq (by omega),
          hrun]
        rfl
      · have hturn := (turnReads_in_iff hsize (i := i) (by omega)).mpr ⟨hnext, htype⟩
        exact List.forall_mem_append.mpr ⟨hturn, hin⟩

theorem entries_of_entryLoop (hsize : ApicMadt.size ≤ m.length.toNat) (hi : i < 2 ^ 32)
    (hrun : entryLoop m fuel (int32 i) = some reads)
    (hin : ∀ place ∈ reads, place < m.length.toNat) : Entries m i := by
  induction fuel generalizing i reads with
  | zero => cases hrun
  | succ fuel ih =>
      by_cases hroom : i < m.room
      case neg => exact Entries.done (by omega)
      have hmin : m.room ≤ 2 ^ 31 := Nat.min_le_right ..
      have hint : int32 i = i := int32_eq (by omega) (by omega)
      have hturn : uint64 (int32 i) < m.bound := (turn_iff hsize hi).mpr hroom
      rw [entryLoop, if_pos hturn, hint] at hrun
      obtain ⟨rest, hrest, rfl⟩ := Option.map_eq_some_iff.mp hrun
      obtain ⟨hhere, hin⟩ := List.forall_mem_append.mp hin
      obtain ⟨hnext, htype⟩ := (turnReads_in_iff hsize (by omega)).mp hhere
      have hadvance : m.advance i = int32 (i + m.entryLength i : Nat) := advance_eq (by omega)
      have hne : m.entryLength i ≠ 0 := by
        intro h0
        rw [h0, Nat.add_zero, hint] at hadvance
        rw [hadvance, entryLoop_stuck (hint ▸ hturn) hadvance] at hrest
        cases hrest
      have hL : m.entryLength i < 256 := UInt8.toNat_lt _
      rw [hadvance] at hrest
      exact Entries.entry hnext hne htype (ih (by omega) hrest hin)

theorem int32_zero : int32 (0 : Nat) = 0 := int32_eq (by omega) (by omega)

/-- A table shorter than its fixed part has the loop read behind it at once. -/
theorem size_le_of_walkEnds (h : WalkEnds m) : ApicMadt.size ≤ m.length.toNat := by
  obtain ⟨fuel, reads, hrun, hin⟩ := h
  refine Nat.le_of_not_lt fun hshort => ?_
  have hbound : uint64 0 < m.bound := by
    have hneg : 2 ^ 63 ≤ m.bound := by
      rw [ApicMadt.bound]
      refine uint64_neg ?_ ?_ <;> simp only [ApicMadt.size] at hshort ⊢ <;> omega
    exact Nat.lt_of_lt_of_le (by decide) hneg
  have hplace : ApicMadt.place 0 = ApicMadt.size := place_eq (i := 0) (by omega)
  cases fuel with
  | zero => cases hrun
  | succ fuel =>
      rw [entryLoop, if_pos hbound] at hrun
      obtain ⟨rest, -, rfl⟩ := Option.map_eq_some_iff.mp hrun
      have hread : ApicMadt.place 0 ∈ m.turnReads 0 := by
        rw [ApicMadt.turnReads]
        split <;> exact List.mem_cons_self ..
      have hlt := hin _ (List.mem_append_left _ hread)
      omega

/-- **The walk over the MADT** ends and reads nothing but the table exactly if
the table is as long as its fixed part and the bytes behind that are a row of
entries whose lengths are not 0. Only the last entry may end behind the table.
The table may be followed by any memory. -/
theorem madt_walk_iff (m : ApicMadt) :
    WalkEnds m ↔ ApicMadt.size ≤ m.length.toNat ∧ Entries m 0 := by
  constructor
  · intro h
    have hsize := size_le_of_walkEnds h
    obtain ⟨fuel, reads, hrun, hin⟩ := h
    rw [← int32_zero] at hrun
    exact ⟨hsize, entries_of_entryLoop hsize (by omega) hrun hin⟩
  · rintro ⟨hsize, h⟩
    have hends := entryLoop_of_entries hsize h (by omega)
    rwa [int32_zero] at hends

/-- An entry of length 0 keeps the loop in place. A table without entries whose length is
less than its fixed part is read behind its end. -/
theorem madt_walk_stuck :
    ¬ WalkEnds ⟨52, fun _ => 0⟩ ∧ ¬ WalkEnds ⟨43, fun _ => 2⟩ := by
  constructor
  · rintro ⟨fuel, reads, hrun, -⟩
    rw [entryLoop_stuck (i := 0) (by decide) (by decide)] at hrun
    cases hrun
  · intro h
    exact absurd (size_le_of_walkEnds h) (by decide)

end VersionSix.Acpi
