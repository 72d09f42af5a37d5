import Mathlib.Data.Nat.Basic
import VersionSix.RunningMax

/-!
# The memory map at boot

`load_limine_info` copies the memory map of the boot loader and picks two of
its usable regions in the same pass: the largest one, and for the pages of the
kernel the one that was the largest before it. That is the second largest only
if the map has it before all larger ones, and the table has 20 entries whatever
the map has (`boot_memory_iff`).

The choice is that of `RunningMax`, with a runner-up that is only ever a former
maximum. The loop follows it entry by entry (`Tracks`); what the runner-up of a
running maximum is, and when it is the second largest, is a fact about lists
and stands there.

A boot loader may well report the larger region first. The kernel then gets no
memory at all, since a maximum that is never replaced is nobody's predecessor
(`larger_region_first`).
-/

namespace VersionSix.Boot

open RunningMax

def LIMINE_MEMMAP_USABLE : UInt64 := 0

/-! ## Functions -/

structure LimineMemmapEntry where
  base : UInt64
  length : UInt64
  type : UInt64
  deriving DecidableEq

structure MemmapEntry where
  base : UInt64
  size : UInt64
  type : UInt8

/-- What `load_limine_info` gets from the memory map. -/
structure Kinfo where
  kernelAllocateMemoryStart : UInt64
  kernelAllocateMemorySize : UInt64
  usableMemoryStart : UInt64
  usableMemorySize : UInt64
  memmap : List MemmapEntry
  memmapCount : UInt8

/-- `kernel_info` before any code ran. -/
def Kinfo.zero : Kinfo := ⟨0, 0, 0, 0, List.replicate 20 ⟨0, 0, 0⟩, 0⟩

/-- The locals of the loop, and `kernel_info`. -/
structure Locals where
  usableMemoryStart : UInt64
  usableMemorySize : UInt64
  kernelInfo : Kinfo

def Locals.select (s : Locals) (e : LimineMemmapEntry) : Locals :=
  if e.length > s.usableMemorySize then
    { usableMemoryStart := e.base
      usableMemorySize := e.length
      kernelInfo :=
        -- This is intentional -- kernel pages will use the second largest free space
        if s.usableMemorySize ≠ 0 then
          { s.kernelInfo with
            kernelAllocateMemoryStart := s.usableMemoryStart
            kernelAllocateMemorySize := s.usableMemorySize }
        else s.kernelInfo }
  else s

/-- `memmap[i]` for the entry `i` of the map. -/
def Locals.store (s : Locals) (i : Nat) (e : LimineMemmapEntry) : Locals :=
  { s with kernelInfo :=
      { s.kernelInfo with memmap := s.kernelInfo.memmap.set i ⟨e.base, e.length, e.type.toUInt8⟩ } }

/-- The loop from the entry `i` on; `none` is an entry behind the table. -/
def loadEntries : Nat → List LimineMemmapEntry → Locals → Option Locals
  | _, [], s => some s
  | i, e :: entries, s =>
      if i < s.kernelInfo.memmap.length then
        let s := s.store i e
        loadEntries (i + 1) entries (if e.type = LIMINE_MEMMAP_USABLE then s.select e else s)
      else none

def Locals.start (entryCount : Nat) : Locals :=
  ⟨0, 0, { Kinfo.zero with memmapCount := UInt8.ofNat entryCount }⟩

def Locals.finish (s : Locals) : Kinfo :=
  { s.kernelInfo with
    usableMemoryStart := s.usableMemoryStart
    usableMemorySize := s.usableMemorySize }

def loadLimineInfo (entries : List LimineMemmapEntry) : Option Kinfo :=
  (loadEntries 0 entries (Locals.start entries.length)).map Locals.finish

/-! ## Statement -/

def usable (entries : List LimineMemmapEntry) : List LimineMemmapEntry :=
  entries.filter fun e => e.type = LIMINE_MEMMAP_USABLE

namespace LimineMemmapEntry

def size (e : LimineMemmapEntry) : Nat := e.length.toNat

def region (e : LimineMemmapEntry) : UInt64 × UInt64 := (e.base, e.length)

end LimineMemmapEntry

/-- The usable memory is the largest usable region, the memory of the kernel the
second largest, and no entry is stored outside of the table. -/
def MemorySelected (entries : List LimineMemmapEntry) : Prop :=
  ∃ info, loadLimineInfo entries = some info ∧
    (∃ m, Largest LimineMemmapEntry.size (usable entries) m ∧
      (info.usableMemoryStart, info.usableMemorySize) = m.region) ∧
    ∃ r, SecondLargest LimineMemmapEntry.size (usable entries) r ∧
      (info.kernelAllocateMemoryStart, info.kernelAllocateMemorySize) = r.region

/-- A region of the second largest size stands before all larger ones. The empty
region at 0 may stand anywhere: `kernel_info` has it from the start. -/
def SecondComesFirst (entries : List LimineMemmapEntry) : Prop :=
  ∃ r, SecondLargest LimineMemmapEntry.size (usable entries) r ∧
    (r.region = (0, 0) ∨ r.length ≠ 0 ∧ ∃ pre post, usable entries = pre ++ r :: post ∧
      ∀ x ∈ pre, x.size ≤ r.size)

/-! ## The pass -/

/-- The region of a choice of `RunningMax.run`; without one it is the 0 that the
variables have from the start. -/
def regionOf : Option LimineMemmapEntry → UInt64 × UInt64
  | none => (0, 0)
  | some e => e.region

def candidates (entries : List LimineMemmapEntry) : List LimineMemmapEntry :=
  (usable entries).filter fun e => e.length ≠ 0

/-- What the loop has after the entries in `done`. -/
structure Tracks (done : List LimineMemmapEntry) (s : Locals) : Prop where
  best : (s.usableMemoryStart, s.usableMemorySize) =
    regionOf (run LimineMemmapEntry.size (candidates done)).best
  former : (s.kernelInfo.kernelAllocateMemoryStart, s.kernelInfo.kernelAllocateMemorySize) =
    regionOf (run LimineMemmapEntry.size (candidates done)).former
  table : s.kernelInfo.memmap.length = 20

variable {done entries : List LimineMemmapEntry} {s : Locals} {e : LimineMemmapEntry}

theorem mem_candidates : e ∈ candidates entries ↔ e ∈ usable entries ∧ e.length ≠ 0 := by
  simp [candidates]

theorem candidates_concat_pass (h : ¬(e.type = LIMINE_MEMMAP_USABLE ∧ e.length ≠ 0)) :
    candidates (done ++ [e]) = candidates done := by
  simp only [candidates, usable, List.filter_append, List.append_right_eq_self]
  by_cases ht : e.type = LIMINE_MEMMAP_USABLE
  · have hl : e.length = 0 := by
      by_contra hl
      exact h ⟨ht, hl⟩
    simp [ht, hl]
  · simp [ht]

theorem candidates_concat_usable (ht : e.type = LIMINE_MEMMAP_USABLE) (hl : e.length ≠ 0) :
    candidates (done ++ [e]) = candidates done ++ [e] := by
  simp [candidates, usable, ht, hl]

theorem Tracks.stored (h : Tracks done s) (i : Nat) (e : LimineMemmapEntry) :
    Tracks done (s.store i e) where
  best := h.best
  former := h.former
  table := by
    rw [← h.table]
    exact List.length_set

theorem Tracks.pass (h : Tracks done s) (hpass : ¬(e.type = LIMINE_MEMMAP_USABLE ∧ e.length ≠ 0)) :
    Tracks (done ++ [e]) s where
  best := by
    rw [candidates_concat_pass hpass]
    exact h.best
  former := by
    rw [candidates_concat_pass hpass]
    exact h.former
  table := h.table

theorem select_le (h : e.length ≤ s.usableMemorySize) : s.select e = s :=
  if_neg (UInt64.not_lt.mpr h)

theorem select_gt (h : s.usableMemorySize < e.length) :
    ((s.select e).usableMemoryStart, (s.select e).usableMemorySize) = e.region := by
  unfold Locals.select
  rw [if_pos h]
  rfl

/-- The choice before goes to the kernel. Without one both have the 0 of the start. -/
theorem select_kernel (h : s.usableMemorySize < e.length) (hne : s.usableMemorySize ≠ 0) :
    ((s.select e).kernelInfo.kernelAllocateMemoryStart,
      (s.select e).kernelInfo.kernelAllocateMemorySize) =
        (s.usableMemoryStart, s.usableMemorySize) := by
  unfold Locals.select
  rw [if_pos h, if_pos hne]

theorem select_first (h : s.usableMemorySize < e.length) (h0 : s.usableMemorySize = 0) :
    (s.select e).kernelInfo = s.kernelInfo := by
  unfold Locals.select
  rw [if_pos h, if_neg (not_not.mpr h0)]

theorem select_table : (s.select e).kernelInfo.memmap = s.kernelInfo.memmap := by
  unfold Locals.select
  split
  · split <;> rfl
  · rfl

theorem Tracks.select (h : Tracks done s) (ht : e.type = LIMINE_MEMMAP_USABLE)
    (hl : e.length ≠ 0) : Tracks (done ++ [e]) (s.select e) := by
  obtain ⟨hbest, hformer, htable⟩ := h
  have hconcat : candidates (done ++ [e]) = candidates done ++ [e] :=
    candidates_concat_usable ht hl
  have htable' : (s.select e).kernelInfo.memmap.length = 20 := by rw [select_table, htable]
  rcases eq_or_ne (candidates done) [] with hnil | hne
  · rw [hnil] at hbest hformer hconcat
    obtain ⟨-, hsize⟩ := Prod.mk.inj hbest
    have hlt : s.usableMemorySize < e.length := by
      rw [hsize]
      exact UInt64.pos_iff_ne_zero.mpr hl
    refine ⟨?_, ?_, htable'⟩
    · rw [select_gt hlt, hconcat]
      rfl
    · rw [select_first hlt hsize, hconcat]
      exact hformer
  · obtain ⟨m, hm, hlargest⟩ := best_largest (f := LimineMemmapEntry.size) hne
    rw [hm] at hbest
    obtain ⟨-, hsize⟩ := Prod.mk.inj hbest
    have hm0 : s.usableMemorySize ≠ 0 := by
      rw [hsize]
      exact (mem_candidates.mp hlargest.1).2
    by_cases hlt : s.usableMemorySize < e.length
    · have hstep : run LimineMemmapEntry.size (candidates (done ++ [e])) = ⟨some e, some m⟩ := by
        rw [hconcat, run_concat, step, hm]
        rw [hsize] at hlt
        exact if_pos (UInt64.lt_iff_toNat_lt.mp hlt)
      refine ⟨?_, ?_, htable'⟩
      · rw [select_gt hlt, hstep]
        rfl
      · rw [select_kernel hlt hm0, hstep]
        exact hbest
    · have hle : e.length ≤ s.usableMemorySize := UInt64.not_lt.mp hlt
      have hstep : run LimineMemmapEntry.size (candidates (done ++ [e])) =
          run LimineMemmapEntry.size (candidates done) := by
        rw [hconcat, run_concat, step, hm]
        rw [hsize] at hlt
        exact if_neg fun h => hlt (UInt64.lt_iff_toNat_lt.mpr h)
      rw [select_le hle]
      refine ⟨?_, ?_, htable⟩
      · rw [hstep, hm]
        exact hbest
      · rw [hstep]
        exact hformer

theorem Tracks.turn (h : Tracks done s) (i : Nat) (e : LimineMemmapEntry) :
    Tracks (done ++ [e])
      (if e.type = LIMINE_MEMMAP_USABLE then (s.store i e).select e else s.store i e) := by
  have hstored := h.stored i e
  by_cases ht : e.type = LIMINE_MEMMAP_USABLE
  · rw [if_pos ht]
    by_cases hl : e.length = 0
    · rw [select_le (hl ▸ UInt64.zero_le)]
      exact hstored.pass fun h => h.2 hl
    · exact hstored.select ht hl
  · rw [if_neg ht]
    exact hstored.pass fun h => ht h.1

theorem loadEntries_some {i : Nat} (h : Tracks done s) (hfit : i + entries.length ≤ 20) :
    ∃ s', loadEntries i entries s = some s' ∧ Tracks (done ++ entries) s' := by
  induction entries generalizing i done s with
  | nil => exact ⟨s, rfl, by rwa [List.append_nil]⟩
  | cons e entries ih =>
      rw [List.length_cons] at hfit
      have hi : i < s.kernelInfo.memmap.length := by
        rw [h.table]
        omega
      obtain ⟨s', hs', htracks⟩ := ih (i := i + 1) (h.turn i e) (by omega)
      refine ⟨s', ?_, ?_⟩
      · rw [loadEntries, if_pos hi]
        exact hs'
      · rwa [List.append_assoc, List.singleton_append] at htracks

theorem loadEntries_none {i : Nat} (h : Tracks done s) (hi : i ≤ 20)
    (hlong : 20 < i + entries.length) : loadEntries i entries s = none := by
  induction entries generalizing i done s with
  | nil => exact absurd hi (by simpa using hlong)
  | cons e entries ih =>
      rw [List.length_cons] at hlong
      rw [loadEntries, h.table]
      split
      · exact ih (h.turn i e) (by omega) (by omega)
      · rfl

theorem tracks_start (n : Nat) : Tracks [] (Locals.start n) := ⟨rfl, rfl, rfl⟩

theorem loadLimineInfo_some (h : entries.length ≤ 20) :
    ∃ info, loadLimineInfo entries = some info ∧
      (info.usableMemoryStart, info.usableMemorySize) =
        regionOf (run LimineMemmapEntry.size (candidates entries)).best ∧
      (info.kernelAllocateMemoryStart, info.kernelAllocateMemorySize) =
        regionOf (run LimineMemmapEntry.size (candidates entries)).former := by
  obtain ⟨s, hs, htracks⟩ : ∃ s, loadEntries 0 entries (Locals.start entries.length) = some s ∧
      Tracks entries s := loadEntries_some (tracks_start entries.length) (by omega)
  refine ⟨s.finish, ?_, htracks.best, htracks.former⟩
  unfold loadLimineInfo
  rw [hs]
  rfl

theorem loadLimineInfo_none (h : 20 < entries.length) : loadLimineInfo entries = none := by
  unfold loadLimineInfo
  rw [loadEntries_none (tracks_start _) (Nat.zero_le _) (by omega)]
  rfl

/-! ## The selection -/

theorem LimineMemmapEntry.size_ne_zero : e.size ≠ 0 ↔ e.length ≠ 0 := by
  rw [LimineMemmapEntry.size, ne_eq, ne_eq, ← UInt64.toNat_inj, UInt64.toNat_zero]

theorem candidate_up (x y : LimineMemmapEntry) (hle : x.size ≤ y.size)
    (hx : decide (x.length ≠ 0)) : decide (y.length ≠ 0) := by
  have hx : x.size ≠ 0 := LimineMemmapEntry.size_ne_zero.mpr (of_decide_eq_true hx)
  exact decide_eq_true (LimineMemmapEntry.size_ne_zero.mp (by omega))

theorem former_zero {r : LimineMemmapEntry}
    (hr : SecondLargest LimineMemmapEntry.size (usable entries) r) (h0 : r.length = 0) :
    (run LimineMemmapEntry.size (candidates entries)).former = none := by
  obtain ⟨-, m, hm, hlt, hbelow⟩ := hr
  cases hformer : (run LimineMemmapEntry.size (candidates entries)).former with
  | none => rfl
  | some p =>
      obtain ⟨hp, m', hm', hpm⟩ := former_mem hformer
      obtain ⟨hp, hp0⟩ := mem_candidates.mp hp
      have hle : p.size ≤ r.size :=
        hbelow p hp (hpm.trans_le (hm.2 m' (mem_candidates.mp hm').1))
      have hr0 : r.size = 0 := by
        rw [LimineMemmapEntry.size, h0]
        rfl
      exact absurd (Nat.le_zero.mp (hr0 ▸ hle)) (LimineMemmapEntry.size_ne_zero.mpr hp0)

/-- **The memory selected at boot** is the largest usable region and, for the
pages of the kernel, the second largest, with no entry stored outside of the
table, exactly if the map has at most 20 entries and a region of the second
largest size comes before all larger ones. -/
theorem boot_memory_iff (entries : List LimineMemmapEntry) :
    MemorySelected entries ↔ entries.length ≤ 20 ∧ SecondComesFirst entries := by
  constructor
  · rintro ⟨info, hinfo, -, r, hr, hregion⟩
    have hfit : entries.length ≤ 20 := by
      by_contra hlong
      rw [loadLimineInfo_none (not_le.mp hlong)] at hinfo
      cases hinfo
    refine ⟨hfit, ?_⟩
    obtain ⟨info', hinfo', -, hkernel⟩ := loadLimineInfo_some hfit
    obtain rfl : info' = info := Option.some.inj (hinfo'.symm.trans hinfo)
    rw [hkernel] at hregion
    cases hformer : (run LimineMemmapEntry.size (candidates entries)).former with
    | none =>
        rw [hformer] at hregion
        exact ⟨r, hr, Or.inl hregion.symm⟩
    | some p =>
        rw [hformer] at hregion
        have hsize : p.size = r.size := congrArg UInt64.toNat (Prod.mk.inj hregion).2
        have hp : p ∈ usable entries := (mem_candidates.mp (former_mem hformer).1).1
        obtain ⟨r', hr'0, hr', hfirst⟩ :=
          (former_filter_iff candidate_up).mp ⟨p, hformer, SecondLargest.of_eq hr hp hsize⟩
        exact ⟨r', hr', Or.inr ⟨of_decide_eq_true hr'0, hfirst⟩⟩
  · rintro ⟨hfit, r, hr, hfirst⟩
    obtain ⟨info, hinfo, husable, hkernel⟩ := loadLimineInfo_some hfit
    refine ⟨info, hinfo, ?_, ?_⟩
    · obtain ⟨-, m, hm, hlt, -⟩ := hr
      have hm0 : m ∈ candidates entries := by
        refine mem_candidates.mpr ⟨hm.1, LimineMemmapEntry.size_ne_zero.mp ?_⟩
        omega
      obtain ⟨m', hbest, hlargest⟩ :=
        best_largest (f := LimineMemmapEntry.size) (List.ne_nil_of_mem hm0)
      rw [hbest] at husable
      exact ⟨m', hlargest.of_filter candidate_up, husable⟩
    · rcases hfirst with hzero | ⟨hne, hfirst⟩
      · rw [former_zero hr (Prod.mk.inj hzero).2] at hkernel
        exact ⟨r, hr, hkernel.trans hzero.symm⟩
      · obtain ⟨q, hq, hsecond⟩ :=
          (former_filter_iff candidate_up).mpr ⟨r, decide_eq_true hne, hr, hfirst⟩
        have hq : (run LimineMemmapEntry.size (candidates entries)).former = some q := hq
        rw [hq] at hkernel
        exact ⟨q, hsecond, hkernel⟩

/-- With the larger region first the kernel gets nothing, and a map of 21 entries
is longer than the table. -/
theorem larger_region_first :
    ¬ MemorySelected [⟨4096, 8192, 0⟩, ⟨16384, 4096, 0⟩] ∧
      ¬ MemorySelected (List.replicate 19 ⟨0, 0, 1⟩ ++ [⟨4096, 4096, 0⟩, ⟨16384, 8192, 0⟩]) := by
  constructor
  · rintro ⟨info, hinfo, -, r, ⟨hr, -⟩, hregion⟩
    obtain rfl := Option.some.inj hinfo
    rcases List.mem_cons.mp hr with rfl | hr
    · cases hregion
    · obtain rfl := List.mem_singleton.mp hr
      cases hregion
  · rintro ⟨info, hinfo, -⟩
    rw [loadLimineInfo_none (by simp)] at hinfo
    cases hinfo

end VersionSix.Boot
