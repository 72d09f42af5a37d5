import VersionSix.PageInStep

/-!
# The next entry of the kernel's tables

The comment of `paging_increment_kernel_page_index` guarantees the two indexes
and the two tables that go with them. Within a directory it keeps them so.
After the last table of a directory it does not: the entry for the new table is
stored behind the end of the old directory, and the new directory stays empty
(`increment_last_empty`).

The stores go to any address they compute, so that one behind the end of a
table is a store to the word that is there. `Guaranteed` asks for both:
everything is valid afterwards, and no store left its table.

The function has two halves, each of which may go over an end. The states
between them (`nextTable`, `nextDirectory`) are named, and the condition of the
main result is about the first one alone: the entry for the new table may not
take the place of the one for the directory.
-/

namespace VersionSix.Page

/-! ## The stores -/

section

variable (store : Paging → Nat → Nat → Nat → Option Paging)

/-- `incrementPtIndex` with the store as a parameter. -/
def incrementPtIndexWith (s : Paging) : Option Paging :=
  if s.kCurrentPtIndex = 511 then
    let s := { s with kCurrentPtIndex := 0, kCurrentPt := s.kNewPt }
    let entry := pagingMakePage (kernelPagePhysical s s.kNewPt) tableFlags
    (store s s.kCurrentPd (s.kCurrentPdIndex + 1) entry).map fun s =>
      { s with kCurrentPdIndex := (s.kCurrentPdIndex + 1) % 2 ^ 16 }
  else some { s with kCurrentPtIndex := (s.kCurrentPtIndex + 1) % 2 ^ 16 }

def rolloverPdWith (s : Paging) : Option Paging :=
  if s.kCurrentPdIndex = 512 then
    let s := { s with kCurrentPdIndex := 0, kCurrentPd := s.kNewPd }
    let physical :=
      (s.kNewPd + 8 * (2 ^ 64 - s.kernelVirtualBase) + 8 * s.kernelPhysicalBase) % 2 ^ 64
    (store s s.kCurrentPdpt s.kCurrentPdptIndex (pagingMakePage physical tableFlags)).map
      fun s => { s with kCurrentPdptIndex := (s.kCurrentPdptIndex + 1) % 2 ^ 16 }
  else some s

def incrementWith (s : Paging) : Option Paging :=
  (incrementPtIndexWith store s).bind (rolloverPdWith store)

end

theorem incrementWith_storeEntry (s : Paging) :
    incrementWith storeEntry s = pagingIncrementKernelPageIndex s := rfl

def storeInside (s : Paging) (table i entry : Nat) : Option Paging :=
  if i < 512 then storeEntry s table i entry else none

/-! ## Statement -/

/-- `table[i]` is an entry for the table `p` points to. -/
def RefersTo (s : Paging) (table i p : Nat) : Prop :=
  ∃ f g, physOf s table = some f ∧ physOf s p = some g ∧ Leads s.memory (f + 8 * i) g

/-- What the comment says is valid. -/
structure Valid (s : Paging) : Prop where
  indexes : s.kCurrentPtIndex ≤ 511 ∧ s.kCurrentPdIndex ≤ 511
  pt : RefersTo s s.kCurrentPd s.kCurrentPdIndex s.kCurrentPt
  pd : RefersTo s s.kCurrentPdpt s.kCurrentPdptIndex s.kCurrentPd

/-- A zeroed page of the allocation area that is not in use. -/
structure FreshTable (s : Paging) (p : Nat) : Prop where
  allocated : s.kernelVirtualAllocationBase ≤ p ∧ p < s.kernelVirtualMemoryNext
  apart : p < addrIdentityMap ∨ addrIdentityMap + identityMapSize ≤ p
  frame : kernelPagePhysical s p % 4096 = 0 ∧ kernelPagePhysical s p < 2 ^ 52
  zeroed : ∀ i, i < 512 → s.memory (kernelPagePhysical s p + 8 * i) = 0
  unused : ∀ table ∈ [s.kCurrentPdpt, s.kCurrentPd, s.kCurrentPt],
    physOf s table ≠ some (kernelPagePhysical s p)

structure Prepared (s : Paging) : Prop where
  ptIndex : s.kCurrentPtIndex ≤ 511
  pdIndex : s.kCurrentPdIndex ≤ 511
  pdptIndex : s.kCurrentPdptIndex ≤ 511
  installed : RefersTo s s.kCurrentPdpt s.kCurrentPdptIndex s.kCurrentPd
  newPt : FreshTable s s.kNewPt
  newPd : FreshTable s s.kNewPd

/-- Everything is valid afterwards, and no store left its table. -/
def Guaranteed (s : Paging) : Prop :=
  ∃ s', pagingIncrementKernelPageIndex s = some s' ∧ Valid s' ∧
    incrementWith storeInside s = some s'

def entryAddr (s : Paging) (table i : Nat) : Option Nat := (physOf s table).map (· + 8 * i)

/-- The entry for the next table is one of the directory, and it is not the one the directory
itself is installed in. -/
def NextEntryFree (s : Paging) : Prop :=
  s.kCurrentPdIndex < 511 ∧
    entryAddr s s.kCurrentPd (s.kCurrentPdIndex + 1) ≠
      entryAddr s s.kCurrentPdpt s.kCurrentPdptIndex

/-! ## Runs -/

variable {s : Paging} {f g p : Nat}

theorem FreshTable.physOf (h : FreshTable s p) : physOf s p = some (kernelPagePhysical s p) := by
  have hapart := h.apart
  unfold Page.physOf
  rw [if_neg (by omega), if_pos h.allocated]

section

variable {store : Paging → Nat → Nat → Nat → Option Paging}

theorem rolloverPdWith_inside (h : s.kCurrentPdIndex ≤ 511) : rolloverPdWith store s = some s :=
  if_neg (by omega)

theorem incrementWith_entry (hpt : s.kCurrentPtIndex < 511) (hpd : s.kCurrentPdIndex ≤ 511) :
    incrementWith store s = some { s with kCurrentPtIndex := s.kCurrentPtIndex + 1 } := by
  rw [incrementWith, incrementPtIndexWith, if_neg (Nat.ne_of_lt hpt), Option.bind_some,
    Nat.mod_eq_of_lt (by omega)]
  exact rolloverPdWith_inside hpd

/-- At the start of the new page table, before there is an entry for it. -/
def atNewTable (s : Paging) : Paging := { s with kCurrentPtIndex := 0, kCurrentPt := s.kNewPt }

/-- The state after the first half, with the directory in the frame `f`. -/
def nextTable (s : Paging) (f : Nat) : Paging :=
  { (atNewTable s).write (f + 8 * (s.kCurrentPdIndex + 1))
      (pagingMakePage (kernelPagePhysical s s.kNewPt) tableFlags) with
    kCurrentPdIndex := s.kCurrentPdIndex + 1 }

theorem incrementPtIndexWith_last (hpt : s.kCurrentPtIndex = 511) (hpd : s.kCurrentPdIndex ≤ 511)
    (hstore : ∀ entry, store (atNewTable s) s.kCurrentPd (s.kCurrentPdIndex + 1) entry =
      some ((atNewTable s).write (f + 8 * (s.kCurrentPdIndex + 1)) entry)) :
    incrementPtIndexWith store s = some (nextTable s f) := by
  rw [incrementPtIndexWith, if_pos hpt]
  show (store (atNewTable s) s.kCurrentPd (s.kCurrentPdIndex + 1) _).map _ = _
  rw [hstore, Option.map_some, nextTable]
  dsimp only [Paging.write, atNewTable]
  rw [Nat.mod_eq_of_lt (show s.kCurrentPdIndex + 1 < 2 ^ 16 by omega)]
  rfl

end

theorem storeEntry_atNewTable (hf : physOf s s.kCurrentPd = some f) (entry : Nat) :
    storeEntry (atNewTable s) s.kCurrentPd (s.kCurrentPdIndex + 1) entry =
      some ((atNewTable s).write (f + 8 * (s.kCurrentPdIndex + 1)) entry) :=
  storeEntry_eq (s := atNewTable s) hf _ entry

theorem increment_table (hpt : s.kCurrentPtIndex = 511) (hpd : s.kCurrentPdIndex < 511)
    (hf : physOf s s.kCurrentPd = some f) :
    pagingIncrementKernelPageIndex s = some (nextTable s f) ∧
      incrementWith storeInside s = some (nextTable s f) := by
  have hinside (entry : Nat) :
      storeInside (atNewTable s) s.kCurrentPd (s.kCurrentPdIndex + 1) entry =
        some ((atNewTable s).write (f + 8 * (s.kCurrentPdIndex + 1)) entry) := by
    rw [storeInside, if_pos (by omega)]
    exact storeEntry_atNewTable hf entry
  constructor
  · rw [← incrementWith_storeEntry, incrementWith,
      incrementPtIndexWith_last hpt (Nat.le_of_lt hpd) (storeEntry_atNewTable hf)]
    exact rolloverPdWith_inside hpd
  · rw [incrementWith, incrementPtIndexWith_last hpt (Nat.le_of_lt hpd) hinside]
    exact rolloverPdWith_inside hpd

/-- After the last table of a directory the entry is stored behind its end. -/
theorem increment_outside (hpt : s.kCurrentPtIndex = 511) (hpd : s.kCurrentPdIndex = 511) :
    incrementWith storeInside s = none := by
  rw [incrementWith, incrementPtIndexWith, if_pos hpt]
  show ((storeInside (atNewTable s) s.kCurrentPd (s.kCurrentPdIndex + 1) _).map _).bind _ = _
  rw [storeInside, if_neg (by omega)]
  rfl

def atNewDirectory (s : Paging) : Paging := { s with kCurrentPdIndex := 0, kCurrentPd := s.kNewPd }

/-- The state after the second half, with the PDPT in the frame `g`. -/
def nextDirectory (s : Paging) (g : Nat) : Paging :=
  { (atNewDirectory s).write (g + 8 * s.kCurrentPdptIndex)
      (pagingMakePage ((s.kNewPd + 8 * (2 ^ 64 - s.kernelVirtualBase) +
        8 * s.kernelPhysicalBase) % 2 ^ 64) tableFlags) with
    kCurrentPdptIndex := (s.kCurrentPdptIndex + 1) % 2 ^ 16 }

theorem rolloverPd_full (hpd : s.kCurrentPdIndex = 512) (hg : physOf s s.kCurrentPdpt = some g) :
    rolloverPd s = some (nextDirectory s g) := by
  rw [rolloverPd, if_pos hpd]
  show (storeEntry (atNewDirectory s) s.kCurrentPdpt s.kCurrentPdptIndex _).map _ = _
  rw [storeEntry_eq (s := atNewDirectory s) hg, Option.map_some]
  rfl

/-- The new directory has no entry at all, unless a store outside it hits it by chance. -/
theorem increment_last_empty (h : Prepared s) (hpt : s.kCurrentPtIndex = 511)
    (hpd : s.kCurrentPdIndex = 511) (hf : physOf s s.kCurrentPd = some f)
    (hg : physOf s s.kCurrentPdpt = some g) (hnext : f + 4096 ≠ kernelPagePhysical s s.kNewPd)
    (hslot : g + 8 * s.kCurrentPdptIndex ≠ kernelPagePhysical s s.kNewPd) :
    ∃ s', pagingIncrementKernelPageIndex s = some s' ∧
      ∀ p, ¬ RefersTo s' s'.kCurrentPd s'.kCurrentPdIndex p := by
  have hfull : (nextTable s f).kCurrentPdIndex = 512 := congrArg (· + 1) hpd
  refine ⟨nextDirectory (nextTable s f) g, ?_, ?_⟩
  · rw [← incrementWith_storeEntry, incrementWith,
      incrementPtIndexWith_last hpt (by omega) (storeEntry_atNewTable hf)]
    exact rolloverPd_full hfull hg
  · rintro p ⟨f', _, hf', -, hlead⟩
    obtain rfl : f' = kernelPagePhysical s s.kNewPd :=
      Option.some.inj (hf'.symm.trans h.newPd.physOf)
    have hword : (nextDirectory (nextTable s f) g).memory (kernelPagePhysical s s.kNewPd) =
        s.memory (kernelPagePhysical s s.kNewPd) :=
      (Function.update_of_ne hslot.symm _ _).trans (Function.update_of_ne (by omega) _ _)
    have hzero := h.newPd.zeroed 0 (by decide)
    rw [Nat.mul_zero, Nat.add_zero] at hzero
    have hpresent := hlead.present
    rw [show (nextDirectory (nextTable s f) g).kCurrentPdIndex = 0 from rfl, Nat.mul_zero,
      Nat.add_zero, hword, hzero, Nat.zero_and] at hpresent
    exact hpresent rfl

/-! ## Main result -/

theorem nextTable_entry (hnew : FreshTable s s.kNewPt) (f : Nat) :
    Leads (nextTable s f).memory (f + 8 * (s.kCurrentPdIndex + 1))
      (kernelPagePhysical s s.kNewPt) :=
  .of_entry (Function.update_self ..) hnew.frame

/-- The entry for the new table may not take the place of the one for the directory. -/
theorem nextTable_valid_iff (h : Prepared s) (hpd : s.kCurrentPdIndex < 511)
    (hf : physOf s s.kCurrentPd = some f) (hg : physOf s s.kCurrentPdpt = some g)
    (hlead : Leads s.memory (g + 8 * s.kCurrentPdptIndex) f) :
    Valid (nextTable s f) ↔
      f + 8 * (s.kCurrentPdIndex + 1) ≠ g + 8 * s.kCurrentPdptIndex := by
  have hentry := nextTable_entry h.newPt f
  constructor
  · intro hvalid heq
    obtain ⟨g', f', hg', hf', hlead'⟩ := hvalid.pd
    obtain rfl : g = g' := Option.some.inj (hg.symm.trans hg')
    obtain rfl : f = f' := Option.some.inj (hf.symm.trans hf')
    rw [heq] at hentry
    have hframe : f = kernelPagePhysical s s.kNewPt := hlead'.addr.symm.trans hentry.addr
    exact h.newPt.unused s.kCurrentPd (by simp) (hframe ▸ hf)
  · intro hne
    exact ⟨⟨Nat.zero_le _, hpd⟩, ⟨f, _, hf, h.newPt.physOf, hentry⟩,
      ⟨g, f, hg, hf, hlead.congr (Function.update_of_ne hne.symm ..)⟩⟩

theorem guaranteed_entry_iff (h : Prepared s) (hpt : s.kCurrentPtIndex < 511) :
    Guaranteed s ↔ RefersTo s s.kCurrentPd s.kCurrentPdIndex s.kCurrentPt := by
  have hrun := increment_within (Nat.lt_succ_of_le h.pdIndex) hpt
  have hinside : incrementWith storeInside s = _ := incrementWith_entry hpt h.pdIndex
  constructor
  · rintro ⟨s', hs', hvalid, -⟩
    obtain rfl := Option.some.inj (hrun.symm.trans hs')
    exact hvalid.pt
  · intro hrefers
    exact ⟨_, hrun, ⟨⟨hpt, h.pdIndex⟩, hrefers, h.installed⟩, hinside⟩

theorem guaranteed_table_iff (h : Prepared s) (hpt : s.kCurrentPtIndex = 511)
    (hpd : s.kCurrentPdIndex < 511) :
    Guaranteed s ↔ entryAddr s s.kCurrentPd (s.kCurrentPdIndex + 1) ≠
      entryAddr s s.kCurrentPdpt s.kCurrentPdptIndex := by
  obtain ⟨g, f, hg, hf, hlead⟩ := h.installed
  obtain ⟨hrun, hinside⟩ := increment_table hpt hpd hf
  have hvalid := nextTable_valid_iff h hpd hf hg hlead
  rw [entryAddr, entryAddr, hf, hg, Option.map_some, Option.map_some, Ne, Option.some_inj]
  constructor
  · rintro ⟨s', hs', hvalid', -⟩
    obtain rfl := Option.some.inj (hrun.symm.trans hs')
    exact hvalid.mp hvalid'
  · intro hne
    exact ⟨_, hrun, hvalid.mpr hne, hinside⟩

theorem not_guaranteed_last (hpt : s.kCurrentPtIndex = 511) (hpd : s.kCurrentPdIndex = 511) :
    ¬ Guaranteed s := by
  rintro ⟨s', -, -, hs'⟩
  rw [increment_outside hpt hpd] at hs'
  cases hs'

/-- The indexes and tables are valid afterwards exactly if the entry is not the
last one of its table and the directory refers to that table already; or if it
is, the directory has another entry, and that is not the word in which the
directory itself is installed. At the end of a directory they never are. -/
theorem increment_guaranteed_iff (s : Paging) (h : Prepared s) :
    Guaranteed s ↔
      (s.kCurrentPtIndex < 511 ∧ RefersTo s s.kCurrentPd s.kCurrentPdIndex s.kCurrentPt) ∨
        s.kCurrentPtIndex = 511 ∧ NextEntryFree s := by
  rcases Nat.lt_or_eq_of_le h.ptIndex with hpt | hpt
  · have hne : s.kCurrentPtIndex ≠ 511 := Nat.ne_of_lt hpt
    rw [guaranteed_entry_iff h hpt]
    simp only [hpt, hne, true_and, false_and, or_false]
  · simp only [hpt, Nat.lt_irrefl, false_and, false_or, true_and, NextEntryFree]
    rcases Nat.lt_or_eq_of_le h.pdIndex with hpd | hpd
    · rw [guaranteed_table_iff h hpt hpd]
      exact (and_iff_right hpd).symm
    · exact iff_of_false (not_guaranteed_last hpt hpd) fun hfree => absurd hfree.1 (by omega)

/-- Shortly before the end of the first GiB: the last entry of page table `pd` is taken. -/
def firstDirectory (pd : Nat) : Paging where
  memory := fun a =>
    if a = 0x102000 + 8 * 510 then pagingMakePage 0x103000 tableFlags
    else if a = 0x103000 + 8 * pd then pagingMakePage 0x40A00000 tableFlags
    else 0
  cr3 := 0x101000
  kernelVirtualBase := 0xFFFFFFFF80000000
  kernelPhysicalBase := 0x100000
  kernelVirtualAllocationBase := 0xFFFFFFFF80200000
  kernelPhysicalAllocationBase := 0x1000000
  kernelVirtualMemoryNext := 0xFFFFFFFFC0000000
  kernelPhysicalMemoryNext := 0x40E00000
  kCurrentPdptIndex := 510
  kCurrentPdIndex := pd
  kCurrentPtIndex := 511
  kCurrentPdpt := 0xFFFFFFFF80002000
  kCurrentPd := 0xFFFFFFFF80003000
  kCurrentPt := 0xFFFFFFFFBFC00000
  kNewPt := 0xFFFFFFFFBFE01000
  kNewPd := 0xFFFFFFFF80200000

theorem firstDirectory_prepared {pd : Nat} (h : pd = 510 ∨ pd = 511) :
    Prepared (firstDirectory pd) := by
  have hzero (a : Nat) (ha : 0x104000 ≤ a) : (firstDirectory pd).memory a = 0 := by
    show (if a = _ then _ else if a = _ then _ else 0) = 0
    rw [if_neg (by omega), if_neg (by omega)]
  have hslot : (firstDirectory pd).memory (0x102000 + 8 * 510) =
      pagingMakePage 0x103000 tableFlags := by
    dsimp only [firstDirectory]
    rw [if_pos rfl]
  rcases h with rfl | rfl
  all_goals
    refine ⟨by decide, by decide, by decide, ⟨0x102000, 0x103000, by decide, by decide, ?_⟩, ?_, ?_⟩
    · exact .of_entry hslot (by decide)
    · refine ⟨by decide, by decide, by decide, fun i _ => hzero _ ?_, by decide⟩
      exact Nat.le_add_right_of_le (by decide)
    · refine ⟨by decide, by decide, by decide, fun i _ => hzero _ ?_, by decide⟩
      exact Nat.le_add_right_of_le (by decide)

theorem lastTable_guaranteed : Guaranteed (firstDirectory 510) :=
  (increment_guaranteed_iff _ (firstDirectory_prepared (.inl rfl))).mpr
    (.inr ⟨rfl, by decide, by decide⟩)

theorem nextDirectory_not_guaranteed :
    Prepared (firstDirectory 511) ∧ ¬ Guaranteed (firstDirectory 511) :=
  ⟨firstDirectory_prepared (.inr rfl), not_guaranteed_last rfl rfl⟩

end VersionSix.Page
