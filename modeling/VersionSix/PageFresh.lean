import VersionSix.PageContiguous

/-!
# Map, then translate

After `paging_page_map_to_pml4` the address translates to the page it was mapped to,
and no other address translates differently, up to the pages that the allocator mapped
for the tables (`map_then_translate`).

The theorem asks of the allocator what the mapping relies on, `AllocatesFresh`. The
kernel's own allocator meets it in every state that is `Steady`, so in every state that
booting and the calls after it lead to (`boot_steady`, `serve_steady`), as long as its
area lasts for the tables and the tables ahead of them. This includes a call that rolls
over to the next page table: the table it hangs up is empty, and no translation changes.
-/

namespace VersionSix.Page

/-! ## The kernel's allocator -/

theorem Spare.freshAt {b : KernelInfo} (h : Layout b) {k : Nat} {s : Paging}
    (hs : Spare b (k + 2) s) (hl : Laid b 0 s) : FreshAt (pageAllocateKernelLinear 1) s := by
  obtain ⟨v, s', new, hs', hspare, hlaid, hfurther, hgrows, hdata, hblank, -⟩ := hs.linear_laid h hl
  have hphys := hspare.cursor.kernelPagePhysical_eq h hdata.allocated
  have hframe := h.table_frame hspare.cursor (.inr hdata.allocated)
  rw [← hphys] at hframe
  unfold Blank at hblank
  rw [← hphys] at hblank
  refine ⟨v, s', new, hs', hgrows.toAgrees, ?_, ⟨hframe.1, hframe.2.1⟩, hblank.2, hblank.1,
    hlaid.tree, fun p l f hp => hgrows.kept _ _ hp, fun p f hp => hfurther.pointer hs.cursor hp⟩
  rw [hphys]
  exact hspare.cursor.physOf_table h (.inr hdata.allocated)

section Steady

variable {b : KernelInfo} {s : Paging} {pml4 virt : Nat}

/-- On the way to a page of the kernel's gigabyte only the page table can be missing. -/
theorem Steady.allocatesFresh_inside (h : Layout b) (hs : Steady b s) (hfits : Fits b s 6)
    (hplain : NoHuge s (pathOf virt)) (hpml4 : physOf s pml4 = some s.cr3)
    (hinside : [511, 510] <+: pathOf virt) :
    AllocatesFresh (pageAllocateKernelLinear 1) s pml4 virt := by
  obtain ⟨t, ht, hfound⟩ := findTables_ok hs.laid.tree hplain hpml4
  obtain ⟨hpdptNode, hpdNode, -⟩ := hs.cursor.nodes
  unfold pathOf at hinside
  obtain ⟨h511, hrest⟩ := List.cons_prefix_cons.mp hinside
  obtain ⟨h510, -⟩ := List.cons_prefix_cons.mp hrest
  have hpdpt : t.pdpt ≠ none := by
    intro hnone
    have hfree := hfound.pdpt
    rw [hnone, ← h511] at hfree
    exact absurd (hpdptNode.symm.trans hfree) (Option.some_ne_none _)
  have hpd : t.pd ≠ none := by
    intro hnone
    have hfree := hfound.pd
    rw [hnone, ← h511, ← h510] at hfree
    exact absurd (hpdNode.symm.trans hfree) (Option.some_ne_none _)
  refine ⟨fun t' ht' hnone => ?_, fun t' pdpt s₁ ht' h₁ hnone => ?_,
    fun t' pdpt s₁ pd s₂ ht' h₁ h₂ _ => ?_⟩ <;>
    obtain rfl := Option.some.inj (ht.symm.trans ht')
  · exact absurd hnone hpdpt
  · exact absurd hnone hpd
  · obtain ⟨ptr, hptr⟩ := Option.ne_none_iff_exists'.mp hpdpt
    obtain ⟨ptr', hptr'⟩ := Option.ne_none_iff_exists'.mp hpd
    rw [hptr] at h₁
    rw [hptr'] at h₂
    obtain ⟨-, rfl⟩ := Prod.mk.inj (Option.some.inj h₁)
    obtain ⟨-, rfl⟩ := Prod.mk.inj (Option.some.inj h₂)
    exact (hs.spare (k := 4 + 2) hfits).freshAt h hs.laid

/-- On the way to any other page three tables can be missing, each of which leaves the
allocator as it has to be for the next one. -/
theorem Steady.allocatesFresh_outside (h : Layout b) (hs : Steady b s) (hfits : Fits b s 6)
    (hplain : NoHuge s (pathOf virt)) (hpml4 : physOf s pml4 = some s.cr3)
    (hout : ¬ [511, 510] <+: pathOf virt) :
    AllocatesFresh (pageAllocateKernelLinear 1) s pml4 virt := by
  have hlt := getIndexes_lt virt
  obtain ⟨t, ht, hfound⟩ := findTables_ok hs.laid.tree hplain hpml4
  have hspare := hs.spare (k := 4 + 2) hfits
  unfold pathOf at hout
  obtain ⟨pdpt, s₁, h₁, hspare₁, hl₁, htable₁, hempty₁, hsame₁⟩ :=
    setupTable_laid h hspare hs.laid (q := []) ⟨_, hpml4, nodeAt_nil s⟩ hlt.1
      (fun hp => hout (hp.trans ⟨_, rfl⟩)) hfound.pdpt
  have hfound₁ : Found s₁ t.pd [_, _] 1 :=
    Found.below (p := [(pagingGetIndexes virt).pml4]) hfound.pd hfound.pd_none hempty₁ hsame₁
  obtain ⟨pd, s₂, h₂, hspare₂, hl₂, -⟩ :=
    setupTable_laid (k := 2) h hspare₁ hl₁ htable₁ hlt.2.1
      (fun hp => hout (hp.trans ⟨_, rfl⟩)) hfound₁
  refine ⟨fun t' _ _ => hspare.freshAt h hs.laid, fun t' pdpt' s₁' ht' h₁' _ => ?_,
    fun t' pdpt' s₁' pd' s₂' ht' h₁' h₂' _ => ?_⟩
  · obtain rfl := Option.some.inj (ht.symm.trans ht')
    obtain ⟨-, rfl⟩ := Prod.mk.inj (Option.some.inj (h₁.symm.trans h₁'))
    exact (show Spare b (2 + 2) s₁ from hspare₁).freshAt h hl₁
  · obtain rfl := Option.some.inj (ht.symm.trans ht')
    obtain ⟨rfl, rfl⟩ := Prod.mk.inj (Option.some.inj (h₁.symm.trans h₁'))
    obtain ⟨-, rfl⟩ := Prod.mk.inj (Option.some.inj (h₂.symm.trans h₂'))
    exact (show Spare b (0 + 2) s₂ from hspare₂).freshAt h hl₂

/-- **The kernel's allocator** returns a fresh page for every table that a mapping needs,
if its area lasts for them: three tables, and before each of them possibly a table ahead. -/
theorem Steady.allocatesFresh (h : Layout b) (hs : Steady b s) (hfits : Fits b s 6)
    (hplain : NoHuge s (pathOf virt)) (hpml4 : physOf s pml4 = some s.cr3) :
    AllocatesFresh (pageAllocateKernelLinear 1) s pml4 virt := by
  by_cases hinside : [511, 510] <+: pathOf virt
  · exact hs.allocatesFresh_inside h hfits hplain hpml4 hinside
  · exact hs.allocatesFresh_outside h hfits hplain hpml4 hinside

end Steady

/-! ## Map, then translate -/

/-- After the mapping the address translates to the page, and every other page
translates as before, the pages the allocator mapped apart. Of the allocator it
is assumed that each call the mapping makes to it returns a fresh page and
keeps the other translations; `Steady.allocatesFresh` shows this of the
kernel's own one, which may have to hang up a further table for the pages it
hands out. -/
theorem map_then_translate {alloc : Paging → Option (Nat × Paging)} {s : Paging}
    {pml4 phys virt flags : Nat} (hs : TreeOk s)
    (hpml4 : physOf s (pml4Pointer s pml4) = some s.cr3) (hplain : NoHuge s (pathOf virt))
    (hphys : phys % 4096 = 0 ∧ phys < 2 ^ 52) (hflags : flags &&& pageFlagPresent ≠ 0)
    (halloc : AllocatesFresh alloc s (pml4Pointer s pml4) virt) :
    ∃ s' new, pagingPageMapToPml4 alloc s pml4 phys virt flags = some s' ∧ TreeOk s' ∧
      s'.mapped = new ++ s.mapped ∧ NewPages s s' new ∧
      (∀ w, virtualPage w = virtualPage virt → pagingVirtualToPhysical s' w = some phys) ∧
      ∀ w, virtualPage w ≠ virtualPage virt → (∀ m ∈ new, virtualPage w ≠ virtualPage m) →
        NoHuge s (pathOf w) → pagingVirtualToPhysical s' w = pagingVirtualToPhysical s w := by
  obtain ⟨t, pdpt, s₁, pd, s₂, pt, s₃, new, ht, h₁, h₂, h₃, hs₃, hagrees, f, hf, hnode⟩ :=
    tables_ready hs hpml4 hplain halloc
  obtain ⟨hs', hvirt, hother, hhuge⟩ := mapped_entry hs₃ hphys hflags hnode
  have hplain' : ∀ {p}, NoHuge s p → NoHuge
      (s₃.write (f + 8 * (pagingGetIndexes virt).pt) (pagingMakePage phys flags)) p :=
    fun hp q hq e h => hagrees.noHuge hp q hq e (hhuge q e h)
  refine ⟨_, new, ?_, hs', hagrees.mapped, ⟨hagrees.own.next, hagrees.own.range⟩, fun w hw => ?_,
    fun w hne hnew hw => ?_⟩
  · rw [pageMap_eq ht h₁ h₂ h₃]
    exact storeEntry_eq hf ..
  · have hpath := (pathOf_inj w virt).mpr hw
    rw [hs'.walk_eq (hplain' (by rwa [hpath])), hpath]
    unfold Paging.translate
    rw [hvirt]
  · have hpath : pathOf w ≠ pathOf virt := fun h => hne ((pathOf_inj w virt).mp h)
    have hsame := (hother _ (length_pathOf w) hpath).trans
      (hagrees.leaf _ (length_pathOf w) fun m hm h => hnew m hm ((pathOf_inj w m).mp h))
    rw [hs'.walk_eq (hplain' hw), hs.walk_eq hw]
    unfold Paging.translate
    rw [hsame]

/-- After booting and a call for 489 pages the cursor is at the last entry of its page
table: the allocation for the first missing table rolls over to the next one. -/
theorem map_then_translate_rollover : ∃ s v s', boot smallImage bootMemory = some s ∧
    pageAllocateKernelLinear 489 s = some (v, s') ∧ s'.kCurrentPtIndex = 511 ∧
    ∃ s'' new, pagingPageMapToPml4 (pageAllocateKernelLinear 1) s' 0 0x7000 0x5000 3 = some s'' ∧
      TreeOk s'' ∧ s''.mapped = new ++ s'.mapped ∧ NewPages s' s'' new ∧
      (∀ w, virtualPage w = virtualPage 0x5000 → pagingVirtualToPhysical s'' w = some 0x7000) ∧
      ∀ w, virtualPage w ≠ virtualPage 0x5000 → (∀ m ∈ new, virtualPage w ≠ virtualPage m) →
        NoHuge s' (pathOf w) → pagingVirtualToPhysical s'' w = pagingVirtualToPhysical s' w := by
  have hboot : (boot smallImage bootMemory).any fun s => decide (s.kCurrentPtIndex = 22 ∧
      renews s = 0 ∧ Fits smallImage s 495 ∧ s.memory (pml4Frame smallImage + 8 * 0) = 0) := by
    decide +kernel
  obtain ⟨s, hs, hstart⟩ := (Option.any_eq_true _ _).mp hboot
  obtain ⟨hpt, hrenews, hfits, hempty⟩ := of_decide_eq_true hstart
  have h := smallImage_ok.layout
  have hsteady := boot_steady smallImage_ok smallImage_loaded hs
  obtain ⟨s', new, hs', hfurther, hlaid, -, hnewPt, -⟩ :=
    linear_laid h hsteady.cursor hsteady.laid (n := 489) (by decide) hsteady.newPd
      (hfits.mono (by omega)) (.inl hsteady.newPt) (by omega)
  have hsteady' := hsteady.further hfurther (hnewPt hsteady.newPt) hlaid
  have hfits' : Fits smallImage s' 6 :=
    .further hsteady.cursor hfurther (by rw [hrenews]; exact hfits)
  have hposition := hfurther.position_eq hsteady.cursor
  unfold position at hposition
  have hindexes := hsteady'.cursor.indexes
  have hindex : s'.kCurrentPtIndex = 511 := by omega
  -- nothing is mapped below the first entry of the PML4
  have hroot : s'.nodeAt [] = some (.table 3 (pml4Frame smallImage)) := by
    rw [nodeAt_nil, hsteady'.cursor.cr3]
  have hplain : NoHuge s' (pathOf 0x5000) := by
    refine noHuge_of_absent ((nodeAt_concat hroot 0).trans (look_absent ?_))
    rw [hfurther.keeps.pml4 0 (by decide), hempty, Nat.zero_and]
  have hpml4 : physOf s' (pml4Pointer s' 0) = some s'.cr3 := by
    rw [pml4Pointer, if_pos rfl]
    exact physOf_direct s' (hlaid.tree.placed (nodeAt_nil s')).2
  exact ⟨s, _, s', hs, hs', hindex, map_then_translate hlaid.tree hpml4 hplain
    ⟨by decide, by decide⟩ (by decide) (hsteady'.allocatesFresh h hfits' hplain hpml4)⟩

end VersionSix.Page
