import VersionSix.PageAhead
import VersionSix.PageBoot

/-!
# Mapping beside the kernel's pages

`page_map` of an address outside the kernel's gigabyte takes its tables from
the cursor of the kernel's pages. The tables it hangs up and the entries it
sets lie beside the kernel's page directory, so that what is ahead of the
cursor stays as `Laid` says (`Spare.map_laid`).

The reason is the shape of the tree. A word of a table outside the directory is
on no path that goes through it, so a store there is seen by no path of the
kernel's pages (`Laid.write_aside`); and a page that has been handed out is
none of the tables ahead (`Taken.not_ahead`).

The paging test at the end of booting is one such call (`sanityCheck_laid`). It
maps an address of its own, writes through it and reads the value back, and
leaves the mapping there.
-/

namespace VersionSix.Page

/-! ## Writes outside the kernel's directory -/

theorem node_parent {s : Paging} {q : List Nat} {i : Nat} {n : Node}
    (h : s.nodeAt (q ++ [i]) = some n) : ∃ l f, s.nodeAt q = some (.table l f) ∧ i < 512 ∧
      s.memory (f + 8 * i) &&& pageFlagPresent ≠ 0 ∧ n = entryNode l (s.memory (f + 8 * i)) := by
  cases hq : s.nodeAt q with
  | none => rw [nodeAt_append_none hq] at h; cases h
  | some m =>
      rw [nodeAt_concat hq] at h
      cases m with
      | table l f => exact ⟨l, f, rfl, look_eq_some h⟩
      | page f => cases h
      | huge e => cases h

/-- A word that is in no table, nor in the table that comes next. -/
theorem Laid.write_out {b : KernelInfo} {s : Paging} {d : Nat} (hc : Cursor b d s)
    (hs : Laid b d s) {a : Nat} (value : Nat)
    (ha : ∀ p l f, s.nodeAt p = some (.table l f) → a < f ∨ f + 4096 ≤ a)
    (hspare : Allocated b s s.kNewPt → s.kCurrentPt ≠ s.kNewPt →
      a < ptrFrame b s.kNewPt ∨ ptrFrame b s.kNewPt + 4096 ≤ a) :
    Laid b d (s.write a value) ∧ ∀ p, (s.write a value).nodeAt p = s.nodeAt p := by
  have hword : ∀ {p l f}, s.nodeAt p = some (.table l f) → ∀ i, i < 512 →
      (s.write a value).memory (f + 8 * i) = s.memory (f + 8 * i) := by
    intro p l f hp i hi
    have hout := ha p l f hp
    exact Function.update_of_ne (by omega) ..
  have hnodes := nodeAt_congr (show (s.write a value).cr3 = s.cr3 from rfl)
    fun p l f hp => hword hp
  obtain ⟨-, hdir, htable⟩ := hc.nodes
  refine ⟨⟨⟨fun hp => hs.tree.placed ((hnodes _).symm.trans hp), fun hp hq =>
    hs.tree.unshared ((hnodes _).symm.trans hp) ((hnodes _).symm.trans hq)⟩,
    fun hp => hs.tables ((hnodes _).symm.trans hp), fun hp => hs.pages ((hnodes _).symm.trans hp),
    fun i hi hlt => ?_, fun j hj hlt => ?_, fun hnew hne => ⟨fun q l hq => ?_, fun i hi => ?_⟩⟩,
    hnodes⟩
  · exact (congrArg (· &&& pageFlagPresent) (hword htable i hlt)).trans (hs.entries i hi hlt)
  · exact (congrArg (· &&& pageFlagPresent) (hword hdir j hlt)).trans (hs.directory j hj hlt)
  · exact (hs.spare hnew hne).1 q l ((hnodes q).symm.trans hq)
  · have hout := hspare hnew hne
    change Function.update s.memory a value (ptrFrame b s.kNewPt + 8 * i) = 0
    rw [Function.update_of_ne (by omega)]
    exact (hs.spare hnew hne).2 i hi

/-- An entry of a table that is not the kernel's page directory nor below it. -/
theorem Laid.write_aside {b : KernelInfo} (h : Layout b) {s : Paging} (hc : Cursor b 0 s)
    (hs : Laid b 0 s) {q : List Nat} {l t c entry : Nat} (hq : s.nodeAt q = some (.table l t))
    (hlt : c < 512) (hout : ¬ [511, 510] <+: q ++ [c]) (he : entry &&& pageFlagPresent ≠ 0)
    (hleaf : ∀ i, look (s.write (t + 8 * c) entry).memory (entryNode l entry) i = none)
    (hnew : ∀ l' f, entryNode l entry = .table l' f → f % 4096 = 0 ∧ f + 4096 ≤ identityMapSize ∧
      Taken b s f ∧ (∀ p l'', s.nodeAt p ≠ some (.table l'' f)) ∧
      (Allocated b s s.kNewPt → f ≠ ptrFrame b s.kNewPt)) :
    Laid b 0 (s.write (t + 8 * c) entry) := by
  obtain ⟨-, hdir, htable⟩ := hc.nodes
  have htree := hs.tree.write hq hlt he hleaf fun l' f heq =>
    ⟨(hnew l' f heq).1, (hnew l' f heq).2.1, (hnew l' f heq).2.2.2.1⟩
  have hnodes := hs.tree.nodeAt_write hq hlt he hleaf
  have ht := (hs.tree.placed hq).1
  -- the kernel's directory and the current table are other tables
  have hne : ∀ {p l' f}, [511, 510] <+: p → s.nodeAt p = some (.table l' f) → t ≠ f := by
    intro p l' f hp hf heq
    subst heq
    obtain rfl := hs.tree.unshared hq hf
    exact hout (hp.trans (List.prefix_append _ _))
  have hne₁ := hne (List.prefix_rfl) hdir
  have hne₂ := hne (List.prefix_append [511, 510] [s.kCurrentPdIndex]) htable
  have hdir' := (hs.tree.placed hdir).1
  have htable' := (hs.tree.placed htable).1
  have hcases : ∀ {p l' f}, (s.write (t + 8 * c) entry).nodeAt p = some (.table l' f) →
      entryNode l entry = .table l' f ∨ s.nodeAt p = some (.table l' f) := by
    intro p l' f hp
    rw [hnodes] at hp
    split at hp
    · exact .inl (Option.some.inj hp)
    split at hp
    · cases hp
    · exact .inr hp
  refine ⟨htree, fun hp => ?_, fun {j k f} hp => ?_, fun i hi hlt => ?_, fun j hj hlt => ?_,
    fun halloc hcur => ⟨fun p l' hp => ?_, fun i hi => ?_⟩⟩
  · rcases hcases hp with heq | hp
    · exact (hnew _ _ heq).2.2.1
    · exact hs.tables hp
  · rw [hnodes] at hp
    split at hp
    · next heq => exact absurd ⟨[j, k], heq⟩ hout
    split at hp
    · cases hp
    · exact hs.pages hp
  · refine (congrArg (· &&& pageFlagPresent) ?_).trans (hs.entries i hi hlt)
    exact Function.update_of_ne (by change ptrFrame b s.kCurrentPt + 8 * i ≠ _; omega) ..
  · refine (congrArg (· &&& pageFlagPresent) ?_).trans (hs.directory j hj hlt)
    exact Function.update_of_ne (by omega) ..
  · rcases hcases hp with heq | hp
    · exact (hnew _ _ heq).2.2.2.2 halloc rfl
    · exact (hs.spare halloc hcur).1 p l' hp
  · have halign : ptrFrame b s.kNewPt % 4096 = 0 := (h.table_frame hc (.inr halloc)).1
    have hother : t ≠ ptrFrame b s.kNewPt := by
      rintro rfl
      exact (hs.spare halloc hcur).1 q l hq
    change Function.update s.memory (t + 8 * c) entry (ptrFrame b s.kNewPt + 8 * i) = 0
    rw [Function.update_of_ne (by omega)]
    exact (hs.spare halloc hcur).2 i hi

theorem Laid.outsideUpper {b : KernelInfo} {s : Paging} (hc : Cursor b 0 s)
    (hs : Laid b 0 s) {q : List Nat} {l t c : Nat} (hq : s.nodeAt q = some (.table l t))
    (hlt : c < 512) (hout : ¬ [511, 510] <+: q ++ [c]) (hover : ¬ q ++ [c] <+: [511, 510]) :
    OutsideUpper b (t + 8 * c) := by
  obtain ⟨hpdpt, hdir, -⟩ := hc.nodes
  have hroot : s.nodeAt [] = some (.table 3 (pml4Frame b)) := by rw [nodeAt_nil, hc.cr3]
  have ht := (hs.tree.placed hq).1
  have hP4 := (hs.tree.placed hroot).1
  have hP3 := (hs.tree.placed hpdpt).1
  have hP2 := (hs.tree.placed hdir).1
  refine ⟨fun heq => ?_, fun heq => ?_, ?_⟩
  · obtain ⟨rfl, rfl⟩ : t = pml4Frame b ∧ c = 511 := by omega
    obtain rfl := hs.tree.unshared hq hroot
    exact hover ⟨[510], rfl⟩
  · obtain ⟨rfl, rfl⟩ : t = pdptFrame b ∧ c = 510 := by omega
    obtain rfl := hs.tree.unshared hq hpdpt
    exact hout List.prefix_rfl
  · have hne : t ≠ pdFrame b := by
      rintro rfl
      obtain rfl := hs.tree.unshared hq hdir
      exact hout (List.prefix_append _ _)
    omega

/-! ## Mapping other addresses -/

theorem Cursor.ptrFrame_next {b : KernelInfo} {s : Paging} {d : Nat} (hc : Cursor b d s) (k : Nat) :
    ptrFrame b (s.kernelVirtualMemoryNext + 4096 * k) = s.kernelPhysicalMemoryNext + 4096 * k := by
  obtain ⟨n, hv, hn⟩ := hc.count
  unfold ptrFrame
  rw [if_pos (by omega)]
  omega

/-- A frame of the area that has not been handed out is not taken. -/
theorem Taken.not_ahead {b : KernelInfo} (h : Layout b) {s : Paging} {f : Nat}
    (hnext : b.kernelAllocateMemoryStart ≤ s.kernelPhysicalMemoryNext)
    (hf : s.kernelPhysicalMemoryNext ≤ f ∧ f + 4096 ≤ areaEnd b) : ¬ Taken b s f := by
  intro htaken
  have hout := htaken.out h
  omega

theorem Cursor.area_le {b : KernelInfo} {s : Paging} {d : Nat} (hc : Cursor b d s) :
    b.kernelAllocateMemoryStart ≤ s.kernelPhysicalMemoryNext := by
  obtain ⟨n, -, hn⟩ := hc.count
  omega

/-- The page that a call takes is an empty page of its own. -/
theorem Spare.linear_laid {b : KernelInfo} (h : Layout b) {k : Nat} {s : Paging}
    (hs : Spare b (k + 2) s) (hl : Laid b 0 s) :
    ∃ v s' new, pageAllocateKernelLinear 1 s = some (v, s') ∧ Spare b k s' ∧ Laid b 0 s' ∧
      Further b (renews s + 1) s s' ∧ Grows b new s s' ∧ DataPage b s' v ∧ Blank b s' v ∧
      mmu s' v = some (ptrFrame b v) := by
  have hrenews := renews_le s
  have hindex := hs.cursor.indexes.2
  obtain ⟨s', new, hs', hfurther, hlaid, hgrows, hnewPt, -, hpages⟩ :=
    Page.linear_laid h hs.cursor hl (n := 1) (by decide) hs.newPd (hs.fits.mono (by omega))
      (.inl hs.newPt) (by omega)
  obtain ⟨hdata, hpage⟩ := hpages 0 (by decide)
  rw [Nat.mul_zero, Nat.add_zero] at hdata
  rw [Nat.mul_zero, Nat.add_zero, Nat.add_zero] at hpage
  have halloc := hnewPt hs.newPt
  have hframe := hs.cursor.ptrFrame_next (renews s)
  have hroom := hfurther.cursor.room
  rw [hfurther.phys] at hroom
  refine ⟨_, s', new, hs', ⟨hfurther.cursor, by rw [hfurther.newPd]; exact hs.newPd, halloc,
    .further hs.cursor hfurther (hs.fits.mono (by omega))⟩, hlaid, hfurther, hgrows, hdata,
    ⟨fun q l hq => ?_, fun i hi => ?_⟩, by rw [hframe]; exact hpage.found⟩
  · rcases hgrows.table q l _ hq with hq | heq
    · refine Taken.not_ahead h hs.cursor.area_le ?_ (hl.tables hq)
      omega
    · exact h.data_frame hfurther.cursor hdata.allocated (.inr halloc) hdata.notNew heq
  · rw [hframe]
    exact hpage.zero i hi

theorem Further.pointer {b : KernelInfo} {n : Nat} {s s' : Paging} {d : Nat} (hc : Cursor b d s)
    (h : Further b n s s') {p f : Nat} (hp : physOf s p = some f) : physOf s' p = some f := by
  obtain ⟨h₁, h₂, h₃, h₄⟩ := hc.bases
  obtain ⟨h₁', h₂', h₃', h₄'⟩ := h.cursor.bases
  refine physOf_grows (h₁'.trans h₁.symm) (h₂'.trans h₂.symm) (h₃'.trans h₃.symm)
    (h₄'.trans h₄.symm) ?_ hp
  exact h.virt ▸ Nat.le_add_right ..

theorem setupTable_laid {b : KernelInfo} (h : Layout b) {k : Nat} {s : Paging}
    (hs : Spare b (k + 2) s) (hl : Laid b 0 s) {table : Option Nat} {parent l c : Nat}
    {q : List Nat} (hparent : IsTable s parent q (l + 1)) (hc : c < 512)
    (hout : ¬ [511, 510] <+: q ++ [c]) (hfound : Found s table (q ++ [c]) l) :
    ∃ ptr s', setupTable (pageAllocateKernelLinear 1) s table parent c = some (ptr, s') ∧
      Spare b k s' ∧ Laid b 0 s' ∧ IsTable s' ptr (q ++ [c]) l ∧
      (table = none → ∀ d, s'.nodeAt (q ++ [c] ++ [d]) = none) ∧ (table ≠ none → s' = s) := by
  cases table with
  | some ptr =>
      exact ⟨ptr, s, rfl, ⟨hs.cursor, hs.newPd, hs.newPt, hs.fits.mono (Nat.le_add_right ..)⟩, hl,
        hfound, (nomatch ·), fun _ => rfl⟩
  | none =>
      obtain ⟨t, ht, hq⟩ := hparent
      obtain ⟨v, s₁, new, hs₁, hspare, hlaid, hfurther, hgrows, hdata, hblank, -⟩ :=
        hs.linear_laid h hl
      have hcur := hspare.cursor
      have hframe := h.table_frame hcur (.inr hdata.allocated)
      have hq₁ := hgrows.kept _ _ hq
      generalize hval : pagingMakePage (ptrFrame b v) (pageFlagPresent ||| pageFlagReadWrite)
        = entry
      have hpresent : entry &&& pageFlagPresent ≠ 0 := hval ▸ tableEntry_present _
      have hentry : entryNode (l + 1) entry = .table l (ptrFrame b v) :=
        hval ▸ tableEntry_node ⟨hframe.1, hframe.2.1⟩ l
      have hleaf : ∀ i, look (s₁.write (t + 8 * c) entry).memory (entryNode (l + 1) entry) i
          = none := by
        intro i
        rw [hentry]
        have hne : ptrFrame b v ≠ t := fun heq => hblank.1 q (l + 1) (by rw [heq, hq₁])
        exact look_hung (hlaid.tree.placed hq₁).1 hframe.1 hc hne hblank.2 i
      have hover : ¬ q ++ [c] <+: [511, 510] := by
        rintro ⟨r, hr⟩
        have hdir := hs.cursor.nodes.2.1
        have hnone := nodeAt_append_none (q := r) hfound
        rw [hr, hdir] at hnone
        cases hnone
      have hnodes := hlaid.tree.nodeAt_write hq₁ hc hpresent hleaf
      refine ⟨v, s₁.write (t + 8 * c) entry, ?_,
        hspare.write (hlaid.outsideUpper hcur hq₁ hc hout hover) entry,
        hlaid.write_aside h hcur hq₁ hc hout hpresent hleaf fun l' f heq => ?_,
        ⟨ptrFrame b v, ?_, ?_⟩,
        fun _ d => ?_, fun hne => absurd rfl hne⟩
      · unfold setupTable
        dsimp only
        rw [hs₁, Option.bind_some]
        dsimp only
        rw [hcur.kernelPagePhysical_eq h hdata.allocated, hval,
          storeEntry_eq (hfurther.pointer hs.cursor ht)]
        rfl
      · rw [hentry] at heq
        obtain ⟨-, rfl⟩ := Node.table.inj heq
        exact ⟨hframe.1, hframe.2.1, .inr (hcur.allocated_frame hdata.allocated),
          fun p l'' => hblank.1 p l'', fun halloc =>
          h.data_frame hcur hdata.allocated (.inr halloc) hdata.notNew⟩
      · exact hcur.physOf_table h (.inr hdata.allocated)
      · rw [hnodes, if_pos rfl, hentry]
      · rw [hnodes, if_neg (by simp), if_pos (List.prefix_append _ _)]

theorem Spare.map_laid {b : KernelInfo} (h : Layout b) {k : Nat} {s : Paging}
    (hs : Spare b (k + 6) s) (hl : Laid b 0 s) {virt : Nat} (hplain : NoHuge s (pathOf virt))
    (hout : ¬ [511, 510] <+: pathOf virt) (phys : Nat) {flags : Nat}
    (hflags : flags &&& pageFlagPresent ≠ 0) :
    ∃ s', pagingPageMapToPml4 (pageAllocateKernelLinear 1) s 0 phys virt flags = some s' ∧
      Spare b k s' ∧ Laid b 0 s' ∧
      s'.nodeAt (pathOf virt) = some (.page (phys &&& pageAddrMask)) := by
  have hlt := getIndexes_lt virt
  have hroot : physOf s (pml4Pointer s 0) = some s.cr3 := by
    rw [pml4Pointer, if_pos rfl, hs.cursor.cr3]
    exact physOf_direct s (h.static_frame (t := b.kPml4) (by simp)).2.1
  obtain ⟨t, ht, hfound⟩ := findTables_ok hl.tree hplain hroot
  unfold pathOf at hout ⊢
  generalize hindex : pagingGetIndexes virt = index at *
  have houts : ¬ [511, 510] <+: [] ++ [index.pml4] ∧
      ¬ [511, 510] <+: [index.pml4] ++ [index.pdpt] ∧
      ¬ [511, 510] <+: [index.pml4, index.pdpt] ++ [index.pd] :=
    ⟨fun hp => hout (hp.trans ⟨_, rfl⟩), fun hp => hout (hp.trans ⟨_, rfl⟩),
      fun hp => hout (hp.trans ⟨_, rfl⟩)⟩
  obtain ⟨pdpt, s₁, h₁, hs₁, hl₁, htable₁, hempty₁, hsame₁⟩ :=
    setupTable_laid (k := k + 4) h hs hl (q := []) ⟨_, hroot, nodeAt_nil s⟩ hlt.1 houts.1
      hfound.pdpt
  have hfound₁ : Found s₁ t.pd [index.pml4, index.pdpt] 1 :=
    Found.below (p := [index.pml4]) hfound.pd hfound.pd_none hempty₁ hsame₁
  obtain ⟨pd, s₂, h₂, hs₂, hl₂, htable₂, hempty₂, hsame₂⟩ :=
    setupTable_laid (k := k + 2) h hs₁ hl₁ htable₁ hlt.2.1 houts.2.1 hfound₁
  have hfound₂ : Found s₂ t.pt [index.pml4, index.pdpt, index.pd] 0 :=
    Found.below (p := [index.pml4, index.pdpt]) hfound.pt hfound.pt_none hempty₂ fun h =>
      (hsame₂ h).trans (hsame₁ fun h' => h (hfound.pd_none h'))
  obtain ⟨pt, s₃, h₃, hs₃, hl₃, ⟨f, hf, hnode⟩, -, -⟩ :=
    setupTable_laid h hs₂ hl₂ htable₂ hlt.2.2.1 houts.2.2 hfound₂
  have hpresent : pagingMakePage phys flags &&& pageFlagPresent ≠ 0 :=
    fun h0 => hflags ((makePage_present ..).mp h0)
  have hleaf : ∀ i, look (s₃.write (f + 8 * index.pt) (pagingMakePage phys flags)).memory
      (entryNode 0 (pagingMakePage phys flags)) i = none := fun _ => rfl
  refine ⟨s₃.write (f + 8 * index.pt) (pagingMakePage phys flags), ?_,
    hs₃.write (hl₃.outsideUpper hs₃.cursor hnode hlt.2.2.2 hout fun hp => ?_) _,
    hl₃.write_aside h hs₃.cursor hnode hlt.2.2.2 hout hpresent hleaf fun _ _ heq => (nomatch heq),
    ?_⟩
  · subst hindex
    rw [pageMap_eq ht h₁ h₂ h₃]
    exact storeEntry_eq hf ..
  · exact absurd hp.length_le (by simp)
  · have hnodes := hl₃.tree.nodeAt_write hnode hlt.2.2.2 hpresent hleaf
      [index.pml4, index.pdpt, index.pd, index.pt]
    refine hnodes.trans ((if_pos rfl).trans ?_)
    rw [entryNode_page, makePage_addr]

/-! ## The paging test -/

theorem entryNode_eq_page {l entry f : Nat} (h : .page f = entryNode l entry) :
    l = 0 ∧ entry &&& pageAddrMask = f := by
  cases l with
  | zero => exact ⟨rfl, (Node.page.inj h).symm⟩
  | succ l =>
      unfold entryNode at h
      dsimp only at h
      split at h <;> cases h

theorem entryNode_eq_table {l l' entry f : Nat} (h : .table l f = entryNode l' entry) :
    l' = l + 1 ∧ entry &&& pageFlagPageSize = 0 ∧ entry &&& pageAddrMask = f := by
  cases l' with
  | zero => cases h
  | succ l' =>
      unfold entryNode at h
      dsimp only at h
      split at h
      · cases h
      · next hplain =>
          obtain ⟨rfl, rfl⟩ := Node.table.inj h
          exact ⟨rfl, not_not.mp hplain, rfl⟩

/-- The processor finds the page at the end of the path of an address. -/
theorem mmu_of_page {s : Paging} {v f : Nat} (h : s.nodeAt (pathOf v) = some (.page f)) :
    mmu s v = some (f + v % 4096) := by
  rw [pathOf_eq] at h
  obtain ⟨l₀, f₀, h₀, -, hp₀, he₀⟩ := node_parent (q := [_, _, _]) h
  obtain ⟨rfl, hf₀⟩ := entryNode_eq_page he₀
  obtain ⟨l₁, f₁, h₁, -, hp₁, he₁⟩ := node_parent (q := [_, _]) h₀
  obtain ⟨rfl, hplain₁, hf₁⟩ := entryNode_eq_table he₁
  obtain ⟨l₂, f₂, h₂, -, hp₂, he₂⟩ := node_parent (q := [_]) h₁
  obtain ⟨rfl, hplain₂, hf₂⟩ := entryNode_eq_table he₂
  obtain ⟨l₃, f₃, h₃, -, hp₃, he₃⟩ := node_parent (q := []) h₂
  obtain ⟨rfl, hplain₃, hf₃⟩ := entryNode_eq_table he₃
  obtain ⟨-, rfl⟩ := Node.table.inj (Option.some.inj (h₃.symm.trans (nodeAt_nil s)))
  have hl₃ : v / 2 ^ (12 + 9 * (2 + 1)) % 512 = v / 2 ^ 39 % 512 := rfl
  have hl₂ : v / 2 ^ (12 + 9 * (1 + 1)) % 512 = v / 2 ^ 30 % 512 := rfl
  have hl₁ : v / 2 ^ (12 + 9 * (0 + 1)) % 512 = v / 2 ^ 21 % 512 := rfl
  rw [mmu, mmuWalk_leads hl₃ ⟨hp₃, hplain₃, hf₃⟩, mmuWalk_leads hl₂ ⟨hp₂, hplain₂, hf₂⟩,
    mmuWalk_leads hl₁ ⟨hp₁, hplain₁, hf₁⟩, mmuWalk, if_neg hp₀, hf₀]

theorem Taken.test {b : KernelInfo} (h : Layout b) {s : Paging} {f : Nat} (hf : Taken b s f)
    (hroom : s.kernelPhysicalMemoryNext ≤ areaEnd b) :
    f + 4096 ≤ 0x90000000 ∨ 0x90001000 ≤ f := by
  have htest := h.testPage
  unfold areaEnd at hroom
  unfold Taken InImage at hf
  omega

theorem Laid.write_test {b : KernelInfo} (h : Layout b) {s : Paging} (hc : Cursor b 0 s)
    (hs : Laid b 0 s) {a : Nat} (ha : 0x90000000 ≤ a ∧ a < 0x90001000) (value : Nat) :
    Laid b 0 (s.write a value) ∧ ∀ p, (s.write a value).nodeAt p = s.nodeAt p := by
  refine hs.write_out hc value (fun p l f hp => ?_) fun halloc _ => ?_
  · have htest := (hs.tables hp).test h hc.room
    omega
  · have htest := (show Taken b s (ptrFrame b s.kNewPt) from
      .inr (hc.allocated_frame halloc)).test h hc.room
    omega

theorem sanityCheck_laid {b : KernelInfo} (h : Layout b) {k : Nat} {s s' : Paging}
    (hs : Spare b (k + 8) s) (hl : Laid b 0 s) (hplain : NoHuge s (pathOf 0x00001122BADA0000))
    (hcheck : sanityCheck s = some s') : Laid b 0 s' := by
  obtain ⟨v, s₁, new, hs₁, hspare₁, hl₁, -, hgrows, hdata, hblank, hmmu⟩ :=
    Spare.linear_laid (k := k + 6) h hs hl
  have hframe := h.table_frame hspare₁.cursor (.inr hdata.allocated)
  obtain ⟨s₃', s₄, hs₃', hs₄, hs₅⟩ := sanityCheck_stages hcheck hs₁ hmmu
  -- the value goes into the page just allocated
  have hword : Word b s₁ (ptrFrame b v) :=
    .inr ⟨v, 0, hdata, by decide, by rw [Nat.mul_zero, Nat.add_zero]⟩
  have hP4 : pml4Frame b % 4096 = 0 := (h.static_frame (t := b.kPml4) (by simp)).1
  have hspare₂ := hspare₁.write (hword.outsideUpper h hspare₁.cursor (by omega)) 0x00001111BADAB000
  obtain ⟨hl₂, hnodes₂⟩ := hl₁.write_out hspare₁.cursor (a := ptrFrame b v) 0x00001111BADAB000
    (fun p l f hp => by
      have hne : f ≠ ptrFrame b v := by
        rintro rfl
        exact hblank.1 p l hp
      have halign := (hl₁.tree.placed hp).1
      omega)
    fun halloc _ => by
      have hne := h.data_frame hspare₁.cursor hdata.allocated (.inr halloc) hdata.notNew
      have halign := (h.table_frame hspare₁.cursor (.inr halloc)).1
      omega
  have hplain₂ : NoHuge (s₁.write (ptrFrame b v) 0x00001111BADAB000)
      (pathOf 0x00001122BADA0000) := by
    intro p hp e hhuge
    rw [hnodes₂] at hhuge
    exact hgrows.noHuge hplain p hp e hhuge
  obtain ⟨s₃, hs₃, hspare₃, hl₃, hnode⟩ :=
    hspare₂.map_laid h hl₂ hplain₂ (by decide) 0x90000000 tableFlags_present
  obtain rfl := Option.some.inj (hs₃.symm.trans hs₃')
  -- the two stores go into the test page
  have hphys : (0x90000000 &&& pageAddrMask) = 0x90000000 := by decide
  rw [hphys] at hnode
  obtain rfl := Option.some.inj ((storeVirtual_eq (mmu_of_page hnode) 30).symm.trans hs₄)
  have htest : 0x90000000 ≤ 0x90000000 + 0x00001122BADA0000 % 4096 ∧
      0x90000000 + 0x00001122BADA0000 % 4096 < 0x90001000 := by decide
  obtain ⟨hl₄, hnodes₄⟩ := hl₃.write_test h hspare₃.cursor htest 30
  have hspare₄ := hspare₃.write (h.test_outsideUpper htest) 30
  have hpath : pathOf (0x00001122BADA0000 + 8) = pathOf 0x00001122BADA0000 := by decide
  have hnode₄ := (hnodes₄ (pathOf 0x00001122BADA0000)).trans hnode
  rw [← hpath] at hnode₄
  obtain rfl := Option.some.inj ((storeVirtual_eq (mmu_of_page hnode₄) 40).symm.trans hs₅)
  exact (hl₄.write_test h hspare₄.cursor ⟨by decide, by decide⟩ 40).1

end VersionSix.Page
