import VersionSix.PageAside

/-!
# Contiguous kernel pages

`page_allocate_kernel_linear` returns pages that follow each other in the
kernel's gigabyte and in memory, as long as the one table that was put aside is
enough for the call (`linear_contiguous`). It is taken once, before the pages:
a call that fills it comes back to the same table, and the pages mapped in it
first are lost (`second_rollover`).

The mapping of other addresses takes its tables from the same cursor, so the
runs here also have calls of `page_map`. Between two requests the state is
`Steady`: the cursor is in step, and the tables ahead of it are laid. Booting
leads to such a state, and each request keeps it, under a condition that speaks
of the request and the state before it.

The promise itself is `Contiguous`: consecutive addresses, consecutive fresh
frames, zeros in them, and the translations of everything that was mapped
before.
-/

namespace VersionSix.Page

/-! ## The tables that booting starts with -/

/-- What the boot loader leaves: the static tables that nobody clears are zero,
`identity_map` is one of the pages of the image, and the image ends at
`kernel_end`. -/
structure Loaded (b : KernelInfo) (s : Paging) : Prop where
  before : BeforeSetUp b s
  map : b.identityMap % 4096 = 0 ∧ kernelStart ≤ b.identityMap ∧ b.identityMap + 4096 ≤ b.kernelEnd
  mapOther : b.identityMap ∉ [b.kPml4, b.kPdpt, b.kPd, b.kPt1, b.kPt2, b.kPt3, b.kPt4]
  mapZero : ∀ i, i < 512 → s.memory (imagePhysical b b.identityMap + 8 * i) = 0
  cr3 : s.cr3 ≠ imagePhysical b b.identityMap
  pages : ∀ pages, numKernelPages b = some pages → kernelStart + 4096 * pages ≤ b.kernelEnd

/-- The words that no turn of the loop sets. -/
structure Beside (b : KernelInfo) (s : Paging) : Prop where
  pml4 : ∀ j, j < 512 → j ≠ 511 → s.memory (pml4Frame b + 8 * j) = 0
  pdpt : ∀ j, j < 512 → j ≠ 510 → s.memory (pdptFrame b + 8 * j) = 0
  map : ∀ i, i < 512 → s.memory (imagePhysical b b.identityMap + 8 * i) =
    if i < 8 then pagingMakePage (i * 0x40000000) (tableFlags ||| pageFlagPageSize) else 0

theorem Loaded.map_frame {b : KernelInfo} (h : Layout b) {s : Paging} (hs : Loaded b s) :
    imagePhysical b b.identityMap % 4096 = 0 ∧
      imagePhysical b b.identityMap + 4096 ≤ identityMapSize ∧
      InImage b (imagePhysical b b.identityMap) ∧
      ∀ t ∈ [b.kPml4, b.kPdpt, b.kPd, b.kPt1, b.kPt2, b.kPt3, b.kPt4],
        imagePhysical b b.identityMap ≠ imagePhysical b t := by
  have hk : kernelStart = 0xFFFFFFFF80000000 := rfl
  obtain ⟨halign, hstart, hend⟩ := hs.map
  have himage := h.image
  unfold InImage
  rw [h.imagePhysical_eq ⟨hstart, hend⟩]
  refine ⟨by omega, by omega, by omega, fun t ht heq => hs.mapOther ?_⟩
  obtain ⟨-, ht₁, ht₂⟩ := h.statics t ht
  rw [h.imagePhysical_eq ⟨ht₁, ht₂⟩] at heq
  rwa [show b.identityMap = t by omega]

theorem setupKernelPage_beside {b : KernelInfo} (h : Layout b) {s₀ s s' : Paging}
    (hl : Loaded b s₀) {i : Nat} (hi : i < 2 ^ 16) (hs : Beside b s)
    (hstep : setupKernelPage b s i = some s') : Beside b s' := by
  obtain ⟨pt, hpt, hset⟩ := setupKernelPage_sets h.staticTables hi hstep
  obtain ⟨hmem, -⟩ := kernelPt_mem hpt
  have hP4 : pml4Frame b % 4096 = 0 := (h.static_frame (t := b.kPml4) (by simp)).1
  have hP3 : pdptFrame b % 4096 = 0 := (h.static_frame (t := b.kPdpt) (by simp)).1
  obtain ⟨hne₁, hne₂, hne₃⟩ := h.upper_frames
  obtain ⟨hne₄, hne₅, -⟩ := h.pt_frame hmem
  obtain ⟨hmap, -, -, hother⟩ := hl.map_frame h
  have hm₁ := hother pt (kernelPt_static hpt)
  have hm₂ : imagePhysical b b.identityMap ≠ pdFrame b := hother b.kPd (by simp)
  have hm₃ : imagePhysical b b.identityMap ≠ pdptFrame b := hother b.kPdpt (by simp)
  have hm₄ : imagePhysical b b.identityMap ≠ pml4Frame b := hother b.kPml4 (by simp)
  refine ⟨fun j hj' hne => ?_, fun j hj' hne => ?_, fun j hj' => ?_⟩
  · rw [hset.kept h.staticTables hpt hP4 hj' (.inl hne₄.symm) (.inl hne₂) (.inl hne₁) (.inr hne)]
    exact hs.pml4 j hj' hne
  · rw [hset.kept h.staticTables hpt hP3 hj' (.inl hne₅.symm) (.inl hne₃) (.inr hne)
      (.inl hne₁.symm)]
    exact hs.pdpt j hj' hne
  · rw [hset.kept h.staticTables hpt hmap hj' (.inl hm₁) (.inl hm₂) (.inl hm₃) (.inl hm₄)]
    exact hs.map j hj'

theorem setupIdentityMap_at {b : KernelInfo} {s : Paging} {i : Nat}
    (hzero : s.memory (imagePhysical b b.identityMap + 8 * i) = 0) :
    (setupIdentityMap b s).memory (imagePhysical b b.identityMap + 8 * i) =
      if i < 8 then pagingMakePage (i * 0x40000000) (tableFlags ||| pageFlagPageSize) else 0 := by
  have hall : ∀ n, ((List.range n).foldl (fun s i => setStatic b s b.identityMap i
      (pagingMakePage (i * 0x40000000) (tableFlags ||| pageFlagPageSize))) s).memory
        (imagePhysical b b.identityMap + 8 * i) =
      if i < n then pagingMakePage (i * 0x40000000) (tableFlags ||| pageFlagPageSize) else 0 := by
    intro n
    induction n with
    | zero => exact hzero
    | succ n ih =>
        rw [List.range_succ, List.foldl_append, List.foldl_cons, List.foldl_nil]
        by_cases hin : i = n
        · subst hin
          rw [if_pos (Nat.lt_succ_self i)]
          exact Function.update_self ..
        · refine (Function.update_of_ne (by omega) ..).trans (ih.trans ?_)
          by_cases hlt : i < n
          · rw [if_pos hlt, if_pos (by omega)]
          · rw [if_neg hlt, if_neg (by omega)]
  exact hall 8

theorem clearTables_other {b : KernelInfo} {tables : List Nat} {s : Paging} {a : Nat}
    (h : ∀ t ∈ tables, a < imagePhysical b t ∨ imagePhysical b t + 4096 ≤ a) :
    (tables.foldl (clearTable b) s).memory a = s.memory a := by
  induction tables generalizing s with
  | nil => rfl
  | cons t tables ih =>
      have hout := h t List.mem_cons_self
      refine (ih fun u hu => h u (List.mem_cons_of_mem _ hu)).trans (if_neg ?_)
      unfold pageSize
      omega

theorem beside_start {b : KernelInfo} (h : Layout b) {s : Paging} (hl : Loaded b s) :
    Beside b (beforeLoop b s) := by
  have hcleared : ∀ {t i}, t ∈ [b.kPml4, b.kPdpt, b.kPd, b.kPt1, b.kPt2] → i < 512 →
      (beforeLoop b s).memory (imagePhysical b t + 8 * i) = 0 := beforeLoop_cleared b s
  obtain ⟨hmap, -, -, hother⟩ := hl.map_frame h
  have hcr3 := hl.before.aligned.1
  have hne := hl.cr3
  refine ⟨fun j hj _ => hcleared (t := b.kPml4) (by simp) hj, fun j hj _ =>
    hcleared (t := b.kPdpt) (by simp) hj, fun i hi => ?_⟩
  have hout : ∀ t ∈ [b.kPml4, b.kPdpt, b.kPd, b.kPt1, b.kPt2],
      imagePhysical b b.identityMap + 8 * i < imagePhysical b t ∨
        imagePhysical b t + 4096 ≤ imagePhysical b b.identityMap + 8 * i := by
    intro t ht
    have hstatic : t ∈ [b.kPml4, b.kPdpt, b.kPd, b.kPt1, b.kPt2, b.kPt3, b.kPt4] :=
      List.mem_append_left [b.kPt3, b.kPt4] ht
    have hframe := (h.static_frame hstatic).1
    have hne' := hother t hstatic
    omega
  dsimp only [beforeLoop]
  refine (clearTables_other hout).trans ?_
  exact (Function.update_of_ne (by omega) ..).trans (setupIdentityMap_at (hl.mapZero i hi))

/-- All words of the page tables that booting starts with. -/
structure Started (b : KernelInfo) (pages : Nat) (s : Paging) : Prop where
  cr3 : s.cr3 = pml4Frame b
  setUp : SetUp b pages s
  mapped : Mapped b pages s
  pml4Map : s.memory (pml4Frame b + 8 * 256) =
    pagingMakePage (imagePhysical b b.identityMap) tableFlags
  pml4 : ∀ j, j < 512 → j ≠ 511 → j ≠ 256 → s.memory (pml4Frame b + 8 * j) = 0
  pdpt : ∀ j, j < 512 → j ≠ 510 → s.memory (pdptFrame b + 8 * j) = 0
  map : ∀ i, i < 512 → s.memory (imagePhysical b b.identityMap + 8 * i) =
    if i < 8 then pagingMakePage (i * 0x40000000) (tableFlags ||| pageFlagPageSize) else 0

theorem initialStructures_started {b : KernelInfo} (h : Layout b) {s s' : Paging}
    (hl : Loaded b s) (hsetup : pagingSetupInitialStructures b s = some s') :
    ∃ pages, numKernelPages b = some pages ∧ Started b pages s' := by
  have hk : kernelStart = 0xFFFFFFFF80000000 := rfl
  have hsize : identityMapSize = 0x200000000 := rfl
  obtain ⟨pages, hpages, hsetUp, hcr3⟩ := initialStructures_setUp h.staticTables hsetup
  have himage : imagePhysical b kernelStart % 4096 = 0 ∧
      imagePhysical b kernelStart + 4096 * pages ≤ 2 ^ 52 := by
    have hend := hl.pages pages hpages
    have hphys := h.image
    have hbase := h.base
    have hkernelEnd := h.kernelEnd
    unfold imagePhysical
    omega
  have hmapped := initialStructures_mapped hl.before hpages himage hsetup
  have hlt := numKernelPages_le hpages
  obtain ⟨s₁, hloop, -, -, -, hself, hsame⟩ := initialStructures_run (I := fun _ => Beside b)
    hpages (beside_start h hl) (fun i s s' hi hI hf =>
      setupKernelPage_beside h hl (Nat.lt_of_lt_of_le hi hlt) hI hf) hsetup
  obtain ⟨hmap, -, -, hother⟩ := hl.map_frame h
  have hP4 : pml4Frame b % 4096 = 0 := (h.static_frame (t := b.kPml4) (by simp)).1
  have hP3 : pdptFrame b % 4096 = 0 := (h.static_frame (t := b.kPdpt) (by simp)).1
  have hne₁ : imagePhysical b b.identityMap ≠ pml4Frame b := hother b.kPml4 (by simp)
  have hne₂ := h.upper_frames.1
  refine ⟨pages, hpages, ⟨hcr3, hsetUp, hmapped, hself, fun j hj hne hne' => ?_,
    fun j hj hne => ?_, fun i hi => ?_⟩⟩
  · exact (hsame _ (by omega)).trans (hloop.pml4 j hj hne)
  · exact (hsame _ (by omega)).trans (hloop.pdpt j hj hne)
  · exact (hsame _ (by omega)).trans (hloop.map i hi)

/-- The tables, and the paths they are found on. -/
def startTables (b : KernelInfo) : List (List Nat × Nat) :=
  [([256], b.identityMap), ([], b.kPml4), ([511], b.kPdpt), ([511, 510], b.kPd),
    ([511, 510, 0], b.kPt1), ([511, 510, 1], b.kPt2), ([511, 510, 2], b.kPt3),
    ([511, 510, 3], b.kPt4)]

theorem EntryAt.addr {memory : Nat → Nat} {p : Prop} [Decidable p] {a f : Nat}
    (h : EntryAt memory p a f) (hpresent : memory a &&& pageFlagPresent ≠ 0) :
    memory a &&& pageAddrMask = f := by
  unfold EntryAt at h
  split at h
  · rw [h, Nat.zero_and] at hpresent
    exact absurd rfl hpresent
  · exact h.addr

theorem present_ne_zero {w : Nat} (h : w &&& pageFlagPresent ≠ 0) : w ≠ 0 := by
  rintro rfl
  exact h (Nat.zero_and _)

theorem Started.tables {b : KernelInfo} (h : Layout b) {s₀ s : Paging} (hl : Loaded b s₀)
    {pages : Nat} (hs : Started b pages s) {p : List Nat} {l f : Nat}
    (hp : s.nodeAt p = some (.table l f)) :
    ∃ t, (p, t) ∈ startTables b ∧ l + p.length = 3 ∧ f = imagePhysical b t := by
  induction p using List.reverseRecOn generalizing l f with
  | nil =>
      obtain ⟨rfl, rfl⟩ := Node.table.inj (Option.some.inj ((nodeAt_nil s).symm.trans hp))
      exact ⟨b.kPml4, by simp [startTables], rfl, hs.cr3⟩
  | append_singleton q i ih =>
      obtain ⟨l', f', hq, hi, hpresent, hentry⟩ := node_parent hp
      obtain ⟨rfl, hplain, rfl⟩ := entryNode_eq_table hentry
      obtain ⟨t, hmem, hlength, rfl⟩ := ih hq
      have hzero := present_ne_zero hpresent
      have hdepth : l + (q ++ [i]).length = 3 := by
        rw [List.length_append, List.length_singleton]
        omega
      simp only [startTables, List.mem_cons, Prod.mk.injEq, List.not_mem_nil, or_false] at hmem
      rcases hmem with ⟨rfl, rfl⟩ | ⟨rfl, rfl⟩ | ⟨rfl, rfl⟩ | ⟨rfl, rfl⟩ | hleaf
      · -- the entries of `identity_map` are huge pages
        have hword := hs.map i hi
        split at hword
        · next hlt =>
            rw [hword] at hplain
            have hall : ∀ i, i < 8 → pagingMakePage (i * 0x40000000)
                (tableFlags ||| pageFlagPageSize) &&& pageFlagPageSize ≠ 0 := by decide
            exact absurd hplain (hall i hlt)
        · exact absurd hword hzero
      · by_cases h511 : i = 511
        · subst h511
          exact ⟨b.kPdpt, by simp [startTables], hdepth, hs.setUp.pml4Entry.addr hpresent⟩
        by_cases h256 : i = 256
        · subst h256
          obtain ⟨halign, hdirect, -⟩ := hl.map_frame h
          unfold identityMapSize at hdirect
          have hword := hs.pml4Map
          rw [pml4Frame] at hword
          refine ⟨b.identityMap, by simp [startTables], hdepth, ?_⟩
          rw [hword, makePage_addr, and_pageAddrMask_of_aligned halign (by omega)]
        · exact absurd (hs.pml4 i hi h511 h256) hzero
      · by_cases h510 : i = 510
        · subst h510
          exact ⟨b.kPd, by simp [startTables], hdepth, hs.setUp.pdptEntry.addr hpresent⟩
        · exact absurd (hs.pdpt i hi h510) hzero
      · by_cases hlow : i < 4
        · obtain ⟨pt, hpt⟩ := kernelPt_of_lt b hlow
          refine ⟨pt, ?_, hdepth, (hs.setUp.pdEntry i pt hi hpt).addr hpresent⟩
          unfold kernelPt at hpt
          split at hpt <;> simp_all [startTables]
        · exact absurd (hs.mapped.high i (by omega) hi) hzero
      · have hthree : q.length = 3 := by
          rcases hleaf with ⟨rfl, -⟩ | ⟨rfl, -⟩ | ⟨rfl, -⟩ | ⟨rfl, -⟩ <;> rfl
        omega

theorem Started.tree {b : KernelInfo} (h : Layout b) {s₀ s : Paging} (hl : Loaded b s₀)
    {pages : Nat} (hs : Started b pages s) :
    TreeOk s ∧ ∀ {p l f}, s.nodeAt p = some (.table l f) → InImage b f := by
  have hframe : ∀ {p t}, (p, t) ∈ startTables b → imagePhysical b t % 4096 = 0 ∧
      imagePhysical b t + 4096 ≤ identityMapSize ∧ InImage b (imagePhysical b t) := by
    intro p t ht
    rcases List.mem_cons.mp ht with heq | ht
    · obtain ⟨-, rfl⟩ := Prod.mk.inj heq
      obtain ⟨halign, hdirect, himage, -⟩ := hl.map_frame h
      exact ⟨halign, hdirect, himage⟩
    · have hstatic : t ∈ [b.kPml4, b.kPdpt, b.kPd, b.kPt1, b.kPt2, b.kPt3, b.kPt4] := by
        have hmem := List.mem_map_of_mem (f := Prod.snd) ht
        exact hmem
      have hpage := h.static_frame hstatic
      obtain ⟨-, hstart, hend⟩ := h.statics t hstatic
      refine ⟨hpage.1, hpage.2.1, ?_⟩
      unfold InImage
      rw [h.imagePhysical_eq ⟨hstart, hend⟩]
      omega
  have hnodup : ((startTables b).map fun x => imagePhysical b x.2).Nodup := by
    refine List.nodup_cons.mpr ⟨fun hmem => ?_, h.staticTables.distinct⟩
    obtain ⟨t, ht, heq⟩ := List.mem_map.mp hmem
    exact (hl.map_frame h).2.2.2 t.2 (List.mem_map_of_mem (f := Prod.snd) ht) heq.symm
  refine ⟨⟨fun hp => ?_, fun hp hq => ?_⟩, fun hp => ?_⟩
  · obtain ⟨t, ht, -, rfl⟩ := hs.tables h hl hp
    exact ⟨(hframe ht).1, (hframe ht).2.1⟩
  · obtain ⟨t, ht, -, rfl⟩ := hs.tables h hl hp
    obtain ⟨u, hu, -, heq⟩ := hs.tables h hl hq
    exact (Prod.mk.inj (List.inj_on_of_nodup_map hnodup ht hu heq)).1
  · obtain ⟨t, ht, -, rfl⟩ := hs.tables h hl hp
    exact (hframe ht).2.2

theorem Started.page_inImage {b : KernelInfo} (h : Layout b) {s₀ s : Paging} (hl : Loaded b s₀)
    {pages : Nat} (hpages : numKernelPages b = some pages) (hs : Started b pages s) {j k f : Nat}
    (hp : s.nodeAt [511, 510, j, k] = some (.page f)) : InImage b f := by
  have hstart : kernelStart = 0xFFFFFFFF80000000 := rfl
  obtain ⟨l, g, hq, hk, hpresent, hentry⟩ := node_parent (q := [511, 510, j]) hp
  obtain ⟨rfl, rfl⟩ := entryNode_eq_page hentry
  obtain ⟨t, hmem, -, rfl⟩ := hs.tables h hl hq
  have hpt : kernelPt b j = some t := by
    simp only [startTables, List.mem_cons, Prod.mk.injEq, List.not_mem_nil, or_false,
      List.cons.injEq, and_true, true_and, reduceCtorEq, false_and, and_false, false_or] at hmem
    rcases hmem with ⟨rfl, rfl⟩ | ⟨rfl, rfl⟩ | ⟨rfl, rfl⟩ | ⟨rfl, rfl⟩ <;> rfl
  have hleaf := hs.mapped.leaf (512 * j + k) t (by
    rw [show (512 * j + k) / 512 = j by omega]
    exact hpt)
  rw [show (512 * j + k) % 512 = k by omega] at hleaf
  have hlt : ¬ pages ≤ 512 * j + k := by
    intro hle
    unfold EntryAt at hleaf
    rw [if_pos hle] at hleaf
    exact present_ne_zero hpresent hleaf
  have hend := hl.pages pages hpages
  have himage := h.image
  have hkernelEnd := h.kernelEnd
  have hsize : identityMapSize = 0x200000000 := rfl
  have hbase : imagePhysical b kernelStart = b.kernelPhysicalBase := by
    unfold imagePhysical
    rw [h.base]
    omega
  rw [hleaf.addr hpresent, hbase]
  unfold InImage
  omega

theorem startCursor_laid {b : KernelInfo} (hb : BootOk b) {s₀ s : Paging} (hl : Loaded b s₀)
    {pages : Nat} (hpages : numKernelPages b = some pages) (hs : Started b pages s) :
    Laid b 0 (startCursor b s) := by
  have h := hb.layout
  have hk : kernelStart = 0xFFFFFFFF80000000 := rfl
  obtain ⟨hc, -, -⟩ := startCursor_cursor hb hpages hs.setUp hs.cr3
  obtain ⟨htree, htables⟩ := hs.tree h hl
  obtain ⟨hpos, hdirectory⟩ := hb.image pages hpages
  have hend := hl.pages pages hpages
  have hpt := hs.setUp.pt hpos
  have hstatic := h.statics _ (kernelPt_static hpt)
  have hframe : ptrFrame b (startCursor b s).kCurrentPt = imagePhysical b s.kCurrentPt :=
    if_neg (show ¬ b.kernelEnd ≤ s.kCurrentPt by omega)
  -- the cursor stands at the first page after the image
  have hnext : b.kernelEnd = kernelStart +
      4096 * (512 * (startCursor b s).kCurrentPdIndex + (startCursor b s).kCurrentPtIndex + 0) :=
    hc.next
  have hindexes := hc.indexes
  have hcount : (b.kernelEnd - kernelStart) / 4096
      = 512 * (startCursor b s).kCurrentPdIndex + (startCursor b s).kCurrentPtIndex := by omega
  refine ⟨⟨htree.placed, htree.unshared⟩, fun hp => ?_, fun {j k f} hp => ?_, fun i hi hlt => ?_,
    fun j hj hlt => ?_, fun hnew _ => ?_⟩
  · exact .inl (htables hp)
  · exact .inl (hs.page_inImage h hl hpages hp)
  · have hleaf := hs.mapped.leaf (512 * ((pages - 1) / 512) + i) s.kCurrentPt (by
      rw [show (512 * ((pages - 1) / 512) + i) / 512 = (pages - 1) / 512 by omega]
      exact hpt)
    unfold EntryAt at hleaf
    rw [if_pos (by omega), show (512 * ((pages - 1) / 512) + i) % 512 = i by omega] at hleaf
    rw [hframe]
    exact (congrArg (· &&& pageFlagPresent) hleaf).trans (Nat.zero_and _)
  · have hword : s.memory (pdFrame b + 8 * j) = 0 := by
      by_cases hlow : j < 4
      · obtain ⟨pt, hpt'⟩ := kernelPt_of_lt b hlow
        have hentry := hs.setUp.pdEntry j pt hlt hpt'
        unfold EntryAt at hentry
        rwa [if_pos (by omega)] at hentry
      · exact hs.mapped.high j (by omega) hlt
    exact (congrArg (· &&& pageFlagPresent) hword).trans (Nat.zero_and _)
  · -- there is no page for the next table yet
    have hfresh : (startCursor b s).kernelVirtualMemoryNext = b.kernelEnd := rfl
    obtain ⟨-, hle, hlt⟩ := hnew
    omega

/-! ## Booting -/

/-- The allocator between two calls, with the tables ahead of the cursor. -/
structure Steady (b : KernelInfo) (s : Paging) : Prop where
  cursor : Cursor b 0 s
  newPd : s.kNewPd ≠ b.kPd
  newPt : Allocated b s s.kNewPt
  laid : Laid b 0 s

theorem Steady.spare {b : KernelInfo} {k : Nat} {s : Paging} (hs : Steady b s)
    (hfits : Fits b s k) : Spare b k s := ⟨hs.cursor, hs.newPd, hs.newPt, hfits⟩

theorem noHuge_of_absent {s : Paging} {i : Nat} {r : List Nat} (h : s.nodeAt [i] = none) :
    NoHuge s (i :: r) := by
  intro p hp e hhuge
  cases p with
  | nil => cases hhuge
  | cons j p =>
      obtain ⟨rfl, -⟩ := List.cons_prefix_cons.mp hp
      have hnone := nodeAt_append_none (q := p) h
      exact absurd (hhuge.symm.trans hnone) (Option.some_ne_none _)

theorem boot_steady {b : KernelInfo} (hb : BootOk b) {s₀ s : Paging} (hl : Loaded b s₀)
    (hboot : boot b s₀ = some s) : Steady b s := by
  have h := hb.layout
  have hk : kernelStart = 0xFFFFFFFF80000000 := rfl
  have hsize : identityMapSize = 0x200000000 := rfl
  obtain ⟨hc, hpd, hpt, -⟩ := boot_ready hb hboot
  refine ⟨hc, hpd, hpt, ?_⟩
  obtain ⟨s₁, v, s₂, w, s₃, hs₁, hs₂, hs₃, hcheck, hspare₂, hspare₃, habsent⟩ := boot_steps hb hboot
  obtain ⟨pages, hpages, hstarted⟩ := initialStructures_started h hl hs₁
  obtain ⟨hc₁, hfits₁, hentry₁⟩ := startCursor_cursor hb hpages hstarted.setUp hstarted.cr3
  have hl₁ := startCursor_laid hb hl hpages hstarted
  -- the first page becomes the next table
  have hpos := (hb.image pages hpages).1
  have hcurrent := h.statics _ (kernelPt_static (hstarted.setUp.pt hpos))
  have hnew₁ : (startCursor b s₁).kNewPt = 0xFFFF000000000000 := rfl
  have hnewPd₁ : (startCursor b s₁).kNewPd = 0xFFFF000000000000 := rfl
  have hkPd := h.statics b.kPd (by simp)
  have hne : (startCursor b s₁).kCurrentPt ≠ (startCursor b s₁).kNewPt := by
    intro heq
    change s₁.kCurrentPt = _ at heq
    omega
  have hrenews : renews (startCursor b s₁) = 0 := if_neg hne
  obtain ⟨s₂', new, hs₂', hfurther, hl₂, hgrows, -, hsame, hpage⟩ :=
    linear_laid h hc₁ hl₁ (n := 1) (by decide) (by omega) (hfits₁.mono (by omega))
      (.inr (by omega)) (by omega)
  obtain ⟨hv, rfl⟩ := Prod.mk.inj (Option.some.inj (hs₂'.symm.trans hs₂))
  have hzero := (hpage 0 (by decide)).2
  rw [Nat.mul_zero, Nat.add_zero, Nat.add_zero] at hzero
  have hframe := hc₁.ptrFrame_next (renews (startCursor b s₁))
  rw [hv] at hframe
  have hroom := hfurther.cursor.room
  rw [hfurther.phys] at hroom
  have hblank : Blank b s₂' v := by
    refine ⟨fun q l hq => ?_, fun i hi => by rw [hframe]; exact hzero.zero i hi⟩
    rcases hgrows.table q l _ hq with hold | heq
    · refine Taken.not_ahead h hc₁.area_le ?_ (hl₁.tables hold)
      omega
    · -- the pointer that stood there belongs to no page
      have harea := h.area
      have himage := h.image
      rw [hsame hne, hframe, hnew₁] at heq
      unfold ptrFrame imagePhysical at heq
      unfold areaEnd at hroom
      rw [if_neg (by omega), h.base] at heq
      omega
  have hl₂' : Laid b 0 { s₂' with kNewPt := v } :=
    ⟨⟨hl₂.tree.placed, hl₂.tree.unshared⟩, hl₂.tables, hl₂.pages, hl₂.entries, hl₂.directory,
      fun _ _ => hblank⟩
  -- the second page is kept for the next directory
  obtain ⟨w', s₃', new', hs₃', hspare, hl₃, -, hgrows', -⟩ :=
    Spare.linear_laid (k := 12) h hspare₂ hl₂'
  obtain ⟨rfl, rfl⟩ := Prod.mk.inj (Option.some.inj (hs₃'.symm.trans hs₃))
  have hl₃' : Laid b 0 { s₃' with kNewPd := w' } :=
    ⟨⟨hl₃.tree.placed, hl₃.tree.unshared⟩, hl₃.tables, hl₃.pages, hl₃.entries, hl₃.directory,
      hl₃.spare⟩
  refine sanityCheck_laid (k := 4) h hspare₃ hl₃' ?_ hcheck
  have hpath : pathOf 0x00001122BADA0000 = 34 :: [138, 470, 416] := by decide
  rw [hpath]
  refine noHuge_of_absent ?_
  have hroot : s₃'.nodeAt [] = some (.table 3 (pml4Frame b)) := by
    rw [nodeAt_nil, hspare.cursor.cr3]
  exact (nodeAt_concat hroot 34).trans (look_absent (by rw [habsent, Nat.zero_and]))

/-! ## Runs -/

def pageMap (virtualAddress physicalAddress : Nat) (s : Paging) : Option Paging :=
  pagingPageMapToPml4 (pageAllocateKernelLinear 1) s 0 physicalAddress virtualAddress tableFlags

/-- What moves the cursor. -/
inductive Request
  | call (c : Call)
  | map (virtualAddress physicalAddress : Nat)

def serve (s : Paging) : Request → Option Paging
  | .call c => step s c
  | .map virtualAddress physicalAddress => pageMap virtualAddress physicalAddress s

/-- The table that was put aside is enough for the call, and neither the area
nor the kernel's page directory ends. -/
structure OneTable (b : KernelInfo) (s : Paging) (n : Nat) : Prop where
  tables : s.kCurrentPtIndex + renews s + n ≤ 1023
  fits : Fits b s (renews s + n)

/-- The condition on a request. A device's pages stay in the page table, and a
mapping is made outside the kernel's gigabyte and the large pages of the
direct map; for three tables it may take six pages. -/
def RequestOk (b : KernelInfo) (s : Paging) : Request → Prop
  | .call (.linear n) => OneTable b s n
  | .call (.mmio n) => s.kCurrentPtIndex + n ≤ 511 ∧
      s.kernelPhysicalMemoryNext + 4096 * n ≤ areaEnd b
  | .map virtualAddress _ => NoHuge s (pathOf virtualAddress) ∧
      ¬ [511, 510] <+: pathOf virtualAddress ∧ Fits b s 6

theorem Steady.further {b : KernelInfo} {n : Nat} {s s' : Paging} (hs : Steady b s)
    (h : Further b n s s') (hnewPt : Allocated b s' s'.kNewPt) (hlaid : Laid b 0 s') :
    Steady b s' :=
  ⟨h.cursor, by rw [h.newPd]; exact hs.newPd, hnewPt, hlaid⟩

/-- **Step lemma.** -/
theorem serve_steady {b : KernelInfo} (h : Layout b) {s s' : Paging} {r : Request}
    (hs : Steady b s) (hok : RequestOk b s r) (hserve : serve s r = some s') : Steady b s' := by
  cases r with
  | call c =>
      cases c with
      | linear n =>
          obtain ⟨⟨v, s₁⟩, hcall, rfl⟩ := Option.map_eq_some_iff.mp hserve
          rcases Nat.eq_zero_or_pos n with rfl | hn
          · obtain rfl := (Prod.mk.inj (Option.some.inj hcall)).2
            exact hs
          obtain ⟨s₂, new, hs₂, hfurther, hlaid, -, hnewPt, -⟩ :=
            linear_laid h hs.cursor hs.laid hn hs.newPd hok.fits (.inl hs.newPt) hok.tables
          obtain rfl := (Prod.mk.inj (Option.some.inj (hs₂.symm.trans hcall))).2
          exact hs.further hfurther (hnewPt hs.newPt) hlaid
      | mmio n =>
          obtain ⟨⟨v, s₁⟩, hcall, rfl⟩ := Option.map_eq_some_iff.mp hserve
          rcases Nat.eq_zero_or_pos n with rfl | hn
          · obtain rfl := (Prod.mk.inj (Option.some.inj hcall)).2
            exact hs
          obtain ⟨hpt, hroom⟩ := hok
          obtain ⟨s₂, hs₂, hfurther, hsame⟩ := mmioPages_ok h hs.cursor hroom hpt
          rw [mmio_within hn hpt, hs₂] at hcall
          obtain rfl := (Prod.mk.inj (Option.some.inj hcall)).2
          refine hs.further hfurther ?_ (mmioPages_laid h hs.cursor hs.laid hroom hpt hs₂)
          rw [hsame]
          refine hs.newPt.mono ?_
          rw [hfurther.virt]
          exact Nat.le_add_right ..
  | map virt phys =>
      obtain ⟨hplain, hout, hfits⟩ := hok
      obtain ⟨s₁, hs₁, hspare, hlaid, -⟩ :=
        (hs.spare (k := 0 + 6) hfits).map_laid h hs.laid hplain hout phys
          tableFlags_present
      obtain rfl := Option.some.inj (hs₁.symm.trans hserve)
      exact ⟨hspare.cursor, hspare.newPd, hspare.newPt, hlaid⟩

/-- A frame of the area that is in use neither for a page table nor for a page of
the kernel. -/
structure Fresh (b : KernelInfo) (s : Paging) (f : Nat) : Prop where
  area : b.kernelAllocateMemoryStart ≤ f ∧ f + 4096 ≤ areaEnd b
  table : ∀ p l, s.nodeAt p ≠ some (.table l f)
  page : ∀ j k, s.nodeAt [511, 510, j, k] ≠ some (.page f)

/-- What a call for `n` pages promises: they lie one after the other in the
kernel's gigabyte and in memory, fresh and zeroed, and what was mapped before
is mapped as before. -/
structure Contiguous (b : KernelInfo) (n v : Nat) (s s' : Paging) : Prop where
  inside : kernelStart ≤ v ∧ v + 4096 * n ≤ kernelStart + 0x40000000
  pages : ∃ f, ∀ i, i < n → Fresh b s (f + 4096 * i) ∧
    ZeroPage s' (v + 4096 * i) (f + 4096 * i)
  kept : ∀ w a, mmu s w = some a → mmu s' w = some a

theorem linear_call {b : KernelInfo} (h : Layout b) {n : Nat} {s : Paging} (hs : Steady b s)
    (hn : 0 < n) (hok : OneTable b s n) :
    ∃ v s', pageAllocateKernelLinear n s = some (v, s') ∧ Contiguous b n v s s' := by
  have hk : kernelStart = 0xFFFFFFFF80000000 := rfl
  obtain ⟨s', new, hs', hfurther, hlaid, hgrows, -, -, hpages⟩ :=
    linear_laid h hs.cursor hs.laid hn hs.newPd hok.fits (.inl hs.newPt) hok.tables
  have hnext := hs.cursor.next
  have hdirectory := hok.fits.directory
  have harea := hok.fits.area
  unfold position at hdirectory
  refine ⟨_, s', hs', ⟨by omega, by omega⟩, ⟨_, fun i hi => ⟨?_, (hpages i hi).2⟩⟩,
    fun w a hw => hgrows.mmu hw⟩
  have hfree := Taken.not_ahead h (s := s)
    (f := s.kernelPhysicalMemoryNext + 4096 * renews s + 4096 * i) hs.cursor.area_le
    ⟨by omega, by omega⟩
  have hstart := hs.cursor.area_le
  exact ⟨⟨by omega, by omega⟩, fun p l hp => hfree (hs.laid.tables hp),
    fun j k hp => hfree (hs.laid.pages hp)⟩

/-- **Contiguous allocation.** In every state that a run reaches from booting,
if all its requests meet the condition, a call for which the table put aside is
enough returns fresh contiguous pages and changes no translation. A call that
needs a second table gets the same one again, and the pages mapped in it first
are lost. -/
theorem linear_contiguous {b : KernelInfo} {s₀ s s' : Paging} {requests : List Request} {n : Nat}
    (hb : BootOk b) (hl : Loaded b s₀) (hboot : boot b s₀ = some s)
    (hok : Run.Along serve (RequestOk b) s requests)
    (hrun : Run.exec serve s requests = some s') (hn : 0 < n) (hcall : OneTable b s' n) :
    ∃ v s'', pageAllocateKernelLinear n s' = some (v, s'') ∧ Contiguous b n v s' s'' := by
  have hsteady := Run.exec_invariant (I := Steady b)
    (fun _ _ _ hs hr hserve => serve_steady hb.layout hs hr hserve) (boot_steady hb hl hboot) hok
    hrun
  exact linear_call hb.layout hsteady hn hcall

/-! ## Coming back to the same table -/

theorem linearPages_add (m n : Nat) (s : Paging) :
    linearPages (m + n) s = (linearPages m s).bind (linearPages n) := by
  induction m generalizing s with
  | zero => rw [Nat.zero_add]; rfl
  | succ m ih =>
      rw [Nat.succ_add, linearPages, linearPages]
      cases hsingle : pagingAllocateSingleLinearKernelPage s with
      | none => rfl
      | some x =>
          cases hinc : pagingIncrementKernelPageIndex x.2 with
          | none => simp only [Option.bind_eq_bind, Option.bind_some, hinc, Option.bind_none]
          | some s₁ =>
              simp only [Option.bind_eq_bind, Option.bind_some, hinc]
              exact ih s₁

/-- The entries of the page directory up to the current one stay; a new current
table is the one that was put aside, also the second time. -/
theorem linearPages_tables {b : KernelInfo} (h : Layout b) {n : Nat} {s : Paging}
    (hc : Cursor b 0 s) (hfits : Fits b s n) (hnew : Allocated b s s.kNewPt) :
    ∃ s', linearPages n s = some s' ∧ Further b n s s' ∧ s'.kNewPt = s.kNewPt ∧
      (∀ j, j ≤ s.kCurrentPdIndex →
        s'.memory (pdFrame b + 8 * j) = s.memory (pdFrame b + 8 * j)) ∧
      s.kCurrentPdIndex ≤ s'.kCurrentPdIndex ∧
      (s'.kCurrentPdIndex = s.kCurrentPdIndex ∧ s'.kCurrentPt = s.kCurrentPt ∨
        s'.kCurrentPt = s.kNewPt) := by
  induction n generalizing s with
  | zero =>
      exact ⟨s, rfl, ⟨hc, rfl, rfl, rfl, .refl b s⟩, rfl, fun _ _ => rfl, Nat.le_refl _,
        .inl ⟨rfl, rfl⟩⟩
  | succ n ih =>
      have hroom : s.kernelPhysicalMemoryNext + 4096 ≤ areaEnd b :=
        (hfits.mono (Nat.le_add_left 1 n)).area
      have hdirectory := hfits.directory
      have hindexes := hc.indexes
      unfold position at hdirectory
      have htouched := mappedMemory_touched b hindexes.2
      obtain ⟨hinc, hfurther⟩ := stepped_further h hc hroom htouched fun hpt => ⟨hnew, by omega⟩
      generalize hm : mappedMemory s (ptrFrame b s.kCurrentPt) = m at hinc hfurther htouched
      have hword : ∀ j, j ≤ s.kCurrentPdIndex → (stepped b (advanced s m)).memory
          (pdFrame b + 8 * j) = s.memory (pdFrame b + 8 * j) := by
        intro j hj
        refine Eq.trans ?_ (hc.touched_entry h hroom htouched (.inr (.inr rfl))
          (a := pdFrame b + 8 * j) (by omega))
        unfold stepped
        split
        · exact Function.update_of_ne
            (by change _ ≠ pdFrame b + 8 * (s.kCurrentPdIndex + 1); omega) ..
        · rfl
      have hcur : (stepped b (advanced s m)).kCurrentPdIndex = s.kCurrentPdIndex ∧
          (stepped b (advanced s m)).kCurrentPt = s.kCurrentPt ∨
          (stepped b (advanced s m)).kCurrentPdIndex = s.kCurrentPdIndex + 1 ∧
          (stepped b (advanced s m)).kCurrentPt = s.kNewPt := by
        unfold stepped
        split
        · exact .inr ⟨rfl, rfl⟩
        · exact .inl ⟨rfl, rfl⟩
      have hnewPt := (stepped_next b (advanced s m)).2.2.1
      change _ = s.kNewPt at hnewPt
      generalize stepped b (advanced s m) = s₁ at hinc hfurther hword hcur hnewPt
      have hnew₁ : Allocated b s₁ s₁.kNewPt := by
        rw [hnewPt]
        exact hnew.mono (by rw [hfurther.virt]; exact Nat.le_add_right ..)
      obtain ⟨s₂, hs₂, hfurther₂, hnewPt₂, hword₂, hle₂, hcur₂⟩ := ih hfurther.cursor
        (.further hc hfurther (hfits.mono (Nat.add_comm 1 n).le)) hnew₁
      refine ⟨s₂, ?_, Nat.add_comm n 1 ▸ hfurther.trans hfurther₂, hnewPt₂.trans hnewPt,
        fun j hj => (hword₂ j (by omega)).trans (hword j hj), by omega, ?_⟩
      · rw [linearPages]
        simp only [single_eq h hc hroom, hm, Option.bind_eq_bind, Option.bind_some, hinc]
        exact hs₂
      · rw [hnewPt] at hcur₂
        rcases hcur₂ with ⟨hpd₂, hpt₂⟩ | hpt₂
        · rcases hcur with ⟨hpd, hpt⟩ | ⟨-, hpt⟩
          · exact .inl ⟨hpd₂.trans hpd, hpt₂.trans hpt⟩
          · exact .inr (hpt₂.trans hpt)
        · exact .inr hpt₂

/-- Filling the current table up: the one put aside is the current one then, and stays put
aside. -/
theorem linearPages_fill {b : KernelInfo} (h : Layout b) {k : Nat} {s : Paging}
    (hc : Cursor b 0 s) (hfits : Fits b s k) (hnew : Allocated b s s.kNewPt)
    (hk : s.kCurrentPtIndex + k = 512) :
    ∃ s', linearPages k s = some s' ∧ Further b k s s' ∧
      (s'.kNewPt = s.kNewPt ∧ Allocated b s' s'.kNewPt) ∧
      (∀ j, j ≤ s.kCurrentPdIndex →
        s'.memory (pdFrame b + 8 * j) = s.memory (pdFrame b + 8 * j)) ∧
      (s'.kCurrentPdIndex = s.kCurrentPdIndex + 1 ∧ s'.kCurrentPtIndex = 0) ∧
      s'.kCurrentPt = s.kNewPt := by
  obtain ⟨s', hs', hfurther, hnewPt, hword, -, hcur⟩ := linearPages_tables h hc hfits hnew
  have hpos := hfurther.position_eq hc
  have hindexes := hc.indexes
  have hindexes' := hfurther.cursor.indexes
  unfold position at hpos
  have hstart : s'.kCurrentPdIndex = s.kCurrentPdIndex + 1 ∧ s'.kCurrentPtIndex = 0 := by omega
  have hnew' : Allocated b s' s'.kNewPt := by
    rw [hnewPt]
    exact hnew.mono (by rw [hfurther.virt]; exact Nat.le_add_right ..)
  exact ⟨s', hs', hfurther, ⟨hnewPt, hnew'⟩, hword, hstart, hcur.resolve_left fun hin => by omega⟩

/-- The first entry of the table is set a second time: two pages of the call are
the same frame. -/
theorem second_rollover {b : KernelInfo} (h : Layout b) {n : Nat} {s : Paging} (hs : Steady b s)
    (hne : s.kCurrentPt ≠ s.kNewPt) (hn : s.kCurrentPtIndex + n = 1025) (hfits : Fits b s n) :
    ∃ v s', pageAllocateKernelLinear n s = some (v, s') ∧ ¬ Contiguous b n v s s' := by
  obtain ⟨hc, hpd, hnew, -⟩ := hs
  have hindexes := hc.indexes
  generalize hk : 512 - s.kCurrentPtIndex = k
  obtain rfl : n = k + (512 + 1) := by omega
  -- the current table and the one put aside are filled
  obtain ⟨s₁, hs₁, hfurther₁, ⟨hnewPt₁, hnew₁⟩, -, hstart₁, htable₁⟩ :=
    linearPages_fill h hc (hfits.mono (Nat.le_add_right ..)) hnew (by omega)
  have hc₁ := hfurther₁.cursor
  have hfits₁ : Fits b s₁ (512 + 1) := .further hc hfurther₁ hfits
  have hfull₁ : s₁.kCurrentPtIndex + 512 = 512 := by rw [hstart₁.2]
  obtain ⟨s₂, hs₂, hfurther₂, -, hword₂, hstart₂, htable₂⟩ :=
    linearPages_fill h hc₁ (hfits₁.mono (Nat.le_add_right 512 1)) hnew₁ hfull₁
  have hc₂ := hfurther₂.cursor
  have hindexes₂ := hc₂.indexes
  rw [hstart₁.1] at hstart₂
  rw [hnewPt₁] at htable₂
  -- the last page goes into the first entry again
  have hroom : s₂.kernelPhysicalMemoryNext + 4096 ≤ areaEnd b :=
    (Fits.further hc₁ hfurther₂ hfits₁).area
  have hroll : s₂.kCurrentPtIndex = 511 → Allocated b s₂ s₂.kNewPt ∧ s₂.kCurrentPdIndex < 511 :=
    fun hpt => by omega
  have htouched := mappedMemory_touched b hindexes₂.2
  obtain ⟨hinc, hfurther₃⟩ := stepped_further h hc₂ hroom htouched hroll
  have hlast := stepped_mmu h hc₂ hroom hroll
  have hmemory : (stepped b (advanced s₂ (mappedMemory s₂ (ptrFrame b s₂.kCurrentPt)))).memory
      = mappedMemory s₂ (ptrFrame b s₂.kCurrentPt) := by
    have hin : ¬ (advanced s₂ (mappedMemory s₂ (ptrFrame b s₂.kCurrentPt))).kCurrentPtIndex = 511 :=
      fun hpt => by rw [show s₂.kCurrentPtIndex = 511 from hpt] at hstart₂; omega
    rw [stepped, if_neg hin]
    rfl
  have hdir : Leads (mappedMemory s₂ (ptrFrame b s₂.kCurrentPt))
      (pdFrame b + 8 * (s.kCurrentPdIndex + 1)) (ptrFrame b s₂.kCurrentPt) := by
    have hlead := hc₁.table.2
    rw [hstart₁.1, htable₁, ← htable₂] at hlead
    refine (hlead.congr (hword₂ _ (by omega))).congr ?_
    exact hc₂.touched_entry h hroom htouched (.inr (.inr rfl)) (by omega)
  have hleaf := hc₂.leaf h hroom
  rw [hstart₂.2] at hleaf
  have hsingle := single_eq h hc₂ hroom
  generalize stepped b (advanced s₂ (mappedMemory s₂ (ptrFrame b s₂.kCurrentPt))) = s₃
    at hinc hfurther₃ hlast hmemory
  have hc₃ := hfurther₃.cursor
  rw [← hmemory] at hdir hleaf
  have hfirst := mmu_kernel hc₃.cr3 hc₃.pml4Entry hc₃.pdptEntry hdir hleaf (by omega) (by omega)
  have hnext₁ := hc₁.next
  rw [hstart₁.1, hstart₁.2, Nat.add_zero] at hnext₁
  rw [Nat.add_zero, ← hnext₁, hfurther₁.virt] at hfirst
  rw [hfurther₂.virt, hfurther₁.virt, Nat.add_assoc, ← Nat.mul_add] at hlast
  refine ⟨s.kernelVirtualMemoryNext, s₃, ?_, fun hcontiguous => ?_⟩
  · have hpages : linearPages (k + (512 + 1)) s = some s₃ := by
      rw [linearPages_add, hs₁, Option.bind_some, linearPages_add, hs₂, Option.bind_some,
        linearPages]
      simp only [hsingle, Option.bind_eq_bind, Option.bind_some, hinc]
      rfl
    unfold pageAllocateKernelLinear renewPd renewPt
    have hne' : ¬ s.kCurrentPd = s.kNewPd := fun heq => hpd (heq.symm.trans hc.pd)
    rw [if_neg (by omega), if_neg hne', Option.bind_eq_bind, Option.bind_some, if_neg hne]
    simp only [Option.bind_some, hpages]
    rfl
  · obtain ⟨f, hf⟩ := hcontiguous.pages
    have h₁ := (hf k (by omega)).2.found
    have h₂ := (hf (k + 512) (by omega)).2.found
    have h₁' := Option.some.inj (h₁.symm.trans hfirst)
    have h₂' := Option.some.inj (h₂.symm.trans hlast)
    omega

theorem smallImage_loaded : Loaded smallImage bootMemory where
  before := smallImage_beforeSetUp
  map := by decide
  mapOther := by decide
  mapZero _ _ := rfl
  cr3 := by decide
  pages pages hpages := by
    obtain rfl := Option.some.inj hpages
    decide

instance OneTable.decidable (b : KernelInfo) (s : Paging) (n : Nat) : Decidable (OneTable b s n) :=
  decidable_of_iff (s.kCurrentPtIndex + renews s + n ≤ 1023 ∧ Fits b s (renews s + n))
    ⟨fun h => ⟨h.1, h.2⟩, fun h => ⟨h.tables, h.fits⟩⟩

/-- After three pages and two pages for a device, a call for 700 pages, which
needs the table that was put aside. -/
theorem linear_contiguous_smallImage :
    ∃ s s' v s'', boot smallImage bootMemory = some s ∧
      Run.exec serve s [.call (.linear 3), .call (.mmio 2)] = some s' ∧
      pageAllocateKernelLinear 700 s' = some (v, s'') ∧ Contiguous smallImage 700 v s' s'' := by
  have hrun : (boot smallImage bootMemory).any fun s => (step s (.linear 3)).any fun s₁ =>
      (step s₁ (.mmio 2)).any fun s' => decide (OneTable smallImage s 3 ∧
        (s₁.kCurrentPtIndex + 2 ≤ 511 ∧
          s₁.kernelPhysicalMemoryNext + 4096 * 2 ≤ areaEnd smallImage) ∧
        OneTable smallImage s' 700) := by decide +kernel
  obtain ⟨s, hboot, hrun⟩ := (Option.any_eq_true _ _).mp hrun
  obtain ⟨s₁, hs₁, hrun⟩ := (Option.any_eq_true _ _).mp hrun
  obtain ⟨s', hs', hrun⟩ := (Option.any_eq_true _ _).mp hrun
  obtain ⟨hok, hok₁, hcall⟩ := of_decide_eq_true hrun
  have hexec : Run.exec serve s [.call (.linear 3), .call (.mmio 2)] = some s' := by
    rw [Run.exec, show serve s (.call (.linear 3)) = some s₁ from hs₁, Option.bind_some, Run.exec,
      show serve s₁ (.call (.mmio 2)) = some s' from hs']
    rfl
  have halong : Run.Along serve (RequestOk smallImage) s
      [.call (.linear 3), .call (.mmio 2)] := by
    refine ⟨hok, fun t ht => ?_⟩
    obtain rfl := Option.some.inj (hs₁.symm.trans ht)
    exact ⟨hok₁, fun _ _ => trivial⟩
  obtain ⟨v, s'', hs'', hcontiguous⟩ := linear_contiguous smallImage_ok smallImage_loaded hboot
    halong hexec (by decide) hcall
  exact ⟨s, s', v, s'', hboot, hexec, hs'', hcontiguous⟩

/-- After booting with the image of 16 pages a call for 1003 pages fills the
table put aside and comes back to its first entry. -/
theorem linear_loses_page : ∃ s v s', boot smallImage bootMemory = some s ∧
    Fits smallImage s (renews s + 1003) ∧ pageAllocateKernelLinear 1003 s = some (v, s') ∧
    ¬ Contiguous smallImage 1003 v s s' := by
  have hboot : (boot smallImage bootMemory).any fun s =>
      decide (s.kCurrentPtIndex = 22 ∧ renews s = 0 ∧ Fits smallImage s 1003) := by
    decide +kernel
  obtain ⟨s, hs, hstart⟩ := (Option.any_eq_true _ _).mp hboot
  obtain ⟨hpt, hrenews, hfits⟩ := of_decide_eq_true hstart
  have hne : s.kCurrentPt ≠ s.kNewPt := by
    intro heq
    rw [renews, if_pos heq] at hrenews
    cases hrenews
  obtain ⟨v, s', hs', hnot⟩ := second_rollover smallImage_ok.layout
    (boot_steady smallImage_ok smallImage_loaded hs) hne (by omega) hfits
  exact ⟨s, v, s', hs, by rw [hrenews, Nat.zero_add]; exact hfits, hs', hnot⟩

end VersionSix.Page
