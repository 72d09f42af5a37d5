import Mathlib.Data.List.Nodup
import VersionSix.PageInStep

/-!
# The kernel's own page tables

`paging_setup_initial_structures` maps the kernel image: one turn of its loop
sets the entry of a page, and the entries above it when they are still 0. The
entries of the tables above are made from the addresses of single slots below;
the mask takes the slot off again.

`setupKernelPage_sets` says what one turn does. `SetUp` is what booting needs
of the upper tables, `Mapped` are all words a walk through the gigabyte of the
kernel reads, so that the walk finds the pages of the image and no others
(`initial_mapping`).

Two pages of different tables have no word in common, and different indexes of
one table have different words (`word_ne`); with that, each turn keeps what the
turns before it set. The loop and the walk are then about words at addresses
and not about tables any more.
-/

namespace VersionSix.Page

/-! ## The static tables -/

/-- The tables that the function fills are different pages, at page-aligned
physical addresses of 52 bits. -/
structure StaticTables (b : KernelInfo) : Prop where
  base : b.kernelVirtualBase ≤ 2 ^ 64
  frames : ∀ t ∈ [b.kPml4, b.kPdpt, b.kPd, b.kPt1, b.kPt2, b.kPt3, b.kPt4],
    imagePhysical b t % 4096 = 0 ∧ imagePhysical b t + 4096 ≤ 2 ^ 52
  distinct : ([b.kPml4, b.kPdpt, b.kPd, b.kPt1, b.kPt2, b.kPt3, b.kPt4].map
    (imagePhysical b)).Nodup

theorem Layout.staticTables {b : KernelInfo} (h : Layout b) : StaticTables b where
  base := by
    rw [h.base]
    decide
  frames t ht := by
    have hmap : identityMapSize = 0x200000000 := rfl
    have hframe := h.static_frame ht
    omega
  distinct := by
    refine List.Nodup.map_on (fun t ht u hu heq => ?_) h.distinct
    by_contra hne
    exact h.static_ne ht hu hne heq

theorem StaticTables.upper {b : KernelInfo} (h : StaticTables b) :
    pml4Frame b ≠ pdptFrame b ∧ pml4Frame b ≠ pdFrame b ∧ pdptFrame b ≠ pdFrame b := by
  have hd := h.distinct
  simp only [List.map_cons, List.map_nil, List.nodup_cons, List.mem_cons, not_or] at hd
  exact ⟨hd.1.1, hd.1.2.1, hd.2.1.1⟩

theorem StaticTables.pt_frame {b : KernelInfo} (h : StaticTables b) {t : Nat}
    (ht : t ∈ [b.kPt1, b.kPt2, b.kPt3, b.kPt4]) : imagePhysical b t ≠ pml4Frame b ∧
      imagePhysical b t ≠ pdptFrame b ∧ imagePhysical b t ≠ pdFrame b := by
  have hd := h.distinct
  have hmem : imagePhysical b t ∈ [b.kPt1, b.kPt2, b.kPt3, b.kPt4].map (imagePhysical b) :=
    List.mem_map_of_mem ht
  simp only [List.map_cons, List.map_nil, List.nodup_cons, List.mem_cons] at hd hmem
  refine ⟨?_, ?_, ?_⟩ <;> intro heq
  · exact hd.1 (.inr (.inr (by rw [← pml4Frame, ← heq]; exact hmem)))
  · exact hd.2.1 (.inr (by rw [← pdptFrame, ← heq]; exact hmem))
  · exact hd.2.2.1 (by rw [← pdFrame, ← heq]; exact hmem)

theorem StaticTables.imagePhysical_add {b : KernelInfo} (h : StaticTables b) {t o : Nat}
    (ht : t ∈ [b.kPml4, b.kPdpt, b.kPd, b.kPt1, b.kPt2, b.kPt3, b.kPt4]) (ho : o < 4096) :
    imagePhysical b (t + o) = imagePhysical b t + o := by
  have hframe := (h.frames t ht).2
  have hbase := h.base
  unfold imagePhysical at hframe ⊢
  omega

/-! ## Entries -/

/-- The word at `a` is still 0, or it leads to `f`. -/
def EntryAt (memory : Nat → Nat) (unset : Prop) [Decidable unset] (a f : Nat) : Prop :=
  if unset then memory a = 0 else Leads memory a f

theorem EntryAt.congr {memory memory' : Nat → Nat} {p q : Prop} [Decidable p] [Decidable q]
    {a f : Nat} (h : EntryAt memory p a f) (ha : memory' a = memory a) (hpq : q ↔ p) :
    EntryAt memory' q a f := by
  unfold EntryAt at h ⊢
  simp only [hpq]
  split
  · next hp =>
      rw [if_pos hp] at h
      rw [ha, h]
  · next hp =>
      rw [if_neg hp] at h
      exact h.congr ha

theorem EntryAt.step {memory memory' : Nat → Nat} {p q : Prop} [Decidable p] [Decidable q]
    {a f entry : Nat} (h : EntryAt memory p a f) (hq : ¬ q)
    (ha : memory' a = if memory a = 0 then entry else memory a)
    (hentry : ∀ memory a, memory a = entry → Leads memory a f) : EntryAt memory' q a f := by
  unfold EntryAt at h ⊢
  rw [if_neg hq]
  by_cases hzero : memory a = 0
  · rw [if_pos hzero] at ha
    exact hentry _ _ ha
  · rw [if_neg hzero] at ha
    split at h
    · exact absurd h hzero
    · exact h.congr ha

theorem Leads.of_makePage_slot {memory : Nat → Nat} {a f o : Nat}
    (h : memory a = pagingMakePage (f + o) tableFlags)
    (hf : f % 4096 = 0 ∧ f + 4096 ≤ 2 ^ 52) (ho : o < 4096) : Leads memory a f := by
  refine ⟨?_, ?_, ?_⟩
  · rw [h]
    exact tableEntry_present _
  · rw [h]
    exact makePage_table_notHuge _
  · rw [h, makePage_addr, and_pageAddrMask]
    omega

theorem StaticTables.leads {b : KernelInfo} (h : StaticTables b) {t i : Nat}
    (ht : t ∈ [b.kPml4, b.kPdpt, b.kPd, b.kPt1, b.kPt2, b.kPt3, b.kPt4]) (hi : i < 512)
    {memory : Nat → Nat} {a : Nat}
    (ha : memory a = pagingMakePage (imagePhysical b (t + 8 * i)) tableFlags) :
    Leads memory a (imagePhysical b t) := by
  rw [h.imagePhysical_add ht (by omega)] at ha
  exact .of_makePage_slot ha (h.frames t ht) (by omega)

/-! ## One turn of the loop -/

theorem kernelPt_mem {b : KernelInfo} {j pt : Nat} (h : kernelPt b j = some pt) :
    pt ∈ [b.kPt1, b.kPt2, b.kPt3, b.kPt4] ∧ j < 4 := by
  unfold kernelPt at h
  split at h <;> simp_all

theorem page_indexes {i : Nat} (hi : i < 2 ^ 16) :
    pagingGetIndexes ((kernelStart + i * 0x1000) % 2 ^ 64)
      = { pml4 := 511, pdpt := 510, pd := i / 512, pt := i % 512 } := by
  have haddr : (kernelStart + i * 0x1000) % 2 ^ 64
      = kernelStart + 4096 * (512 * (i / 512) + i % 512) := by
    rw [Nat.div_add_mod, Nat.mul_comm]
    unfold kernelStart
    omega
  rw [haddr, kernel_indexes (by omega) (by omega)]

theorem kernelPt_eq (b : KernelInfo) : ∀ j, kernelPt b j = [b.kPt1, b.kPt2, b.kPt3, b.kPt4][j]?
  | 0 => rfl
  | 1 => rfl
  | 2 => rfl
  | 3 => rfl
  | _ + 4 => rfl

theorem kernelPt_of_lt (b : KernelInfo) {j : Nat} (hj : j < 4) : ∃ pt, kernelPt b j = some pt := by
  rw [kernelPt_eq, List.getElem?_eq_getElem (by simpa using hj)]
  exact ⟨_, rfl⟩

theorem kernelPt_static {b : KernelInfo} {j pt : Nat} (h : kernelPt b j = some pt) :
    pt ∈ [b.kPml4, b.kPdpt, b.kPd, b.kPt1, b.kPt2, b.kPt3, b.kPt4] :=
  pt_static (kernelPt_mem h).1

/-- Words of different pages, and different words of a page, are at different
addresses. -/
theorem word_ne {f g i j : Nat} (hf : f % 4096 = 0) (hg : g % 4096 = 0) (hi : i < 512)
    (hj : j < 512) (hne : f ≠ g ∨ i ≠ j) : f + 8 * i ≠ g + 8 * j := by
  omega

/-- What a turn sets: the entry of page `i` in the table `pt`, and the three
words above it. -/
structure PageSet (b : KernelInfo) (i pt : Nat) (s s' : Paging) : Prop where
  currentPd : s'.kCurrentPd = s.kCurrentPd
  currentPt : s'.kCurrentPt = pt
  leaf : s'.memory (imagePhysical b pt + 8 * (i % 512)) =
    pagingMakePage ((imagePhysical b kernelStart + i * 0x1000) % 2 ^ 64) tableFlags
  pdWord : s'.memory (pdFrame b + 8 * (i / 512)) =
    if s.memory (pdFrame b + 8 * (i / 512)) = 0 then
      pagingMakePage (imagePhysical b (pt + 8 * (i % 512))) tableFlags
    else s.memory (pdFrame b + 8 * (i / 512))
  pdptWord : s'.memory (pdptFrame b + 8 * 510) =
    if s.memory (pdptFrame b + 8 * 510) = 0 then
      pagingMakePage (imagePhysical b (b.kPd + 8 * (i / 512))) tableFlags
    else s.memory (pdptFrame b + 8 * 510)
  pml4Word : s'.memory (pml4Frame b + 8 * 511) =
    if s.memory (pml4Frame b + 8 * 511) = 0 then
      pagingMakePage (imagePhysical b (b.kPdpt + 8 * 510)) tableFlags
    else s.memory (pml4Frame b + 8 * 511)
  others : ∀ a, a ≠ imagePhysical b pt + 8 * (i % 512) → a ≠ pdFrame b + 8 * (i / 512) →
    a ≠ pdptFrame b + 8 * 510 → a ≠ pml4Frame b + 8 * 511 → s'.memory a = s.memory a

theorem setIfZero_of_ne {b : KernelInfo} {s : Paging} {table i entry a : Nat}
    (h : a ≠ imagePhysical b table + 8 * i) :
    (setIfZero b s table i entry).memory a = s.memory a := by
  unfold setIfZero
  split
  · exact Function.update_of_ne h ..
  · rfl

theorem setIfZero_same (b : KernelInfo) (s : Paging) (table i entry : Nat) :
    (setIfZero b s table i entry).memory (imagePhysical b table + 8 * i) =
      if s.memory (imagePhysical b table + 8 * i) = 0 then entry
      else s.memory (imagePhysical b table + 8 * i) := by
  unfold setIfZero
  split
  · exact Function.update_self ..
  · rfl

@[simp] theorem setIfZero_cursor (b : KernelInfo) (s : Paging) (table i entry : Nat) :
    (setIfZero b s table i entry).kCurrentPd = s.kCurrentPd ∧
      (setIfZero b s table i entry).kCurrentPt = s.kCurrentPt := by
  unfold setIfZero
  split <;> exact ⟨rfl, rfl⟩

theorem setupKernelPage_sets {b : KernelInfo} (h : StaticTables b) {i : Nat} {s s' : Paging}
    (hi : i < 2 ^ 16) (hstep : setupKernelPage b s i = some s') :
    ∃ pt, kernelPt b (i / 512) = some pt ∧ PageSet b i pt s s' := by
  unfold setupKernelPage at hstep
  rw [page_indexes hi] at hstep
  obtain ⟨pt, hpt, hs'⟩ := Option.map_eq_some_iff.mp hstep
  dsimp only at hpt hs'
  refine ⟨pt, hpt, ?_⟩
  obtain ⟨hmem, hj⟩ := kernelPt_mem hpt
  have hP4 : pml4Frame b % 4096 = 0 := (h.frames b.kPml4 (by simp)).1
  have hP3 : pdptFrame b % 4096 = 0 := (h.frames b.kPdpt (by simp)).1
  have hP2 : pdFrame b % 4096 = 0 := (h.frames b.kPd (by simp)).1
  have hP1 := (h.frames pt (kernelPt_static hpt)).1
  have hpd : i / 512 < 512 := by omega
  have hslot : i % 512 < 512 := index_lt i
  obtain ⟨hne₁, hne₂, hne₃⟩ := h.upper
  obtain ⟨hne₄, hne₅, hne₆⟩ := h.pt_frame hmem
  -- the four words are at four addresses
  have h₄₃ := word_ne (i := 511) (j := 510) hP4 hP3 (by decide) (by decide) (.inl hne₁)
  have h₄₂ := word_ne (i := 511) hP4 hP2 (by decide) hpd (.inl hne₂)
  have h₃₂ := word_ne (i := 510) hP3 hP2 (by decide) hpd (.inl hne₃)
  have h₁₄ := word_ne (j := 511) hP1 hP4 hslot (by decide) (.inl hne₄)
  have h₁₃ := word_ne (j := 510) hP1 hP3 hslot (by decide) (.inl hne₅)
  have h₁₂ := word_ne hP1 hP2 hslot hpd (.inl hne₆)
  generalize hs₁ : { setStatic b s pt (i % 512) (pagingMakePage ((imagePhysical b kernelStart
    + i * 0x1000) % 2 ^ 64) tableFlags) with kCurrentPt := pt } = s₁ at hs'
  have hleaf : s₁.memory (imagePhysical b pt + 8 * (i % 512)) =
      pagingMakePage ((imagePhysical b kernelStart + i * 0x1000) % 2 ^ 64) tableFlags := by
    rw [← hs₁]
    exact Function.update_self ..
  have hrest : ∀ a, a ≠ imagePhysical b pt + 8 * (i % 512) → s₁.memory a = s.memory a := by
    intro a ha
    rw [← hs₁]
    exact Function.update_of_ne ha ..
  have hcursor : s₁.kCurrentPd = s.kCurrentPd ∧ s₁.kCurrentPt = pt := by
    rw [← hs₁]
    exact ⟨rfl, rfl⟩
  subst hs'
  unfold pml4Frame pdptFrame pdFrame at *
  refine ⟨?_, ?_, ?_, ?_, ?_, ?_, fun a h1 h2 h3 h4 => ?_⟩
  · simp only [setIfZero_cursor, hcursor]
  · simp only [setIfZero_cursor, hcursor]
  · rw [setIfZero_of_ne h₁₄, setIfZero_of_ne h₁₃, setIfZero_of_ne h₁₂, hleaf]
  · rw [pdFrame, setIfZero_of_ne h₄₂.symm, setIfZero_of_ne h₃₂.symm, setIfZero_same,
      hrest _ h₁₂.symm]
  · rw [pdptFrame, setIfZero_of_ne h₄₃.symm, setIfZero_same, setIfZero_of_ne h₃₂,
      hrest _ h₁₃.symm]
  · rw [pml4Frame, setIfZero_same, setIfZero_of_ne h₄₃, setIfZero_of_ne h₄₂, hrest _ h₁₄.symm]
  · unfold pml4Frame at h4
    unfold pdptFrame at h3
    unfold pdFrame at h2
    rw [setIfZero_of_ne h4, setIfZero_of_ne h3, setIfZero_of_ne h2, hrest a h1]

/-- The turn leaves the words of other pages, and of these pages the others. -/
theorem PageSet.kept {b : KernelInfo} {i pt : Nat} {s s' : Paging} (hset : PageSet b i pt s s')
    (h : StaticTables b) (hpt : kernelPt b (i / 512) = some pt) {f w : Nat}
    (hf : f % 4096 = 0) (hw : w < 512) (h₁ : f ≠ imagePhysical b pt ∨ w ≠ i % 512)
    (h₂ : f ≠ pdFrame b ∨ w ≠ i / 512) (h₃ : f ≠ pdptFrame b ∨ w ≠ 510)
    (h₄ : f ≠ pml4Frame b ∨ w ≠ 511) : s'.memory (f + 8 * w) = s.memory (f + 8 * w) := by
  have hj := (kernelPt_mem hpt).2
  have hslot : i % 512 < 512 := index_lt i
  refine hset.others _ (word_ne hf ?_ hw hslot h₁) (word_ne hf ?_ hw (by omega) h₂)
    (word_ne hf ?_ hw (by decide) h₃) (word_ne hf ?_ hw (by decide) h₄)
  · exact (h.frames pt (kernelPt_static hpt)).1
  · exact (h.frames b.kPd (by simp)).1
  · exact (h.frames b.kPdpt (by simp)).1
  · exact (h.frames b.kPml4 (by simp)).1

/-! ## The upper tables -/

/-- The memory after `i` pages of the image are mapped. -/
structure SetUp (b : KernelInfo) (i : Nat) (s : Paging) : Prop where
  pd : s.kCurrentPd = b.kPd
  pt : 0 < i → kernelPt b ((i - 1) / 512) = some s.kCurrentPt
  absent : s.memory (pml4Frame b + 8 * 34) = 0
  pml4Entry : EntryAt s.memory (i = 0) (pml4Frame b + 8 * 511) (pdptFrame b)
  pdptEntry : EntryAt s.memory (i = 0) (pdptFrame b + 8 * 510) (pdFrame b)
  pdEntry : ∀ j pt, j < 512 → kernelPt b j = some pt →
    EntryAt s.memory (i ≤ 512 * j) (pdFrame b + 8 * j) (imagePhysical b pt)

theorem setupKernelPage_setUp {b : KernelInfo} (h : StaticTables b) {i : Nat} {s s' : Paging}
    (hi : i < 2 ^ 16) (hs : SetUp b i s) (hstep : setupKernelPage b s i = some s') :
    SetUp b (i + 1) s' := by
  obtain ⟨pt, hpt, hset⟩ := setupKernelPage_sets h hi hstep
  obtain ⟨hmem, hj⟩ := kernelPt_mem hpt
  have hP4 : pml4Frame b % 4096 = 0 := (h.frames b.kPml4 (by simp)).1
  have hP2 : pdFrame b % 4096 = 0 := (h.frames b.kPd (by simp)).1
  obtain ⟨hne₁, hne₂, hne₃⟩ := h.upper
  obtain ⟨hne₄, hne₅, hne₆⟩ := h.pt_frame hmem
  refine ⟨hset.currentPd.trans hs.pd, fun _ => ?_, ?_, ?_, ?_, fun j pt' hj' hpt' => ?_⟩
  · rw [hset.currentPt, Nat.add_sub_cancel, hpt]
  · rw [hset.kept h hpt hP4 (by decide) (.inl hne₄.symm) (.inl hne₂) (.inl hne₁)
      (.inr (by decide))]
    exact hs.absent
  · exact hs.pml4Entry.step (Nat.succ_ne_zero i) hset.pml4Word fun _ _ ha =>
      h.leads (by simp) (by decide) ha
  · exact hs.pdptEntry.step (Nat.succ_ne_zero i) hset.pdptWord fun _ _ ha =>
      h.leads (by simp) (by omega) ha
  · by_cases heq : j = i / 512
    · subst heq
      obtain rfl := Option.some.inj (hpt.symm.trans hpt')
      exact (hs.pdEntry _ _ hj' hpt').step (by omega) hset.pdWord fun _ _ ha =>
        h.leads (kernelPt_static hpt) (by omega) ha
    · have hkept := hset.kept h hpt hP2 hj' (.inl hne₆.symm) (.inr heq) (.inl hne₃.symm)
        (.inl hne₂.symm)
      exact (hs.pdEntry j pt' hj' hpt').congr hkept (by omega)

theorem clearTable_zero {b : KernelInfo} {s : Paging} {t a : Nat} (h : s.memory a = 0) :
    (clearTable b s t).memory a = 0 := by
  unfold clearTable
  dsimp only
  split
  · rfl
  · exact h

theorem clearTables_zero {b : KernelInfo} {tables : List Nat} {s : Paging} {a : Nat}
    (h : s.memory a = 0 ∨ ∃ t ∈ tables,
      imagePhysical b t ≤ a ∧ a < imagePhysical b t + pageSize) :
    (tables.foldl (clearTable b) s).memory a = 0 := by
  induction tables generalizing s with
  | nil => exact h.resolve_right fun ⟨_, ht, _⟩ => List.not_mem_nil ht
  | cons t tables ih =>
      refine ih ?_
      rcases h with h | ⟨u, hu, ha⟩
      · exact .inl (clearTable_zero h)
      · rcases List.mem_cons.mp hu with rfl | hu
        · exact .inl (if_pos ha)
        · exact .inr ⟨u, hu, ha⟩

theorem clearTables_slot {b : KernelInfo} {tables : List Nat} {s : Paging} {t i : Nat}
    (ht : t ∈ tables) (hi : i < 512) :
    (tables.foldl (clearTable b) s).memory (imagePhysical b t + 8 * i) = 0 :=
  clearTables_zero (.inr ⟨t, ht, by omega, by unfold pageSize; omega⟩)

theorem setupIdentityMap_other {b : KernelInfo} {s : Paging} {a : Nat}
    (h : ∀ i, i < 8 → a ≠ imagePhysical b b.identityMap + 8 * i) :
    (setupIdentityMap b s).memory a = s.memory a := by
  unfold setupIdentityMap
  have hall : ∀ k, k ≤ 8 → ((List.range k).foldl (fun s i => setStatic b s b.identityMap i
      (pagingMakePage (i * 0x40000000) (tableFlags ||| pageFlagPageSize))) s).memory a
        = s.memory a := by
    intro k hk
    induction k with
    | zero => rfl
    | succ k ih =>
        rw [List.range_succ, List.foldl_append]
        exact (Function.update_of_ne (h k (by omega)) ..).trans (ih (by omega))
  exact hall 8 (Nat.le_refl 8)

theorem setStatic_same (b : KernelInfo) (s : Paging) (table i entry : Nat) :
    (setStatic b s table i entry).memory (imagePhysical b table + 8 * i) = entry :=
  Function.update_self ..

def beforeLoop (b : KernelInfo) (s : Paging) : Paging :=
  { [b.kPml4, b.kPdpt, b.kPd, b.kPt1, b.kPt2].foldl (clearTable b)
      ((setupIdentityMap b s).write (s.cr3 + 8 * 256)
        (pagingMakePage (imagePhysical b b.identityMap) tableFlags)) with
    kCurrentPdpt := b.kPdpt, kCurrentPd := b.kPd }

/-- A word that is not cleared is 0 when it was 0 before. -/
theorem beforeLoop_zero {b : KernelInfo} {s : Paging} {a : Nat} (h : s.memory a = 0)
    (hmap : ∀ i, i < 8 → a ≠ imagePhysical b b.identityMap + 8 * i) (hcr3 : a ≠ s.cr3 + 8 * 256) :
    (beforeLoop b s).memory a = 0 := by
  dsimp only [beforeLoop]
  refine clearTables_zero (.inl ?_)
  exact (Function.update_of_ne hcr3 ..).trans ((setupIdentityMap_other hmap).trans h)

theorem beforeLoop_cleared (b : KernelInfo) (s : Paging) {t i : Nat}
    (ht : t ∈ [b.kPml4, b.kPdpt, b.kPd, b.kPt1, b.kPt2]) (hi : i < 512) :
    (beforeLoop b s).memory (imagePhysical b t + 8 * i) = 0 :=
  clearTables_slot ht hi

theorem numKernelPages_le {b : KernelInfo} {pages : Nat} (h : numKernelPages b = some pages) :
    pages ≤ 2 ^ 16 := by
  obtain ⟨e, -, rfl⟩ := Option.map_eq_some_iff.mp h
  dsimp only
  split <;> omega

/-- What the turns of the loop keep holds of the state at its end, and that is
the result but for one word of the PML4. -/
theorem initialStructures_run {b : KernelInfo} {s s' : Paging} {pages : Nat}
    {I : Nat → Paging → Prop} (hpages : numKernelPages b = some pages)
    (hstart : I 0 (beforeLoop b s))
    (hstep : ∀ i s s', i < pages → I i s → setupKernelPage b s i = some s' → I (i + 1) s')
    (hsetup : pagingSetupInitialStructures b s = some s') :
    ∃ s₁, I pages s₁ ∧ s'.cr3 = pml4Frame b ∧ s'.kCurrentPd = s₁.kCurrentPd ∧
      s'.kCurrentPt = s₁.kCurrentPt ∧ s'.memory (pml4Frame b + 8 * 256) =
        pagingMakePage (imagePhysical b b.identityMap) tableFlags ∧
      ∀ a, a ≠ pml4Frame b + 8 * 256 → s'.memory a = s₁.memory a := by
  have himIndex : (pagingGetIndexes identityMapEnd).pml4 = 256 := by decide
  obtain ⟨pages', hpages', hsetup⟩ := Option.bind_eq_some_iff.mp hsetup
  obtain rfl := Option.some.inj (hpages.symm.trans hpages')
  obtain ⟨s₁, hs₁, hs'⟩ := Option.bind_eq_some_iff.mp hsetup
  obtain rfl := Option.some.inj hs'
  rw [himIndex] at hs₁ ⊢
  refine ⟨s₁, Run.foldlM_range_invariant hstep hstart hs₁, rfl, rfl, rfl, ?_, fun a ha => ?_⟩
  · dsimp only [pml4Frame]
    exact setStatic_same b s₁ b.kPml4 256 _
  · exact Function.update_of_ne ha ..

theorem setUp_start {b : KernelInfo} (s : Paging) : SetUp b 0 (beforeLoop b s) := by
  have hzero : ∀ {t i}, t ∈ [b.kPml4, b.kPdpt, b.kPd, b.kPt1, b.kPt2] → i < 512 →
      (beforeLoop b s).memory (imagePhysical b t + 8 * i) = 0 := beforeLoop_cleared b s
  refine ⟨rfl, fun h => absurd h (Nat.lt_irrefl 0), ?_, ?_, ?_, fun j pt hj _ => ?_⟩
  · exact hzero (t := b.kPml4) (by simp) (by decide)
  · exact (if_pos rfl).mpr (hzero (t := b.kPml4) (by simp) (by decide))
  · exact (if_pos rfl).mpr (hzero (t := b.kPdpt) (by simp) (by decide))
  · exact (if_pos (Nat.zero_le _)).mpr (hzero (t := b.kPd) (by simp) hj)

theorem initialStructures_setUp {b : KernelInfo} (h : StaticTables b) {s s' : Paging}
    (hsetup : pagingSetupInitialStructures b s = some s') :
    ∃ pages, numKernelPages b = some pages ∧ SetUp b pages s' ∧ s'.cr3 = pml4Frame b := by
  obtain ⟨pages, hpages, -⟩ := Option.bind_eq_some_iff.mp hsetup
  have hlt := numKernelPages_le hpages
  obtain ⟨s₁, hloop, hcr3, hpd, hpt, -, hsame⟩ := initialStructures_run (I := SetUp b) hpages
    (setUp_start s) (fun i s s' hi hI hf =>
      setupKernelPage_setUp h (Nat.lt_of_lt_of_le hi hlt) hI hf) hsetup
  refine ⟨pages, hpages, ?_, hcr3⟩
  -- the entry of the identity map is another word of the PML4
  have hP4 : pml4Frame b % 4096 = 0 := (h.frames b.kPml4 (by simp)).1
  have hP3 : pdptFrame b % 4096 = 0 := (h.frames b.kPdpt (by simp)).1
  have hP2 : pdFrame b % 4096 = 0 := (h.frames b.kPd (by simp)).1
  obtain ⟨hne₁, hne₂, -⟩ := h.upper
  have hout : pml4Frame b + 8 * 34 ≠ pml4Frame b + 8 * 256 := by omega
  have hout₄ : pml4Frame b + 8 * 511 ≠ pml4Frame b + 8 * 256 := by omega
  have hout₃ := word_ne (i := 510) (j := 256) hP3 hP4 (by decide) (by decide) (.inl hne₁.symm)
  have habsent := (hsame _ hout).trans hloop.absent
  have hpml4 := hloop.pml4Entry.congr (q := pages = 0) (hsame _ hout₄) Iff.rfl
  have hpdpt := hloop.pdptEntry.congr (q := pages = 0) (hsame _ hout₃) Iff.rfl
  refine ⟨hpd.trans hloop.pd, fun hi => ?_, habsent, hpml4, hpdpt, fun j pt hj hpt => ?_⟩
  · rw [hpt]
    exact hloop.pt hi
  · have hout₂ := word_ne (j := 256) hP2 hP4 hj (by decide) (.inl hne₂.symm)
    exact (hloop.pdEntry j pt hj hpt).congr (hsame _ hout₂) Iff.rfl

/-! ## Walks -/

theorem mmu_leads {s : Paging} {p f₂ f₁ f₀ phys v : Nat} (hcr3 : s.cr3 = p)
    (h₄ : Leads s.memory (p + 8 * (pagingGetIndexes v).pml4) f₂)
    (h₃ : Leads s.memory (f₂ + 8 * (pagingGetIndexes v).pdpt) f₁)
    (h₂ : Leads s.memory (f₁ + 8 * (pagingGetIndexes v).pd) f₀)
    (h₁ : Leads s.memory (f₀ + 8 * (pagingGetIndexes v).pt) phys) :
    mmu s v = some (phys + v % 4096) := by
  unfold mmu
  rw [getIndexes_eq] at *
  dsimp only at h₁ h₂ h₃ h₄
  have hl₃ : v / 2 ^ (12 + 9 * (2 + 1)) % 512 = v / 2 ^ 39 % 512 := rfl
  have hl₂ : v / 2 ^ (12 + 9 * (1 + 1)) % 512 = v / 2 ^ 30 % 512 := rfl
  have hl₁ : v / 2 ^ (12 + 9 * (0 + 1)) % 512 = v / 2 ^ 21 % 512 := rfl
  rw [hcr3, mmuWalk_leads hl₃ h₄, mmuWalk_leads hl₂ h₃, mmuWalk_leads hl₁ h₂]
  unfold mmuWalk
  dsimp only
  rw [if_neg h₁.present, h₁.addr]

theorem mmuWalk_absent {memory : Nat → Nat} {l table v i : Nat}
    (hi : v / 2 ^ (12 + 9 * l) % 512 = i) (h : memory (table + 8 * i) = 0) :
    mmuWalk memory l table v = none := by
  subst hi
  cases l with
  | zero =>
      rw [mmuWalk, if_pos]
      rw [show 2 ^ 12 = 2 ^ (12 + 9 * 0) from rfl, h, Nat.zero_and]
  | succ l => rw [mmuWalk, if_pos (by rw [h, Nat.zero_and])]

theorem mmuWalk_page {memory : Nat → Nat} {table v i f : Nat} (hi : v / 2 ^ 12 % 512 = i)
    (h : Leads memory (table + 8 * i) f) : mmuWalk memory 0 table v = some (f + v % 4096) := by
  subst hi
  rw [mmuWalk, if_neg h.present, h.addr]

/-! ## The pages of the image -/

/-- The words of the page tables, and those of the directory that no turn sets,
after `i` pages. -/
structure Mapped (b : KernelInfo) (i : Nat) (s : Paging) : Prop where
  leaf : ∀ k pt, kernelPt b (k / 512) = some pt →
    EntryAt s.memory (i ≤ k) (imagePhysical b pt + 8 * (k % 512))
      (imagePhysical b kernelStart + 4096 * k)
  high : ∀ j, 4 ≤ j → j < 512 → s.memory (pdFrame b + 8 * j) = 0

theorem StaticTables.pt_ne {b : KernelInfo} (h : StaticTables b) {j j' pt pt' : Nat}
    (hpt : kernelPt b j = some pt) (hpt' : kernelPt b j' = some pt') (hne : j ≠ j') :
    imagePhysical b pt ≠ imagePhysical b pt' := by
  intro heq
  have hd : ([b.kPt1, b.kPt2, b.kPt3, b.kPt4].map (imagePhysical b)).Nodup :=
    h.distinct.sublist (((List.suffix_append [b.kPml4, b.kPdpt, b.kPd] _).sublist).map _)
  have hj := (kernelPt_mem hpt).2
  rw [kernelPt_eq] at hpt hpt'
  refine hne ((List.getElem?_inj (by simpa using hj) hd).mp ?_)
  rw [List.getElem?_map, List.getElem?_map, hpt, hpt', Option.map_some, Option.map_some, heq]

theorem setupKernelPage_mapped {b : KernelInfo} (h : StaticTables b) {i : Nat} {s s' : Paging}
    (himage : imagePhysical b kernelStart % 4096 = 0 ∧
      imagePhysical b kernelStart + 4096 * i + 4096 ≤ 2 ^ 52)
    (hi : i < 2 ^ 16) (hs : Mapped b i s) (hstep : setupKernelPage b s i = some s') :
    Mapped b (i + 1) s' := by
  obtain ⟨pt, hpt, hset⟩ := setupKernelPage_sets h hi hstep
  obtain ⟨hmem, hj⟩ := kernelPt_mem hpt
  have hP2 : pdFrame b % 4096 = 0 := (h.frames b.kPd (by simp)).1
  obtain ⟨hne₁, hne₂, hne₃⟩ := h.upper
  refine ⟨fun k pt' hpt' => ?_, fun j hj' hlt => ?_⟩
  · have hP1 := (h.frames pt' (kernelPt_static hpt')).1
    have hslot : k % 512 < 512 := index_lt k
    obtain ⟨hne₄, hne₅, hne₆⟩ := h.pt_frame (kernelPt_mem hpt').1
    by_cases heq : k = i
    · subst heq
      obtain rfl := Option.some.inj (hpt.symm.trans hpt')
      have hphysical : (imagePhysical b kernelStart + k * 0x1000) % 2 ^ 64 =
          imagePhysical b kernelStart + 4096 * k + 0 := by omega
      have hleaf := hset.leaf
      rw [hphysical] at hleaf
      unfold EntryAt
      rw [if_neg (by omega)]
      exact .of_makePage_slot (o := 0) hleaf (by omega) (by decide)
    · have hother : imagePhysical b pt' ≠ imagePhysical b pt ∨ k % 512 ≠ i % 512 := by
        by_cases hsame : k / 512 = i / 512
        · exact .inr (by omega)
        · exact .inl (h.pt_ne hpt' hpt hsame)
      have hkept := hset.kept h hpt hP1 hslot hother (.inl hne₆) (.inl hne₅) (.inl hne₄)
      exact (hs.leaf k pt' hpt').congr hkept (by omega)
  · obtain ⟨-, -, hne₆⟩ := h.pt_frame hmem
    rw [hset.kept h hpt hP2 hlt (.inl hne₆.symm) (.inr (by omega)) (.inl hne₃.symm)
      (.inl hne₂.symm)]
    exact hs.high j hj' hlt

/-! ## The function -/

/-- What the boot loader leaves: `k_pt3` and `k_pt4`, which nobody clears, are
zero, and the PML4 in use and `identity_map` are other pages. -/
structure BeforeSetUp (b : KernelInfo) (s : Paging) : Prop where
  tables : StaticTables b
  zero : ∀ t ∈ [b.kPt3, b.kPt4], ∀ i, i < 512 → s.memory (imagePhysical b t + 8 * i) = 0
  aligned : s.cr3 % 4096 = 0 ∧ imagePhysical b b.identityMap % 4096 = 0
  others : ∀ t ∈ [b.kPt3, b.kPt4], s.cr3 ≠ imagePhysical b t ∧
    imagePhysical b b.identityMap ≠ imagePhysical b t

theorem mapped_start {b : KernelInfo} {s : Paging} (h : BeforeSetUp b s) :
    Mapped b 0 (beforeLoop b s) := by
  have hcleared : ∀ {t i}, t ∈ [b.kPml4, b.kPdpt, b.kPd, b.kPt1, b.kPt2] → i < 512 →
      (beforeLoop b s).memory (imagePhysical b t + 8 * i) = 0 := beforeLoop_cleared b s
  have hzero : ∀ t ∈ [b.kPt3, b.kPt4], ∀ i, i < 512 →
      (beforeLoop b s).memory (imagePhysical b t + 8 * i) = 0 := by
    intro t ht i hi
    have hstatic : t ∈ [b.kPml4, b.kPdpt, b.kPd, b.kPt1, b.kPt2, b.kPt3, b.kPt4] :=
      (List.suffix_append [b.kPml4, b.kPdpt, b.kPd, b.kPt1, b.kPt2] _).subset ht
    have hframe := (h.tables.frames t hstatic).1
    obtain ⟨hcr3, hmap⟩ := h.others t ht
    obtain ⟨hcr3', hmap'⟩ := h.aligned
    exact beforeLoop_zero (h.zero t ht i hi) (fun j hj => by omega) (by omega)
  refine ⟨fun k pt hpt => (if_pos (Nat.zero_le k)).mpr ?_, fun j _ hj =>
    hcleared (t := b.kPd) (by simp) hj⟩
  have hslot := Nat.mod_lt k (show 0 < 512 by decide)
  have hmem := (kernelPt_mem hpt).1
  simp only [List.mem_cons, List.not_mem_nil, or_false] at hmem
  rcases hmem with rfl | rfl | rfl | rfl
  · exact hcleared (t := b.kPt1) (by simp) hslot
  · exact hcleared (t := b.kPt2) (by simp) hslot
  · exact hzero b.kPt3 (by simp) _ hslot
  · exact hzero b.kPt4 (by simp) _ hslot

theorem setupKernelPages_returns {b : KernelInfo} {n : Nat} (hn : n ≤ 2048) (s : Paging) :
    ∃ s', (List.range n).foldlM (setupKernelPage b) s = some s' := by
  induction n with
  | zero => exact ⟨s, rfl⟩
  | succ n ih =>
      obtain ⟨s₁, hs₁⟩ := ih (by omega)
      obtain ⟨pt, hpt⟩ := kernelPt_of_lt b (show n / 512 < 4 by omega)
      rw [List.range_succ, List.foldlM_append, hs₁]
      simp only [Option.bind_eq_bind, Option.bind_some, List.foldlM_cons, List.foldlM_nil,
        setupKernelPage, page_indexes (show n < 2 ^ 16 by omega), hpt, Option.map_some]
      exact ⟨_, rfl⟩

/-- The walk through the gigabyte of the kernel when `pages` pages are mapped. -/
theorem mmu_mapped {b : KernelInfo} {s : Paging} {pages i o : Nat} (hcr3 : s.cr3 = pml4Frame b)
    (hs : SetUp b pages s) (hm : Mapped b pages s) (hpages : pages ≤ 2048) (hi : i < 2 ^ 18)
    (ho : o < 4096) :
    mmu s (kernelStart + 4096 * i + o) =
      if i < pages then some (imagePhysical b kernelStart + 4096 * i + o) else none := by
  have hk : kernelStart = 0xFFFFFFFF80000000 := rfl
  generalize hv : kernelStart + 4096 * i + o = v
  have h₄ : v / 2 ^ (12 + 9 * (2 + 1)) % 512 = 511 := by omega
  have h₃ : v / 2 ^ (12 + 9 * (1 + 1)) % 512 = 510 := by omega
  have h₂ : v / 2 ^ (12 + 9 * (0 + 1)) % 512 = i / 512 := by omega
  have h₁ : v / 2 ^ 12 % 512 = i % 512 := by omega
  have hoff : v % 4096 = o := by omega
  have hP4 := hs.pml4Entry
  have hP3 := hs.pdptEntry
  unfold EntryAt at hP4 hP3
  rw [mmu, hcr3]
  by_cases hnone : pages = 0
  · rw [if_pos hnone] at hP4
    rw [if_neg (by omega)]
    exact mmuWalk_absent h₄ hP4
  rw [if_neg hnone] at hP4 hP3
  rw [mmuWalk_leads h₄ hP4, mmuWalk_leads h₃ hP3]
  by_cases hj : i / 512 < 4
  · obtain ⟨pt, hpt⟩ := kernelPt_of_lt b hj
    have hP2 := hs.pdEntry (i / 512) pt (by omega) hpt
    have hP1 := hm.leaf i pt hpt
    unfold EntryAt at hP2 hP1
    by_cases hempty : pages ≤ 512 * (i / 512)
    · rw [if_pos hempty] at hP2
      rw [if_neg (by omega)]
      exact mmuWalk_absent h₂ hP2
    rw [if_neg hempty] at hP2
    rw [mmuWalk_leads h₂ hP2]
    by_cases hbeyond : pages ≤ i
    · rw [if_pos hbeyond] at hP1
      rw [if_neg (by omega)]
      exact mmuWalk_absent h₁ hP1
    · rw [if_neg hbeyond] at hP1
      rw [if_pos (by omega), mmuWalk_page h₁ hP1, hoff]
  · rw [if_neg (by omega)]
    exact mmuWalk_absent h₂ (hm.high _ (by omega) (by omega))

theorem initialStructures_mapped {b : KernelInfo} {s s' : Paging} (h : BeforeSetUp b s)
    {pages : Nat} (hpages : numKernelPages b = some pages)
    (himage : imagePhysical b kernelStart % 4096 = 0 ∧
      imagePhysical b kernelStart + 4096 * pages ≤ 2 ^ 52)
    (hsetup : pagingSetupInitialStructures b s = some s') : Mapped b pages s' := by
  have hlt := numKernelPages_le hpages
  obtain ⟨s₁, hloop, -, -, -, -, hsame⟩ := initialStructures_run (I := Mapped b) hpages
    (mapped_start h) (fun i s s' hi hI hf =>
      setupKernelPage_mapped h.tables ⟨himage.1, by omega⟩ (Nat.lt_of_lt_of_le hi hlt) hI hf)
    hsetup
  have hP4 : pml4Frame b % 4096 = 0 := (h.tables.frames b.kPml4 (by simp)).1
  have hP2 : pdFrame b % 4096 = 0 := (h.tables.frames b.kPd (by simp)).1
  obtain ⟨-, hne, -⟩ := h.tables.upper
  refine ⟨fun k pt hpt => ?_, fun j hj hlt' => ?_⟩
  · have hP1 := (h.tables.frames pt (kernelPt_static hpt)).1
    have hne₄ := (h.tables.pt_frame (kernelPt_mem hpt).1).1
    have hslot : k % 512 < 512 := index_lt k
    have hout := word_ne (j := 256) hP1 hP4 hslot (by decide) (.inl hne₄)
    exact (hloop.leaf k pt hpt).congr (hsame _ hout) Iff.rfl
  · have hout := word_ne (j := 256) hP2 hP4 hlt' (by decide) (.inl hne.symm)
    exact (hsame _ hout).trans (hloop.high j hj hlt')

theorem initialStructures_returns {b : KernelInfo} (s : Paging) {pages : Nat}
    (hpages : numKernelPages b = some pages) (hle : pages ≤ 2048) :
    ∃ s', pagingSetupInitialStructures b s = some s' := by
  unfold pagingSetupInitialStructures
  simp only [hpages, Option.bind_eq_bind, Option.bind_some]
  obtain ⟨s₁, hs₁⟩ := setupKernelPages_returns (b := b) hle _
  rw [hs₁]
  exact ⟨_, rfl⟩

/-- **The initial mapping.** For every entry of at most 2048 pages the walk
from `k_pml4` takes the pages of the entry to the image, and finds no other
page of the kernel's gigabyte. The loop is followed word by word: what a turn
sets, no later turn changes, and the words that no turn sets are still 0. -/
theorem initial_mapping {b : KernelInfo} {s : Paging} {e : MemmapEntry} (h : BeforeSetUp b s)
    (he : (b.memmap.filter fun e => e.type == limineMemmapKernelAndModules).getLast? = some e)
    (hsize : e.size ≤ 2048 * 4096)
    (himage : imagePhysical b kernelStart % 4096 = 0 ∧
      imagePhysical b kernelStart + e.size ≤ 2 ^ 52) :
    ∃ s', pagingSetupInitialStructures b s = some s' ∧ s'.cr3 = imagePhysical b b.kPml4 ∧
      ∀ i, i < 2 ^ 18 → ∀ o, o < 4096 → mmu s' (kernelStart + 4096 * i + o) =
        if 4096 * i < e.size then some (imagePhysical b (kernelStart + 4096 * i) + o)
        else none := by
  obtain ⟨pages, hpages, hceil⟩ : ∃ pages, numKernelPages b = some pages ∧
      4096 * pages < e.size + 4096 ∧ e.size ≤ 4096 * pages := by
    unfold numKernelPages
    rw [he]
    refine ⟨_, rfl, ?_⟩
    dsimp only
    split <;> omega
  obtain ⟨s', hs'⟩ := initialStructures_returns s hpages (by omega)
  obtain ⟨pages', hpages', hsetUp, hcr3⟩ := initialStructures_setUp h.tables hs'
  obtain rfl := Option.some.inj (hpages.symm.trans hpages')
  have hmapped := initialStructures_mapped h hpages ⟨himage.1, by omega⟩ hs'
  refine ⟨s', hs', hcr3, fun i hi o ho => ?_⟩
  rw [mmu_mapped hcr3 hsetUp hmapped (by omega) hi ho]
  by_cases hin : i < pages
  · have hbase := h.tables.base
    have hphysical : imagePhysical b (kernelStart + 4096 * i) =
        imagePhysical b kernelStart + 4096 * i := by
      unfold imagePhysical at himage ⊢
      omega
    rw [if_pos hin, if_pos (by omega), hphysical]
  · rw [if_neg hin, if_neg (by omega)]

/-- A kernel of 16 pages at 2 MiB with 256 MiB of memory to allocate from. -/
def smallImage : KernelInfo :=
  { kernelVirtualBase := kernelStart
    kernelPhysicalBase := 0x200000
    kernelEnd := kernelStart + 0x10000
    kernelAllocateMemoryStart := 0x1000000
    kernelAllocateMemorySize := 0x10000000
    memmap := [{ size := 0x10000, type := 6 }]
    identityMap := kernelStart + 0x1000
    kPml4 := kernelStart + 0x2000
    kPdpt := kernelStart + 0x3000
    kPd := kernelStart + 0x4000
    kPt1 := kernelStart + 0x5000
    kPt2 := kernelStart + 0x6000
    kPt3 := kernelStart + 0x7000
    kPt4 := kernelStart + 0x8000 }

def bootMemory : Paging :=
  { memory := fun _ => 0
    cr3 := 0x100000
    kernelVirtualBase := 0
    kernelPhysicalBase := 0
    kernelVirtualAllocationBase := 0
    kernelPhysicalAllocationBase := 0
    kernelVirtualMemoryNext := 0
    kernelPhysicalMemoryNext := 0 }

theorem smallImage_beforeSetUp : BeforeSetUp smallImage bootMemory where
  tables := ⟨by decide, by decide, by decide⟩
  zero _ _ _ _ := rfl
  aligned := by decide
  others := by decide

theorem initial_mapping_smallImage :
    ∃ s', pagingSetupInitialStructures smallImage bootMemory = some s' ∧
      s'.cr3 = imagePhysical smallImage smallImage.kPml4 ∧
      ∀ i, i < 2 ^ 18 → ∀ o, o < 4096 → mmu s' (kernelStart + 4096 * i + o) =
        if 4096 * i < 0x10000 then some (imagePhysical smallImage (kernelStart + 4096 * i) + o)
        else none :=
  initial_mapping (e := ⟨0x10000, 6⟩) smallImage_beforeSetUp rfl (by decide) (by decide)

end VersionSix.Page
