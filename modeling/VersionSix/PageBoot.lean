import VersionSix.PageInitial

/-!
# Booting the page allocator

`paging_setup_initial_structures` and `paging_initalize` reach a state in which
the invariant of `PageInStep` holds, and every run that starts there and stays
within its conditions keeps the addresses and the position in the page tables
in step (`cursors_in_step`).

Booting allocates with the allocator it is setting up. The first page becomes
the table that comes next, the second one is kept for the next directory, and
the paging test takes tables for an address of its own; `boot_steps` cuts the
function there, and `Spare` counts the pages that are still left. What
allocation does to the words that the next part reads is the frame `Word`: the
PML4 and the pages handed out are kept.

An `mmio` call at the last entry of a page table skips to the next one without
a new address (`mmio_skips`); the condition on the calls excludes just that.
-/

namespace VersionSix.Page

/-! ## Calls -/

/-- The allocator between two calls. -/
structure Ready (b : KernelInfo) (s : Paging) : Prop where
  cursor : Cursor b 0 s
  newPd : s.kNewPd ≠ b.kPd
  newPt : Allocated b s s.kNewPt
  room : s.kernelPhysicalMemoryNext + 4096 ≤ areaEnd b

/-- The condition on a call: it stays in the page directory, an `mmio` call
also in the page table, and it leaves room for one more page. -/
def StepOk (b : KernelInfo) (s : Paging) : Call → Prop
  | .linear n => Fits b s (renews s + n) ∧
      s.kernelPhysicalMemoryNext + 4096 * (renews s + n + 1) ≤ areaEnd b
  | .mmio n => s.kCurrentPtIndex + n ≤ 511 ∧
      s.kernelPhysicalMemoryNext + 4096 * (n + 1) ≤ areaEnd b

theorem Further.ready {b : KernelInfo} {n : Nat} {s s' : Paging} (h : Further b n s s')
    (hs : Ready b s) (hroom : s.kernelPhysicalMemoryNext + 4096 * (n + 1) ≤ areaEnd b)
    (hnewPt : Allocated b s' s'.kNewPt) : Ready b s' where
  cursor := h.cursor
  newPd := by
    rw [h.newPd]
    exact hs.newPd
  newPt := hnewPt
  room := by
    rw [h.phys, Nat.add_assoc, ← Nat.mul_succ]
    exact hroom

/-- **Step lemma.** -/
theorem step_ready {b : KernelInfo} (h : Layout b) {s s' : Paging} {c : Call} (hs : Ready b s)
    (hok : StepOk b s c) (hstep : step s c = some s') : Ready b s' := by
  have hkeep : ∀ {n s'}, Further b n s s' → s'.kNewPt = s.kNewPt → Allocated b s' s'.kNewPt := by
    intro n s' hfurther heq
    rw [heq]
    refine hs.newPt.mono ?_
    rw [hfurther.virt]
    exact Nat.le_add_right ..
  cases c with
  | linear n =>
      obtain ⟨⟨v, s₁⟩, hcall, rfl⟩ := Option.map_eq_some_iff.mp hstep
      rcases Nat.eq_zero_or_pos n with rfl | hn
      · obtain rfl := (Prod.mk.inj (Option.some.inj hcall)).2
        exact hs
      obtain ⟨v', s₂, hs₂, hfurther, -, -, -, hnew, hsame⟩ :=
        linear_ok h hs.cursor hn hs.newPd hok.1 (.inr (.inr hs.newPt))
      obtain rfl := (Prod.mk.inj (Option.some.inj (hs₂.symm.trans hcall))).2
      refine hfurther.ready hs hok.2 ?_
      by_cases heq : s.kCurrentPt = s.kNewPt
      · exact hnew heq
      · exact hkeep hfurther (hsame heq)
  | mmio n =>
      obtain ⟨⟨v, s₁⟩, hcall, rfl⟩ := Option.map_eq_some_iff.mp hstep
      rcases Nat.eq_zero_or_pos n with rfl | hn
      · obtain rfl := (Prod.mk.inj (Option.some.inj hcall)).2
        exact hs
      obtain ⟨hpt, hroom⟩ := hok
      have hroom' : s.kernelPhysicalMemoryNext + 4096 * n ≤ areaEnd b :=
        (Nat.add_le_add_left (Nat.mul_le_mul_left _ (Nat.le_succ n)) _).trans hroom
      obtain ⟨s₂, hs₂, hfurther, hsame⟩ := mmioPages_ok h hs.cursor hroom' hpt
      rw [mmio_within hn hpt, hs₂] at hcall
      obtain rfl := (Prod.mk.inj (Option.some.inj hcall)).2
      exact hfurther.ready hs hroom (hkeep hfurther hsame)

theorem Ready.inStep {b : KernelInfo} (h : Layout b) {s : Paging} (hs : Ready b s) : InStep s := by
  obtain ⟨hc, -, -, hroom⟩ := hs
  have hindexes := hc.getIndexes_next
  refine ⟨by rw [hindexes]; exact ⟨rfl, rfl⟩, ⟨pdFrame b, ptrFrame b s.kCurrentPt, ?_,
    hc.physOf_table h hc.table.1, hc.table.2.present, hc.table.2.addr⟩, ?_, fun v s' hs' => ?_⟩
  · rw [hc.pd]
    exact hc.physOf_static h (by simp)
  · obtain ⟨n, hv, hp⟩ := hc.count
    obtain ⟨-, -, hb₃, hb₄⟩ := hc.bases
    rw [hb₃, hb₄, hv, hp]
    omega
  · rw [single_eq h hc hroom] at hs'
    obtain ⟨rfl, rfl⟩ := Prod.mk.inj (Option.some.inj hs')
    exact ⟨single_mmu h hc hroom, fun i hi => if_pos ⟨by omega, by unfold pageSize; omega⟩⟩

/-! ## Allocating while booting -/

/-- Ready, with room for `k` pages. -/
structure Spare (b : KernelInfo) (k : Nat) (s : Paging) : Prop where
  cursor : Cursor b 0 s
  newPd : s.kNewPd ≠ b.kPd
  newPt : Allocated b s s.kNewPt
  fits : Fits b s k

theorem linear_one {b : KernelInfo} (h : Layout b) {k : Nat} {s : Paging} (hc : Cursor b 0 s)
    (hpd : s.kNewPd ≠ b.kPd) (hfits : Fits b s (k + 2))
    (hlook : s.kCurrentPt = s.kNewPt ∨ s.kCurrentPtIndex + 1 ≤ 511 ∨ Allocated b s s.kNewPt) :
    ∃ v s', pageAllocateKernelLinear 1 s = some (v, s') ∧ Cursor b 0 s' ∧
      s'.kNewPd = s.kNewPd ∧ Fits b s' k ∧ Keeps b s s' ∧ FreshData b s' v ∧
      s.kernelVirtualMemoryNext ≤ v ∧ mmu s' v = some (ptrFrame b v) ∧
      (Allocated b s s.kNewPt → Allocated b s' s'.kNewPt) := by
  have hrenews := renews_le s
  obtain ⟨v, s', hs', hfurther, hfresh, hle, hmmu, hnew, hsame⟩ :=
    linear_ok h hc (by decide) hpd (hfits.mono (by omega)) hlook
  refine ⟨v, s', hs', hfurther.cursor, hfurther.newPd, ?_, hfurther.keeps, hfresh, hle, hmmu rfl,
    fun hnewPt => ?_⟩
  · exact .further hc hfurther (hfits.mono (by omega))
  · by_cases heq : s.kCurrentPt = s.kNewPt
    · exact hnew heq
    · rw [hsame heq]
      refine hnewPt.mono ?_
      rw [hfurther.virt]
      exact Nat.le_add_right ..

theorem Spare.linear {b : KernelInfo} (h : Layout b) {k : Nat} {s : Paging}
    (hs : Spare b (k + 2) s) : ∃ v s', pageAllocateKernelLinear 1 s = some (v, s') ∧
      Spare b k s' ∧ Keeps b s s' ∧ FreshData b s' v ∧ s.kernelVirtualMemoryNext ≤ v ∧
      mmu s' v = some (ptrFrame b v) := by
  obtain ⟨v, s', hs', hc, hpd, hfits, hkeeps, hfresh, hle, hmmu, hnewPt⟩ :=
    linear_one h hs.cursor hs.newPd hs.fits (.inr (.inr hs.newPt))
  exact ⟨v, s', hs', ⟨hc, by rw [hpd]; exact hs.newPd, hnewPt hs.newPt, hfits⟩, hkeeps, hfresh, hle,
    hmmu⟩

theorem Spare.ready {b : KernelInfo} {k : Nat} {s : Paging} (hs : Spare b (k + 1) s) : Ready b s :=
  ⟨hs.cursor, hs.newPd, hs.newPt, (hs.fits.mono (Nat.le_add_left 1 k)).area⟩

/-- A word that is in none of the three upper tables. -/
def OutsideUpper (b : KernelInfo) (a : Nat) : Prop :=
  a ≠ pml4Frame b + 8 * 511 ∧ a ≠ pdptFrame b + 8 * 510 ∧
    (a < pdFrame b ∨ pdFrame b + 4096 ≤ a)

theorem Spare.write {b : KernelInfo} {k : Nat} {s : Paging} (hs : Spare b k s) {a : Nat}
    (ha : OutsideUpper b a) (value : Nat) : Spare b k (s.write a value) := by
  obtain ⟨hc, hpd, hpt, hfits⟩ := hs
  have hindexes := hc.indexes
  obtain ⟨h4, h3, h2⟩ := ha
  refine ⟨⟨hc.cr3, hc.bases, hc.pd, hc.pml4Entry.congr ?_, hc.pdptEntry.congr ?_, hc.indexes,
    hc.next, hc.count, hc.room, ⟨hc.table.1, hc.table.2.congr ?_⟩, hc.newPt⟩, hpd, hpt,
    ⟨hfits.area, hfits.directory⟩⟩
  · exact Function.update_of_ne h4.symm ..
  · exact Function.update_of_ne h3.symm ..
  · exact Function.update_of_ne (by omega) ..

/-! ## The words that allocation keeps -/

/-- A word of the PML4 or of a page that was handed out. -/
def Word (b : KernelInfo) (s : Paging) (a : Nat) : Prop :=
  (∃ i, i < 512 ∧ a = pml4Frame b + 8 * i) ∨
    ∃ p i, DataPage b s p ∧ i < 512 ∧ a = ptrFrame b p + 8 * i

theorem Keeps.word {b : KernelInfo} {s s' : Paging} (h : Keeps b s s') {a : Nat}
    (ha : Word b s a) : Word b s' a ∧ s'.memory a = s.memory a := by
  rcases ha with ⟨i, hi, rfl⟩ | ⟨p, i, hp, hi, rfl⟩
  · exact ⟨.inl ⟨i, hi, rfl⟩, h.pml4 i hi⟩
  · obtain ⟨hp', hsame⟩ := h.data p hp
    exact ⟨.inr ⟨p, i, hp', hi, rfl⟩, hsame i hi⟩

theorem Word.place {b : KernelInfo} (h : Layout b) {s : Paging} {d : Nat} (hc : Cursor b d s)
    {a : Nat} (ha : Word b s a) :
    (a < s.kernelPhysicalMemoryNext ∨ areaEnd b ≤ a) ∧ (a < 0x90000000 ∨ 0x90001000 ≤ a) := by
  obtain ⟨n, hv, hn⟩ := hc.count
  have hroom := hc.room
  have harea := h.testPage.2
  unfold areaEnd at hroom
  rcases ha with ⟨i, hi, rfl⟩ | ⟨p, i, hp, hi, rfl⟩
  · have hframe := h.static_frame (t := b.kPml4) (by simp)
    unfold pml4Frame
    unfold areaEnd at *
    omega
  · have hframe := hc.allocated_frame hp.allocated
    unfold areaEnd at *
    omega

theorem Word.ne_new {b : KernelInfo} (h : Layout b) {s s' : Paging} (hc : Cursor b 0 s)
    (hc' : Cursor b 0 s') {a p i : Nat} (ha : Word b s a) (hp : Allocated b s' p)
    (hle : s.kernelVirtualMemoryNext ≤ p) (hi : i < 512) : a ≠ ptrFrame b p + 8 * i := by
  have hplace := (ha.place h hc).1
  have hframe := hc'.allocated_frame hp
  have hroom := hc'.room
  obtain ⟨n, hv, hn⟩ := hc.count
  have hptr : ptrFrame b p = b.kernelAllocateMemoryStart + (p - b.kernelEnd) := if_pos hp.2.1
  omega

theorem Word.outsideUpper {b : KernelInfo} (h : Layout b) {s : Paging} {d : Nat}
    (hc : Cursor b d s) {a : Nat} (ha : Word b s a) (hne : a ≠ pml4Frame b + 8 * 511) :
    OutsideUpper b a := by
  have h4 : pml4Frame b % 4096 = 0 := (h.static_frame (t := b.kPml4) (by simp)).1
  have h3 : pdptFrame b % 4096 = 0 := (h.static_frame (t := b.kPdpt) (by simp)).1
  have h2 : pdFrame b % 4096 = 0 := (h.static_frame (t := b.kPd) (by simp)).1
  obtain ⟨hne₁, hne₂, hne₃⟩ := h.upper_frames
  rcases ha with ⟨i, hi, rfl⟩ | ⟨p, i, hp, hi, rfl⟩
  · exact ⟨hne, by omega, by omega⟩
  · obtain ⟨halign, -, -, h4', h3', h2'⟩ := h.table_frame hc (.inr hp.allocated)
    exact ⟨hne, by omega, by omega⟩

theorem DataPage.write {b : KernelInfo} {s : Paging} {p : Nat} (h : DataPage b s p)
    (a value : Nat) : DataPage b (s.write a value) p := ⟨h.allocated, h.notCurrent, h.notNew⟩

theorem Word.write {b : KernelInfo} {s : Paging} {a : Nat} (h : Word b s a) (a' value : Nat) :
    Word b (s.write a' value) a := by
  rcases h with h | ⟨p, i, hp, hi, rfl⟩
  · exact .inl h
  · exact .inr ⟨p, i, hp.write a' value, hi, rfl⟩

theorem Layout.test_outsideUpper {b : KernelInfo} (h : Layout b) {a : Nat}
    (ha : 0x90000000 ≤ a ∧ a < 0x90001000) : OutsideUpper b a := by
  have h4 := (h.static_frame (t := b.kPml4) (by simp)).2.2.2
  have h3 := (h.static_frame (t := b.kPdpt) (by simp)).2.2.2
  have h2 := (h.static_frame (t := b.kPd) (by simp)).2.2.2
  unfold OutsideUpper pml4Frame pdptFrame pdFrame
  omega

/-! ## A table for the test page -/

/-- The mapping takes a page for a missing table and sets its entry. -/
theorem Spare.setupTable {b : KernelInfo} (h : Layout b) {k : Nat} {s : Paging}
    (hs : Spare b (k + 2) s) {parent f i : Nat}
    (hparent : ∀ s', Cursor b 0 s' → Keeps b s s' → physOf s' parent = some f)
    (hword : Word b s (f + 8 * i)) (hne : f + 8 * i ≠ pml4Frame b + 8 * 511) :
    ∃ v s', setupTable (pageAllocateKernelLinear 1) s none parent i = some (v, s') ∧
      Spare b k s' ∧ DataPage b s' v ∧ Leads s'.memory (f + 8 * i) (ptrFrame b v) ∧
      ∀ a, Word b s a → Word b s' a ∧ (∀ j, j < 512 → a ≠ ptrFrame b v + 8 * j) ∧
        (a ≠ f + 8 * i → s'.memory a = s.memory a) := by
  obtain ⟨v, s₁, hs₁, hspare, hkeeps, hfresh, hle, -⟩ := hs.linear h
  have hc := hspare.cursor
  have hv := hfresh.1.allocated
  have hframe := h.table_frame hc (.inr hv)
  have hword₁ := (hkeeps.word hword).1
  refine ⟨v, s₁.write (f + 8 * i) (pagingMakePage (ptrFrame b v) tableFlags), ?_,
    hspare.write (hword₁.outsideUpper h hc hne) _, hfresh.1.write ..,
    .of_makePage (Function.update_self ..) ⟨hframe.1, hframe.2.1⟩, fun a ha => ⟨?_, ?_, ?_⟩⟩
  · unfold Page.setupTable
    dsimp only
    rw [hs₁, Option.bind_some]
    dsimp only
    rw [hc.kernelPagePhysical_eq h hv, storeEntry_eq (hparent s₁ hc hkeeps)]
    rfl
  · exact (hkeeps.word ha).1.write ..
  · exact fun j hj => ha.ne_new h hs.cursor hc hv hle hj
  · intro hne'
    exact (Function.update_of_ne hne' ..).trans (hkeeps.word ha).2

/-! ## The paging test -/

theorem readsBack_eq {s s' : Paging} {v value : Nat} (h : readsBack s v value = some s') :
    s' = s := by
  unfold readsBack at h
  obtain ⟨read, -, hread⟩ := Option.bind_eq_some_iff.mp h
  split at hread
  · cases hread
  · exact (Option.some.inj hread).symm

theorem findTables_absent {s : Paging} {pml4 : Nat} {index : PageIndexes}
    (h : loadEntry s pml4 index.pml4 = some 0) :
    findTables s pml4 index = some { pdpt := none, pd := none, pt := none } := by
  unfold findTables
  rw [h, Option.bind_some]
  exact if_pos (Nat.zero_and _)

/-- The mapping of the test page, with three new tables on the way. -/
theorem Spare.mapTestPage {b : KernelInfo} (h : Layout b) {k : Nat} {s : Paging}
    (hs : Spare b (k + 6) s) (phys : Nat) {virt : Nat} (hindex : (pagingGetIndexes virt).pml4 < 511)
    (habsent : s.memory (pml4Frame b + 8 * (pagingGetIndexes virt).pml4) = 0)
    (hphys : phys % 4096 = 0 ∧ phys + 4096 ≤ identityMapSize) :
    ∃ s', pagingPageMapToPml4 (pageAllocateKernelLinear 1) s 0 phys virt tableFlags = some s' ∧
      Spare b k s' ∧ ∃ a f₂ f₁ f₀, a = pml4Frame b + 8 * (pagingGetIndexes virt).pml4 ∧
        (Word b s' a ∧ Leads s'.memory a f₂) ∧
        (Word b s' (f₂ + 8 * (pagingGetIndexes virt).pdpt) ∧
          Leads s'.memory (f₂ + 8 * (pagingGetIndexes virt).pdpt) f₁) ∧
        (Word b s' (f₁ + 8 * (pagingGetIndexes virt).pd) ∧
          Leads s'.memory (f₁ + 8 * (pagingGetIndexes virt).pd) f₀) ∧
        Word b s' (f₀ + 8 * (pagingGetIndexes virt).pt) ∧
          Leads s'.memory (f₀ + 8 * (pagingGetIndexes virt).pt) phys := by
  have hlt := (getIndexes_lt virt).2
  generalize hindexes : pagingGetIndexes virt = index at *
  have hroot : ∀ s', physOf s' (pml4Pointer s 0) = some (pml4Frame b) := by
    intro s'
    rw [show pml4Pointer s 0 = (pml4Frame b + addrIdentityMap) % 2 ^ 64 by
      rw [← hs.cursor.cr3]; exact if_pos rfl]
    exact physOf_direct s' (h.static_frame (t := b.kPml4) (by simp)).2.1
  have hfind : findTables s (pml4Pointer s 0) index
      = some { pdpt := none, pd := none, pt := none } := by
    refine findTables_absent ?_
    unfold loadEntry
    rw [hroot s, Option.map_some, habsent]
  have hw₄ : Word b s (pml4Frame b + 8 * index.pml4) := .inl ⟨_, by omega, rfl⟩
  have htop : Word b s (pml4Frame b + 8 * 511) := .inl ⟨511, by decide, rfl⟩
  -- the pointer of a page handed out
  have hpointer : ∀ {s₁ v}, DataPage b s₁ v → ∀ s', Cursor b 0 s' → Keeps b s₁ s' →
      physOf s' v = some (ptrFrame b v) :=
    fun hv s' hc hk => hc.physOf_table h (.inr (hk.data _ hv).1.allocated)
  obtain ⟨v₂, s₁, h₁, hs₁, hd₂, hl₄, hold₁⟩ :=
    Spare.setupTable h (k := k + 4) hs (fun s' _ _ => hroot s') hw₄ (by omega)
  have hw₃ : Word b s₁ (ptrFrame b v₂ + 8 * index.pdpt) := .inr ⟨v₂, _, hd₂, hlt.1, rfl⟩
  obtain ⟨v₁, s₂, h₂, hs₂, hd₁, hl₃, hold₂⟩ :=
    Spare.setupTable h (k := k + 2) hs₁ (hpointer hd₂) hw₃ ((hold₁ _ htop).2.1 _ hlt.1).symm
  have hw₂ : Word b s₂ (ptrFrame b v₁ + 8 * index.pd) := .inr ⟨v₁, _, hd₁, hlt.2.1, rfl⟩
  obtain ⟨v₀, s₃, h₃, hs₃, hd₀, hl₂, hold₃⟩ :=
    Spare.setupTable h (k := k) hs₂ (hpointer hd₁) hw₂
      ((hold₂ _ (hold₁ _ htop).1).2.1 _ hlt.2.1).symm
  have hw₁ : Word b s₃ (ptrFrame b v₀ + 8 * index.pt) := .inr ⟨v₀, _, hd₀, hlt.2.2, rfl⟩
  have htop₂ := (hold₂ _ (hold₁ _ htop).1).1
  have hkeep₃ : ∀ {a f}, Word b s₂ a → a ≠ ptrFrame b v₁ + 8 * index.pd → Leads s₂.memory a f →
      Leads (s₃.write (ptrFrame b v₀ + 8 * index.pt) (pagingMakePage phys tableFlags)).memory a f :=
    fun hw hne hl => (hl.congr ((hold₃ _ hw).2.2 hne)).congr
      (Function.update_of_ne ((hold₃ _ hw).2.1 _ hlt.2.2) ..)
  have hw₄' := (hold₂ _ (hold₁ _ hw₄).1).1
  have hne₄ := (hold₁ _ hw₄).2.1 _ hlt.1
  refine ⟨s₃.write (ptrFrame b v₀ + 8 * index.pt) (pagingMakePage phys tableFlags), ?_,
    hs₃.write (hw₁.outsideUpper h hs₃.cursor ((hold₃ _ htop₂).2.1 _ hlt.2.2).symm) _,
    _, ptrFrame b v₂, ptrFrame b v₁, ptrFrame b v₀, rfl, ⟨(hold₃ _ hw₄').1.write .., ?_⟩,
    ⟨(hold₃ _ (hold₂ _ hw₃).1).1.write .., ?_⟩, ⟨(hold₃ _ hw₂).1.write .., ?_⟩, hw₁.write .., ?_⟩
  · rw [← hindexes] at *
    rw [pageMap_eq hfind h₁ h₂ h₃]
    exact storeEntry_eq (hpointer hd₀ s₃ hs₃.cursor (.refl b s₃)) ..
  · exact hkeep₃ hw₄' ((hold₂ _ (hold₁ _ hw₄).1).2.1 _ hlt.2.1)
      (hl₄.congr ((hold₂ _ (hold₁ _ hw₄).1).2.2 hne₄))
  · exact hkeep₃ (hold₂ _ hw₃).1 ((hold₂ _ hw₃).2.1 _ hlt.2.1) hl₃
  · exact hl₂.congr (Function.update_of_ne ((hold₃ _ hw₂).2.1 _ hlt.2.2) ..)
  · exact .of_makePage (Function.update_self ..) hphys

theorem storeVirtual_eq {s : Paging} {v a : Nat} (h : mmu s v = some a) (value : Nat) :
    storeVirtual s v value = some (s.write a value) := by
  unfold storeVirtual
  rw [h]
  rfl

/-- The two values are stored in the test page, which belongs to nobody. -/
theorem storeTest_spare {b : KernelInfo} (h : Layout b) {k v : Nat} {s s₁ s₂ : Paging}
    (hs : Spare b k s) (hv : v % 4096 = 0)
    (hsame : ∀ w, w < 8 → pagingGetIndexes (v + 8 * w) = pagingGetIndexes v)
    (hway : ∃ a f₂ f₁ f₀, a = pml4Frame b + 8 * (pagingGetIndexes v).pml4 ∧
      (Word b s a ∧ Leads s.memory a f₂) ∧
      (Word b s (f₂ + 8 * (pagingGetIndexes v).pdpt) ∧
        Leads s.memory (f₂ + 8 * (pagingGetIndexes v).pdpt) f₁) ∧
      (Word b s (f₁ + 8 * (pagingGetIndexes v).pd) ∧
        Leads s.memory (f₁ + 8 * (pagingGetIndexes v).pd) f₀) ∧
      Word b s (f₀ + 8 * (pagingGetIndexes v).pt) ∧
        Leads s.memory (f₀ + 8 * (pagingGetIndexes v).pt) 0x90000000)
    {x y : Nat} (h₁ : storeVirtual s v x = some s₁) (h₂ : storeVirtual s₁ (v + 8) y = some s₂) :
    Spare b k s₂ := by
  obtain ⟨a, f₂, f₁, f₀, rfl, ⟨hw₄, hl₄⟩, ⟨hw₃, hl₃⟩, ⟨hw₂, hl₂⟩, hw₁, hl₁⟩ := hway
  have hmmu := mmu_leads hs.cursor.cr3 hl₄ hl₃ hl₂ hl₁
  rw [storeVirtual_eq hmmu, hv] at h₁
  obtain rfl := Option.some.inj h₁
  have htest : OutsideUpper b (0x90000000 + 0) := h.test_outsideUpper ⟨by decide, by decide⟩
  have hkeep : ∀ {a f}, Word b s a → Leads s.memory a f →
      Leads (s.write (0x90000000 + 0) x).memory a f := fun hw hl =>
    hl.congr (Function.update_of_ne (by have := (hw.place h hs.cursor).2; omega) ..)
  have hindex := hsame 1 (by decide)
  have hmmu₂ : mmu (s.write (0x90000000 + 0) x) (v + 8) = some (0x90000000 + (v + 8) % 4096) :=
    mmu_leads (v := v + 8) hs.cursor.cr3 (by rw [hindex]; exact hkeep hw₄ hl₄)
      (by rw [hindex]; exact hkeep hw₃ hl₃) (by rw [hindex]; exact hkeep hw₂ hl₂)
      (by rw [hindex]; exact hkeep hw₁ hl₁)
  rw [storeVirtual_eq hmmu₂] at h₂
  obtain rfl := Option.some.inj h₂
  exact (hs.write htest x).write (h.test_outsideUpper ⟨by omega, by omega⟩) y

/-- The stages of the test, with the page it gets at `a`. -/
theorem sanityCheck_stages {s s' s₁ : Paging} {v a : Nat} (hcheck : sanityCheck s = some s')
    (hs₁ : pageAllocateKernelLinear 1 s = some (v, s₁)) (hmmu : mmu s₁ v = some a) :
    ∃ s₃ s₄, pagingPageMapToPml4 (pageAllocateKernelLinear 1) (s₁.write a 0x00001111BADAB000) 0
        0x90000000 0x00001122BADA0000 tableFlags = some s₃ ∧
      storeVirtual s₃ 0x00001122BADA0000 30 = some s₄ ∧
      storeVirtual s₄ (0x00001122BADA0000 + 8) 40 = some s' := by
  obtain ⟨⟨v', s₁'⟩, hs₁', hcheck⟩ := Option.bind_eq_some_iff.mp hcheck
  obtain ⟨rfl, rfl⟩ := Prod.mk.inj (Option.some.inj (hs₁.symm.trans hs₁'))
  obtain ⟨r₁, hr₁, hcheck⟩ := Option.bind_eq_some_iff.mp hcheck
  obtain rfl := Option.some.inj ((storeVirtual_eq hmmu _).symm.trans hr₁)
  obtain ⟨r₂, hr₂, hcheck⟩ := Option.bind_eq_some_iff.mp hcheck
  obtain rfl := readsBack_eq hr₂
  obtain ⟨s₃, hs₃, hcheck⟩ := Option.bind_eq_some_iff.mp hcheck
  obtain ⟨s₄, hs₄, hcheck⟩ := Option.bind_eq_some_iff.mp hcheck
  obtain ⟨s₅, hs₅, hcheck⟩ := Option.bind_eq_some_iff.mp hcheck
  obtain rfl := readsBack_eq hcheck
  exact ⟨s₃, s₄, hs₃, hs₄, hs₅⟩

theorem sanityCheck_spare {b : KernelInfo} (h : Layout b) {k : Nat} {s s' : Paging}
    (hs : Spare b (k + 8) s) (habsent : s.memory (pml4Frame b + 8 * 34) = 0)
    (hcheck : sanityCheck s = some s') : Spare b k s' := by
  obtain ⟨v, s₁, hs₁, hspare₁, hkeeps, hfresh, hle, hmmu⟩ := Spare.linear h (k := k + 6) hs
  have hframe := h.table_frame hspare₁.cursor (.inr hfresh.1.allocated)
  have hword : Word b s₁ (ptrFrame b v) :=
    .inr ⟨v, 0, hfresh.1, by decide, by rw [Nat.mul_zero, Nat.add_zero]⟩
  obtain ⟨s₃', s₄, hs₃', hs₄, hs₅⟩ := sanityCheck_stages hcheck hs₁ hmmu
  have habove : ∀ i, i < 512 → ptrFrame b v ≠ pml4Frame b + 8 * i := fun i hi => by
    have h4 : pml4Frame b % 4096 = 0 := (h.static_frame (t := b.kPml4) (by simp)).1
    omega
  have hspare₂ := hspare₁.write (hword.outsideUpper h hspare₁.cursor (habove 511 (by decide)))
    0x00001111BADAB000
  have hindexes : (pagingGetIndexes 0x00001122BADA0000).pml4 = 34 := by decide
  have habsent₂ : (s₁.write (ptrFrame b v) 0x00001111BADAB000).memory (pml4Frame b
      + 8 * (pagingGetIndexes 0x00001122BADA0000).pml4) = 0 := by
    rw [hindexes]
    exact (Function.update_of_ne (habove 34 (by decide)).symm ..).trans
      ((hkeeps.pml4 34 (by decide)).trans habsent)
  obtain ⟨s₃, hs₃, hspare₃, hway⟩ := hspare₂.mapTestPage h 0x90000000
    (by rw [hindexes]; decide) habsent₂ ⟨by decide, by decide⟩
  obtain rfl := Option.some.inj (hs₃.symm.trans hs₃')
  exact storeTest_spare h hspare₃ (by decide) (by decide) hway hs₄ hs₅

/-! ## Booting -/

/-- What booting needs: `kernel_end` lies in the page table of the image's
last page, and not in its last entry; the area has room for a few pages. -/
structure BootOk (b : KernelInfo) : Prop where
  layout : Layout b
  image : ∀ pages, numKernelPages b = some pages → 0 < pages ∧
    (b.kernelEnd - kernelStart) / 4096 / 512 = (pages - 1) / 512
  entry : (b.kernelEnd - kernelStart) / 4096 % 512 ≤ 510
  area : 16 * 4096 ≤ b.kernelAllocateMemorySize

theorem startCursor_cursor {b : KernelInfo} (hb : BootOk b) {s : Paging} {pages : Nat}
    (hpages : numKernelPages b = some pages) (hs : SetUp b pages s) (hcr3 : s.cr3 = pml4Frame b) :
    Cursor b 0 (startCursor b s) ∧ Fits b (startCursor b s) 16 ∧
      (startCursor b s).kCurrentPtIndex + 1 ≤ 511 := by
  obtain ⟨hpos, hpd⟩ := hb.image pages hpages
  obtain ⟨halign, hstart, hend⟩ := hb.layout.kernelEnd
  obtain ⟨hmem, hlt⟩ := kernelPt_mem (hs.pt hpos)
  have hentry := hb.entry
  have hpt := hb.layout.statics _ (pt_static hmem)
  have hk : kernelStart = 0xFFFFFFFF80000000 := rfl
  generalize hi : (b.kernelEnd - kernelStart) / 4096 = i at hpd hentry
  have hkernelEnd : b.kernelEnd = kernelStart + 4096 * (512 * (i / 512) + i % 512) := by
    rw [Nat.div_add_mod]
    omega
  have hindexes : pagingGetIndexes b.kernelEnd
      = { pml4 := 511, pdpt := 510, pd := i / 512, pt := i % 512 } := by
    rw [hkernelEnd, kernel_indexes (by omega) (by omega)]
  have hframe : ptrFrame b s.kCurrentPt = imagePhysical b s.kCurrentPt := if_neg (by omega)
  have hcursor : (startCursor b s).kCurrentPdIndex = i / 512 ∧
      (startCursor b s).kCurrentPtIndex = i % 512 := by
    unfold startCursor
    rw [hindexes]
    exact ⟨rfl, rfl⟩
  have hlead : Leads s.memory (pdFrame b + 8 * (i / 512)) (ptrFrame b s.kCurrentPt) := by
    rw [hpd, hframe]
    have := hs.pdEntry _ _ (by omega) (hs.pt hpos)
    rwa [EntryAt, if_neg (by omega)] at this
  have hne : ¬ pages = 0 := by omega
  have hP4 := hs.pml4Entry
  have hP3 := hs.pdptEntry
  rw [EntryAt, if_neg hne] at hP4 hP3
  refine ⟨⟨hcr3, ⟨hb.layout.base, rfl, rfl, rfl⟩, hs.pd, hP4, hP3, ?_, ?_, ⟨0, rfl, rfl⟩,
    Nat.le_add_right .., ⟨.inl hmem, ?_⟩, ?_⟩, ⟨?_, ?_⟩, ?_⟩
  · rw [hcursor.1, hcursor.2]
    omega
  · rw [hcursor.1, hcursor.2, Nat.add_zero, ← hkernelEnd]
    rfl
  · rw [hcursor.1]
    exact hlead
  · show 0xFFFF000000000000 < b.kernelEnd
    omega
  · have := hb.area
    show b.kernelAllocateMemoryStart + 4096 * 16 ≤ areaEnd b
    unfold areaEnd
    omega
  · unfold position
    rw [hcursor.1, hcursor.2]
    omega
  · rw [hcursor.2]
    omega

/-- Booting up to the paging test: the first page becomes the next page table,
the second one is kept for the next page directory. -/
theorem boot_steps {b : KernelInfo} (hb : BootOk b) {s₀ s : Paging} (hboot : boot b s₀ = some s) :
    ∃ s₁ v s₂ w s₃, pagingSetupInitialStructures b s₀ = some s₁ ∧
      pageAllocateKernelLinear 1 (startCursor b s₁) = some (v, s₂) ∧
      pageAllocateKernelLinear 1 { s₂ with kNewPt := v } = some (w, s₃) ∧
      sanityCheck { s₃ with kNewPd := w } = some s ∧
      Spare b 14 { s₂ with kNewPt := v } ∧ Spare b 12 { s₃ with kNewPd := w } ∧
      s₃.memory (pml4Frame b + 8 * 34) = 0 := by
  have h := hb.layout
  have hk : kernelStart = 0xFFFFFFFF80000000 := rfl
  obtain ⟨s₁, hs₁, hboot⟩ := Option.bind_eq_some_iff.mp hboot
  obtain ⟨pages, hpages, hsetUp, hcr3⟩ := initialStructures_setUp h.staticTables hs₁
  obtain ⟨hc, hfits, hentry⟩ := startCursor_cursor hb hpages hsetUp hcr3
  have hkPd := h.statics b.kPd (by simp)
  have hend := h.kernelEnd
  obtain ⟨⟨v, s₂⟩, hs₂, hboot⟩ := Option.bind_eq_some_iff.mp hboot
  have hpd₁ : (startCursor b s₁).kNewPd ≠ b.kPd := by
    show 0xFFFF000000000000 ≠ b.kPd
    omega
  obtain ⟨v', s₂', hs₂', hc₂, hpd₂, hfits₂, hkeeps₂, hfresh₂, hle₂, -, -⟩ :=
    linear_one (k := 14) h hc hpd₁ hfits (.inr (.inl hentry))
  obtain ⟨rfl, rfl⟩ := Prod.mk.inj (Option.some.inj (hs₂'.symm.trans hs₂))
  have hv := hfresh₂.1.allocated
  have hspare₂ : Spare b 14 { s₂' with kNewPt := v' } := by
    refine ⟨⟨hc₂.cr3, hc₂.bases, hc₂.pd, hc₂.pml4Entry, hc₂.pdptEntry, hc₂.indexes, hc₂.next,
      hc₂.count, hc₂.room, hc₂.table, ?_⟩, ?_, hv, hfits₂.area, hfits₂.directory⟩
    · have := hv.2.2
      dsimp only
      omega
    · dsimp only
      rw [hpd₂]
      exact hpd₁
  obtain ⟨⟨w, s₃⟩, hs₃, hcheck⟩ := Option.bind_eq_some_iff.mp hboot
  obtain ⟨w', s₃', hs₃', hspare₃, hkeeps₃, hfresh₃, -, -⟩ := Spare.linear (k := 12) h hspare₂
  obtain ⟨rfl, rfl⟩ := Prod.mk.inj (Option.some.inj (hs₃'.symm.trans hs₃))
  have hw := hfresh₃.1.allocated
  obtain ⟨hc₃, -, hpt₃, hfits₃⟩ := hspare₃
  refine ⟨s₁, v', s₂', w', s₃', hs₁, hs₂', hs₃', hcheck, hspare₂, ⟨⟨hc₃.cr3, hc₃.bases, hc₃.pd,
    hc₃.pml4Entry, hc₃.pdptEntry, hc₃.indexes, hc₃.next, hc₃.count, hc₃.room, hc₃.table,
    hc₃.newPt⟩, ?_, hpt₃, hfits₃.area, hfits₃.directory⟩, ?_⟩
  · have := hw.2.1
    dsimp only
    omega
  · exact ((hkeeps₃.pml4 34 (by decide)).trans (hkeeps₂.pml4 34 (by decide))).trans hsetUp.absent

theorem boot_ready {b : KernelInfo} (hb : BootOk b) {s₀ s : Paging} (hboot : boot b s₀ = some s) :
    Ready b s := by
  obtain ⟨s₁, v, s₂, w, s₃, -, -, -, hcheck, -, hspare, habsent⟩ := boot_steps hb hboot
  exact (sanityCheck_spare (k := 4) hb.layout hspare habsent hcheck).ready

/-! ## Runs -/

/-- In every state of every run whose calls stay within the conditions, the
addresses and the position in the page tables agree. The run starts with what
the boot loader leaves: that booting ends in a state of the invariant is part
of the theorem, and so is the room booting needs for it. -/
theorem cursors_in_step {b : KernelInfo} {s₀ s s' : Paging} {calls : List Call} (hb : BootOk b)
    (hboot : boot b s₀ = some s) (hok : Run.Along step (StepOk b) s calls)
    (hrun : Run.exec step s calls = some s') : InStep s' := by
  have hready := Run.exec_invariant (I := Ready b)
    (fun _ _ _ hs hc hstep => step_ready hb.layout hs hc hstep) (boot_ready hb hboot) hok hrun
  exact hready.inStep hb.layout

/-! ## Skipping to the next table -/

instance Fits.decidable (b : KernelInfo) (s : Paging) (n : Nat) : Decidable (Fits b s n) :=
  decidable_of_iff (s.kernelPhysicalMemoryNext + 4096 * n ≤ areaEnd b ∧ position s + n < 2 ^ 18)
    ⟨fun h => ⟨h.1, h.2⟩, fun h => ⟨h.area, h.directory⟩⟩

instance StepOk.decidable (b : KernelInfo) (s : Paging) : ∀ c, Decidable (StepOk b s c)
  | .linear n => inferInstanceAs (Decidable (Fits b s (renews s + n) ∧
      s.kernelPhysicalMemoryNext + 4096 * (renews s + n + 1) ≤ areaEnd b))
  | .mmio n => inferInstanceAs (Decidable (s.kCurrentPtIndex + n ≤ 511 ∧
      s.kernelPhysicalMemoryNext + 4096 * (n + 1) ≤ areaEnd b))

theorem smallImage_ok : BootOk smallImage := by
  refine ⟨⟨rfl, ?_, ?_, ?_, ?_, ?_, ?_, ?_⟩, fun pages hpages => ?_, ?_, ?_⟩
  case refine_8 =>
    obtain rfl := Option.some.inj hpages
    decide
  all_goals decide

theorem cursors_in_step_smallImage :
    ∃ s s', boot smallImage bootMemory = some s ∧
      Run.exec step s [.linear 3, .mmio 2, .linear 1] = some s' ∧ InStep s' := by
  have hrun : (boot smallImage bootMemory).any fun s =>
      decide (Run.Along step (StepOk smallImage) s [.linear 3, .mmio 2, .linear 1]) &&
        (Run.exec step s [.linear 3, .mmio 2, .linear 1]).isSome := by decide +kernel
  obtain ⟨s, hboot, hs⟩ := (Option.any_eq_true _ _).mp hrun
  obtain ⟨hok, hsome⟩ := Bool.and_eq_true_iff.mp hs
  obtain ⟨s', hs'⟩ := Option.isSome_iff_exists.mp hsome
  exact ⟨s, s', hboot, hs', cursors_in_step smallImage_ok hboot (of_decide_eq_true hok) hs'⟩

theorem mmio_skipped {n : Nat} {s s₁ s' : Paging} (hn : 0 < n)
    (hpt : 511 < (s.kCurrentPtIndex + n) % 2 ^ 32)
    (hskip : skipToNextTable (2 ^ 16) s = some s₁) (hpages : mmioPages n s₁ = some s') :
    step s (.mmio n) = some s' := by
  have hcall : pageAllocateKernelMmio n s = some (s₁.kernelVirtualMemoryNext, s') := by
    unfold pageAllocateKernelMmio
    rw [if_neg (show ¬ n < 1 from Nat.not_lt.mpr hn)]
    dsimp only
    rw [if_pos hpt, hskip, Option.bind_eq_bind, Option.bind_some, hpages]
    rfl
  exact congrArg (Option.map Prod.snd) hcall

/-- At the last entry of a page table an `mmio` call skips to the next table
without a new address: the addresses stay one page behind the position. -/
theorem mmio_skips {b : KernelInfo} (h : Layout b) {s : Paging} (hs : Ready b s)
    (hpt : s.kCurrentPtIndex = 511) (hpd : s.kCurrentPdIndex < 511) :
    ∃ s', step s (.mmio 1) = some s' ∧ ¬ InStep s' := by
  obtain ⟨hc, -, hnew, -⟩ := hs
  have hinc := increment_eq h hc fun _ => ⟨hnew, hpd⟩
  have hstepped : stepped b s = { s with
      memory := Function.update s.memory (pdFrame b + 8 * (s.kCurrentPdIndex + 1))
        (pagingMakePage (ptrFrame b s.kNewPt) tableFlags)
      kCurrentPtIndex := 0
      kCurrentPdIndex := s.kCurrentPdIndex + 1
      kCurrentPt := s.kNewPt } := if_pos hpt
  have hskip : skipToNextTable (2 ^ 16) s = some (stepped b s) := by
    rw [show 2 ^ 16 = 65535 + 1 from rfl, skipToNextTable, hinc, Option.bind_some,
      if_neg (by rw [hstepped]; exact not_not.mpr rfl)]
  -- the old table still leads to the address
  have hP4 : pml4Frame b % 4096 = 0 := (h.static_frame (t := b.kPml4) (by simp)).1
  have hP3 : pdptFrame b % 4096 = 0 := (h.static_frame (t := b.kPdpt) (by simp)).1
  have hP2 : pdFrame b % 4096 = 0 := (h.static_frame (t := b.kPd) (by simp)).1
  obtain ⟨-, hne₂, hne₃⟩ := h.upper_frames
  have hkeep : ∀ a, a ≠ pdFrame b + 8 * (s.kCurrentPdIndex + 1) →
      (stepped b s).memory a = s.memory a := by
    rw [hstepped]
    exact fun a ha => Function.update_of_ne ha ..
  have hmap := map_kernel h (s := stepped b s) (by rw [hstepped]; exact hc.cr3)
    (hc.pml4Entry.congr (hkeep _ (by omega))) (hc.pdptEntry.congr (hkeep _ (by omega)))
    (hc.table.2.congr (hkeep _ (by omega))) (h.table_frame hc hc.table.1).2.1
    hc.indexes.1 (show 511 < 512 by decide) (pageAllocateKernelLinear 1)
    s.kernelPhysicalMemoryNext mmioFlags
  have hnext : s.kernelVirtualMemoryNext =
    kernelStart + 4096 * (512 * s.kCurrentPdIndex + 511) := by
    rw [hc.next, hpt]
  obtain ⟨hv, hp, -⟩ := stepped_next b s
  rw [← hnext, ← hv, ← hp] at hmap
  have hindexes : (stepped b s).kCurrentPdIndex = s.kCurrentPdIndex + 1 ∧
      (stepped b s).kCurrentPtIndex = 0 := by
    rw [hstepped]
    exact ⟨rfl, rfl⟩
  have hpages := mmioPages_eq (n := 0) hmap (increment_within
    (hindexes.1.trans_lt (Nat.succ_lt_succ hpd)) (hindexes.2.trans_lt (by decide)))
  have hlt : 511 < (s.kCurrentPtIndex + 1) % 2 ^ 32 := by
    rw [hpt]
    decide
  refine ⟨_, mmio_skipped (by decide) hlt hskip hpages, fun hin => ?_⟩
  have hpt' := hin.indexes.2
  have haddr : ((stepped b s).kernelVirtualMemoryNext + pageSize) % 2 ^ 64
      = kernelStart + 4096 * (512 * (s.kCurrentPdIndex + 1) + 0) := by
    rw [hv, hnext]
    unfold kernelStart pageSize
    omega
  have hzero := congrArg PageIndexes.pt
    (kernel_indexes (Nat.succ_lt_succ hpd) (show 0 < 512 by decide))
  rw [← haddr] at hzero
  exact absurd ((congrArg (· + 1) hindexes.2).symm.trans (hpt'.trans hzero)) (Nat.succ_ne_zero 0)

/-- With the image of 16 pages: 489 pages lead to the last entry of the page
table, and then a page for a device is asked for. -/
theorem mmio_leaves_step : ∃ s s', boot smallImage bootMemory = some s ∧
    Run.exec step s [.linear 489, .mmio 1] = some s' ∧ ¬ InStep s' := by
  have hboot : (boot smallImage bootMemory).any fun s =>
      decide (position s = 22 ∧ renews s = 0 ∧ StepOk smallImage s (.linear 489)) := by
    decide +kernel
  obtain ⟨s, hs, hstart⟩ := (Option.any_eq_true _ _).mp hboot
  obtain ⟨hpos, hrenews, hok⟩ := of_decide_eq_true hstart
  have h := smallImage_ok.layout
  have hready := boot_ready smallImage_ok hs
  obtain ⟨v, s₁, hs₁, hfurther, -⟩ :=
    linear_ok h hready.cursor (by decide) hready.newPd hok.1 (.inr (.inr hready.newPt))
  have hstep : step s (.linear 489) = some s₁ := congrArg (Option.map Prod.snd) hs₁
  have hpos₁ := hfurther.position_eq hready.cursor
  have hindexes := hfurther.cursor.indexes
  rw [hpos, hrenews, position] at hpos₁
  obtain ⟨s', hs', hnot⟩ :=
    mmio_skips h (step_ready h hready hok hstep) (by omega) (by omega)
  refine ⟨s, s', hs, ?_, hnot⟩
  rw [Run.exec, hstep, Option.bind_some, Run.exec, hs']
  rfl

end VersionSix.Page
