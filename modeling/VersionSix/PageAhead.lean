import VersionSix.PageMap
import VersionSix.PageInStep

/-!
# Ahead of the cursor

`InStep` speaks of the cursor; what an allocation does to the rest of the page
tables depends on what they hold from the cursor on. `Laid` says that this is
nothing: the entries of the current table from the next page on are absent, so
are those of the page directory after the current one, the table that comes
next is an empty page of its own, and no table lies in the part of the area
that is still free.

A page that is mapped on such tables adds a leaf and takes nothing away
(`Grows`), so that every translation stays (`Grows.mmu`).

One linear allocation may go over the end of the current table once, into the
one that was put aside; `Lasts` says that it does so at most once, and
`linear_laid` is the rule for a whole call. At its end the next table is
renewed, with a page from the same cursor.
-/

namespace VersionSix.Page

/-! ## Nodes and words -/

theorem look_eq_some {memory : Nat → Nat} {l f i : Nat} {n : Node}
    (h : look memory (.table l f) i = some n) :
    i < 512 ∧ memory (f + 8 * i) &&& pageFlagPresent ≠ 0 ∧
      n = entryNode l (memory (f + 8 * i)) := by
  unfold look at h
  dsimp only at h
  split at h
  · next hin => exact ⟨hin.1, hin.2, (Option.some.inj h).symm⟩
  · cases h

/-- Memory that has the words of all tables has the same nodes. -/
theorem nodeAt_congr {s s' : Paging} (hcr3 : s'.cr3 = s.cr3)
    (hsame : ∀ p l f, s.nodeAt p = some (.table l f) → ∀ i, i < 512 →
      s'.memory (f + 8 * i) = s.memory (f + 8 * i)) (p : List Nat) : s'.nodeAt p = s.nodeAt p := by
  unfold Paging.nodeAt
  rw [hcr3]
  refine PathTree.resolve_congr fun q n i _ hq => ?_
  cases n with
  | table l f =>
      by_cases hi : i < 512
      · unfold look
        dsimp only
        rw [hsame q l f hq i hi]
      · unfold look
        dsimp only
        rw [if_neg fun h => hi h.1, if_neg fun h => hi h.1]
  | page f => rfl
  | huge e => rfl

/-- An entry that was absent adds a node and leaves the others. -/
theorem TreeOk.nodeAt_added {s : Paging} (hs : TreeOk s) {q : List Nat} {l t c entry : Nat}
    (hq : s.nodeAt q = some (.table l t)) (hc : c < 512)
    (habsent : s.memory (t + 8 * c) &&& pageFlagPresent = 0) (he : entry &&& pageFlagPresent ≠ 0)
    (hleaf : ∀ i, look (s.write (t + 8 * c) entry).memory (entryNode l entry) i = none)
    (p : List Nat) : (s.write (t + 8 * c) entry).nodeAt p
      = if p = q ++ [c] then some (entryNode l entry) else s.nodeAt p := by
  rw [hs.nodeAt_write hq hc he hleaf]
  by_cases heq : p = q ++ [c]
  · rw [if_pos heq, if_pos heq]
  · rw [if_neg heq, if_neg heq]
    split
    · next hpre =>
        obtain ⟨r, rfl⟩ := hpre
        exact (nodeAt_append_none ((nodeAt_concat hq c).trans (look_absent habsent))).symm
    · rfl

theorem Leads.node {s : Paging} {q : List Nat} {l f i g : Nat} (h : Leads s.memory (f + 8 * i) g)
    (hq : s.nodeAt q = some (.table (l + 1) f)) (hi : i < 512) :
    s.nodeAt (q ++ [i]) = some (.table l g) := by
  rw [nodeAt_concat hq, look_table hi h.present, entryNode_table h.plain, h.addr]

/-- Where every node stays, a walk that finds a page finds it again. -/
theorem mmuWalk_kept {s s' : Paging} (h : ∀ p n, s.nodeAt p = some n → s'.nodeAt p = some n)
    {q : List Nat} {l f v a : Nat} (hq : s.nodeAt q = some (.table l f))
    (hwalk : mmuWalk s.memory l f v = some a) : mmuWalk s'.memory l f v = some a := by
  -- one entry of the walk, before and after
  have hentry : ∀ {q l f i}, s.nodeAt q = some (.table l f) → i < 512 →
      s.memory (f + 8 * i) &&& pageFlagPresent ≠ 0 →
      s'.memory (f + 8 * i) &&& pageFlagPresent ≠ 0 ∧
        entryNode l (s'.memory (f + 8 * i)) = entryNode l (s.memory (f + 8 * i)) := by
    intro q l f i hq hi hpresent
    have hnode := h _ _ ((nodeAt_concat hq i).trans (look_table hi hpresent))
    rw [nodeAt_concat (h _ _ hq)] at hnode
    obtain ⟨-, hpresent', heq⟩ := look_eq_some hnode
    exact ⟨hpresent', heq.symm⟩
  induction l generalizing q f with
  | zero =>
      rw [mmuWalk] at hwalk ⊢
      split at hwalk
      · cases hwalk
      · next hpresent =>
          obtain ⟨hpresent', heq⟩ := hentry hq (index_lt _) hpresent
          rw [entryNode_page, entryNode_page] at heq
          rw [if_neg hpresent', Node.page.inj heq]
          exact hwalk
  | succ l ih =>
      rw [mmuWalk] at hwalk ⊢
      split at hwalk
      · cases hwalk
      · next hpresent =>
          have hi : v / 2 ^ (12 + 9 * (l + 1)) % 512 < 512 := index_lt _
          obtain ⟨hpresent', heq⟩ := hentry hq hi hpresent
          have hnode := (nodeAt_concat hq _).trans (look_table hi hpresent)
          rw [if_neg hpresent']
          unfold entryNode at heq hnode
          dsimp only at heq hnode
          split at hwalk
          · next hhuge =>
              rw [if_pos hhuge] at heq
              split at heq
              · next hhuge' =>
                  rw [if_pos hhuge', Node.huge.inj heq]
                  exact hwalk
              · cases heq
          · next hplain =>
              rw [if_neg hplain] at heq hnode
              split at heq
              · cases heq
              · next hplain' =>
                  rw [if_neg hplain', (Node.table.inj heq).2]
                  exact ih hnode hwalk

/-! ## The invariant -/

def InImage (b : KernelInfo) (f : Nat) : Prop :=
  b.kernelPhysicalBase ≤ f ∧ f + 4096 ≤ b.kernelPhysicalBase + (b.kernelEnd - kernelStart)

/-- A frame of the kernel image, or one that has been handed out. -/
def Taken (b : KernelInfo) (s : Paging) (f : Nat) : Prop :=
  InImage b f ∨ b.kernelAllocateMemoryStart ≤ f ∧ f + 4096 ≤ s.kernelPhysicalMemoryNext

theorem Taken.out {b : KernelInfo} (h : Layout b) {s : Paging} {f : Nat} (hf : Taken b s f) :
    f + 4096 ≤ s.kernelPhysicalMemoryNext ∨ areaEnd b ≤ f ∨
      f + 4096 ≤ b.kernelAllocateMemoryStart := by
  have hapart := h.apart
  unfold Taken InImage at hf
  unfold areaEnd
  omega

theorem Taken.mono {b : KernelInfo} {s s' : Paging} {f : Nat} (hf : Taken b s f)
    (hs : s.kernelPhysicalMemoryNext ≤ s'.kernelPhysicalMemoryNext) : Taken b s' f :=
  hf.imp_right fun hf => ⟨hf.1, hf.2.trans hs⟩

def Blank (b : KernelInfo) (s : Paging) (p : Nat) : Prop :=
  (∀ q l, s.nodeAt q ≠ some (.table l (ptrFrame b p))) ∧
    ∀ i, i < 512 → s.memory (ptrFrame b p + 8 * i) = 0

/-- The page tables from the cursor on. -/
structure Laid (b : KernelInfo) (d : Nat) (s : Paging) : Prop where
  tree : TreeOk s
  tables : ∀ {p l f}, s.nodeAt p = some (.table l f) → Taken b s f
  pages : ∀ {j k f}, s.nodeAt [511, 510, j, k] = some (.page f) → Taken b s f
  entries : ∀ i, s.kCurrentPtIndex + d ≤ i → i < 512 →
    s.memory (ptrFrame b s.kCurrentPt + 8 * i) &&& pageFlagPresent = 0
  directory : ∀ j, s.kCurrentPdIndex < j → j < 512 →
    s.memory (pdFrame b + 8 * j) &&& pageFlagPresent = 0
  spare : Allocated b s s.kNewPt → s.kCurrentPt ≠ s.kNewPt → Blank b s s.kNewPt

theorem Cursor.nodes {b : KernelInfo} {s : Paging} {d : Nat} (hc : Cursor b d s) :
    s.nodeAt [511] = some (.table 2 (pdptFrame b)) ∧
      s.nodeAt [511, 510] = some (.table 1 (pdFrame b)) ∧
      s.nodeAt [511, 510, s.kCurrentPdIndex] = some (.table 0 (ptrFrame b s.kCurrentPt)) := by
  have hroot : s.nodeAt [] = some (.table 3 (pml4Frame b)) := by rw [nodeAt_nil, hc.cr3]
  have h₃ := hc.pml4Entry.node hroot (by decide)
  have h₂ := hc.pdptEntry.node h₃ (by decide)
  exact ⟨h₃, h₂, hc.table.2.node h₂ hc.indexes.1⟩

/-- `s'` has the nodes of `s`, the pages `new` more, and one more table at most. -/
structure Grows (b : KernelInfo) (new : List Nat) (s s' : Paging) : Prop extends
    Agrees new s s' where
  kept : ∀ p n, s.nodeAt p = some n → s'.nodeAt p = some n
  table : ∀ p l f, s'.nodeAt p = some (.table l f) →
    s.nodeAt p = some (.table l f) ∨ f = ptrFrame b s'.kNewPt

theorem Grows.refl (b : KernelInfo) (s : Paging) : Grows b [] s s where
  toAgrees := .refl s
  kept _ _ h := h
  table _ _ _ h := .inl h

theorem Grows.trans {b : KernelInfo} {new₁ new₂ : List Nat} {s s₁ s₂ : Paging}
    (h₁ : Grows b new₁ s s₁) (h₂ : Grows b new₂ s₁ s₂) (hnew : s₂.kNewPt = s₁.kNewPt) :
    Grows b (new₂ ++ new₁) s s₂ where
  toAgrees := h₁.toAgrees.trans h₂.toAgrees
  kept p n h := h₂.kept p n (h₁.kept p n h)
  table p l f h := by
    rcases h₂.table p l f h with h | rfl
    · rw [hnew]
      exact h₁.table p l f h
    · exact .inr rfl

theorem Grows.mmu {b : KernelInfo} {new : List Nat} {s s' : Paging} (h : Grows b new s s')
    {v a : Nat} (hv : mmu s v = some a) : mmu s' v = some a := by
  have hcr3 : s'.cr3 = s.cr3 := by
    have hroot := h.kept _ _ (nodeAt_nil s)
    rw [nodeAt_nil] at hroot
    exact (Node.table.inj (Option.some.inj hroot)).2
  unfold Page.mmu at hv ⊢
  rw [hcr3]
  exact mmuWalk_kept h.kept (nodeAt_nil s) hv

/-! ## The entry of the next page -/

/-- The address of the entry the next page gets. -/
def leafWord (b : KernelInfo) (s : Paging) : Nat := ptrFrame b s.kCurrentPt + 8 * s.kCurrentPtIndex

/-- `m` has the entry of the next page; the page itself may hold anything. -/
structure LeafSet (b : KernelInfo) (s : Paging) (m : Nat → Nat) : Prop where
  present : m (leafWord b s) &&& pageFlagPresent ≠ 0
  addr : m (leafWord b s) &&& pageAddrMask = s.kernelPhysicalMemoryNext
  others : ∀ a, a ≠ leafWord b s →
    a < s.kernelPhysicalMemoryNext ∨ s.kernelPhysicalMemoryNext + 4096 ≤ a → m a = s.memory a

theorem Cursor.leafWord_out {b : KernelInfo} (h : Layout b) {s : Paging} {d : Nat}
    (hc : Cursor b d s) (hroom : s.kernelPhysicalMemoryNext + 4096 ≤ areaEnd b) {i : Nat}
    (hi : i < 512) : ptrFrame b s.kCurrentPt + 8 * i < s.kernelPhysicalMemoryNext ∨
      s.kernelPhysicalMemoryNext + 4096 ≤ ptrFrame b s.kCurrentPt + 8 * i := by
  have hout := (h.table_frame hc hc.table.1).2.2.1
  omega

theorem LeafSet.of_update {b : KernelInfo} (h : Layout b) {s : Paging} (hc : Cursor b 0 s)
    (hroom : s.kernelPhysicalMemoryNext + 4096 ≤ areaEnd b) {flags : Nat} {m : Nat → Nat}
    (hflags : flags &&& pageFlagPresent ≠ 0)
    (hm : ∀ a, a < s.kernelPhysicalMemoryNext ∨ s.kernelPhysicalMemoryNext + 4096 ≤ a →
      m a = Function.update s.memory (leafWord b s)
        (pagingMakePage s.kernelPhysicalMemoryNext flags) a) : LeafSet b s m := by
  have hword : m (leafWord b s) = pagingMakePage s.kernelPhysicalMemoryNext flags := by
    exact (hm _ (hc.leafWord_out h hroom hc.indexes.2)).trans (Function.update_self ..)
  obtain ⟨halign, hdirect, -⟩ := hc.nextPage h hroom
  unfold identityMapSize at hdirect
  refine ⟨?_, ?_, fun a hne ha => ?_⟩
  · rw [hword]
    exact fun h0 => hflags ((makePage_present ..).mp h0)
  · rw [hword, makePage_addr, and_pageAddrMask_of_aligned halign (by omega)]
  · rw [hm a ha, Function.update_of_ne hne]

theorem LeafSet.touched {b : KernelInfo} {s : Paging} {m : Nat → Nat} (hm : LeafSet b s m)
    (hpt : s.kCurrentPtIndex < 512) : Touched b s m := by
  intro a ha hnext
  refine hm.others a ?_ hnext
  unfold leafWord
  omega

theorem Allocated.of_advanced {b : KernelInfo} {s : Paging} {m : Nat → Nat} {d p : Nat}
    (hc : Cursor b d s) (hp : Allocated b (advanced s m) p) (hlt : p < s.kernelVirtualMemoryNext) :
    Allocated b s p := by
  have hk : kernelStart % 4096 = 0 := by decide
  have hnext := hc.next
  have halign := hp.1
  exact ⟨halign, hp.2.1, by omega⟩

theorem Laid.advanced_nodes {b : KernelInfo} (h : Layout b) {s : Paging} (hc : Cursor b 0 s)
    (hs : Laid b 0 s) (hroom : s.kernelPhysicalMemoryNext + 4096 ≤ areaEnd b) {m : Nat → Nat}
    (hm : LeafSet b s m) :
    TreeOk (advanced s m) ∧ ∀ p, (advanced s m).nodeAt p
      = if p = [511, 510, s.kCurrentPdIndex, s.kCurrentPtIndex] then
          some (.page s.kernelPhysicalMemoryNext)
        else s.nodeAt p := by
  have hnode := hc.nodes.2.2
  have hpt := hc.indexes.2
  have hleaf : ∀ i, look (s.write (leafWord b s) (m (leafWord b s))).memory
      (entryNode 0 (m (leafWord b s))) i = none := fun _ => rfl
  -- setting the entry alone
  have htree := hs.tree.write hnode hpt hm.present hleaf fun _ _ heq => by cases heq
  have hnodes := hs.tree.nodeAt_added hnode hpt (hs.entries _ (Nat.le_refl _) hpt) hm.present hleaf
  rw [entryNode_page, hm.addr] at hnodes
  change ∀ p, (s.write (leafWord b s) (m (leafWord b s))).nodeAt p = _ at hnodes
  change TreeOk (s.write (leafWord b s) (m (leafWord b s))) at htree
  -- no table lies in the page itself
  have hsame : ∀ p, (advanced s m).nodeAt p
      = (s.write (leafWord b s) (m (leafWord b s))).nodeAt p := by
    refine nodeAt_congr (show (advanced s m).cr3 = s.cr3 from rfl) fun p l f hp i hi => ?_
    rw [hnodes] at hp
    split at hp
    · cases hp
    · have hout := (hs.tables hp).out h
      have halign := (hs.tree.placed hp).1
      have hstart := (hc.nextPage h hroom).2.2
      by_cases hword : f + 8 * i = leafWord b s
      · rw [hword]
        exact (Function.update_self (leafWord b s) (m (leafWord b s)) s.memory).symm
      · exact (hm.others _ hword (by omega)).trans (Function.update_of_ne hword ..).symm
  refine ⟨⟨fun hp => htree.placed ((hsame _).symm.trans hp), fun hp hq =>
    htree.unshared ((hsame _).symm.trans hp) ((hsame _).symm.trans hq)⟩, fun p => ?_⟩
  rw [hsame, hnodes]
  rfl

/-- A page of the area other than the cursor's table lies elsewhere. -/
theorem Cursor.spare_out {b : KernelInfo} (h : Layout b) {s : Paging} {d p : Nat}
    (hc : Cursor b d s) (hp : Allocated b s p) (hne : s.kCurrentPt ≠ p) {i : Nat} (hi : i < 512) :
    ptrFrame b p + 8 * i < s.kernelPhysicalMemoryNext ∧
      (ptrFrame b p + 8 * i < ptrFrame b s.kCurrentPt ∨
        ptrFrame b s.kCurrentPt + 4096 ≤ ptrFrame b p + 8 * i) := by
  have hframe := hc.allocated_frame hp
  have halign := (h.table_frame hc (.inr hp)).1
  have htable := (h.table_frame hc hc.table.1).1
  have hne' := h.data_frame hc hp hc.table.1 hne.symm
  omega

theorem Laid.advance {b : KernelInfo} (h : Layout b) {s : Paging} (hc : Cursor b 0 s)
    (hs : Laid b 0 s) (hroom : s.kernelPhysicalMemoryNext + 4096 ≤ areaEnd b) {m : Nat → Nat}
    (hm : LeafSet b s m) :
    Laid b 1 (advanced s m) ∧ Grows b [s.kernelVirtualMemoryNext] s (advanced s m) := by
  obtain ⟨htree, hnodes⟩ := hs.advanced_nodes h hc hroom hm
  obtain ⟨hpd, hpt⟩ := hc.indexes
  have htable : ∀ {p l f}, (advanced s m).nodeAt p = some (.table l f) →
      s.nodeAt p = some (.table l f) := by
    intro p l f hp
    rw [hnodes] at hp
    split at hp
    · cases hp
    · exact hp
  have habsent : s.nodeAt [511, 510, s.kCurrentPdIndex, s.kCurrentPtIndex] = none :=
    (nodeAt_concat hc.nodes.2.2 _).trans (look_absent (hs.entries _ (Nat.le_refl _) hpt))
  have hpath : pathOf s.kernelVirtualMemoryNext
      = [511, 510, s.kCurrentPdIndex, s.kCurrentPtIndex] := by
    unfold pathOf
    rw [hc.getIndexes_next]
  refine ⟨⟨htree, fun hp => ?_, fun {j k f} hp => ?_, fun i hi hlt => ?_, fun j hj hlt => ?_,
    fun hnew hne => ?_⟩, ⟨⟨rfl, ⟨Nat.le_add_right .., fun v hv => ?_⟩, fun p _ hp => ?_,
    fun p e hp => ?_⟩, fun p n hp => ?_, fun p l f hp => .inl (htable hp)⟩⟩
  · exact (hs.tables (htable hp)).mono (Nat.le_add_right ..)
  · rw [hnodes] at hp
    split at hp
    · rw [← Node.page.inj (Option.some.inj hp)]
      exact .inr ⟨(hc.nextPage h hroom).2.2, Nat.le_refl _⟩
    · exact (hs.pages hp).mono (Nat.le_add_right ..)
  · have hi : s.kCurrentPtIndex + 1 ≤ i := hi
    have hkeep := hm.others (ptrFrame b s.kCurrentPt + 8 * i) (by unfold leafWord; omega)
      (hc.leafWord_out h hroom hlt)
    exact (congrArg (· &&& pageFlagPresent) hkeep).trans (hs.entries i (by omega) hlt)
  · have hkeep := hc.touched_entry h hroom (hm.touched hpt) (a := pdFrame b + 8 * j)
      (.inr (.inr rfl)) (by omega)
    exact (congrArg (· &&& pageFlagPresent) hkeep).trans (hs.directory j hj hlt)
  · have hold := Allocated.of_advanced hc hnew hc.newPt
    have hblank := hs.spare hold hne
    refine ⟨fun q l hq => hblank.1 q l (htable hq), fun i hi => ?_⟩
    have hout := hc.spare_out h hold hne hi
    exact (hm.touched hpt _ hout.2 (.inl hout.1)).trans (hblank.2 i hi)
  · obtain rfl := List.mem_singleton.mp hv
    exact ⟨Nat.le_refl _, Nat.lt_add_of_pos_right (by decide)⟩
  · rw [hnodes, if_neg]
    rw [← hpath]
    exact hp _ (List.mem_singleton.mpr rfl)
  · rw [hnodes] at hp
    split at hp
    · cases hp
    · exact hp
  · rw [hnodes, if_neg fun heq => ?_]
    · exact hp
    · rw [heq, habsent] at hp
      cases hp

/-! ## Stepping to the next entry -/

/-- The state after the rollover, with the table that comes next hung into the
page directory. -/
theorem Laid.rollover {b : KernelInfo} (h : Layout b) {s : Paging} (hc : Cursor b 1 s)
    (hs : Laid b 1 s) (hnew : Allocated b s s.kNewPt) (hpd : s.kCurrentPdIndex < 511)
    (hne : s.kCurrentPt ≠ s.kNewPt) (hpt : s.kCurrentPtIndex = 511) :
    Laid b 0 (stepped b s) ∧ Grows b [] s (stepped b s) := by
  have hframe := h.table_frame hc (.inr hnew)
  obtain ⟨hblank, hzero⟩ := hs.spare hnew hne
  have hdir := hc.nodes.2.1
  generalize hentry : pagingMakePage (ptrFrame b s.kNewPt) tableFlags = entry
  have hpresent : entry &&& pageFlagPresent ≠ 0 := hentry ▸ tableEntry_present _
  have hnode : ∀ l, entryNode (l + 1) entry = .table l (ptrFrame b s.kNewPt) :=
    hentry ▸ tableEntry_node ⟨hframe.1, hframe.2.1⟩
  have hP2 : pdFrame b % 4096 = 0 := (h.static_frame (t := b.kPd) (by simp)).1
  have hleaf : ∀ i, look (s.write (pdFrame b + 8 * (s.kCurrentPdIndex + 1)) entry).memory
      (entryNode 1 entry) i = none := by
    intro i
    rw [hnode]
    exact look_hung hP2 hframe.1 (by omega) hframe.2.2.2.2.2 hzero i
  have habsent := hs.directory (s.kCurrentPdIndex + 1) (Nat.lt_succ_self _) (by omega)
  have htree := hs.tree.write hdir (by omega) hpresent hleaf fun l f heq => by
    rw [hnode] at heq
    obtain ⟨-, rfl⟩ := Node.table.inj heq
    exact ⟨hframe.1, hframe.2.1, fun p l' => hblank p l'⟩
  have hnodes := hs.tree.nodeAt_added hdir (by omega) habsent hpresent hleaf
  rw [hnode] at hnodes
  have hstepped : stepped b s = { s.write (pdFrame b + 8 * (s.kCurrentPdIndex + 1)) entry with
      kCurrentPtIndex := 0
      kCurrentPdIndex := s.kCurrentPdIndex + 1
      kCurrentPt := s.kNewPt } := by
    rw [stepped, if_pos hpt, hentry]
    rfl
  rw [hstepped]
  have htable : ∀ {p l f}, (s.write (pdFrame b + 8 * (s.kCurrentPdIndex + 1)) entry).nodeAt p
      = some (.table l f) → s.nodeAt p = some (.table l f) ∨ f = ptrFrame b s.kNewPt := by
    intro p l f hp
    rw [hnodes] at hp
    split at hp
    · exact .inr (Node.table.inj (Option.some.inj hp)).2.symm
    · exact .inl hp
  have hother : ∀ a, a < pdFrame b ∨ pdFrame b + 4096 ≤ a ∨
      a ≠ pdFrame b + 8 * (s.kCurrentPdIndex + 1) →
      (s.write (pdFrame b + 8 * (s.kCurrentPdIndex + 1)) entry).memory a = s.memory a :=
    fun a ha => Function.update_of_ne (by omega) ..
  have hlength : ∀ {p : List Nat}, p.length = 4 → p ≠ [511, 510] ++ [s.kCurrentPdIndex + 1] :=
    fun hp heq => by rw [heq] at hp; cases hp
  refine ⟨⟨⟨htree.placed, htree.unshared⟩, fun hp => ?_, fun {j k f} hp => ?_, fun i _ hi => ?_,
    fun j hj hlt => ?_, fun _ hne => absurd rfl hne⟩, ⟨⟨rfl, ⟨Nat.le_refl _, fun v hv => ?_⟩,
    fun p hp _ => ?_, fun p e hp => ?_⟩, fun p n hp => ?_, fun p l f hp => htable hp⟩⟩
  · rcases htable hp with hp | rfl
    · exact hs.tables hp
    · exact .inr (hc.allocated_frame hnew)
  · refine hs.pages (j := j) (k := k) ?_
    have hp' := (hnodes [511, 510, j, k]).symm.trans hp
    rwa [if_neg (hlength rfl)] at hp'
  · have hkeep := hother (ptrFrame b s.kNewPt + 8 * i) (by omega)
    refine (congrArg (· &&& pageFlagPresent) hkeep).trans ?_
    rw [hzero i hi, Nat.zero_and]
  · have hj : s.kCurrentPdIndex + 1 < j := hj
    have hkeep := hother (pdFrame b + 8 * j) (by omega)
    exact (congrArg (· &&& pageFlagPresent) hkeep).trans (hs.directory j (by omega) hlt)
  · exact absurd hv List.not_mem_nil
  · exact (hnodes p).trans (if_neg (hlength hp))
  · have hp' := (hnodes p).symm.trans hp
    split at hp'
    · cases hp'
    · exact hp'
  · refine (hnodes p).trans ((if_neg fun heq => ?_).trans hp)
    rw [heq, (nodeAt_concat hdir _).trans (look_absent habsent)] at hp
    cases hp

/-- The table that comes next is there when the current one is full, and it is
another one. -/
def NextTable (b : KernelInfo) (s : Paging) : Prop :=
  s.kCurrentPtIndex = 511 →
    Allocated b s s.kNewPt ∧ s.kCurrentPdIndex < 511 ∧ s.kCurrentPt ≠ s.kNewPt

theorem Laid.step {b : KernelInfo} (h : Layout b) {s : Paging} (hc : Cursor b 1 s)
    (hs : Laid b 1 s) (hroll : NextTable b s) :
    Laid b 0 (stepped b s) ∧ Grows b [] s (stepped b s) := by
  by_cases hpt : s.kCurrentPtIndex = 511
  · obtain ⟨hnew, hpd, hne⟩ := hroll hpt
    exact hs.rollover h hc hnew hpd hne hpt
  · rw [stepped, if_neg hpt]
    exact ⟨⟨⟨hs.tree.placed, hs.tree.unshared⟩, hs.tables, hs.pages,
      fun i hi hlt => hs.entries i hi hlt, hs.directory, fun hnew hne => hs.spare hnew hne⟩,
      ⟨⟨rfl, ⟨Nat.le_refl _, fun _ hv => absurd hv List.not_mem_nil⟩, fun _ _ _ => rfl,
        fun _ _ hp => hp⟩, fun _ _ hp => hp, fun _ _ _ hp => .inl hp⟩⟩

theorem Laid.page {b : KernelInfo} (h : Layout b) {s : Paging} (hc : Cursor b 0 s)
    (hs : Laid b 0 s) (hroom : s.kernelPhysicalMemoryNext + 4096 ≤ areaEnd b) {m : Nat → Nat}
    (hm : LeafSet b s m) (hroll : NextTable b s) :
    Laid b 0 (stepped b (advanced s m)) ∧
      Grows b [s.kernelVirtualMemoryNext] s (stepped b (advanced s m)) := by
  obtain ⟨hlaid, hgrows⟩ := hs.advance h hc hroom hm
  obtain ⟨hlaid', hgrows'⟩ := hlaid.step h (advanced_cursor h hc hroom (hm.touched hc.indexes.2))
    fun hpt => by
      obtain ⟨hnew, hpd, hne⟩ := hroll hpt
      exact ⟨hnew.mono (Nat.le_add_right ..), hpd, hne⟩
  exact ⟨hlaid', hgrows.trans hgrows' (stepped_next b _).2.2.1⟩

/-! ## Contiguous pages -/

theorem Cursor.mapped_leafSet {b : KernelInfo} (h : Layout b) {s : Paging} (hc : Cursor b 0 s)
    (hroom : s.kernelPhysicalMemoryNext + 4096 ≤ areaEnd b) :
    LeafSet b s (mappedMemory s (ptrFrame b s.kCurrentPt)) := by
  refine .of_update h hc hroom tableFlags_present fun a ha => ?_
  unfold mappedMemory pageSize
  exact if_neg (by omega)

/-- What is ahead of the cursor lasts for `n` pages: the current table, or it and
the next one, which must not be in use already. -/
def Lasts (b : KernelInfo) (n : Nat) (s : Paging) : Prop :=
  s.kCurrentPtIndex + n ≤ 511 ∨
    Allocated b s s.kNewPt ∧ s.kCurrentPt ≠ s.kNewPt ∧ s.kCurrentPtIndex + n ≤ 1023

theorem Lasts.nextTable {b : KernelInfo} {n : Nat} {s : Paging} (hlast : Lasts b (n + 1) s)
    (hpos : position s + (n + 1) < 2 ^ 18) : NextTable b s := by
  intro hpt
  unfold position at hpos
  rcases hlast with hin | ⟨hnew, hne, -⟩
  · omega
  · exact ⟨hnew, by omega, hne⟩

theorem Lasts.next {b : KernelInfo} {n : Nat} {s : Paging} {m : Nat → Nat}
    (hlast : Lasts b (n + 1) s) : Lasts b n (stepped b (advanced s m)) := by
  by_cases hpt : s.kCurrentPtIndex = 511
  · have hindex : (stepped b (advanced s m)).kCurrentPtIndex = 0 := by
      rw [stepped, if_pos (show (advanced s m).kCurrentPtIndex = 511 from hpt)]
    refine .inl ?_
    rcases hlast with hin | ⟨-, -, hin⟩ <;> omega
  · have hstepped : stepped b (advanced s m)
        = { advanced s m with kCurrentPtIndex := s.kCurrentPtIndex + 1 } := if_neg hpt
    rw [hstepped]
    rcases hlast with hin | ⟨hnew, hne, hin⟩
    · exact .inl (by dsimp only; omega)
    · exact .inr ⟨hnew.mono (Nat.le_add_right ..), hne, by dsimp only; omega⟩

/-- The page at `v` is the frame `f`, and it is zeroed. -/
structure ZeroPage (s : Paging) (v f : Nat) : Prop where
  found : mmu s v = some f
  zero : ∀ i, i < 512 → s.memory (f + 8 * i) = 0

theorem linearPages_laid {b : KernelInfo} (h : Layout b) {n : Nat} {s : Paging}
    (hc : Cursor b 0 s) (hs : Laid b 0 s) (hfits : Fits b s n) (hlast : Lasts b n s) :
    ∃ s' new, linearPages n s = some s' ∧ Further b n s s' ∧ s'.kNewPt = s.kNewPt ∧
      Laid b 0 s' ∧ Grows b new s s' ∧ ∀ i, i < n →
        DataPage b s' (s.kernelVirtualMemoryNext + 4096 * i) ∧
          ZeroPage s' (s.kernelVirtualMemoryNext + 4096 * i)
            (s.kernelPhysicalMemoryNext + 4096 * i) := by
  induction n generalizing s with
  | zero =>
      exact ⟨s, [], rfl, ⟨hc, rfl, rfl, rfl, .refl b s⟩, rfl, hs, .refl b s,
        fun i hi => absurd hi (Nat.not_lt_zero i)⟩
  | succ n ih =>
      have hroom : s.kernelPhysicalMemoryNext + 4096 ≤ areaEnd b :=
        (hfits.mono (Nat.le_add_left 1 n)).area
      have hleaf := hc.mapped_leafSet h hroom
      have hroll := hlast.nextTable hfits.directory
      have hroll' : s.kCurrentPtIndex = 511 → Allocated b s s.kNewPt ∧ s.kCurrentPdIndex < 511 :=
        fun hpt => ⟨(hroll hpt).1, (hroll hpt).2.1⟩
      have htouched := hleaf.touched hc.indexes.2
      obtain ⟨hinc, hfurther⟩ := stepped_further h hc hroom htouched hroll'
      obtain ⟨hlaid, hgrows⟩ := hs.page h hc hroom hleaf hroll
      have hmmu := stepped_mmu h hc hroom hroll'
      have hlast' := hlast.next (m := mappedMemory s (ptrFrame b s.kCurrentPt))
      have hc₁ := advanced_cursor h hc hroom htouched
      have hkeeps := stepped_keeps h hc₁ fun hpt => (hroll' hpt).2
      have hfirst := (hc.newPage_fresh h).keeps hkeeps
      have hframe := (hc.newPage h (mappedMemory s (ptrFrame b s.kCurrentPt))).2
      have hnewPt := (stepped_next b (advanced s (mappedMemory s (ptrFrame b s.kCurrentPt)))).2.2.1
      generalize hs₁ : stepped b (advanced s _) = s₁ at *
      have hfits₁ : Fits b s₁ n := .further hc hfurther (hfits.mono (Nat.add_comm 1 n).le)
      obtain ⟨s₂, new, hs₂, hfurther₂, hnewPt₂, hlaid₂, hgrows₂, hpages⟩ :=
        ih hfurther.cursor hlaid hfits₁ hlast'
      refine ⟨s₂, _, ?_, Nat.add_comm n 1 ▸ hfurther.trans hfurther₂, hnewPt₂.trans hnewPt, hlaid₂,
        hgrows.trans hgrows₂ hnewPt₂, fun i hi => ?_⟩
      · rw [linearPages]
        simp only [single_eq h hc hroom, Option.bind_eq_bind, Option.bind_some, hinc]
        exact hs₂
      · cases i with
        | zero =>
            -- the first page stays as it is
            have hkept := hfirst.keeps hfurther₂.keeps
            rw [Nat.mul_zero, Nat.add_zero, Nat.add_zero]
            refine ⟨hkept.1, hgrows₂.mmu hmmu, fun j hj => ?_⟩
            rw [← hframe]
            exact hkept.2 j hj
        | succ i =>
            have hpage := hpages i (by omega)
            rw [hfurther.virt, hfurther.phys] at hpage
            rw [show 4096 * (i + 1) = 4096 * 1 + 4096 * i by omega, ← Nat.add_assoc,
              ← Nat.add_assoc]
            exact hpage

/-! ## The look-ahead table -/

/-- A page for the next table is taken, and it is an empty page of its own. -/
theorem Laid.renewed {b : KernelInfo} (h : Layout b) {s : Paging} (hc : Cursor b 0 s)
    (hs : Laid b 0 s) (hroom : s.kernelPhysicalMemoryNext + 4096 ≤ areaEnd b) {s₁ : Paging}
    (hs₁ : { advanced s (mappedMemory s (ptrFrame b s.kCurrentPt)) with
      kNewPt := s.kernelVirtualMemoryNext } = s₁) :
    Cursor b 1 s₁ ∧ Laid b 1 s₁ ∧ Grows b [s.kernelVirtualMemoryNext] s s₁ ∧
      Allocated b s₁ s₁.kNewPt ∧ s₁.kCurrentPt ≠ s₁.kNewPt := by
  have hleaf := hc.mapped_leafSet h hroom
  have hc₁ := advanced_cursor h hc hroom (hleaf.touched hc.indexes.2)
  obtain ⟨hnew, hframe⟩ := hc.newPage h (mappedMemory s (ptrFrame b s.kCurrentPt))
  have hdata := hc.newPage_data h (mappedMemory s (ptrFrame b s.kCurrentPt))
  obtain ⟨htree, hnodes⟩ := hs.advanced_nodes h hc hroom hleaf
  obtain ⟨hlaid, hgrows⟩ := hs.advance h hc hroom hleaf
  have htable : ∀ {p l f}, (advanced s (mappedMemory s (ptrFrame b s.kCurrentPt))).nodeAt p
      = some (.table l f) → s.nodeAt p = some (.table l f) := by
    intro p l f hp
    rw [hnodes] at hp
    split at hp
    · cases hp
    · exact hp
  subst hs₁
  refine ⟨{ hc₁ with newPt := Nat.lt_add_of_pos_right (by decide) },
    ⟨⟨htree.placed, htree.unshared⟩, hlaid.tables, hlaid.pages, hlaid.entries, hlaid.directory,
      fun _ _ => ⟨fun q l hq => ?_, fun i hi => ?_⟩⟩,
    ⟨⟨hgrows.mapped, ⟨hgrows.own.next, hgrows.own.range⟩, hgrows.leaf, hgrows.plain⟩, hgrows.kept,
      fun p l f hp => .inl (htable hp)⟩, hnew, hdata.notCurrent.symm⟩
  · have hout := (hs.tables (htable hq)).out h
    have hstart := (hc.nextPage h hroom).2.2
    dsimp only at hout
    omega
  · change mappedMemory s _ (ptrFrame b s.kernelVirtualMemoryNext + 8 * i) = 0
    rw [hframe]
    exact if_pos ⟨by omega, by unfold pageSize; omega⟩

theorem renewPt_laid {b : KernelInfo} (h : Layout b) {n : Nat} {s : Paging} (hc : Cursor b 0 s)
    (hs : Laid b 0 s) (hfits : Fits b s (renews s))
    (hnew : Allocated b s s.kNewPt ∨ s.kCurrentPtIndex + renews s + n ≤ 511)
    (hlast : s.kCurrentPtIndex + renews s + n ≤ 1023) :
    ∃ s' new, renewPt s = some s' ∧ Further b (renews s) s s' ∧ Laid b 0 s' ∧
      Grows b new s s' ∧ Lasts b n s' := by
  obtain ⟨s', hs', hfurther, -, hsame⟩ := renewPt_ok h hc hfits.area hfits.directory
  by_cases heq : s.kCurrentPt = s.kNewPt
  · have hrenews : renews s = 1 := if_pos heq
    have hroom : s.kernelPhysicalMemoryNext + 4096 ≤ areaEnd b := by
      have hone := hfits.area
      rwa [hrenews] at hone
    have hpos := hfits.directory
    unfold position at hpos
    rw [hrenews] at hlast hpos
    obtain ⟨hc₁, hlaid, hgrows, halloc, hne⟩ := hs.renewed h hc hroom rfl
    generalize hs₁ : { advanced s (mappedMemory s (ptrFrame b s.kCurrentPt)) with
      kNewPt := s.kernelVirtualMemoryNext } = s₁ at hc₁ hlaid hgrows halloc hne
    have hindexes : s₁.kCurrentPdIndex = s.kCurrentPdIndex ∧
        s₁.kCurrentPtIndex = s.kCurrentPtIndex := by
      rw [← hs₁]
      exact ⟨rfl, rfl⟩
    have hroll : NextTable b s₁ := fun hpt => ⟨halloc, by omega, hne⟩
    obtain ⟨hlaid', hgrows'⟩ := hlaid.step h hc₁ hroll
    have hinc := increment_eq h hc₁ fun hpt => ⟨(hroll hpt).1, (hroll hpt).2.1⟩
    have hstep : renewPt s = some (stepped b s₁) := by
      unfold renewPt
      rw [if_pos heq, single_eq h hc hroom, Option.bind_eq_bind, Option.bind_some]
      dsimp only
      rw [hs₁, hinc]
    obtain rfl := Option.some.inj (hs'.symm.trans hstep)
    refine ⟨_, _, hs', hfurther, hlaid', hgrows.trans hgrows' (stepped_next b s₁).2.2.1, ?_⟩
    unfold stepped
    split
    · exact .inl (by dsimp only; omega)
    · exact .inr ⟨halloc, hne, by dsimp only; omega⟩
  · obtain rfl := hsame heq
    have hrenews : renews s' = 0 := if_neg heq
    rw [hrenews, Nat.add_zero] at hlast hnew
    refine ⟨s', [], hs', hfurther, hs, .refl b s', ?_⟩
    rcases hnew with hnew | hin
    · exact .inr ⟨hnew, heq, hlast⟩
    · exact .inl hin

/-- **A linear allocation.** When one table that comes next is enough for the
call, its pages are one after the other, zeroed, and nothing else changes. -/
theorem linear_laid {b : KernelInfo} (h : Layout b) {n : Nat} {s : Paging} (hc : Cursor b 0 s)
    (hs : Laid b 0 s) (hn : 0 < n) (hpd : s.kNewPd ≠ b.kPd) (hfits : Fits b s (renews s + n))
    (hnew : Allocated b s s.kNewPt ∨ s.kCurrentPtIndex + renews s + n ≤ 511)
    (hlast : s.kCurrentPtIndex + renews s + n ≤ 1023) :
    ∃ s' new, pageAllocateKernelLinear n s
        = some (s.kernelVirtualMemoryNext + 4096 * renews s, s') ∧
      Further b (renews s + n) s s' ∧ Laid b 0 s' ∧ Grows b new s s' ∧
      (Allocated b s s.kNewPt → Allocated b s' s'.kNewPt) ∧
      (s.kCurrentPt ≠ s.kNewPt → s'.kNewPt = s.kNewPt) ∧ ∀ i, i < n →
        DataPage b s' (s.kernelVirtualMemoryNext + 4096 * renews s + 4096 * i) ∧
          ZeroPage s' (s.kernelVirtualMemoryNext + 4096 * renews s + 4096 * i)
            (s.kernelPhysicalMemoryNext + 4096 * renews s + 4096 * i) := by
  obtain ⟨s₁, new₁, hs₁, hfurther₁, hlaid₁, hgrows₁, hlasts⟩ :=
    renewPt_laid h hc hs (hfits.mono (Nat.le_add_right ..)) hnew hlast
  obtain ⟨s₂, new₂, hs₂, hfurther₂, hnewPt, hlaid₂, hgrows₂, hpages⟩ :=
    linearPages_laid h hfurther₁.cursor hlaid₁ (.further hc hfurther₁ hfits) hlasts
  rw [hfurther₁.virt, hfurther₁.phys] at hpages
  have hcall : pageAllocateKernelLinear n s
      = some (s.kernelVirtualMemoryNext + 4096 * renews s, s₂) := by
    unfold pageAllocateKernelLinear renewPd
    have hne : ¬ s.kCurrentPd = s.kNewPd := fun heq => hpd (heq.symm.trans hc.pd)
    rw [if_neg (by omega), if_neg hne]
    simp only [Option.bind_eq_bind, Option.bind_some, hs₁, hs₂]
    rw [← hfurther₁.virt]
    rfl
  have hsame : s.kCurrentPt ≠ s.kNewPt → s₂.kNewPt = s.kNewPt := by
    intro hne
    have hnone : renewPt s = some s := if_neg hne
    rw [hnewPt, Option.some.inj (hs₁.symm.trans hnone)]
  refine ⟨s₂, _, hcall, hfurther₁.trans hfurther₂, hlaid₂, hgrows₁.trans hgrows₂ hnewPt,
    fun halloc => ?_, hsame, hpages⟩
  obtain ⟨v, s', hs', -, -, -, -, hrenewed, -⟩ :=
    linear_ok h hc hn hpd hfits (.inr (.inr halloc))
  obtain ⟨-, rfl⟩ := Prod.mk.inj (Option.some.inj (hcall.symm.trans hs'))
  by_cases heq : s.kCurrentPt = s.kNewPt
  · exact hrenewed heq
  · rw [hsame heq]
    refine halloc.mono ?_
    rw [(hfurther₁.trans hfurther₂).virt]
    exact Nat.le_add_right ..

theorem mmioPages_laid {b : KernelInfo} (h : Layout b) {n : Nat} {s s' : Paging}
    (hc : Cursor b 0 s) (hs : Laid b 0 s)
    (hroom : s.kernelPhysicalMemoryNext + 4096 * n ≤ areaEnd b)
    (hpt : s.kCurrentPtIndex + n ≤ 511) (hpages : mmioPages n s = some s') : Laid b 0 s' := by
  induction n generalizing s with
  | zero =>
      obtain rfl := Option.some.inj hpages
      exact hs
  | succ n ih =>
      rw [Nat.mul_succ] at hroom
      have hroom₁ : s.kernelPhysicalMemoryNext + 4096 ≤ areaEnd b :=
        (Nat.add_le_add_left (Nat.le_add_left ..) _).trans hroom
      have hlt : s.kCurrentPtIndex < 511 := by omega
      have hleaf : LeafSet b s (Function.update s.memory (leafWord b s)
          (pagingMakePage s.kernelPhysicalMemoryNext mmioFlags)) :=
        .of_update h hc hroom₁ mmioFlags_present fun _ _ => rfl
      have htouched := hleaf.touched hc.indexes.2
      obtain ⟨-, hfurther⟩ := stepped_further h hc hroom₁ htouched fun heq => by omega
      obtain ⟨hlaid, -⟩ := hs.page h hc hroom₁ hleaf fun heq => by omega
      rw [mmioPages_succ h hc hroom₁ hlt] at hpages
      change mmioPages n (stepped b (advanced s (Function.update s.memory (leafWord b s)
        (pagingMakePage s.kernelPhysicalMemoryNext mmioFlags)))) = some s' at hpages
      generalize Function.update s.memory (leafWord b s) _ = m at hpages hfurther hlaid
      have hindex : (stepped b (advanced s m)).kCurrentPtIndex = s.kCurrentPtIndex + 1 := by
        rw [stepped, if_neg (show ¬ (advanced s m).kCurrentPtIndex = 511 from Nat.ne_of_lt hlt)]
        rfl
      generalize stepped b (advanced s m) = s₁ at hpages hfurther hlaid hindex
      refine ih hfurther.cursor hlaid ?_ (by omega) hpages
      rw [hfurther.phys]
      omega

end VersionSix.Page
