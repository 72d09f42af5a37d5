import VersionSix.PageTree

/-!
# Mapping a page

`paging_page_map_to_pml4` on a well-formed table, up to the entry it sets: the
tables on the way are there afterwards (`tables_ready`), and the entry changes
the translation of its own page only (`mapped_entry`).

A table missing on the way is allocated. What is asked of the allocator is
`FreshPage`, at the states it is called in (`AllocatesFresh`): the page is
fresh and zeroed, and apart from it the translations are the old ones. The
allocator may hang up tables of its own meanwhile, for pages it hands out
later. `PageFresh` shows that the kernel's allocator does so.
-/

namespace VersionSix.Page

/-! ## The allocator -/

/-- The pages `new` lie in the part of the allocation area taken since `s`. -/
structure NewPages (s s' : Paging) (new : List Nat) : Prop where
  next : s.kernelVirtualMemoryNext ≤ s'.kernelVirtualMemoryNext
  range : ∀ m ∈ new, s.kernelVirtualMemoryNext ≤ m ∧ m < s'.kernelVirtualMemoryNext

theorem NewPages.trans {new₁ new₂ : List Nat} {s s₁ s₂ : Paging} (h₁ : NewPages s s₁ new₁)
    (h₂ : NewPages s₁ s₂ new₂) : NewPages s s₂ (new₂ ++ new₁) where
  next := h₁.next.trans h₂.next
  range m hm := by
    rcases List.mem_append.mp hm with hm | hm
    · exact ⟨h₁.next.trans (h₂.range m hm).1, (h₂.range m hm).2⟩
    · exact ⟨(h₁.range m hm).1, (h₁.range m hm).2.trans_le h₂.next⟩

/-! ## Same translations -/

/-- `s'` has the translations of `s` except for the pages `new`, and no huge
pages that `s` does not have. -/
structure Agrees (new : List Nat) (s s' : Paging) : Prop where
  mapped : s'.mapped = new ++ s.mapped
  own : NewPages s s' new
  leaf : ∀ p, p.length = 4 → (∀ m ∈ new, p ≠ pathOf m) → s'.nodeAt p = s.nodeAt p
  plain : ∀ p e, s'.nodeAt p = some (.huge e) → s.nodeAt p = some (.huge e)

theorem Agrees.refl (s : Paging) : Agrees [] s s :=
  ⟨rfl, ⟨Nat.le_refl _, fun _ h => absurd h List.not_mem_nil⟩, fun _ _ _ => rfl, fun _ _ h => h⟩

theorem Agrees.trans {new₁ new₂ : List Nat} {s s₁ s₂ : Paging} (h₁ : Agrees new₁ s s₁)
    (h₂ : Agrees new₂ s₁ s₂) : Agrees (new₂ ++ new₁) s s₂ where
  mapped := by rw [h₂.mapped, h₁.mapped, List.append_assoc]
  own := h₁.own.trans h₂.own
  leaf p hp hnew := by
    rw [h₂.leaf p hp fun m hm => hnew m (List.mem_append_left _ hm)]
    exact h₁.leaf p hp fun m hm => hnew m (List.mem_append_right _ hm)
  plain p e h := h₁.plain p e (h₂.plain p e h)

theorem Agrees.noHuge {new : List Nat} {s s' : Paging} (h : Agrees new s s') {p : List Nat}
    (hp : NoHuge s p) : NoHuge s' p := fun q hq e hhuge => hp q hq e (h.plain q e hhuge)

/-! ## Fresh pages -/

/-- The allocator returned the page `v`: it is zeroed, its physical address is that of its
place in the allocation area, and no table of the tree lies in it. The tree is still well
formed, its tables are where they were, and the translations have changed for the pages
`new` only, which the allocator mapped for itself. -/
structure FreshPage (s s' : Paging) (v : Nat) (new : List Nat) : Prop extends
    Agrees new s s' where
  pointer : physOf s' v = some (kernelPagePhysical s' v)
  placed : kernelPagePhysical s' v % 4096 = 0 ∧ kernelPagePhysical s' v + 4096 ≤ identityMapSize
  zeroed : ∀ i, i < 512 → s'.memory (kernelPagePhysical s' v + 8 * i) = 0
  unused : ∀ p l, s'.nodeAt p ≠ some (.table l (kernelPagePhysical s' v))
  tree : TreeOk s'
  tables : ∀ p l f, s.nodeAt p = some (.table l f) → s'.nodeAt p = some (.table l f)
  pointers : ∀ p f, physOf s p = some f → physOf s' p = some f

def FreshAt (alloc : Paging → Option (Nat × Paging)) (s : Paging) : Prop :=
  ∃ v s' new, alloc s = some (v, s') ∧ FreshPage s s' v new

/-- Every call the mapping of `virt` makes to the allocator returns a fresh page. -/
structure AllocatesFresh (alloc : Paging → Option (Nat × Paging)) (s : Paging)
    (pml4 virt : Nat) : Prop where
  pdpt : ∀ t, findTables s pml4 (pagingGetIndexes virt) = some t → t.pdpt = none → FreshAt alloc s
  pd : ∀ t pdpt s₁, findTables s pml4 (pagingGetIndexes virt) = some t →
    setupTable alloc s t.pdpt pml4 (pagingGetIndexes virt).pml4 = some (pdpt, s₁) →
    t.pd = none → FreshAt alloc s₁
  pt : ∀ t pdpt s₁ pd s₂, findTables s pml4 (pagingGetIndexes virt) = some t →
    setupTable alloc s t.pdpt pml4 (pagingGetIndexes virt).pml4 = some (pdpt, s₁) →
    setupTable alloc s₁ t.pd pdpt (pagingGetIndexes virt).pdpt = some (pd, s₂) →
    t.pt = none → FreshAt alloc s₂

theorem length_pathOf (v : Nat) : (pathOf v).length = 4 := rfl

/-! ## One level -/

/-- The pointer `ptr` is the table at the end of the path `p`. -/
def IsTable (s : Paging) (ptr : Nat) (p : List Nat) (l : Nat) : Prop :=
  ∃ f, physOf s ptr = some f ∧ s.nodeAt p = some (.table l f)

/-- What the first phase found at the end of the path. -/
def Found (s : Paging) (table : Option Nat) (p : List Nat) (l : Nat) : Prop :=
  match table with
  | some ptr => IsTable s ptr p l
  | none => s.nodeAt p = none

/-- What was found below a table is found there when the table is, and nothing
is when it is new. -/
theorem Found.below {s s₁ : Paging} {above table : Option Nat} {p : List Nat} {d l : Nat}
    (h : Found s table (p ++ [d]) l) (hnone : above = none → table = none)
    (hempty : above = none → ∀ d, s₁.nodeAt (p ++ [d]) = none) (hsame : above ≠ none → s₁ = s) :
    Found s₁ table (p ++ [d]) l := by
  by_cases habove : above = none
  · rw [hnone habove]
    exact hempty habove d
  · rw [hsame habove]
    exact h

theorem IsTable.of_fresh {s s' : Paging} {v : Nat} {new : List Nat} (h : FreshPage s s' v new)
    {ptr l : Nat} {p : List Nat} (ht : IsTable s ptr p l) : IsTable s' ptr p l := by
  obtain ⟨f, hf, hn⟩ := ht
  exact ⟨f, h.pointers _ _ hf, h.tables _ _ _ hn⟩

theorem FreshPage.entry {s s' : Paging} {v : Nat} {new : List Nat} (h : FreshPage s s' v new)
    (l : Nat) :
    let entry := pagingMakePage (kernelPagePhysical s' v) (pageFlagPresent ||| pageFlagReadWrite)
    entry &&& pageFlagPresent ≠ 0 ∧
      entryNode (l + 1) entry = .table l (kernelPagePhysical s' v) :=
  ⟨tableEntry_present _, tableEntry_node h.placed l⟩

/-- A missing table is there afterwards, empty, and nothing else has changed. -/
theorem setupTable_missing {alloc : Paging → Option (Nat × Paging)} {s : Paging}
    {parent l c : Nat} {q : List Nat} (hparent : IsTable s parent q (l + 1)) (hc : c < 512)
    (hq : q.length < 3) (hmissing : s.nodeAt (q ++ [c]) = none) (halloc : FreshAt alloc s) :
    ∃ ptr s' new, setupTable alloc s none parent c = some (ptr, s') ∧ TreeOk s' ∧
      Agrees new s s' ∧ IsTable s' ptr (q ++ [c]) l ∧
      ∀ d, s'.nodeAt (q ++ [c] ++ [d]) = none := by
  obtain ⟨v, s₁, new, hs₁, hfresh⟩ := halloc
  obtain ⟨t, ht, hnode⟩ := hparent.of_fresh hfresh
  obtain ⟨hpresent, hentry⟩ := hfresh.entry l
  generalize hval : pagingMakePage (kernelPagePhysical s₁ v)
    (pageFlagPresent ||| pageFlagReadWrite) = entry at hpresent hentry
  have hempty : ∀ i, look (s₁.write (t + 8 * c) entry).memory
      (.table l (kernelPagePhysical s₁ v)) i = none := by
    intro i
    have hne : kernelPagePhysical s₁ v ≠ t := fun h => hfresh.unused q (l + 1) (by rw [h, hnode])
    exact look_hung (hfresh.tree.placed hnode).1 hfresh.placed.1 hc hne hfresh.zeroed i
  have hleaf : ∀ i,
      look (s₁.write (t + 8 * c) entry).memory (entryNode (l + 1) entry) i = none := by
    rw [hentry]
    exact hempty
  have hwrite := hfresh.tree.nodeAt_write hnode hc hpresent hleaf
  rw [hentry] at hwrite
  have hnew : (s₁.write (t + 8 * c) entry).nodeAt (q ++ [c])
      = some (.table l (kernelPagePhysical s₁ v)) := by
    rw [hwrite, if_pos rfl]
  refine ⟨v, _, new, ?_, hfresh.tree.write hnode hc hpresent hleaf ?_, ?_,
    ⟨_, hfresh.pointer, hnew⟩, fun d => ?_⟩
  · unfold setupTable
    dsimp only
    rw [hs₁, Option.bind_some]
    dsimp only
    rw [hval, storeEntry_eq ht]
    rfl
  · intro l' f heq
    rw [hentry] at heq
    obtain ⟨rfl, rfl⟩ := Node.table.inj heq
    exact ⟨hfresh.placed.1, hfresh.placed.2, hfresh.unused⟩
  · refine ⟨hfresh.mapped, ⟨hfresh.own.next, hfresh.own.range⟩, fun p hp hpnew => ?_,
      fun p e hhuge => ?_⟩
    · rw [hwrite, if_neg fun h => ?_]
      · split
        · obtain ⟨r, rfl⟩ := ‹q ++ [c] <+: p›
          exact (nodeAt_append_none hmissing).symm
        · exact hfresh.leaf p hp hpnew
      · rw [h, List.length_append, List.length_singleton] at hp
        omega
    · rw [hwrite] at hhuge
      split at hhuge
      · cases hhuge
      split at hhuge
      · cases hhuge
      · exact hfresh.plain p e hhuge
  · rw [hwrite, if_neg (by simp), if_pos (List.prefix_append _ _)]

/-- One level of the second phase, whether the table was found or not. -/
theorem setupTable_ok {alloc : Paging → Option (Nat × Paging)} {s : Paging} (hs : TreeOk s)
    {table : Option Nat} {parent l c : Nat} {q : List Nat} (hparent : IsTable s parent q (l + 1))
    (hc : c < 512) (hq : q.length < 3) (hfound : Found s table (q ++ [c]) l)
    (halloc : table = none → FreshAt alloc s) :
    ∃ ptr s' new, setupTable alloc s table parent c = some (ptr, s') ∧ TreeOk s' ∧
      Agrees new s s' ∧ IsTable s' ptr (q ++ [c]) l ∧
      (table = none → ∀ d, s'.nodeAt (q ++ [c] ++ [d]) = none) ∧
      (table ≠ none → s' = s) := by
  cases table with
  | some ptr =>
      exact ⟨ptr, s, [], rfl, hs, .refl s, hfound, (nomatch ·), fun _ => rfl⟩
  | none =>
      obtain ⟨ptr, s', new, h, hs', hagrees, htable, hempty⟩ :=
        setupTable_missing hparent hc hq hfound (halloc rfl)
      exact ⟨ptr, s', new, h, hs', hagrees, htable, fun _ => hempty, fun h => absurd rfl h⟩

/-! ## The first phase -/

structure TablesFound (s : Paging) (index : PageIndexes) (t : Tables) : Prop where
  pdpt : Found s t.pdpt [index.pml4] 2
  pd : Found s t.pd [index.pml4, index.pdpt] 1
  pt : Found s t.pt [index.pml4, index.pdpt, index.pd] 0
  pd_none : t.pdpt = none → t.pd = none
  pt_none : t.pd = none → t.pt = none

theorem TreeOk.entry_table {s : Paging} (hs : TreeOk s) {q : List Nat} {l f i : Nat}
    (hq : s.nodeAt q = some (.table (l + 1) f)) (hi : i < 512)
    (hpresent : s.memory (f + 8 * i) &&& pageFlagPresent ≠ 0)
    (hplain : ∀ e, s.nodeAt (q ++ [i]) ≠ some (.huge e)) :
    ∃ f', entryTable (s.memory (f + 8 * i)) = (f' + addrIdentityMap) % 2 ^ 64 ∧
      s.nodeAt (q ++ [i]) = some (.table l f') ∧
      IsTable s (entryTable (s.memory (f + 8 * i))) (q ++ [i]) l := by
  have hnode := (nodeAt_concat hq i).trans (look_table hi hpresent)
  by_cases hhuge : s.memory (f + 8 * i) &&& pageFlagPageSize = 0
  · rw [entryNode_table hhuge] at hnode
    exact ⟨_, rfl, hnode, _, physOf_direct s (hs.placed hnode).2, hnode⟩
  · rw [show entryNode (l + 1) _ = _ from if_pos hhuge] at hnode
    exact absurd hnode (hplain _)

theorem findTables_ok {s : Paging} (hs : TreeOk s) {v pml4 : Nat} (hplain : NoHuge s (pathOf v))
    (hpml4 : physOf s pml4 = some s.cr3) :
    ∃ t, findTables s pml4 (pagingGetIndexes v) = some t ∧
      TablesFound s (pagingGetIndexes v) t := by
  have hlt : ∀ n, v / 2 ^ n % 512 < 512 := fun n => index_lt _
  rw [pathOf_eq] at hplain
  rw [getIndexes_eq]
  unfold findTables
  dsimp only
  rw [show loadEntry s pml4 _ = some (s.memory (s.cr3 + 8 * (v / 2 ^ 39 % 512))) by
    unfold loadEntry; rw [hpml4]; rfl, Option.bind_some]
  by_cases h₃ : s.memory (s.cr3 + 8 * (v / 2 ^ 39 % 512)) &&& pageFlagPresent = 0
  · -- no PDPT
    rw [if_pos h₃]
    have hnone := (nodeAt_concat (nodeAt_nil s) _).trans (look_absent h₃)
    exact ⟨_, rfl, hnone, nodeAt_append_none (p := [_]) hnone, nodeAt_append_none (p := [_]) hnone,
      fun _ => rfl, fun _ => rfl⟩
  obtain ⟨f₂, he₂, hn₂, ht₂⟩ := hs.entry_table (nodeAt_nil s) (hlt 39) h₃ fun e =>
    hplain _ (by simp) e
  rw [if_neg h₃, he₂, hs.loadEntry_direct hn₂, Option.bind_some]
  rw [he₂] at ht₂
  by_cases h₂ : s.memory (f₂ + 8 * (v / 2 ^ 30 % 512)) &&& pageFlagPresent = 0
  · -- no page directory
    rw [if_pos h₂]
    have hnone := (nodeAt_concat hn₂ _).trans (look_absent h₂)
    exact ⟨_, rfl, ht₂, hnone, nodeAt_append_none (p := [_, _]) hnone, (nomatch ·), fun _ => rfl⟩
  obtain ⟨f₁, he₁, hn₁, ht₁⟩ := hs.entry_table hn₂ (hlt 30) h₂ fun e => hplain _ (by simp) e
  rw [if_neg h₂, he₁, hs.loadEntry_direct hn₁, Option.map_some]
  rw [he₁] at ht₁
  by_cases h₁ : s.memory (f₁ + 8 * (v / 2 ^ 21 % 512)) &&& pageFlagPresent = 0
  · -- no page table
    rw [if_pos h₁]
    have hnone := (nodeAt_concat hn₁ _).trans (look_absent h₁)
    exact ⟨_, rfl, ht₂, ht₁, hnone, (nomatch ·), (nomatch ·)⟩
  obtain ⟨f₀, he₀, hn₀, ht₀⟩ := hs.entry_table hn₁ (hlt 21) h₁ fun e => hplain _ (by simp) e
  rw [if_neg h₁, he₀]
  rw [he₀] at ht₀
  -- the direct map does not start at 0
  have hpt : ¬ (f₀ + addrIdentityMap) % 2 ^ 64 = 0 := by
    have := (hs.placed hn₀).2
    unfold identityMapSize at this
    unfold addrIdentityMap
    omega
  rw [if_neg hpt]
  exact ⟨_, rfl, ht₂, ht₁, ht₀, (nomatch ·), (nomatch ·)⟩

/-! ## Map, then translate -/

theorem tables_ready {alloc : Paging → Option (Nat × Paging)} {s : Paging} {pml4 virt : Nat}
    (hs : TreeOk s) (hpml4 : physOf s pml4 = some s.cr3) (hplain : NoHuge s (pathOf virt))
    (halloc : AllocatesFresh alloc s pml4 virt) :
    let index := pagingGetIndexes virt
    ∃ t pdpt s₁ pd s₂ pt s₃ new, findTables s pml4 index = some t ∧
      setupTable alloc s t.pdpt pml4 index.pml4 = some (pdpt, s₁) ∧
      setupTable alloc s₁ t.pd pdpt index.pdpt = some (pd, s₂) ∧
      setupTable alloc s₂ t.pt pd index.pd = some (pt, s₃) ∧
      TreeOk s₃ ∧ Agrees new s s₃ ∧ IsTable s₃ pt [index.pml4, index.pdpt, index.pd] 0 := by
  intro index
  have hlt : index.pml4 < 512 ∧ index.pdpt < 512 ∧ index.pd < 512 ∧ index.pt < 512 :=
    getIndexes_lt virt
  obtain ⟨t, ht, hfound⟩ := findTables_ok hs hplain hpml4
  obtain ⟨pdpt, s₁, new₁, h₁, hs₁, hagrees₁, htable₁, hempty₁, hsame₁⟩ :=
    setupTable_ok hs (q := []) ⟨_, hpml4, nodeAt_nil s⟩ hlt.1 (by decide) hfound.pdpt
      (halloc.pdpt t ht)
  have hfound₁ : Found s₁ t.pd [index.pml4, index.pdpt] 1 :=
    Found.below (p := [index.pml4]) hfound.pd hfound.pd_none hempty₁ hsame₁
  obtain ⟨pd, s₂, new₂, h₂, hs₂, hagrees₂, htable₂, hempty₂, hsame₂⟩ :=
    setupTable_ok hs₁ htable₁ hlt.2.1 (by simp) hfound₁ (halloc.pd t pdpt s₁ ht h₁)
  have hfound₂ : Found s₂ t.pt [index.pml4, index.pdpt, index.pd] 0 :=
    Found.below (p := [index.pml4, index.pdpt]) hfound.pt hfound.pt_none hempty₂ fun h =>
      (hsame₂ h).trans (hsame₁ fun h' => h (hfound.pd_none h'))
  obtain ⟨pt, s₃, new₃, h₃, hs₃, hagrees₃, htable₃, -, -⟩ :=
    setupTable_ok hs₂ htable₂ hlt.2.2.1 (by simp) hfound₂ (halloc.pt t pdpt s₁ pd s₂ ht h₁ h₂)
  exact ⟨t, pdpt, s₁, pd, s₂, pt, s₃, _, ht, h₁, h₂, h₃, hs₃,
    (hagrees₁.trans hagrees₂).trans hagrees₃, htable₃⟩

/-- Setting the entry in the page table maps the address, and no other. -/
theorem mapped_entry {s : Paging} (hs : TreeOk s) {virt phys flags f : Nat}
    (hphys : phys % 4096 = 0 ∧ phys < 2 ^ 52) (hflags : flags &&& pageFlagPresent ≠ 0)
    (hnode : let index := pagingGetIndexes virt
      s.nodeAt [index.pml4, index.pdpt, index.pd] = some (.table 0 f)) :
    let s' := s.write (f + 8 * (pagingGetIndexes virt).pt) (pagingMakePage phys flags)
    TreeOk s' ∧ s'.nodeAt (pathOf virt) = some (.page phys) ∧
      (∀ p, p.length = 4 → p ≠ pathOf virt → s'.nodeAt p = s.nodeAt p) ∧
      ∀ p e, s'.nodeAt p = some (.huge e) → s.nodeAt p = some (.huge e) := by
  have hlt := (getIndexes_lt virt).2.2.2
  have hpresent : pagingMakePage phys flags &&& pageFlagPresent ≠ 0 :=
    fun h => hflags ((makePage_present phys flags).mp h)
  have hentry : entryNode 0 (pagingMakePage phys flags) = .page phys := by
    rw [entryNode_page, makePage_addr, and_pageAddrMask_of_aligned hphys.1 hphys.2]
  have hleaf : ∀ memory i, look memory (entryNode 0 (pagingMakePage phys flags)) i = none :=
    fun _ _ => rfl
  have hwrite := hs.nodeAt_write hnode hlt hpresent (hleaf _)
  rw [hentry, show [_, _, _] ++ [_] = pathOf virt from rfl] at hwrite
  refine ⟨hs.write hnode hlt hpresent (hleaf _) fun l' f' h => ?_, ?_, fun p hp hne => ?_,
    fun p e hhuge => ?_⟩
  · rw [hentry] at h
    cases h
  · rw [hwrite]
    exact if_pos rfl
  · rw [hwrite, if_neg hne, if_neg fun h => hne (h.eq_of_length hp.symm).symm]
  · rw [hwrite] at hhuge
    split at hhuge
    · cases hhuge
    split at hhuge
    · cases hhuge
    · exact hhuge

end VersionSix.Page
