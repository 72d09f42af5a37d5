import VersionSix.PageTable
import VersionSix.PathTree

/-!
# Page tables as trees

The four-level page table as a tree in the sense of `PathTree`: a path is a
list of indexes, and the node at its end is a table, a page or a huge page.

`TreeOk` is what a well-formed table is: its tables lie in the direct map and
no table is reached on two paths. On such a table the walk of
`paging_virtual_to_physical` is the resolution of the path (`walk_eq`), and
setting one entry changes the paths through it only (`nodeAt_write`).

So a store into the memory of a page table is understood once, here. What it
needs to know is the node at the end of the path of the entry: an absent entry
that becomes a page, or the table of a level below. That no table is reached
twice is what makes the change local, and a new table has to be outside the
tree for the same reason.
-/

namespace VersionSix.Page

open PathTree (resolve)

/-! ## Nodes -/

/-- A page table has level 0, the PML4 level 3. -/
inductive Node
  | table (level frame : Nat)
  | page (frame : Nat)
  | huge (entry : Nat)
deriving DecidableEq

/-- What a present entry of a table stands for. -/
def entryNode : Nat → Nat → Node
  | 0, entry => .page (entry &&& pageAddrMask)
  | level + 1, entry =>
      if entry &&& pageFlagPageSize ≠ 0 then .huge entry
      else .table level (entry &&& pageAddrMask)

theorem entryNode_page (entry : Nat) : entryNode 0 entry = .page (entry &&& pageAddrMask) := rfl

theorem entryNode_table {entry : Nat} (h : entry &&& pageFlagPageSize = 0) (l : Nat) :
    entryNode (l + 1) entry = .table l (entry &&& pageAddrMask) := if_neg (not_not.mpr h)

def look (memory : Nat → Nat) : Node → Nat → Option Node
  | .table level frame, i =>
      if i < 512 ∧ memory (frame + 8 * i) &&& pageFlagPresent ≠ 0 then
        some (entryNode level (memory (frame + 8 * i)))
      else none
  | .page _, _ => none
  | .huge _, _ => none

/-- The node at the end of a path from the current PML4. -/
def Paging.nodeAt (s : Paging) (path : List Nat) : Option Node :=
  resolve (look s.memory) (.table 3 s.cr3) path

/-- The frame a path of four indexes leads to; 0 if it leads nowhere. -/
def Paging.translate (s : Paging) (path : List Nat) : Nat :=
  match s.nodeAt path with
  | some (.page frame) => frame
  | _ => 0

/-- A well-formed page table. -/
structure TreeOk (s : Paging) : Prop where
  placed : ∀ {p l f}, s.nodeAt p = some (.table l f) → f % 4096 = 0 ∧ f + 4096 ≤ identityMapSize
  unshared : ∀ {p q l l' f}, s.nodeAt p = some (.table l f) → s.nodeAt q = some (.table l' f) →
    p = q

def NoHuge (s : Paging) (path : List Nat) : Prop :=
  ∀ p, p <+: path → ∀ e, s.nodeAt p ≠ some (.huge e)

theorem nodeAt_nil (s : Paging) : s.nodeAt [] = some (.table 3 s.cr3) := rfl

theorem nodeAt_append_none {s : Paging} {p q : List Nat} (h : s.nodeAt p = none) :
    s.nodeAt (p ++ q) = none := PathTree.resolve_append_eq_none h

theorem nodeAt_concat {s : Paging} {p : List Nat} {n : Node} (h : s.nodeAt p = some n) (i : Nat) :
    s.nodeAt (p ++ [i]) = look s.memory n i := by
  unfold Paging.nodeAt at h ⊢
  rw [PathTree.resolve_concat, h, Option.bind_some]

theorem look_table {memory : Nat → Nat} {l f i : Nat} (hi : i < 512)
    (h : memory (f + 8 * i) &&& pageFlagPresent ≠ 0) :
    look memory (.table l f) i = some (entryNode l (memory (f + 8 * i))) := if_pos ⟨hi, h⟩

theorem look_absent {memory : Nat → Nat} {l f i : Nat}
    (h : memory (f + 8 * i) &&& pageFlagPresent = 0) : look memory (.table l f) i = none :=
  if_neg fun h' => h'.2 h

theorem look_blank {memory : Nat → Nat} {l f : Nat}
    (hzero : ∀ i, i < 512 → memory (f + 8 * i) = 0) (i : Nat) :
    look memory (.table l f) i = none := by
  by_cases hi : i < 512
  · exact look_absent (by rw [hzero i hi, Nat.zero_and])
  · exact if_neg fun h => hi h.1

/-! ## The entry that leads to a table -/

theorem tableEntry_present (f : Nat) :
    pagingMakePage f (pageFlagPresent ||| pageFlagReadWrite) &&& pageFlagPresent ≠ 0 := by
  intro h
  exact absurd ((makePage_present ..).mp h) (by decide)

theorem tableEntry_node {f : Nat} (hf : f % 4096 = 0 ∧ f + 4096 ≤ identityMapSize) (l : Nat) :
    entryNode (l + 1) (pagingMakePage f (pageFlagPresent ||| pageFlagReadWrite)) =
      .table l f := by
  have hlt := hf.2
  unfold identityMapSize at hlt
  rw [entryNode_table (makePage_table_notHuge f), makePage_addr,
    and_pageAddrMask_of_aligned hf.1 (by omega)]

theorem translate_of_none {s : Paging} {p : List Nat} (h : s.nodeAt p = none) :
    s.translate p = 0 := by
  unfold Paging.translate
  rw [h]

/-! ## Tables in the direct map -/

theorem physOf_direct (s : Paging) {f : Nat} (h : f + 4096 ≤ identityMapSize) :
    physOf s ((f + addrIdentityMap) % 2 ^ 64) = some f := by
  unfold identityMapSize at h
  have hmod : (f + addrIdentityMap) % 2 ^ 64 = f + addrIdentityMap := by
    unfold addrIdentityMap
    omega
  rw [hmod]
  unfold physOf
  rw [if_pos ⟨by omega, by unfold identityMapSize; omega⟩, Nat.add_sub_cancel]

theorem physOf_grows {s s' : Paging}
    (hvirtual : s'.kernelVirtualBase = s.kernelVirtualBase)
    (hphysical : s'.kernelPhysicalBase = s.kernelPhysicalBase)
    (harea : s'.kernelVirtualAllocationBase = s.kernelVirtualAllocationBase)
    (hbacking : s'.kernelPhysicalAllocationBase = s.kernelPhysicalAllocationBase)
    (hnext : s.kernelVirtualMemoryNext ≤ s'.kernelVirtualMemoryNext) {p f : Nat}
    (hp : physOf s p = some f) : physOf s' p = some f := by
  unfold physOf kernelPagePhysical at hp ⊢
  rw [hvirtual, hphysical, harea, hbacking]
  split at hp
  · next hdirect => rw [if_pos hdirect, hp]
  next hdirect =>
  rw [if_neg hdirect]
  split at hp
  · next hinside =>
      rw [if_pos ⟨hinside.1, hinside.2.trans_le hnext⟩]
      exact hp
  next hinside =>
  split at hp
  · next himage =>
      rw [if_neg (by omega), if_pos himage]
      exact hp
  · cases hp

theorem TreeOk.loadEntry_direct {s : Paging} (hs : TreeOk s) {p : List Nat} {l f : Nat}
    (h : s.nodeAt p = some (.table l f)) (i : Nat) :
    loadEntry s ((f + addrIdentityMap) % 2 ^ 64) i = some (s.memory (f + 8 * i)) := by
  unfold loadEntry
  rw [physOf_direct s (hs.placed h).2]
  rfl

/-! ## The walk -/

theorem TreeOk.walkLevel_eq {s : Paging} (hs : TreeOk s) {q r : List Nat} {l f i : Nat}
    {next : Nat → Option Nat} (hq : s.nodeAt q = some (.table l f)) (hi : i < 512)
    (hnext : ∀ entry, s.nodeAt (q ++ [i]) = some (entryNode l entry) →
      next entry = some (s.translate (q ++ i :: r))) :
    walkLevel s ((f + addrIdentityMap) % 2 ^ 64) i next = some (s.translate (q ++ i :: r)) := by
  unfold walkLevel
  rw [hs.loadEntry_direct hq, Option.bind_some]
  by_cases hpresent : s.memory (f + 8 * i) &&& pageFlagPresent = 0
  · rw [if_pos hpresent]
    have hnone : s.nodeAt (q ++ [i] ++ r) = none :=
      nodeAt_append_none ((nodeAt_concat hq i).trans (look_absent hpresent))
    rw [List.append_assoc, List.singleton_append] at hnone
    rw [translate_of_none hnone]
  · rw [if_neg hpresent]
    exact hnext _ ((nodeAt_concat hq i).trans (look_table hi hpresent))

/-- Above the last level the walk follows the entry to the next table. -/
theorem TreeOk.walkLevel_table {s : Paging} (hs : TreeOk s) {q r : List Nat} {l f i : Nat}
    {next : Nat → Option Nat} (hq : s.nodeAt q = some (.table (l + 1) f)) (hi : i < 512)
    (hplain : ∀ e, s.nodeAt (q ++ [i]) ≠ some (.huge e))
    (hnext : ∀ entry f', s.nodeAt (q ++ [i]) = some (.table l f') →
      entryTable entry = (f' + addrIdentityMap) % 2 ^ 64 →
      next entry = some (s.translate (q ++ i :: r))) :
    walkLevel s ((f + addrIdentityMap) % 2 ^ 64) i next = some (s.translate (q ++ i :: r)) := by
  refine hs.walkLevel_eq hq hi fun entry hnode => ?_
  by_cases hhuge : entry &&& pageFlagPageSize = 0
  · rw [entryNode_table hhuge] at hnode
    exact hnext entry _ hnode rfl
  · rw [show entryNode (l + 1) entry = .huge entry from if_pos hhuge] at hnode
    exact absurd hnode (hplain entry)

theorem TreeOk.walk_eq {s : Paging} (hs : TreeOk s) {v : Nat} (hplain : NoHuge s (pathOf v)) :
    pagingVirtualToPhysical s v = some (s.translate (pathOf v)) := by
  have hlt : ∀ n, v / 2 ^ n % 512 < 512 := fun n => index_lt _
  unfold pagingVirtualToPhysical
  rw [getIndexes_eq]
  rw [pathOf_eq] at hplain ⊢
  refine hs.walkLevel_table (nodeAt_nil s) (hlt 39) (fun e => hplain _ (by simp) e)
    fun e₃ f₃ h₃ he₃ => ?_
  dsimp only
  rw [he₃]
  refine hs.walkLevel_table h₃ (hlt 30) (fun e => hplain _ (by simp) e) fun e₂ f₂ h₂ he₂ => ?_
  rw [he₂]
  refine hs.walkLevel_table h₂ (hlt 21) (fun e => hplain _ (by simp) e) fun e₁ f₁ h₁ he₁ => ?_
  rw [he₁]
  refine hs.walkLevel_eq h₁ (hlt 12) fun e₀ h₀ => ?_
  unfold Paging.translate
  rw [h₀]
  rfl

/-! ## Setting an entry -/

/-- `s` with one word of memory changed. -/
def Paging.write (s : Paging) (address value : Nat) : Paging :=
  { s with memory := Function.update s.memory address value }

theorem storeEntry_eq {s : Paging} {table f : Nat} (h : physOf s table = some f) (i entry : Nat) :
    storeEntry s table i entry = some (s.write (f + 8 * i) entry) := by
  unfold storeEntry
  rw [h]
  rfl

theorem look_write {memory : Nat → Nat} {t c l f i value : Nat} (ht : t % 4096 = 0)
    (hf : f % 4096 = 0) (hc : c < 512) (hne : f ≠ t ∨ i ≠ c) :
    look (Function.update memory (t + 8 * c) value) (.table l f) i =
      look memory (.table l f) i := by
  by_cases hi : i < 512
  · have haddr : f + 8 * i ≠ t + 8 * c := by omega
    unfold look
    dsimp only
    rw [Function.update_of_ne haddr]
  · unfold look
    dsimp only
    rw [if_neg fun h => hi h.1, if_neg fun h => hi h.1]

/-- A table of zeros is empty after its own entry is set in another table. -/
theorem look_hung {memory : Nat → Nat} {t c l f value : Nat} (ht : t % 4096 = 0)
    (hf : f % 4096 = 0) (hc : c < 512) (hne : f ≠ t)
    (hzero : ∀ i, i < 512 → memory (f + 8 * i) = 0) (i : Nat) :
    look (Function.update memory (t + 8 * c) value) (.table l f) i = none := by
  rw [look_write ht hf hc (.inl hne)]
  exact look_blank hzero i

/-- An entry of the table at `q` is set to a node without entries of its own:
the paths through it lead to this node or nowhere, the others stay. -/
theorem TreeOk.nodeAt_write {s : Paging} (hs : TreeOk s) {q : List Nat} {l t c entry : Nat}
    (hq : s.nodeAt q = some (.table l t)) (hc : c < 512) (he : entry &&& pageFlagPresent ≠ 0)
    (hleaf : ∀ i, look (s.write (t + 8 * c) entry).memory (entryNode l entry) i = none)
    (p : List Nat) :
    (s.write (t + 8 * c) entry).nodeAt p
      = if p = q ++ [c] then some (entryNode l entry)
        else if q ++ [c] <+: p then none
        else s.nodeAt p := by
  refine PathTree.resolve_install hq ?_ hleaf (fun r d i hr hne => ?_) p
  · have hword : (s.write (t + 8 * c) entry).memory (t + 8 * c) = entry := Function.update_self ..
    rw [look_table hc (by rwa [hword]), hword]
  · cases d with
    | table l' f =>
        refine look_write (hs.placed hq).1 (hs.placed hr).1 hc ?_
        by_contra hboth
        obtain ⟨rfl, rfl⟩ := not_or.mp hboth |>.imp not_not.mp not_not.mp
        exact hne (by rw [hs.unshared hr hq])
    | page => rfl
    | huge => rfl

/-- A table that gets a page or an empty table outside the tree stays well
formed. -/
theorem TreeOk.write {s : Paging} (hs : TreeOk s) {q : List Nat} {l t c entry : Nat}
    (hq : s.nodeAt q = some (.table l t)) (hc : c < 512) (he : entry &&& pageFlagPresent ≠ 0)
    (hleaf : ∀ i, look (s.write (t + 8 * c) entry).memory (entryNode l entry) i = none)
    (hnew : ∀ l' f, entryNode l entry = .table l' f → f % 4096 = 0 ∧ f + 4096 ≤ identityMapSize ∧
      ∀ p l'', s.nodeAt p ≠ some (.table l'' f)) : TreeOk (s.write (t + 8 * c) entry) := by
  have hcases : ∀ {p l' f}, (s.write (t + 8 * c) entry).nodeAt p = some (.table l' f) →
      p = q ++ [c] ∧ entryNode l entry = .table l' f ∨ s.nodeAt p = some (.table l' f) := by
    intro p l' f hp
    rw [hs.nodeAt_write hq hc he hleaf] at hp
    split at hp
    · exact .inl ⟨‹_›, Option.some.inj hp⟩
    split at hp
    · cases hp
    · exact .inr hp
  refine ⟨fun hp => ?_, fun hp hp' => ?_⟩
  · rcases hcases hp with ⟨-, hn⟩ | hp
    · exact ⟨(hnew _ _ hn).1, (hnew _ _ hn).2.1⟩
    · exact hs.placed hp
  · rcases hcases hp with ⟨rfl, hn⟩ | hp <;> rcases hcases hp' with ⟨rfl, hn'⟩ | hp'
    · rfl
    · exact absurd hp' ((hnew _ _ hn).2.2 _ _)
    · exact absurd hp ((hnew _ _ hn').2.2 _ _)
    · exact hs.unshared hp hp'

end VersionSix.Page
