import VersionSix.KmallocArena

/-!
# What is stored when a piece comes or goes

Every case of `kmalloc` writes the record of the new piece and links it up
(`Put`), whatever the order of its stores. `kfree` does the opposite (`Taken`).
Both say which bytes can have changed: those of the block's record, of the
neighbours' records and of the piece itself.

The cases differ in which neighbours there are. `Relinked` states what they
have in common for two neighbours, either of which may be missing; a new piece
is something in between, and a piece that is taken out is nothing in between.
In memory a link is a word, and a word is read back after the stores to other
words; here the addresses have to be apart, and they are because the pieces
are.

The numbers of a piece have to fit the words they are stored in (`Sized`),
which are of 32 bits.
-/

namespace VersionSix.Kmalloc

open ByteStore Linked

theorem align_eq (m : Bytes) (q : Nat) :
    align m q = (setLe 1 m (alignUp q - 16) (alignUp q - q), alignUp q) := by
  have hmask : (q + 16) &&& 15 = (q + 16) % 16 := Nat.and_two_pow_sub_one_eq_mod (q + 16) 4
  unfold align alignUp alignInfo alignment
  simp only [Nat.add_one_sub_one, hmask]
  split
  · have hptr : q + 16 + (16 - (q + 16) % 16) = (q + 31) / 16 * 16 := by omega
    rw [hptr]
    congr 2
    omega
  · have hptr : q + 16 = (q + 31) / 16 * 16 := by omega
    rw [← hptr]
    congr 2
    omega

theorem unalign_alignUp {m : Bytes} {q : Nat} (hq : alignUp q < 2 ^ 64)
    (h : m (alignUp q - 16) = UInt8.ofNat (alignUp q - q)) : unalign m (alignUp q) = q := by
  have hb := alignUp_bounds q
  have hdiff : (UInt8.ofNat (alignUp q - q)).toNat = alignUp q - q := by
    rw [UInt8.toNat_ofNat']
    omega
  unfold unalign alignInfo alignment signExtend
  simp only
  rw [h, hdiff, if_pos (show alignUp q - q < 128 by omega),
    if_pos (show alignUp q - q < 16 + 16 by omega), sub64_eq (by omega) hq]
  omega

/-! ## A new piece -/

/-- Something happened between `prev` and `next`, where 0 is the end of the list: they
got a new neighbour each. Nothing else has changed but the record of the block and
the region `g`. -/
structure Relinked (m m' : Bytes) (maj prev next toNext toPrev : Nat) (g : Region) : Prop where
  before : prev ≠ 0 → minorNode m' prev = { minorNode m prev with next := toNext }
  behind : next ≠ 0 → minorNode m' next = { minorNode m next with prev := toPrev }
  same : ∀ lo hi, hi ≤ maj ∨ maj + 40 ≤ lo → (prev ≠ 0 → hi ≤ prev ∨ prev + 40 ≤ lo) →
    (next ≠ 0 → hi ≤ next ∨ next + 40 ≤ lo) → hi ≤ g.start ∨ g.start + g.size ≤ lo →
      Same m m' lo hi

section Put

/-- `c` was put between `prev` and `next`. -/
structure Put (m m' : Bytes) (maj prev next : Nat) (c : Minor) : Prop where
  node : minorNode m' c.addr = ⟨(c.cell maj).2, prev, next⟩
  distance : m' (c.ptr - 16) = UInt8.ofNat (c.ptr - (c.addr + 40))
  major : majorNode m' maj = { majorNode m maj with
    data := { (majorNode m maj).data with
      usage := (majorNode m maj).data.usage + (40 + c.size)
      first := if prev = 0 then c.addr else (majorNode m maj).data.first } }
  relinked : Relinked m m' maj prev next c.addr c.addr c.region

def Placing {P : Type} (h : Heap P) (result : Heap P × Nat) (maj prev next : Nat) (c : Minor) :
    Prop :=
  ∃ m', result = ({ h with memory := m', lInuse := (h.lInuse + c.size) % 2 ^ 64 }, c.ptr) ∧
    Put h.memory m' maj prev next c

/-- The numbers of a piece that fits into the words of its record. -/
structure Sized (m : Bytes) (maj : Nat) (c : Minor) : Prop where
  maj_pos : 0 < maj
  low : maj + 40 ≤ c.addr
  high : c.addr + 40 + c.size < 2 ^ 64
  size : 32 ≤ c.size
  size_lt : c.size < 2 ^ 32
  req_lt : c.req < 2 ^ 32
  usage_lt : load m LiballocMajor.usage maj + (40 + c.size) < 2 ^ 32

variable {P : Type} {h : Heap P} {maj d e : Nat} {c : Minor}

theorem spaceFor_eq {size : Nat} (h : size + 40 < 2 ^ 64) : spaceFor size = size + 40 :=
  Nat.mod_eq_of_lt h

theorem brandNew_placing (hc : Sized h.memory maj c) (haddr : c.addr = maj + 40) :
    Placing h (brandNew h maj c.size c.req) maj 0 0 c := by
  obtain ⟨a, size, req⟩ := c
  obtain ⟨hpos, hlow, hhigh, hsize, hsize', hreq, husage⟩ := hc
  simp only [LiballocMajor.usage, load_mk] at haddr hlow hhigh hsize hsize' hreq husage
  have hb := alignUp_bounds (a + 40)
  simp only [brandNew, handOut, align_eq, spaceFor_eq (show size + 40 < 2 ^ 64 by omega),
    LiballocMajor.bytes, LiballocMinor.bytes, ← haddr, LiballocMajor.first, LiballocMajor.usage,
    LiballocMinor.magic, LiballocMinor.prev, LiballocMinor.next, LiballocMinor.block,
    LiballocMinor.size, LiballocMinor.reqSize, load_mk, store_mk, Nat.add_zero]
  refine ⟨_, rfl, ?node, setLe_one .., ?major, ?before, ?behind, ?same⟩
  case node =>
    simp (disch := omega) only [minorNode_eq, liballocMagic, le_setLe_disjoint, le_setLe_same,
      Nat.mod_eq_of_lt]
    rfl
  case before => exact absurd rfl
  case behind => exact absurd rfl
  case major =>
    simp (disch := omega) only [majorNode_eq, le_setLe_disjoint, le_setLe_same, Nat.mod_eq_of_lt,
      Nat.add_comm size, if_true]
  case same =>
    intro lo hi hmaj _ _ hout i _ _
    simp only [Minor.region] at hout
    simp (disch := omega) only [setLe_out]

theorem squeezeIn_placing (hc : Sized h.memory maj c) (haddr : c.addr = maj + 40)
    (hfirst : load h.memory LiballocMajor.first maj = e) (he : c.addr + 40 + c.size ≤ e)
    (he' : e + 40 < 2 ^ 64) : Placing h (squeezeIn h maj c.size c.req) maj 0 e c := by
  obtain ⟨a, size, req⟩ := c
  obtain ⟨hpos, hlow, hhigh, hsize, hsize', hreq, husage⟩ := hc
  simp only [LiballocMajor.usage, LiballocMajor.first, load_mk]
    at haddr hlow hhigh hsize hsize' hreq husage he hfirst
  have hb := alignUp_bounds (a + 40)
  simp only [squeezeIn, handOut, align_eq, spaceFor_eq (show size + 40 < 2 ^ 64 by omega),
    LiballocMajor.bytes, LiballocMinor.bytes, ← haddr, LiballocMajor.first, LiballocMajor.usage,
    LiballocMinor.magic, LiballocMinor.prev, LiballocMinor.next, LiballocMinor.block,
    LiballocMinor.size, LiballocMinor.reqSize, load_mk, store_mk, Nat.add_zero, hfirst]
  refine ⟨_, rfl, ?node, setLe_one .., ?major, ?before, ?behind, ?same⟩
  case node =>
    simp (disch := omega) only [minorNode_eq, liballocMagic, le_setLe_disjoint, le_setLe_same,
      Nat.mod_eq_of_lt]
    rfl
  case before => exact absurd rfl
  case behind =>
    intro _
    simp (disch := omega) only [minorNode_eq, le_setLe_disjoint, le_setLe_same, Nat.mod_eq_of_lt]
  case major =>
    simp (disch := omega) only [majorNode_eq, le_setLe_disjoint, le_setLe_same, Nat.mod_eq_of_lt,
      Nat.add_comm size, if_true]
  case same =>
    intro lo hi hmaj _ hnext hout i _ _
    have hnext := hnext (by omega)
    simp only [Minor.region] at hout
    simp (disch := omega) only [setLe_out]

theorem putBehind_placing (hc : Sized h.memory maj c) (hd : maj + 40 ≤ d)
    (hd' : d + 40 ≤ c.addr) (haddr : c.addr = d + 40 + load h.memory LiballocMinor.size d) :
    Placing h (putBehind h maj d c.size c.req) maj d 0 c := by
  obtain ⟨a, size, req⟩ := c
  obtain ⟨hpos, hlow, hhigh, hsize, hsize', hreq, husage⟩ := hc
  simp only [LiballocMajor.usage, LiballocMinor.size, load_mk]
    at hlow hhigh hsize hsize' hreq husage hd' haddr
  have hb := alignUp_bounds (a + 40)
  simp only [putBehind, handOut, align_eq, spaceFor_eq (show size + 40 < 2 ^ 64 by omega),
    LiballocMinor.bytes, LiballocMajor.usage, LiballocMinor.magic, LiballocMinor.prev,
    LiballocMinor.next, LiballocMinor.block, LiballocMinor.size, LiballocMinor.reqSize, load_mk,
    store_mk, Nat.add_zero, ← haddr]
  refine ⟨_, rfl, ?node, setLe_one .., ?major, ?before, ?behind, ?same⟩
  case node =>
    simp (disch := omega) only [minorNode_eq, liballocMagic, le_setLe_disjoint, le_setLe_same,
      Nat.mod_eq_of_lt]
    rfl
  case before =>
    intro _
    simp (disch := omega) only [minorNode_eq, le_setLe_disjoint, le_setLe_same, Nat.mod_eq_of_lt]
  case behind => exact absurd rfl
  case major =>
    simp (disch := omega) only [majorNode_eq, le_setLe_disjoint, le_setLe_same, Nat.mod_eq_of_lt,
      Nat.add_comm size, if_neg]
  case same =>
    intro lo hi hmaj hprev _ hout i _ _
    have hprev := hprev (by omega)
    simp only [Minor.region] at hout
    simp (disch := omega) only [setLe_out]

theorem putBetween_placing (hc : Sized h.memory maj c) (hd : maj + 40 ≤ d)
    (hd' : d + 40 ≤ c.addr) (haddr : c.addr = d + 40 + load h.memory LiballocMinor.size d)
    (hnext : load h.memory LiballocMinor.next d = e) (he : c.addr + 40 + c.size ≤ e)
    (he' : e + 40 < 2 ^ 64) : Placing h (putBetween h maj d c.size c.req) maj d e c := by
  obtain ⟨a, size, req⟩ := c
  obtain ⟨hpos, hlow, hhigh, hsize, hsize', hreq, husage⟩ := hc
  simp only [LiballocMajor.usage, LiballocMinor.next, LiballocMinor.size, load_mk]
    at hlow hhigh hsize hsize' hreq husage hd' he hnext haddr
  have hb := alignUp_bounds (a + 40)
  simp only [putBetween, handOut, align_eq, spaceFor_eq (show size + 40 < 2 ^ 64 by omega),
    LiballocMinor.bytes, LiballocMajor.usage, LiballocMinor.magic, LiballocMinor.prev,
    LiballocMinor.next, LiballocMinor.block, LiballocMinor.size, LiballocMinor.reqSize, load_mk,
    store_mk, Nat.add_zero, ← haddr]
  -- `min->next` is still what it was when the new piece is linked up
  simp (disch := omega) only [le_setLe_disjoint, hnext]
  refine ⟨_, rfl, ?node, setLe_one .., ?major, ?before, ?behind, ?same⟩
  case node =>
    simp (disch := omega) only [minorNode_eq, liballocMagic, le_setLe_disjoint, le_setLe_same,
      Nat.mod_eq_of_lt]
    rfl
  case before =>
    intro _
    simp (disch := omega) only [minorNode_eq, le_setLe_disjoint, le_setLe_same, Nat.mod_eq_of_lt]
  case behind =>
    intro _
    simp (disch := omega) only [minorNode_eq, le_setLe_disjoint, le_setLe_same, Nat.mod_eq_of_lt]
  case major =>
    simp (disch := omega) only [majorNode_eq, le_setLe_disjoint, le_setLe_same, Nat.mod_eq_of_lt,
      Nat.add_comm size, if_neg]
  case same =>
    intro lo hi hmaj hprev hbehind hout i _ _
    have hprev := hprev (by omega)
    have hbehind := hbehind (by omega)
    simp only [Minor.region] at hout
    simp (disch := omega) only [setLe_out]

end Put

/-! ## A piece that is given back -/

section Taken

/-- `c` was taken out from between `prev` and `next`. -/
structure Taken (m m' : Bytes) (maj prev next : Nat) (c : Minor) : Prop where
  major : majorNode m' maj = { majorNode m maj with
    data := { (majorNode m maj).data with
      usage := (majorNode m maj).data.usage - (40 + c.size)
      first := if prev = 0 then next else (majorNode m maj).data.first } }
  dead : load m' LiballocMinor.magic c.addr = liballocDead
  relinked : Relinked m m' maj prev next next prev ⟨c.addr, 40⟩

variable {P : Type} {h : Heap P} {maj prev next : Nat} {c : Minor}

theorem unlinkMinor_taken (hnode : minorNode h.memory c.addr = ⟨(c.cell maj).2, prev, next⟩)
    (hmaj : maj + 40 ≤ c.addr) (hprev : prev ≠ 0 → maj + 40 ≤ prev ∧ prev + 40 ≤ c.addr)
    (hnext : next ≠ 0 → c.addr + 40 ≤ next ∧ next + 40 < 2 ^ 64) (hc : c.addr < 2 ^ 64)
    (husage : 40 + c.size ≤ load h.memory LiballocMajor.usage maj) (inuse : Nat) :
    ∃ m', unlinkMinor { h with
        memory := store (store h.memory LiballocMajor.usage maj
          (sub32 (load h.memory LiballocMajor.usage maj) (c.size + LiballocMinor.bytes)))
            LiballocMinor.magic c.addr liballocDead
        lInuse := inuse } maj c.addr = { h with memory := m', lInuse := inuse } ∧
      Taken h.memory m' maj prev next c := by
  obtain ⟨a, size, req⟩ := c
  rw [minorNode_eq] at hnode
  obtain ⟨-, hprevLoad, hnextLoad⟩ := Node.mk.inj hnode
  simp only [LiballocMajor.usage, load_mk] at hmaj hprev hnext hc husage
  have hlt : le 4 h.memory (maj + 24) < 256 ^ 4 := le_lt ..
  have hsub : sub32 (le 4 h.memory (maj + 24)) (size + 40)
      = le 4 h.memory (maj + 24) - (40 + size) := by
    rw [Nat.add_comm size, sub32_eq husage (by omega)]
  simp (disch := omega) only [unlinkMinor, LiballocMajor.usage, LiballocMinor.bytes,
    LiballocMinor.next, LiballocMinor.prev, LiballocMinor.magic, LiballocMajor.first, load_mk,
    store_mk, Nat.add_zero, le_setLe_disjoint, hsub, hprevLoad, hnextLoad]
  refine ⟨_, rfl, ?major, ?dead, ?before, ?behind, ?same⟩
  case before =>
    intro hp
    have hp' := hprev hp
    by_cases hn : next = 0
    · simp (disch := omega) only [minorNode_eq, hn, hp, ne_eq, not_true_eq_false,
        not_false_eq_true, if_true, if_false, le_setLe_disjoint, le_setLe_same]
      rfl
    · have hn' := hnext hn
      simp (disch := omega) only [minorNode_eq, hn, hp, ne_eq, not_false_eq_true, if_true,
        if_false, le_setLe_disjoint, le_setLe_same, Nat.mod_eq_of_lt]
  case behind =>
    intro hn
    have hn' := hnext hn
    by_cases hp : prev = 0
    · simp (disch := omega) only [minorNode_eq, hn, hp, ne_eq, not_true_eq_false,
        not_false_eq_true, if_true, if_false, le_setLe_disjoint, le_setLe_same]
      rfl
    · have hp' := hprev hp
      simp (disch := omega) only [minorNode_eq, hn, hp, ne_eq, not_false_eq_true, if_true,
        if_false, le_setLe_disjoint, le_setLe_same, Nat.mod_eq_of_lt]
  case major =>
    by_cases hp : prev = 0 <;> by_cases hn : next = 0
    · simp (disch := omega) only [majorNode_eq, hn, hp, ne_eq, not_true_eq_false, if_true,
        if_false, le_setLe_disjoint, le_setLe_same, Nat.mod_eq_of_lt]
    · have hn' := hnext hn
      simp (disch := omega) only [majorNode_eq, hn, hp, ne_eq, not_true_eq_false,
        not_false_eq_true, if_true, if_false, le_setLe_disjoint, le_setLe_same, Nat.mod_eq_of_lt]
    · have hp' := hprev hp
      simp (disch := omega) only [majorNode_eq, hn, hp, ne_eq, not_true_eq_false,
        not_false_eq_true, if_true, if_false, le_setLe_disjoint, le_setLe_same, Nat.mod_eq_of_lt]
    · have hp' := hprev hp
      have hn' := hnext hn
      simp (disch := omega) only [majorNode_eq, hn, hp, ne_eq, not_false_eq_true, if_true,
        if_false, le_setLe_disjoint, le_setLe_same, Nat.mod_eq_of_lt]
  case dead =>
    have hstored : le 4 (setLe 4 (setLe 4 h.memory (maj + 24)
        (le 4 h.memory (maj + 24) - (40 + size))) (a + 24) liballocDead) (a + 24)
          = liballocDead :=
      (le_setLe_same ..).trans rfl
    rw [LiballocMinor.magic, load_mk]
    by_cases hp : prev = 0 <;> by_cases hn : next = 0
    · simp (disch := omega) only [hn, hp, ne_eq, not_true_eq_false, if_true, if_false,
        le_setLe_disjoint, hstored]
    · have hn' := hnext hn
      simp (disch := omega) only [hn, hp, ne_eq, not_true_eq_false, not_false_eq_true, if_true,
        if_false, le_setLe_disjoint, hstored]
    · have hp' := hprev hp
      simp (disch := omega) only [hn, hp, ne_eq, not_true_eq_false, not_false_eq_true, if_true,
        if_false, le_setLe_disjoint, hstored]
    · have hp' := hprev hp
      have hn' := hnext hn
      simp (disch := omega) only [hn, hp, ne_eq, not_false_eq_true, if_true, if_false,
        le_setLe_disjoint, hstored]
  case same =>
    intro lo hi hmaj' hprev' hnext' hout i _ _
    simp only at hout
    by_cases hp : prev = 0 <;> by_cases hn : next = 0
    · simp (disch := omega) only [hp, hn, ne_eq, not_true_eq_false, if_true, if_false, setLe_out]
    · have hn' := hnext' hn
      simp (disch := omega) only [hp, hn, ne_eq, not_true_eq_false, not_false_eq_true, if_true,
        if_false, setLe_out]
    · have hp' := hprev' hp
      simp (disch := omega) only [hp, hn, ne_eq, not_true_eq_false, not_false_eq_true, if_true,
        if_false, setLe_out]
    · have hp' := hprev' hp
      have hn' := hnext' hn
      simp (disch := omega) only [hp, hn, ne_eq, not_false_eq_true, if_true, if_false, setLe_out]

end Taken

/-! ## Blocks of pages -/

section Pages

variable {P : Type} {h : Heap P}

/-- A new block at the end of the list. -/
structure Appended (m m' : Bytes) (last maj pages : Nat) : Prop where
  node : majorNode m' maj = ⟨⟨pages, 4096 * pages, 40, 0⟩, last, 0⟩
  before : last ≠ 0 → majorNode m' last = { majorNode m last with next := maj }
  same : ∀ lo hi, (last ≠ 0 → hi ≤ last ∨ last + 40 ≤ lo) → hi ≤ maj ∨ maj + 40 ≤ lo →
    Same m m' lo hi

/-- A block was taken out of the list. -/
structure Released (m m' : Bytes) (prev next : Nat) : Prop where
  before : prev ≠ 0 → majorNode m' prev = { majorNode m prev with next := next }
  behind : next ≠ 0 → majorNode m' next = { majorNode m next with prev := prev }
  same : ∀ lo hi, (prev ≠ 0 → hi ≤ prev ∨ prev + 40 ≤ lo) →
    (next ≠ 0 → hi ≤ next ∨ next + 40 ≤ lo) → Same m m' lo hi

theorem allocateNewPage_appended {liballocAlloc : Nat → P → Option (Nat × P)} {size maj : Nat}
    {pages : P} (hpages : liballocAlloc (pagesFor size) h.pages = some (maj, pages))
    (hmaj : maj ≠ 0) (hbytes : 4096 * pagesFor size < 2 ^ 32) :
    ∃ m', allocateNewPage liballocAlloc h size = some ({ h with
        memory := m'
        pages := pages
        lAllocated := (h.lAllocated + 4096 * pagesFor size) % 2 ^ 64 }, maj) ∧
      Appended h.memory m' 0 maj (pagesFor size) := by
  simp (disch := omega) only [allocateNewPage, hpages, Option.bind_eq_bind, Option.bind_some,
    if_neg hmaj, LiballocMajor.prev, LiballocMajor.next, LiballocMajor.pages, LiballocMajor.size,
    LiballocMajor.usage, LiballocMajor.first, load_mk, store_mk, le_setLe_disjoint, le_setLe_same,
    lPageSize, Nat.mul_comm, Nat.mod_eq_of_lt (show 4096 * pagesFor size < 256 ^ 4 by omega)]
  refine ⟨_, rfl, ?_⟩
  constructor
  case node =>
    simp (disch := omega) only [majorNode_eq, le_setLe_disjoint, le_setLe_same, Nat.mod_eq_of_lt,
      LiballocMajor.bytes, Nat.add_zero]
  case before => exact absurd rfl
  case same =>
    intro lo hi _ hout i _ _
    simp (disch := omega) only [setLe_out]

theorem nextMajor_appended {liballocAlloc : Nat → P → Option (Nat × P)} {size last maj : Nat}
    {pages : P} (hlast : load h.memory LiballocMajor.next last = 0)
    (hpages : liballocAlloc (pagesFor size) h.pages = some (maj, pages)) (hmaj : last + 40 ≤ maj)
    (hlast' : last ≠ 0) (hmaj' : maj < 2 ^ 64) (hbytes : 4096 * pagesFor size < 2 ^ 32) :
    ∃ m', nextMajor liballocAlloc size h last false = some ({ h with
        memory := m'
        pages := pages
        lAllocated := (h.lAllocated + 4096 * pagesFor size) % 2 ^ 64 }, .fresh maj) ∧
      Appended h.memory m' last maj (pagesFor size) := by
  obtain ⟨m, hm, hnew⟩ := allocateNewPage_appended hpages (show maj ≠ 0 by omega) hbytes
  unfold nextMajor
  simp only [hlast, hm, ne_eq, not_true_eq_false, if_false, Option.map_some, Bool.false_eq_true,
    show maj ≠ 0 by omega]
  have hnode := hnew.node
  have hkept := Same.majorNode (hnew.same last (last + 40) (absurd rfl) (.inl hmaj))
  simp only [majorNode, Node.mk.injEq, MajorData.mk.injEq] at hnode hkept
  simp only [LiballocMajor.prev, LiballocMajor.next, LiballocMajor.pages, LiballocMajor.size,
    LiballocMajor.usage, LiballocMajor.first, load_mk, store_mk, Nat.add_zero] at hnode hkept ⊢
  refine ⟨_, rfl, ?_⟩
  constructor
  case node =>
    simp (disch := omega) only [majorNode_eq, le_setLe_disjoint, le_setLe_same, Nat.mod_eq_of_lt,
      hnode]
  case before =>
    intro _
    simp (disch := omega) only [majorNode_eq, le_setLe_disjoint, le_setLe_same, Nat.mod_eq_of_lt,
      hkept]
  case same =>
    intro lo hi hbefore hout i hlo hhi
    have hbefore := hbefore hlast'
    simp (disch := omega) only [setLe_out]
    exact hnew.same lo hi (absurd rfl) hout i hlo hhi

theorem releaseMajor_released {maj prev next : Nat} {data : MajorData}
    (hnode : majorNode h.memory maj = ⟨data, prev, next⟩)
    (hprev : prev ≠ 0 → prev + 40 ≤ maj) (hnext : next ≠ 0 → maj + 40 ≤ next ∧ next < 2 ^ 64)
    (hmaj : maj < 2 ^ 64) :
    ∃ m', releaseMajor h maj = { h with
        memory := m'
        lMemRoot := if h.lMemRoot = maj then next else h.lMemRoot
        lBestBet := if h.lBestBet = maj then 0 else h.lBestBet
        lAllocated := sub64 h.lAllocated data.size } ∧ Released h.memory m' prev next := by
  rw [majorNode_eq] at hnode
  obtain ⟨rfl, hprevLoad, hnextLoad⟩ := Node.mk.inj hnode
  simp only [releaseMajor, LiballocMajor.prev, LiballocMajor.next, LiballocMajor.size, load_mk,
    store_mk, Nat.add_zero, hprevLoad, hnextLoad]
  by_cases hp : prev = 0 <;> by_cases hn : next = 0
  · simp only [hp, hn, ne_eq, not_true_eq_false, if_false]
    refine ⟨_, rfl, ?_⟩
    exact ⟨absurd rfl, absurd rfl, fun lo hi _ _ => Same.refl _ lo hi⟩
  · have hn' := hnext hn
    simp (disch := omega) only [hp, hn, ne_eq, not_true_eq_false, not_false_eq_true, if_false,
      if_true, le_setLe_disjoint]
    refine ⟨_, rfl, ?_⟩
    constructor
    case before => exact absurd rfl
    case behind =>
      intro _
      simp (disch := omega) only [majorNode_eq, le_setLe_disjoint, le_setLe_same]
      rfl
    case same =>
      intro lo hi _ hbehind i _ _
      have hbehind := hbehind hn
      simp (disch := omega) only [setLe_out]
  · have hp' := hprev hp
    simp (disch := omega) only [hp, hn, ne_eq, not_true_eq_false, not_false_eq_true, if_false,
      if_true, le_setLe_disjoint]
    refine ⟨_, rfl, ?_⟩
    constructor
    case before =>
      intro _
      simp (disch := omega) only [majorNode_eq, le_setLe_disjoint, le_setLe_same]
      rfl
    case behind => exact absurd rfl
    case same =>
      intro lo hi hbefore _ i _ _
      have hbefore := hbefore hp
      simp (disch := omega) only [setLe_out]
  · have hp' := hprev hp
    have hn' := hnext hn
    simp (disch := omega) only [hp, hn, ne_eq, not_false_eq_true, if_true, le_setLe_disjoint]
    refine ⟨_, rfl, ?_⟩
    constructor
    case before =>
      intro _
      simp (disch := omega) only [majorNode_eq, le_setLe_disjoint, le_setLe_same,
        Nat.mod_eq_of_lt]
    case behind =>
      intro _
      simp (disch := omega) only [majorNode_eq, le_setLe_disjoint, le_setLe_same,
        Nat.mod_eq_of_lt]
    case same =>
      intro lo hi hbefore hbehind i _ _
      have hbefore := hbefore hp
      have hbehind := hbehind hn
      simp (disch := omega) only [setLe_out]

end Pages

end VersionSix.Kmalloc
