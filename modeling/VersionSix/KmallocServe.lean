import VersionSix.KmallocHolds

/-!
# `kmalloc` always finds a place

The loop through the blocks ends with a piece (`Served`): in a gap of some
block, or in new pages, and then no block has a gap that is large enough.

It does not begin at the first block as a rule but at the one with the most
space, the best bet so far, which is updated on the way. After the last block
it starts once more at the first one, if it did not begin there, and only then
asks for pages. So a block may be looked at twice, and the induction is on the
blocks that are left, in one of the two rounds (`searchMajors_bet_served`).

Pages are asked for at most once in a call, and what is assumed of them is that
they are the next ones (`PagesReady`). `kmalloc_served` is the rule for the
whole call, with what it does to memory.
-/

namespace VersionSix.Kmalloc

open ByteStore Linked Placement

variable {P : Type} {next : P → Nat} {liballocAlloc : Nat → P → Option (Nat × P)} {h h₁ : Heap P}
  {arena pre post : Arena} {x : Major} {p' : P} {size req turns bestSize : Nat}
  {startedBet : Bool}

/-- `liballoc_alloc` hands out the next pages. -/
structure PagesReady (liballocAlloc : Nat → P → Option (Nat × P)) (next : P → Nat) (n : Nat)
    (p p' : P) : Prop where
  alloc : liballocAlloc n p = some (next p, p')
  moved : next p' = next p + 4096 * n
  limit : next p' < 2 ^ 64

/-- If the blocks have no room, there are pages. -/
def Ready (liballocAlloc : Nat → P → Option (Nat × P)) (next : P → Nat) (arena : Arena) (size : Nat)
    (p : P) : Prop :=
  (∀ x ∈ arena, ¬ x.HasRoom size) → ∃ p', PagesReady liballocAlloc next (pagesFor size) p p'

/-- The piece `c` was put into a gap of a block. -/
def InGap (arena arena' : Arena) (c : Minor) : Prop :=
  ∃ pre x post l r, arena = pre ++ x :: post ∧
    arena' = pre ++ { x with minors := l ++ c :: r } :: post ∧ Gap x l r c

/-- There was no gap for the piece `c`, and it got pages of its own. -/
def InPages (arena arena' : Arena) (c : Minor) (maj n : Nat) : Prop :=
  arena' = arena ++ [⟨maj, n, [c]⟩] ∧ ∀ x ∈ arena, ¬ x.HasRoom c.size

/-- The heap has handed out the piece `c`. -/
structure Served (liballocAlloc : Nat → P → Option (Nat × P)) (next : P → Nat) (h h' : Heap P)
    (arena arena' : Arena) (size req : Nat) (c : Minor) : Prop where
  sized : c.size = size
  asked : c.req = req
  place : (InGap arena arena' c ∧ h'.pages = h.pages) ∨
    (InPages arena arena' c (next h.pages) (pagesFor size) ∧
      liballocAlloc (pagesFor size) h.pages = some (next h.pages, h'.pages))
  holds : Holds next h' arena'
  kept : Kept h.memory h'.memory arena
  outside : Outside h.memory h'.memory arena'
  counts : h'.lWarningCount = h.lWarningCount ∧ h'.lErrorCount = h.lErrorCount ∧
    h'.lPossibleOverruns = h.lPossibleOverruns

theorem InGap.pieces {arena' : Arena} {c : Minor} (h : InGap arena arena' c) :
    (pieces arena').Perm (c :: pieces arena) := by
  obtain ⟨pre, x, post, l, r, rfl, rfl, hgap⟩ := h
  exact pieces_middle rfl hgap.minors

theorem InPages.pieces {arena' : Arena} {c : Minor} {maj n : Nat}
    (h : InPages arena arena' c maj n) :
    (pieces arena').Perm (c :: pieces arena) := by
  obtain ⟨rfl, -⟩ := h
  simp only [Kmalloc.pieces, List.flatMap_append, List.flatMap_cons, List.flatMap_nil,
    List.append_nil]
  exact List.perm_append_singleton c _

theorem Served.pieces {h' : Heap P} {arena' : Arena} {c : Minor}
    (hs : Served liballocAlloc next h h' arena arena' size req c) :
    (pieces arena').Perm (c :: pieces arena) :=
  hs.place.elim (fun hgap => hgap.1.pieces) fun hpages => hpages.1.pieces

theorem pagesFor_bounds (hsize : size + 4176 ≤ 2 ^ 32) :
    1 ≤ pagesFor size ∧ size + 80 ≤ 4096 * pagesFor size ∧ 4096 * pagesFor size < 2 ^ 32 := by
  unfold pagesFor lPageSize lPageCount LiballocMajor.bytes LiballocMinor.bytes
  simp only [Nat.mod_eq_of_lt (show size < 2 ^ 32 by omega),
    Nat.mod_eq_of_lt (show size + 40 < 2 ^ 32 by omega),
    Nat.mod_eq_of_lt (show size + 40 + 40 < 2 ^ 32 by omega)]
  split <;> split <;> omega

/-! ## One block -/

theorem Found.served {result : Heap P × Nat} (hh : Holds next h (pre ++ x :: post))
    (hfound : Found h x size req result) : ∃ h' arena' c, result = (h', c.ptr) ∧
      Served liballocAlloc next h h' (pre ++ x :: post) arena' size req c := by
  obtain ⟨l, r, c, hgap, hsize, hreq, m', rfl, hput⟩ := hfound
  refine ⟨_, pre ++ { x with minors := l ++ c :: r } :: post, c, rfl, ?_⟩
  exact
    { sized := hsize
      asked := hreq
      place := .inl ⟨⟨pre, x, post, l, r, rfl, rfl, hgap⟩, rfl⟩
      holds := hh.put hgap hput
      kept := hput.kept hh hgap
      outside := hput.outside hh hgap
      counts := ⟨rfl, rfl, rfl⟩ }

theorem Sound.free (hs : Sound h.memory x) : sub32 (load h.memory LiballocMajor.size x.addr)
    (load h.memory LiballocMajor.usage x.addr) =
      4096 * x.pages - (40 + total Minor.region x.minors) := by
  have hle := hs.ok.packed.le
  have hbytes := hs.ok.bytes
  rw [hs.loadSize, hs.loadUsage]
  simp only [Major.stop] at hle
  exact sub32_eq (by omega) hbytes

/-- A block with less space than that has no gap for it. -/
theorem Sound.not_hasRoom (hs : Sound h.memory x)
    (hlt : 4096 * x.pages - (40 + total Minor.region x.minors) < size + 40) :
    ¬ x.HasRoom size := by
  intro hfits
  have hfree := hfits.free hs.ok.packed
  simp only [Major.stop] at hfree
  omega

/-- The best bet, when `x` is looked at. -/
def look (h : Heap P) (x : Major) (bestSize : Nat) : Heap P :=
  if bestSize < 4096 * x.pages - (40 + total Minor.region x.minors) then
    { h with lBestBet := x.addr }
  else h

@[simp] theorem look_memory (h : Heap P) (x : Major) (bestSize : Nat) :
    (look h x bestSize).memory = h.memory := by
  unfold look
  split <;> rfl

@[simp] theorem look_pages (h : Heap P) (x : Major) (bestSize : Nat) :
    (look h x bestSize).pages = h.pages := by
  unfold look
  split <;> rfl

theorem look_counts (h : Heap P) (x : Major) (bestSize : Nat) :
    (look h x bestSize).lWarningCount = h.lWarningCount ∧
      (look h x bestSize).lErrorCount = h.lErrorCount ∧
        (look h x bestSize).lPossibleOverruns = h.lPossibleOverruns := by
  unfold look
  split <;> exact ⟨rfl, rfl, rfl⟩

theorem Served.of_look {h' : Heap P} {arena' : Arena} {c : Minor}
    (hs : Served liballocAlloc next (look h x bestSize) h' arena arena' size req c) :
    Served liballocAlloc next h h' arena arena' size req c where
  sized := hs.sized
  asked := hs.asked
  place := by
    have hplace := hs.place
    rwa [look_pages] at hplace
  holds := hs.holds
  kept := look_memory h x bestSize ▸ hs.kept
  outside := look_memory h x bestSize ▸ hs.outside
  counts := by
    obtain ⟨hw, he, ho⟩ := look_counts h x bestSize
    obtain ⟨hw', he', ho'⟩ := hs.counts
    exact ⟨hw'.trans hw, he'.trans he, ho'.trans ho⟩

variable (liballocAlloc) in
theorem searchMajors_turn (hs : Sound h.memory x) (hsize : size + 40 < 2 ^ 64)
    (hreq : req + 32 ≤ size) (turns : Nat) (startedBet : Bool) (bestSize : Nat) :
    ∃ best', (∃ result, searchMajors liballocAlloc size req (turns + 1) h x.addr startedBet
        bestSize = some result ∧ Found (look h x bestSize) x size req result) ∨
      (¬ x.HasRoom size ∧
        (∀ h₁ maj started, nextMajor liballocAlloc size (look h x bestSize) x.addr startedBet
            = some (h₁, .known maj started) →
          searchMajors liballocAlloc size req (turns + 1) h x.addr startedBet bestSize
            = searchMajors liballocAlloc size req turns h₁ maj started best') ∧
        ∀ h₁ maj, nextMajor liballocAlloc size (look h x bestSize) x.addr startedBet
            = some (h₁, .fresh maj) →
          searchMajors liballocAlloc size req (turns + 1) h x.addr startedBet bestSize
              = searchMajors liballocAlloc size req turns h₁ maj startedBet best' ∨
            ∃ again, searchMajors liballocAlloc size req (turns + 1) h x.addr startedBet bestSize
              = tryMajor liballocAlloc size req again h₁ maj startedBet) := by
  have hpos := hs.pos
  have hs' : Sound (look h x bestSize).memory x := by rwa [look_memory]
  have hle := hs.ok.packed.le
  refine ⟨if bestSize < 4096 * x.pages - (40 + total Minor.region x.minors) then
    4096 * x.pages - (40 + total Minor.region x.minors) else bestSize, ?_⟩
  rw [searchMajors, if_neg (show x.addr ≠ 0 by omega)]
  simp only [hs.free, spaceFor_eq hsize]
  rw [← look]
  split
  · next hlt =>
      refine .inr ⟨hs.not_hasRoom hlt, fun h₁ maj started hnext => ?_, fun h₁ maj hnext => ?_⟩
      · rw [hnext, Option.bind_some]
      · rw [hnext, Option.bind_some]
        exact .inr ⟨_, rfl⟩
  · next hlt =>
      rw [tryMajor]
      have hroom : x.minors = [] → x.addr + 40 + (40 + size) ≤ x.stop := by
        intro hempty
        rw [hempty] at hlt hle
        simp only [total_nil, Major.stop] at *
        omega
      rcases searchMajor_spec hs' hsize hreq hroom with ⟨hnone, hno⟩ | ⟨result, hsome, hfound⟩
      · refine .inr ⟨hno, fun h₁ maj started hnext => ?_, fun h₁ maj hnext => ?_⟩
        · rw [hnone, Option.bind_some, hnext, Option.bind_some]
        · rw [hnone, Option.bind_some, hnext, Option.bind_some]
          exact .inl rfl
      · refine .inl ⟨result, ?_, hfound⟩
        rw [hsome, Option.bind_some]

/-! ## New pages -/

theorem Kept.trans {m m' m'' : Bytes} (h : Kept m m' arena) (h' : Kept m' m'' (arena ++ post)) :
    Kept m m'' arena :=
  fun x hx c hc => (h x hx c hc).trans (h' x (List.mem_append_left post hx) c hc)

theorem Found.served_fresh {result : Heap P × Nat} {maj n : Nat}
    (hh₁ : Holds next h₁ (arena ++ [⟨maj, n, []⟩]))
    (hfound : Found h₁ ⟨maj, n, []⟩ size req result) (hfull : ∀ x ∈ arena, ¬ x.HasRoom size)
    (hmaj : maj = next h.pages)
    (hn : n = pagesFor size) (hpages : liballocAlloc n h.pages = some (next h.pages, h₁.pages))
    (hkept : Kept h.memory h₁.memory arena)
    (hout : Outside h.memory h₁.memory (arena ++ [⟨maj, n, []⟩]))
    (hcounts : h₁.lWarningCount = h.lWarningCount ∧ h₁.lErrorCount = h.lErrorCount ∧
      h₁.lPossibleOverruns = h.lPossibleOverruns) :
    ∃ h' arena' c, result = (h', c.ptr) ∧
      Served liballocAlloc next h h' arena arena' size req c := by
  subst hn hmaj
  obtain ⟨l, r, c, hgap, hsize, hreq, m', rfl, hput⟩ := hfound
  obtain ⟨rfl, rfl⟩ := List.append_eq_nil_iff.mp hgap.minors.symm
  refine ⟨_, arena ++ [⟨next h.pages, pagesFor size, [c]⟩], c, rfl, ?_⟩
  exact
    { sized := hsize
      asked := hreq
      place := .inr ⟨⟨rfl, hsize ▸ hfull⟩, hpages⟩
      holds := hh₁.put hgap hput
      kept := hkept.trans (hput.kept hh₁ hgap)
      outside := fun lo hi hlohi => (hout.of_regions (by simp [Major.region]) lo hi hlohi).trans
        (hput.outside hh₁ hgap lo hi hlohi)
      counts := hcounts }

theorem fresh_hasRoom {maj n : Nat} (hn : 80 + size ≤ 4096 * n) :
    Major.HasRoom ⟨maj, n, []⟩ size := by
  refine fits_nil.mpr ?_
  simp only [Major.stop]
  omega

variable (liballocAlloc) in
theorem fresh_found {y : Major} (hh : Holds next h (arena ++ [y])) (hempty : y.minors = [])
    (hn : 80 + size ≤ 4096 * y.pages) (hsize : size + 40 < 2 ^ 64) (hreq : req + 32 ≤ size) :
    (∀ again startedBet, ∃ result,
      tryMajor liballocAlloc size req again h y.addr startedBet = some result ∧
        Found h y size req result) ∧
    ∀ turns startedBet bestSize, ∃ result,
      searchMajors liballocAlloc size req (turns + 1) h y.addr startedBet bestSize = some result ∧
        Found (look h y bestSize) y size req result := by
  have hs := hh.sound (x := y) (by simp)
  have hroom : y.HasRoom size := by
    obtain ⟨maj, n, minors⟩ := y
    obtain rfl := hempty
    exact fresh_hasRoom hn
  constructor
  · intro again startedBet
    rcases searchMajor_spec hs hsize hreq (by simp only [Major.stop]; omega) with
      ⟨-, hno⟩ | ⟨result, hsome, hfound⟩
    · exact absurd hroom hno
    · refine ⟨result, ?_, hfound⟩
      rw [tryMajor, hsome, Option.bind_some]
  · intro turns startedBet bestSize
    obtain ⟨-, ⟨result, hsome, hfound⟩ | ⟨hno, -⟩⟩ := searchMajors_turn
      liballocAlloc hs hsize hreq turns startedBet bestSize
    · exact ⟨result, hsome, hfound⟩
    · exact absurd hroom hno

/-! ## The loop through the blocks -/

theorem Holds.look (hh : Holds next h arena) (hx : x ∈ arena) (bestSize : Nat) :
    Holds next (look h x bestSize) arena := by
  unfold Kmalloc.look
  split
  · exact hh.setBet hx
  · exact hh

theorem length_le_pages {arena : Arena} (hok : ∀ y ∈ arena, y.Ok) :
    4096 * arena.length ≤ total Major.region arena := by
  induction arena with
  | nil => exact Nat.le_refl 0
  | cons y arena ih =>
      have hy := (hok y List.mem_cons_self).record
      have hrest := ih fun z hz => hok z (List.mem_cons_of_mem y hz)
      simp only [List.length_cons, total_cons, Major.region, Major.stop] at *
      omega

variable (size req) in
theorem search_of_no_bet (hbet : h.lBestBet = 0) : search liballocAlloc size req h
    = searchMajors liballocAlloc size req (2 * (h.lAllocated / lPageSize) + 2) h h.lMemRoot
      false 0 := by
  unfold search
  simp only [hbet, ne_eq, not_true_eq_false, if_false]

section Search

variable (hsize : size + 4176 ≤ 2 ^ 32) (hreq : req + 32 ≤ size)

include hsize hreq

/-- The end of the loop: there is no place in any block, and the last one is followed by a
new one. -/
theorem nextMajor_served (hh : Holds next h (pre ++ [x]))
    (hready : PagesReady liballocAlloc next (pagesFor size) h.pages p')
    (hfull : ∀ y ∈ pre ++ [x], ¬ y.HasRoom size) : ∃ h₁ maj,
      nextMajor liballocAlloc size h x.addr false = some (h₁, .fresh maj) ∧
      (∀ again startedBet, ∃ h' arena' c,
        tryMajor liballocAlloc size req again h₁ maj startedBet = some (h', c.ptr) ∧
          Served liballocAlloc next h h' (pre ++ [x]) arena' size req c) ∧
      ∀ turns startedBet bestSize, ∃ h' arena' c,
        searchMajors liballocAlloc size req (turns + 1) h₁ maj startedBet bestSize
            = some (h', c.ptr) ∧
          Served liballocAlloc next h h' (pre ++ [x]) arena' size req c := by
  obtain ⟨hpages, hroom, hbytes⟩ := pagesFor_bounds hsize
  have hs := hh.sound (x := x) (by simp)
  have hlast : last 0 ((pre ++ [x]).map Major.cell) = x.addr := by
    rw [List.map_append, List.map_singleton, last_concat]
    rfl
  have hnext : load h.memory LiballocMajor.next x.addr = 0 :=
    congrArg Node.next ((hh.stored.majorAt :))
  have hrecord := hs.ok.record
  have hpos := hs.pos
  have hstop := (hh.placed.inside (a := x) (by simp)).2
  have hlimit := hh.limit
  simp only [Major.region, Major.stop] at hstop hrecord
  obtain ⟨m', hmajor, happ⟩ := nextMajor_appended hnext hready.alloc (by omega) (by omega) hlimit
    hbytes
  rw [← hlast] at happ
  have hh₁ := hh.append happ (Nat.le_refl _) hpages hbytes hready.moved.ge hready.limit
    (show h.lMemRoot = _ by rw [hh.root]; cases pre <;> rfl)
  obtain ⟨htry, hsearch⟩ := fresh_found liballocAlloc hh₁ rfl (by simp only; omega) (by omega)
    hreq
  refine ⟨_, _, hmajor, fun again startedBet => ?_, fun turns startedBet bestSize => ?_⟩
  · obtain ⟨result, hsome, hfound⟩ := htry again startedBet
    obtain ⟨h', arena', c, rfl, hserved⟩ := hfound.served_fresh hh₁ hfull rfl rfl hready.alloc
      (happ.kept hh (Nat.le_refl _)) (happ.outside hh hpages) ⟨rfl, rfl, rfl⟩
    exact ⟨h', arena', c, hsome, hserved⟩
  · obtain ⟨result, hsome, hfound⟩ := hsearch turns startedBet bestSize
    obtain ⟨h', arena', c, rfl, hserved⟩ := hfound.served_fresh (h := h)
      (hh₁.look (by simp) bestSize) hfull rfl rfl (by rw [look_pages]; exact hready.alloc)
      (by rw [look_memory]; exact happ.kept hh (Nat.le_refl _))
      (by rw [look_memory]; exact happ.outside hh hpages) (look_counts ..)
    exact ⟨h', arena', c, hsome, hserved⟩

omit hsize hreq in
theorem nextMajor_known {y : Major} (hh : Holds next h (pre ++ x :: y :: post))
    (startedBet : Bool) :
    nextMajor liballocAlloc size h x.addr startedBet = some (h, .known y.addr startedBet) := by
  have hnext : load h.memory LiballocMajor.next x.addr = y.addr :=
    congrArg Node.next hh.stored.majorAt
  have hy := (hh.sound (x := y) (by simp)).pos
  unfold nextMajor
  simp only [hnext]
  rw [if_pos (by omega)]

omit hsize hreq in
theorem nextMajor_root (hh : Holds next h (pre ++ [x])) :
    nextMajor liballocAlloc size h x.addr true = some (h, .known h.lMemRoot false) := by
  have hnext : load h.memory LiballocMajor.next x.addr = 0 :=
    congrArg Node.next ((hh.stored.majorAt :))
  unfold nextMajor
  simp only [hnext]
  rfl

theorem searchMajors_served {post : Arena} (hh : Holds next h (pre ++ x :: post))
    (hready : Ready liballocAlloc next (pre ++ x :: post) size h.pages)
    (hfull : ∀ y ∈ pre, ¬ y.HasRoom size) (hturns : post.length + 2 ≤ turns) :
    ∃ h' arena' c, searchMajors liballocAlloc size req turns h x.addr false bestSize
        = some (h', c.ptr) ∧
      Served liballocAlloc next h h' (pre ++ x :: post) arena' size req c := by
  induction post generalizing pre x h turns bestSize with
  | nil =>
      obtain ⟨turns, rfl⟩ : ∃ t, turns = t + 2 := ⟨turns - 2, by simp at hturns; omega⟩
      obtain ⟨best', ⟨result, hsome, hfound⟩ | ⟨hno, -, hfresh⟩⟩ :=
        searchMajors_turn liballocAlloc (hh.sound (x := x) (by simp))
          (by omega) hreq (turns + 1) false bestSize
      · obtain ⟨h', arena', c, rfl, hserved⟩ := hfound.served (hh.look (by simp) bestSize)
        exact ⟨h', arena', c, hsome, hserved.of_look⟩
      · have hfull' : ∀ y ∈ pre ++ [x], ¬ y.HasRoom size := by
          intro y hy
          rcases List.mem_append.mp hy with hy | hy
          · exact hfull y hy
          · exact List.mem_singleton.mp hy ▸ hno
        obtain ⟨p', hpages⟩ := hready hfull'
        obtain ⟨h₁, maj, hnext, htry, hsearch⟩ := nextMajor_served hsize hreq
          (hh.look (x := x) (by simp) bestSize) (by rwa [look_pages]) hfull'
        rcases hfresh h₁ maj hnext with heq | ⟨again, heq⟩
        · obtain ⟨h', arena', c, hsome, hserved⟩ := hsearch turns false best'
          exact ⟨h', arena', c, heq.trans hsome, hserved.of_look⟩
        · obtain ⟨h', arena', c, hsome, hserved⟩ := htry again false
          exact ⟨h', arena', c, heq.trans hsome, hserved.of_look⟩
  | cons y post ih =>
      obtain ⟨turns, rfl⟩ : ∃ t, turns = t + 1 := ⟨turns - 1, by omega⟩
      obtain ⟨best', ⟨result, hsome, hfound⟩ | ⟨hno, hknown, -⟩⟩ :=
        searchMajors_turn liballocAlloc (hh.sound (x := x) (by simp))
          (by omega) hreq turns false bestSize
      · obtain ⟨h', arena', c, rfl, hserved⟩ := hfound.served (hh.look (by simp) bestSize)
        exact ⟨h', arena', c, hsome, hserved.of_look⟩
      · have hh' := hh.look (x := x) (by simp) bestSize
        rw [hknown _ _ _ (nextMajor_known hh' false)]
        have hassoc : pre ++ x :: y :: post = (pre ++ [x]) ++ y :: post := by simp
        rw [hassoc] at hh' hready ⊢
        have hfull' : ∀ z ∈ pre ++ [x], ¬ z.HasRoom size := by
          intro z hz
          rcases List.mem_append.mp hz with hz | hz
          · exact hfull z hz
          · exact List.mem_singleton.mp hz ▸ hno
        have hrec : ∃ h' arena' c, searchMajors liballocAlloc size req turns (look h x bestSize)
            y.addr false best' = some (h', c.ptr) ∧ Served liballocAlloc next (look h x bestSize)
              h' ((pre ++ [x]) ++ y :: post) arena' size req c :=
          ih hh' (by rwa [look_pages]) hfull' (by simp only [List.length_cons] at hturns; omega)
        obtain ⟨h', arena', c, hsome, hserved⟩ := hrec
        exact ⟨h', arena', c, hsome, hserved.of_look⟩

theorem searchMajors_root_served {post : Arena} (hh : Holds next h (x :: post))
    (hready : Ready liballocAlloc next (x :: post) size h.pages)
    (hturns : post.length + 2 ≤ turns) :
    ∃ h' arena' c, searchMajors liballocAlloc size req turns h h.lMemRoot false bestSize
        = some (h', c.ptr) ∧
      Served liballocAlloc next h h' (x :: post) arena' size req c := by
  have hnone : ∀ y ∈ ([] : Arena), ¬ y.HasRoom size := by simp
  rw [hh.root]
  have hserved : ∃ h' arena' c, searchMajors liballocAlloc size req turns h x.addr false bestSize
      = some (h', c.ptr) ∧
    Served liballocAlloc next h h' ([] ++ x :: post) arena' size req c :=
    searchMajors_served hsize hreq hh hready hnone hturns
  exact hserved

/-- The loop that starts at the best bet, and once more at the first block. -/
theorem searchMajors_bet_served {post : Arena} (hh : Holds next h (pre ++ x :: post))
    (hready : Ready liballocAlloc next (pre ++ x :: post) size h.pages)
    (hturns : post.length + 1 + (pre ++ x :: post).length + 1 ≤ turns) :
    ∃ h' arena' c, searchMajors liballocAlloc size req turns h x.addr true bestSize
        = some (h', c.ptr) ∧
      Served liballocAlloc next h h' (pre ++ x :: post) arena' size req c := by
  induction post generalizing pre x h turns bestSize with
  | nil =>
      obtain ⟨turns, rfl⟩ : ∃ t, turns = t + 1 := ⟨turns - 1, by omega⟩
      obtain ⟨best', ⟨result, hsome, hfound⟩ | ⟨-, hknown, -⟩⟩ :=
        searchMajors_turn liballocAlloc (hh.sound (x := x) (by simp))
          (by omega) hreq turns true bestSize
      · obtain ⟨h', arena', c, rfl, hserved⟩ := hfound.served (hh.look (by simp) bestSize)
        exact ⟨h', arena', c, hsome, hserved.of_look⟩
      · have hh' := hh.look (x := x) (by simp) bestSize
        rw [hknown _ _ _ (nextMajor_root hh')]
        obtain ⟨y, rest, hrest⟩ : ∃ y rest, pre ++ [x] = y :: rest :=
          List.exists_cons_of_ne_nil (by simp)
        rw [hrest] at hh' hturns hready ⊢
        have hturns' : rest.length + 2 ≤ turns := by
          simp only [List.length_cons, List.length_nil] at hturns
          omega
        obtain ⟨h', arena', c, hsome, hserved⟩ :=
          searchMajors_root_served hsize hreq hh' (by rwa [look_pages]) hturns'
        exact ⟨h', arena', c, hsome, hserved.of_look⟩
  | cons y post ih =>
      obtain ⟨turns, rfl⟩ : ∃ t, turns = t + 1 := ⟨turns - 1, by omega⟩
      obtain ⟨best', ⟨result, hsome, hfound⟩ | ⟨hno, hknown, -⟩⟩ :=
        searchMajors_turn liballocAlloc (hh.sound (x := x) (by simp))
          (by omega) hreq turns true bestSize
      · obtain ⟨h', arena', c, rfl, hserved⟩ := hfound.served (hh.look (by simp) bestSize)
        exact ⟨h', arena', c, hsome, hserved.of_look⟩
      · have hh' := hh.look (x := x) (by simp) bestSize
        rw [hknown _ _ _ (nextMajor_known hh' true)]
        have hassoc : pre ++ x :: y :: post = (pre ++ [x]) ++ y :: post := by simp
        rw [hassoc] at hh' hturns hready ⊢
        have hrec : ∃ h' arena' c, searchMajors liballocAlloc size req turns (look h x bestSize)
            y.addr true best' = some (h', c.ptr) ∧ Served liballocAlloc next (look h x bestSize)
              h' ((pre ++ [x]) ++ y :: post) arena' size req c :=
          ih hh' (by rwa [look_pages])
            (by simp only [List.length_cons, List.length_append] at hturns ⊢; omega)
        obtain ⟨h', arena', c, hsome, hserved⟩ := hrec
        exact ⟨h', arena', c, hsome, hserved.of_look⟩

theorem search_served (hh : Holds next h arena) (hne : arena ≠ [])
    (hready : Ready liballocAlloc next arena size h.pages) :
    ∃ h' arena' c, search liballocAlloc size req h = some (h', c.ptr) ∧
      Served liballocAlloc next h h' arena arena' size req c := by
  have hlength : arena.length ≤ h.lAllocated / lPageSize := by
    have hle := length_le_pages hh.ok
    rw [hh.allocated, lPageSize]
    omega
  have hroot {bestSize : Nat} : ∃ h' arena' c,
      searchMajors liballocAlloc size req (2 * (h.lAllocated / lPageSize) + 2) h h.lMemRoot false
          bestSize = some (h', c.ptr) ∧
        Served liballocAlloc next h h' arena arena' size req c := by
    obtain ⟨y, rest, rfl⟩ := List.exists_cons_of_ne_nil hne
    exact searchMajors_root_served hsize hreq hh hready
      (by simp only [List.length_cons] at hlength; omega)
  unfold search
  simp only
  split
  · next hbet =>
      split
      · rcases hh.bet with hzero | ⟨x, hx, haddr⟩
        · exact absurd hzero hbet
        · rw [← haddr]
          obtain ⟨pre, post, rfl⟩ := List.append_of_mem hx
          refine searchMajors_bet_served hsize hreq hh hready ?_
          simp only [List.length_append, List.length_cons] at *
          omega
      · exact hroot
  · exact hroot

theorem kmallocSized_served (hh : Holds next h arena)
    (hready : Ready liballocAlloc next arena size h.pages) :
    ∃ h' arena' c, kmallocSized liballocAlloc size req h = some (h', c.ptr) ∧
      Served liballocAlloc next h h' arena arena' size req c := by
  unfold kmallocSized
  split
  · next hroot =>
      obtain rfl := hh.root_eq_zero.mp hroot
      obtain ⟨p', hpages⟩ := hready (by simp)
      obtain ⟨hone, hroom, hbytes⟩ := pagesFor_bounds hsize
      have hpos : 1 ≤ next h.pages := hh.placed
      obtain ⟨m', hm, happ⟩ := allocateNewPage_appended hpages.alloc (by omega) hbytes
      rw [hm, Option.bind_some]
      simp only [if_neg (show next h.pages ≠ 0 by omega)]
      have hh₁ := hh.append happ (Nat.le_refl _) hone hbytes hpages.moved.ge hpages.limit
        (show next h.pages = _ from rfl)
      obtain ⟨-, hsearch⟩ := fresh_found liballocAlloc hh₁ rfl (by simp only; omega) (by omega) hreq
      have hbet : h.lBestBet = 0 := hh.bet.resolve_right (by simp)
      rw [search_of_no_bet size req]
      swap
      · exact hbet
      obtain ⟨result, hsome, hfound⟩ := hsearch
        (2 * ((h.lAllocated + 4096 * pagesFor size) % 2 ^ 64 / lPageSize) + 1) false 0
      obtain ⟨h', arena', c, rfl, hserved⟩ := hfound.served_fresh (h := h)
        (hh₁.look (by simp) 0) (by simp) rfl rfl (by rw [look_pages]; exact hpages.alloc)
        (by rw [look_memory]; exact happ.kept hh (Nat.le_refl _))
        (by rw [look_memory]; exact happ.outside hh hone) (look_counts ..)
      exact ⟨h', arena', c, hsome, hserved⟩
  · next hroot => exact search_served hsize hreq hh (mt hh.root_eq_zero.mpr hroot) hready

end Search

/-! ## What was handed out -/

section Served

variable {h' : Heap P} {arena' : Arena} {c : Minor}
  (hs : Served liballocAlloc next h h' arena arena' size req c)

include hs

theorem Served.mem : c ∈ Kmalloc.pieces arena' := hs.pieces.symm.subset List.mem_cons_self

theorem Served.mem_of_mem {d : Minor} (hd : d ∈ Kmalloc.pieces arena) :
    d ∈ Kmalloc.pieces arena' :=
  hs.pieces.symm.subset (List.mem_cons_of_mem c hd)

theorem Served.not_mem : c ∉ Kmalloc.pieces arena :=
  (List.nodup_cons.mp (hs.pieces.nodup_iff.mp hs.holds.pieces_nodup)).1

theorem Served.settled (hsettled : Settled arena) : Settled arena' := by
  rcases hs.place with ⟨⟨pre, x, post, l, r, rfl, rfl, hgap⟩, -⟩ | ⟨⟨rfl, -⟩, -⟩
  · intro y hy
    rcases mem_middle.mp hy with rfl | hy
    · simp
    · exact hsettled y (mem_middle.mpr (.inr hy))
  · intro y hy
    rcases List.mem_append.mp hy with hy | hy
    · exact hsettled y hy
    · obtain rfl := List.mem_singleton.mp hy
      simp

theorem Served.next_le : next h.pages ≤ next h'.pages := by
  rcases hs.place with ⟨-, hsame⟩ | ⟨⟨rfl, -⟩, -⟩
  · rw [hsame]
  · have hnew := (hs.holds.placed.inside (a := ⟨next h.pages, pagesFor size, [c]⟩) (by simp)).2
    simp only [Major.region] at hnew
    omega

theorem Served.apart {r : Region} (hout : ∀ x ∈ arena, x.region.Apart r)
    (hr : r.start + r.size ≤ next h.pages) : ∀ x ∈ arena', x.region.Apart r := by
  rcases hs.place with ⟨⟨pre, x, post, l, r, rfl, rfl, -⟩, -⟩ | ⟨⟨rfl, -⟩, -⟩
  · intro y hy
    rcases mem_middle.mp hy with rfl | hy
    · exact hout x (by simp)
    · exact hout y (mem_middle.mpr (.inr hy))
  · intro y hy
    rcases List.mem_append.mp hy with hy | hy
    · exact hout y hy
    · obtain rfl := List.mem_singleton.mp hy
      exact .inr hr

theorem Served.fill {m' : Bytes}
    (hsame : ∀ i, i < c.ptr ∨ c.ptr + c.req ≤ i → m' i = h'.memory i) :
    Served liballocAlloc next h { h' with memory := m' } arena arena' size req c where
  sized := hs.sized
  asked := hs.asked
  place := hs.place
  holds := hs.holds.write (hs.holds.records hs.mem hsame)
  kept x hx d hd := by
    have hd' := mem_pieces.mpr ⟨x, hx, hd⟩
    have hle := hs.holds.ptr_le hs.mem
    have hptr := c.ptr_bounds
    refine (hs.kept x hx d hd).trans fun i hlo hhi => hsame i ?_
    rcases hs.holds.pieces_apart (hs.mem_of_mem hd') hs.mem with rfl | hlt | hlt
    · exact absurd hd' hs.not_mem
    · exact .inl (by omega)
    · exact .inr (by omega)
  outside lo hi hout := by
    obtain ⟨x, hx, hc⟩ := mem_pieces.mp hs.mem
    have hin := (hs.holds.ok x hx).inside hc
    have hle := hs.holds.ptr_le hs.mem
    have hptr := c.ptr_bounds
    have hx' := hout x hx
    exact (hs.outside lo hi hout).trans fun i hlo hhi => hsame i (by omega)
  counts := hs.counts

end Served

/-! ## `kmalloc` -/

/-- **`kmalloc`**: a call returns a pointer to a new piece. -/
theorem kmalloc_served (hh : Holds next h arena) (hreq : req + 4208 ≤ 2 ^ 32)
    (hready : Ready liballocAlloc next arena (req + 32) h.pages) :
    ∃ h' arena' c, kmalloc liballocAlloc h req = some (h', c.ptr) ∧
      Served liballocAlloc next h h' arena arena' (req + 32) req c := by
  have hmod : (req + alignment + alignInfo) % 2 ^ 64 = req + 32 := by
    unfold alignment alignInfo
    omega
  unfold kmalloc
  simp only [hmod, if_neg (show req + 32 ≠ 0 by omega)]
  exact kmallocSized_served (by omega) (Nat.le_refl _) hh hready

end VersionSix.Kmalloc
