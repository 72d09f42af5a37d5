import VersionSix.KmallocSearch

/-!
# What the heap keeps

`Holds` through every change: a piece that is put into a block (`Holds.put`) or
taken out (`Holds.take`), a block that comes (`Holds.append`) or goes
(`Holds.release`), and what users write (`Holds.write`). Pieces keep what is in
them (`Kept`), and nothing outside the blocks is touched (`Outside`).

The four changes of the allocator are known from `KmallocStored`, as changes of
the lists; what is added here are the variables of the heap, the sums of what
is in use and what is allocated, and the frames. A user who writes into a piece
cannot reach a record (`Records`): the pieces are apart with their records, and
a pointer that was handed out has its byte and its record in front of it.
-/

namespace VersionSix.Kmalloc

open ByteStore Linked Placement

variable {P : Type} {next : P → Nat} {h : Heap P} {m m' : Bytes} {arena pre post : Arena}
  {x x' : Major} {l r : List Minor} {c d : Minor}

def Outside (m m' : Bytes) (arena : Arena) : Prop :=
  ∀ lo hi, (∀ x ∈ arena, hi ≤ x.addr ∨ x.stop ≤ lo) → Same m m' lo hi

theorem Outside.of_regions {arena' : Arena} (h : Outside m m' arena)
    (heq : arena'.map Major.region = arena.map Major.region) : Outside m m' arena' := by
  intro lo hi hout
  refine h lo hi fun x hx => ?_
  obtain ⟨y, hy, hregion⟩ := List.mem_map.mp (heq ▸ List.mem_map_of_mem hx)
  obtain ⟨haddr, hsize⟩ := Region.mk.inj hregion
  have hy' := hout y hy
  simp only [Major.stop] at hy' ⊢
  omega

/-! ## What follows from it -/

theorem Holds.sound (hh : Holds next h arena) (hx : x ∈ arena) : Sound h.memory x where
  stored := hh.stored.minors x hx
  data := by
    obtain ⟨pre, post, rfl⟩ := List.append_of_mem hx
    rw [hh.stored.majorAt]
  ok := hh.ok x hx
  pos := (hh.placed.inside hx).1
  limit := by
    have hin := (hh.placed.inside hx).2
    have hlimit := hh.limit
    simp only [Major.region, Major.stop] at *
    omega

theorem Holds.root_eq_zero (hh : Holds next h arena) : h.lMemRoot = 0 ↔ arena = [] := by
  rw [hh.root]
  cases arena with
  | nil => simp
  | cons y arena =>
      have hpos := (hh.sound (x := y) (by simp)).pos
      simp only [List.map_cons, first_cons, Major.cell, reduceCtorEq, iff_false]
      omega

@[simp] theorem bytesInUse_nil : bytesInUse [] = 0 := rfl

@[simp] theorem bytesInUse_cons (x : Major) (arena : Arena) :
    bytesInUse (x :: arena) = (x.minors.map Minor.size).sum + bytesInUse arena :=
  rfl

@[simp] theorem bytesInUse_append (arena arena' : Arena) :
    bytesInUse (arena ++ arena') = bytesInUse arena + bytesInUse arena' := by
  rw [bytesInUse, List.map_append, List.sum_append]
  rfl

theorem sizes_le (minors : List Minor) :
    (minors.map Minor.size).sum ≤ total Minor.region minors := by
  induction minors with
  | nil => exact Nat.le_refl 0
  | cons c minors ih =>
      simp only [List.map_cons, List.sum_cons, total_cons, Minor.region]
      omega

theorem bytesInUse_le (hok : ∀ x ∈ arena, x.Ok) : bytesInUse arena ≤ total Major.region arena := by
  induction arena with
  | nil => exact Nat.le_refl 0
  | cons x arena ih =>
      have hx := (hok x List.mem_cons_self).packed.le
      have hsizes := sizes_le x.minors
      have hrest := ih fun y hy => hok y (List.mem_cons_of_mem x hy)
      simp only [bytesInUse_cons, total_cons, Major.region, Major.stop] at *
      omega

theorem Holds.total_lt (hh : Holds next h arena) : total Major.region arena < 2 ^ 64 := by
  have hle := hh.placed.le
  have hlimit := hh.limit
  omega

/-! ## All pieces -/

def pieces (arena : Arena) : List Minor := arena.flatMap Major.minors

theorem mem_pieces : c ∈ pieces arena ↔ ∃ x ∈ arena, c ∈ x.minors := List.mem_flatMap

theorem pieces_middle (hminors : x'.minors = l ++ c :: r) (hminors' : x.minors = l ++ r) :
    (pieces (pre ++ x' :: post)).Perm (c :: pieces (pre ++ x :: post)) := by
  have hsplit : pieces (pre ++ x' :: post)
      = (pieces pre ++ l) ++ c :: (r ++ pieces post) := by
    simp [pieces, hminors]
  rw [hsplit]
  refine List.perm_middle.trans ?_
  simp [pieces, hminors']

theorem Holds.pieces_placed (hh : Holds next h arena) :
    Placed Minor.region 1 (next h.pages) (pieces arena) :=
  hh.placed.flatMap fun _ hx => (hh.ok _ hx).packed.of_le (Nat.le_add_right ..)

theorem Holds.pieces_apart (hh : Holds next h arena) (hc : c ∈ pieces arena)
    (hd : d ∈ pieces arena) :
    c = d ∨ c.addr + 40 + c.size ≤ d.addr ∨ d.addr + 40 + d.size ≤ c.addr :=
  packed_apart hh.pieces_placed hc hd

theorem Holds.pieces_nodup (hh : Holds next h arena) : (pieces arena).Nodup := by
  refine hh.pieces_placed.pairwise.imp fun {c d} hlt heq => ?_
  subst heq
  simp only [Minor.region] at hlt
  omega

theorem Holds.ptr_le (hh : Holds next h arena) (hc : c ∈ pieces arena) :
    c.ptr + c.req ≤ c.addr + 40 + c.size := by
  obtain ⟨x, hx, hc⟩ := mem_pieces.mp hc
  exact (hh.ok x hx).ptr_le hc

theorem Holds.ptr_inj (hh : Holds next h arena) (hc : c ∈ pieces arena) (hd : d ∈ pieces arena)
    (hptr : c.ptr = d.ptr) : c = d := by
  have hc' := c.ptr_bounds
  have hd' := d.ptr_bounds
  have hcle := hh.ptr_le hc
  have hdle := hh.ptr_le hd
  rcases hh.pieces_apart hc hd with heq | hlt | hlt
  · exact heq
  · omega
  · omega

/-! ## Inside a block -/

theorem Relinked.outside {toNext toPrev : Nat} {g : Region}
    (h : Between m m' x.addr l r toNext toPrev g)
    (hpacked : Placed Minor.region (x.addr + 40) x.stop (l ++ r))
    (hg : x.addr ≤ g.start ∧ g.start + g.size ≤ x.stop) :
    ∀ lo hi, hi ≤ x.addr ∨ x.stop ≤ lo → Same m m' lo hi := by
  have hrecord := hpacked.le
  intro lo hi hout
  refine h.same lo hi (by omega) (fun hp => ?_) (fun hn => ?_) (by omega)
  · obtain ⟨p, hp, heq⟩ := last_minorCells hp
    have hin := hpacked.inside (List.mem_append_left r hp)
    simp only [Minor.region] at hin
    omega
  · obtain ⟨n, hn, heq⟩ := first_minorCells_mem hn
    have hin := hpacked.inside (List.mem_append_right l hn)
    simp only [Minor.region] at hin
    omega

/-- A change inside a block is outside of all blocks nowhere, and leaves the pieces of the
others alone. -/
theorem Holds.replace {n : Nat} (hh : Holds next h (pre ++ x :: post)) (haddr : x'.addr = x.addr)
    (hpages : x'.pages = x.pages) (hok : x'.Ok)
    (hsame : ∀ lo hi, hi ≤ x.addr ∨ x.stop ≤ lo → Same h.memory m' lo hi)
    (hnode : majorNode m' x.addr = ⟨x'.cell.2, last 0 (pre.map Major.cell),
      first (post.map Major.cell) 0⟩) (hx : x'.Stored m')
    (hn : n = bytesInUse (pre ++ x' :: post)) :
    Holds next { h with memory := m', lInuse := n } (pre ++ x' :: post) where
  placed := by
    refine hh.placed.congr ?_
    simp [Major.region, haddr, hpages]
  limit := hh.limit
  ok y hy := by
    rcases mem_middle.mp hy with rfl | hy
    · exact hok
    · exact hh.ok y (mem_middle.mpr (.inr hy))
  stored := by
    refine hh.stored.replace hh.placed (fun y hy => hh.ok y ?_) hsame haddr hnode hx
    exact mem_middle.mpr (.inr hy)
  root := by
    refine hh.root.trans ?_
    cases pre with
    | nil => exact haddr.symm
    | cons y pre => rfl
  bet := by
    refine hh.bet.imp_right ?_
    rintro ⟨y, hy, heq⟩
    rcases mem_middle.mp hy with rfl | hy
    · exact ⟨x', by simp, haddr.trans heq⟩
    · exact ⟨y, mem_middle.mpr (.inr hy), heq⟩
  allocated := by
    refine hh.allocated.trans ?_
    simp [Major.region, hpages]
  inuse := hn

theorem Holds.kept {y : Major} (hh : Holds next h (pre ++ x :: post))
    (hsame : ∀ lo hi, hi ≤ x.addr ∨ x.stop ≤ lo → Same h.memory m' lo hi) (hy : y ∈ pre ++ post)
    (hd : d ∈ y.minors) : Same h.memory m' (d.addr + 40) (d.addr + 40 + d.size) := by
  have hy' : y ∈ pre ++ x :: post := mem_middle.mpr (.inr hy)
  have hin := (hh.ok y hy').inside hd
  exact hsame _ _ ((blocks_apart hh.placed hy).imp (by omega) (by omega))

theorem Relinked.outside_of_around {toNext toPrev : Nat}
    (h : Between m m' x.addr l r toNext toPrev c.region)
    (hpacked : Placed Minor.region (x.addr + 40) x.stop (l ++ c :: r)) :
    ∀ lo hi, hi ≤ x.addr ∨ x.stop ≤ lo → Same m m' lo hi := by
  have hin := (packed_around hpacked).2.1
  refine h.outside hpacked.erase ?_
  simp only [Minor.region]
  omega

section Put

variable (hh : Holds next h (pre ++ x :: post)) (hgap : Gap x l r c)
  (hput : Put h.memory m' x.addr (last 0 (minorCells x.addr l)) (first (minorCells x.addr r) 0) c)

include hh hgap hput

theorem Holds.put :
    Holds next { h with memory := m', lInuse := (h.lInuse + c.size) % 2 ^ 64 }
      (pre ++ { x with minors := l ++ c :: r } :: post) := by
  have hx : x ∈ pre ++ x :: post := by simp
  have hok := hh.ok x hx
  have hpacked := hgap.packed hok
  have hroom : ∀ d ∈ l ++ r, d.req + 32 ≤ d.size := fun d hd => hok.room d (hgap.minors ▸ hd)
  have hok' : Major.Ok { x with minors := l ++ c :: r } := by
    refine ⟨hpacked, fun d hd => ?_, hok.bytes⟩
    rcases mem_middle.mp hd with rfl | hd
    · exact hgap.room
    · exact hroom d hd
  have hpos : ∀ d ∈ l, d.addr ≠ 0 := by
    intro d hd
    have hin := hok.inside (c := d) (by simp [hgap.minors, hd])
    omega
  refine hh.replace rfl rfl hok'
    (hput.relinked.outside_of_around hpacked) (hput.majorAt hh.stored hgap.minors hpos)
    (hput.stored (hh.stored.minors x hx) hgap.minors (fun d hd => ?_) hpacked) ?_
  · have hd := hroom d hd
    omega
  · have hsum : bytesInUse (pre ++ { x with minors := l ++ c :: r } :: post)
        = bytesInUse (pre ++ x :: post) + c.size := by
      simp only [bytesInUse_append, bytesInUse_cons, hgap.minors, List.map_append, List.map_cons,
        List.sum_append, List.sum_cons]
      omega
    have hall : ∀ y ∈ pre ++ { x with minors := l ++ c :: r } :: post, y.Ok := by
      intro y hy
      rcases mem_middle.mp hy with rfl | hy
      · exact hok'
      · exact hh.ok y (mem_middle.mpr (.inr hy))
    have hle := bytesInUse_le hall
    have htotal := hh.total_lt
    have hregions : total Major.region (pre ++ { x with minors := l ++ c :: r } :: post)
        = total Major.region (pre ++ x :: post) := by
      simp [Major.region]
    rw [hh.inuse, hsum]
    exact Nat.mod_eq_of_lt (by omega)

theorem Put.kept : Kept h.memory m' (pre ++ x :: post) := by
  have hpacked := hgap.packed (hh.ok x (by simp))
  obtain ⟨hl, -, hr⟩ := packed_around hpacked
  intro y hy d hd
  rcases mem_middle.mp hy with rfl | hy
  · rw [hgap.minors] at hd
    refine hput.relinked.data hpacked.erase (fun e he => ?_) hd
    simp only [Minor.region]
    rcases List.mem_append.mp he with he | he
    · exact .inl (hl e he).2
    · exact .inr (by have he' := (hr e he).1; omega)
  · exact hh.kept (hput.relinked.outside_of_around hpacked) hy hd

theorem Put.outside : Outside h.memory m' (pre ++ { x with minors := l ++ c :: r } :: post) :=
  fun lo hi hout => hput.relinked.outside_of_around (hgap.packed (hh.ok x (by simp))) lo hi
    (hout { x with minors := l ++ c :: r } (by simp))

end Put

section Taken

variable (hh : Holds next h (pre ++ x :: post)) (hminors : x.minors = l ++ c :: r)
  (htaken : Taken h.memory m' x.addr (last 0 (minorCells x.addr l))
    (first (minorCells x.addr r) 0) c)

include hh hminors htaken

theorem Taken.outside : ∀ lo hi, hi ≤ x.addr ∨ x.stop ≤ lo → Same h.memory m' lo hi := by
  have hpacked := (hh.ok x (by simp)).packed
  rw [hminors] at hpacked
  have hin := (packed_around hpacked).2.1
  refine htaken.relinked.outside hpacked.erase ?_
  simp only
  omega

theorem Holds.take : Holds next { h with memory := m', lInuse := sub64 h.lInuse c.size }
    (pre ++ { x with minors := l ++ r } :: post) := by
  have hx : x ∈ pre ++ x :: post := by simp
  have hok := hh.ok x hx
  have hpacked := hok.packed
  rw [Major.Packed, hminors] at hpacked
  have hsub {d : Minor} (hd : d ∈ l ++ r) : d ∈ x.minors := by
    rw [hminors]
    exact mem_middle.mpr (.inr hd)
  have hok' : Major.Ok { x with minors := l ++ r } :=
    ⟨hpacked.erase, fun d hd => hok.room d (hsub hd), hok.bytes⟩
  have hpos : ∀ d ∈ l, d.addr ≠ 0 := by
    intro d hd
    have hin := hok.inside (c := d) (by simp [hminors, hd])
    omega
  refine hh.replace rfl rfl hok'
    (Taken.outside hh hminors htaken) (htaken.majorAt hh.stored hminors hpos)
    (htaken.stored (hh.stored.minors x hx) hminors (fun d hd => ?_) hpacked) ?_
  · have hd := hok.room d (hsub hd)
    omega
  · have hsum : bytesInUse (pre ++ x :: post)
        = bytesInUse (pre ++ { x with minors := l ++ r } :: post) + c.size := by
      simp only [bytesInUse_append, bytesInUse_cons, hminors, List.map_append, List.map_cons,
        List.sum_append, List.sum_cons]
      omega
    have hle := bytesInUse_le hh.ok
    have htotal := hh.total_lt
    rw [hh.inuse, hsum, sub64_eq (by omega) (by omega), Nat.add_sub_cancel]

theorem Taken.kept : Kept h.memory m' (pre ++ { x with minors := l ++ r } :: post) := by
  have hpacked := (hh.ok x (by simp)).packed
  rw [Major.Packed, hminors] at hpacked
  obtain ⟨hl, -, hr⟩ := packed_around hpacked
  intro y hy d hd
  rcases mem_middle.mp hy with rfl | hy
  · refine htaken.relinked.data hpacked.erase (fun e he => ?_) hd
    rcases List.mem_append.mp he with he | he
    · exact .inl (hl e he).2
    · exact .inr (by have he' := (hr e he).1; simp only; omega)
  · exact hh.kept (Taken.outside hh hminors htaken) hy hd

end Taken

/-! ## Blocks of pages -/

section Appended

variable {maj pages : Nat} (hh : Holds next h arena)
  (happ : Appended h.memory m' (last 0 (arena.map Major.cell)) maj pages)
  (hmaj : next h.pages ≤ maj)

include hh happ hmaj

theorem Holds.append {p : P} {root : Nat} (hpages : 1 ≤ pages) (hbytes : 4096 * pages < 2 ^ 32)
    (hnext : maj + 4096 * pages ≤ next p) (hlimit : next p < 2 ^ 64)
    (hroot : root = first (List.map Major.cell (arena ++ [⟨maj, pages, []⟩])) 0) :
    Holds next { h with
      memory := m'
      pages := p
      lMemRoot := root
      lAllocated := (h.lAllocated + 4096 * pages) % 2 ^ 64 } (arena ++ [⟨maj, pages, []⟩]) where
  placed := by
    have hle := hh.placed.le
    have hwide : Placed Major.region 1 (next p) (arena ++ []) := by
      rw [List.append_nil]
      exact hh.placed.mono (by omega)
    refine hwide.insert ?_ ?_
    · exact hh.placed.stop_le.trans hmaj
    · exact hnext
  limit := hlimit
  ok y hy := by
    rcases List.mem_append.mp hy with hy | hy
    · exact hh.ok y hy
    · obtain rfl := List.mem_singleton.mp hy
      refine ⟨?_, fun c hc => absurd hc List.not_mem_nil, hbytes⟩
      simp only [Major.Packed, Placed, Major.stop]
      omega
  stored := happ.stored hh.placed hh.ok hmaj hh.stored
  root := hroot
  bet := hh.bet.imp_right fun ⟨y, hy, heq⟩ => ⟨y, List.mem_append_left _ hy, heq⟩
  allocated := by
    have hle := hh.placed.le
    rw [total_append, total_cons, total_nil, hh.allocated]
    simp only [Major.region]
    exact Nat.mod_eq_of_lt (by omega)
  inuse := by simp [hh.inuse]

theorem Appended.kept : Kept h.memory m' arena := fun y hy c hc =>
  (happ.pieces hh.placed hh.ok hmaj y hy c hc).part (by omega) (Nat.le_refl _)

omit hmaj in
theorem Appended.outside (hpages : 1 ≤ pages) :
    Outside h.memory m' (arena ++ [⟨maj, pages, []⟩]) := by
  intro lo hi hout
  refine happ.same lo hi (fun hlast => ?_) ?_
  · obtain ⟨y, hy, heq⟩ := last_map hlast
    have hrecord := (hh.ok y hy).record
    have hy' := hout y (List.mem_append_left _ hy)
    rw [← heq]
    simp only [Major.cell]
    omega
  · have hnew := hout ⟨maj, pages, []⟩ (by simp)
    simp only [Major.stop] at hnew
    omega

end Appended

section Released

variable (hh : Holds next h (pre ++ x :: post))
  (hreleased : Released h.memory m' (last 0 (pre.map Major.cell)) (first (post.map Major.cell) 0))

include hh hreleased

theorem Holds.release (hempty : x.minors = []) : Holds next { h with
    memory := m'
    lMemRoot := if h.lMemRoot = x.addr then first (post.map Major.cell) 0 else h.lMemRoot
    lBestBet := if h.lBestBet = x.addr then 0 else h.lBestBet
    lAllocated := sub64 h.lAllocated (4096 * x.pages) } (pre ++ post) where
  placed := hh.placed.erase
  limit := hh.limit
  ok y hy := hh.ok y (mem_middle.mpr (.inr hy))
  stored := hreleased.stored hh.placed hh.ok hh.stored
  root := by
    rw [hh.root]
    cases pre with
    | nil => exact if_pos rfl
    | cons y pre =>
        have hlt := blocks_before (x := y) (y := x) hh.placed
          (hh.ok y (by simp)) (by simp) List.mem_cons_self
        have hne : y.addr ≠ x.addr := by omega
        exact if_neg hne
  bet := by
    by_cases hbet : h.lBestBet = x.addr
    · exact .inl (if_pos hbet)
    · simp only [if_neg hbet]
      refine hh.bet.imp_right ?_
      rintro ⟨y, hy, heq⟩
      rcases mem_middle.mp hy with rfl | hy
      · exact absurd heq.symm hbet
      · exact ⟨y, hy, heq⟩
  allocated := by
    have hlt := hh.total_lt
    rw [hh.allocated]
    simp only [total_append, total_cons, Major.region] at *
    rw [sub64_eq (by omega) hlt]
    omega
  inuse := by
    rw [hh.inuse]
    simp [hempty]

theorem Released.outside : Outside h.memory m' (pre ++ x :: post) := by
  have hmem {z : Major} (hz : z ∈ pre ++ post) : z ∈ pre ++ x :: post :=
    mem_middle.mpr (.inr hz)
  intro lo hi hout
  have hrecord {z : Major} (hz : z ∈ pre ++ post) : hi ≤ z.addr ∨ z.addr + 40 ≤ lo := by
    have hz' := (hh.ok z (hmem hz)).record
    have hout := hout z (hmem hz)
    omega
  refine hreleased.same lo hi (fun hlast => ?_) (fun hfirst => ?_)
  · obtain ⟨z, hz, heq⟩ := last_map hlast
    rw [← heq]
    exact hrecord (List.mem_append_left _ hz)
  · obtain ⟨z, hz, heq⟩ := first_map hfirst
    rw [← heq]
    exact hrecord (List.mem_append_right _ hz)

/-- The block itself is left as it was. -/
theorem Released.inside : Same h.memory m' x.addr x.stop := by
  refine hreleased.same x.addr x.stop (fun hlast => ?_) (fun hfirst => ?_)
  · obtain ⟨z, hz, heq⟩ := last_map hlast
    rw [← heq]
    exact .inr (blocks_before hh.placed (hh.ok z (by simp [hz])) hz List.mem_cons_self)
  · obtain ⟨z, hz, heq⟩ := first_map hfirst
    have hplaced : Placed Major.region 1 (next h.pages) ((pre ++ [x]) ++ post) := by
      simpa using hh.placed
    rw [← heq]
    exact .inl (hplaced.before (by simp) hz)

theorem Released.kept : Kept h.memory m' (pre ++ post) := fun y hy c hc =>
  (hreleased.pieces hh.placed hh.ok y hy c hc).part (by omega) (Nat.le_refl _)

end Released

/-! ## What users write -/

/-- The records are left alone, and so is the byte in front of every pointer. -/
def Records (m m' : Bytes) (arena : Arena) : Prop :=
  ∀ x ∈ arena, Same m m' x.addr (x.addr + 40) ∧ ∀ c ∈ x.minors, Same m m' c.addr c.ptr

theorem Stored.records (hm : Stored m arena) (hsame : Records m m' arena) : Stored m' arena where
  seg := by
    refine hm.seg.frame fun d hd => ?_
    obtain ⟨x, hx, rfl⟩ := List.mem_map.mp hd
    exact congrArg some (Same.majorNode (hsame x hx).1)
  minors x hx := (hm.minors x hx).frame (hsame x hx).2

/-- What is written behind the pointer of a piece, and not further than the piece goes,
leaves the records alone. -/
theorem Holds.records {m' : Bytes} (hh : Holds next h arena) (hc : c ∈ pieces arena)
    (hsame : ∀ i, i < c.ptr ∨ c.ptr + c.req ≤ i → m' i = h.memory i) :
    Records h.memory m' arena := by
  obtain ⟨x, hx, hcx⟩ := mem_pieces.mp hc
  have hptr := c.ptr_bounds
  have hle := hh.ptr_le hc
  refine fun y hy => ⟨fun i hlo hhi => hsame i ?_, fun d hd i hlo hhi => hsame i ?_⟩
  · rcases piece_apart hh.placed hh.ok hy hx hcx with hlt | hlt
    · exact .inr (by omega)
    · exact .inl (by omega)
  · have hd' := mem_pieces.mpr ⟨y, hy, hd⟩
    have hdle := hh.ptr_le hd'
    rcases hh.pieces_apart hc hd' with rfl | hlt | hlt
    · exact .inl hhi
    · exact .inr (by omega)
    · exact .inl (by omega)

theorem Holds.write (hh : Holds next h arena) (hsame : Records h.memory m' arena) :
    Holds next { h with memory := m' } arena :=
  { hh with stored := hh.stored.records hsame }

theorem Holds.setBet (hh : Holds next h arena) (hx : x ∈ arena) :
    Holds next { h with lBestBet := x.addr } arena :=
  { hh with bet := .inr ⟨x, hx, rfl⟩ }

end VersionSix.Kmalloc
