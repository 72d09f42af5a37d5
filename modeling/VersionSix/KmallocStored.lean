import VersionSix.KmallocLinks

/-!
# The lists after a change

From what a change does to single records to what it does to the lists: a piece
is put into a block (`Put.stored`) or taken out of it (`Taken.stored`), a block
comes at the end (`Appended.stored`) or goes (`Released.stored`). A change
inside a block leaves the other blocks alone (`Stored.replace`).

A list in memory is a chain of records, each with the address of the next; that
two chains with one record less are again one chain is a fact about `Linked`
lists. What has to be shown are the frames: the records of all other pieces are
not among the bytes that the change can have touched. Pieces are in the order
of their addresses, and this is what keeps them apart.
-/

namespace VersionSix.Kmalloc

open ByteStore Linked Placement

variable {m m' : Bytes} {x x' : Major} {pre post arena : Arena} {l r : List Minor} {c d : Minor}
  {maj prev next hi : Nat}

/-! ## Pieces around a piece -/

theorem packed_around {lo : Nat} (h : Placed Minor.region lo hi (l ++ c :: r)) :
    (∀ d ∈ l, lo ≤ d.addr ∧ d.addr + 40 + d.size ≤ c.addr) ∧
      (lo ≤ c.addr ∧ c.addr + 40 + c.size ≤ hi) ∧
        ∀ d ∈ r, c.addr + 40 + c.size ≤ d.addr ∧ d.addr + 40 + d.size ≤ hi := by
  obtain ⟨hl, hr⟩ := h.around
  have hin {d : Minor} (hd : d ∈ l ++ c :: r) : lo ≤ d.addr ∧ d.addr + 40 + d.size ≤ hi := by
    have hd := h.inside hd
    simp only [Minor.region] at hd
    omega
  simp only [Minor.region] at hl hr
  refine ⟨fun d hd => ?_, hin (by simp), fun d hd => ?_⟩
  · have hd' := hl d hd
    have hlo := (hin (List.mem_append_left _ hd)).1
    omega
  · have hd' := hr d hd
    have hhi := (hin (List.mem_append_right _ (List.mem_cons_of_mem _ hd))).2
    omega

theorem packed_apart {lo : Nat} (h : Placed Minor.region lo hi l) (hc : c ∈ l) (hd : d ∈ l) :
    c = d ∨ c.addr + 40 + c.size ≤ d.addr ∨ d.addr + 40 + d.size ≤ c.addr := by
  have happ := h.apart hc hd
  simp only [Minor.region, ← Nat.add_assoc] at happ
  exact happ

theorem last_minorCells (h : last 0 (minorCells maj l) ≠ 0) :
    ∃ d ∈ l, d.addr = last 0 (minorCells maj l) :=
  last_map h

theorem first_minorCells_mem (h : first (minorCells maj r) 0 ≠ 0) :
    ∃ d ∈ r, d.addr = first (minorCells maj r) 0 :=
  first_map h

theorem last_minorCells_eq_zero (hpos : ∀ d ∈ l, d.addr ≠ 0) :
    last 0 (minorCells maj l) = 0 ↔ l = [] := by
  cases l using List.reverseRecOn with
  | nil => simp [minorCells]
  | append_singleton l d =>
      rw [minorCells, List.map_append, List.map_singleton, last_concat]
      simpa [Minor.cell] using hpos d (by simp)

/-! ## Neighbours with new links -/

section Relinked

variable {toNext toPrev : Nat} {g : Region}

/-- The neighbours are the last one of `l` and the first one of `r`. -/
abbrev Between (m m' : Bytes) (maj : Nat) (l r : List Minor) (toNext toPrev : Nat) (g : Region) :
    Prop :=
  Relinked m m' maj (last 0 (minorCells maj l)) (first (minorCells maj r) 0) toNext toPrev g

variable (h : Between m m' maj l r toNext toPrev g)
  (hpacked : Placed Minor.region (maj + 40) hi (l ++ r))
  (hg : ∀ d ∈ l ++ r, d.addr + 40 + d.size ≤ g.start ∨ g.start + g.size ≤ d.addr)

include h hpacked hg

theorem Relinked.data (hd : d ∈ l ++ r) : Same m m' (d.addr + 40) (d.addr + 40 + d.size) := by
  have hin := hpacked.inside hd
  have hout := hg d hd
  simp only [Minor.region] at hin
  refine h.same _ _ (by omega) (fun hp => ?_) (fun hn => ?_) (by omega)
  · obtain ⟨p, hp, heq⟩ := last_minorCells hp
    rw [← heq]
    rcases packed_apart hpacked (List.mem_append_left _ hp) hd with rfl | hlt | hlt <;> omega
  · obtain ⟨n, hn, heq⟩ := first_minorCells_mem hn
    rw [← heq]
    rcases packed_apart hpacked (List.mem_append_right _ hn) hd with rfl | hlt | hlt <;> omega

/-- So is the record of a piece that is not a neighbour. -/
theorem Relinked.record (hd : d ∈ l ++ r)
    (hprev : d.addr ≠ last 0 (minorCells maj l)) (hnext : d.addr ≠ first (minorCells maj r) 0) :
    minorNodes m' d.addr = minorNodes m d.addr := by
  have hin := hpacked.inside hd
  have hout := hg d hd
  simp only [Minor.region] at hin
  refine congrArg some (Same.minorNode (h.same _ _ (by omega) (fun hp => ?_) (fun hn => ?_)
    (by omega)))
  · obtain ⟨p, hp, heq⟩ := last_minorCells hp
    rw [← heq] at hprev ⊢
    rcases packed_apart hpacked (List.mem_append_left _ hp) hd with rfl | hlt | hlt
    · exact absurd rfl hprev
    · omega
    · omega
  · obtain ⟨n, hn, heq⟩ := first_minorCells_mem hn
    rw [← heq] at hnext ⊢
    rcases packed_apart hpacked (List.mem_append_right _ hn) hd with rfl | hlt | hlt
    · exact absurd rfl hnext
    · omega
    · omega

theorem Relinked.left {e : Nat} (hl : Seg (minorNodes m) 0 (minorCells maj l) e) :
    Seg (minorNodes m') 0 (minorCells maj l) toNext := by
  refine hl.newEnd fun as p heq => ?_
  subst heq
  have hlast : last 0 (minorCells maj (as ++ [p])) = p.addr := by
    rw [minorCells, List.map_append, List.map_singleton, last_concat]
    rfl
  have haround : Placed Minor.region (maj + 40) hi (as ++ p :: r) := by simpa using hpacked
  obtain ⟨has, hp, hr⟩ := packed_around haround
  constructor
  · intro a ha
    have ha' := has a ha
    refine Relinked.record h hpacked hg (by simp [ha]) (by rw [hlast]; omega) fun hfirst => ?_
    obtain ⟨n, hn, hn'⟩ := first_minorCells_mem (show first (minorCells maj r) 0 ≠ 0 by omega)
    have hn'' := hr n hn
    omega
  · have hbefore := h.before (by rw [hlast]; omega)
    rw [hlast] at hbefore
    exact congrArg some hbefore

theorem Relinked.right {p : Nat} (hr : Seg (minorNodes m) p (minorCells maj r) 0) :
    Seg (minorNodes m') toPrev (minorCells maj r) 0 := by
  refine hr.newStart fun n as heq => ?_
  subst heq
  obtain ⟨hl, hn, has⟩ := packed_around hpacked
  constructor
  · intro a ha
    have ha' := has a ha
    refine Relinked.record h hpacked hg (by simp [ha]) (fun hlast => ?_) fun hfirst => ?_
    · obtain ⟨d, hd, hd'⟩ := last_minorCells (show last 0 (minorCells maj l) ≠ 0 by omega)
      have hd'' := hl d hd
      omega
    · have hfirst' : a.addr = n.addr := hfirst
      omega
  · have hne : n.addr ≠ 0 := by omega
    exact congrArg some (h.behind hne)

end Relinked

/-! ## Inside a block -/

theorem Stored.majorAt (h : Stored m (pre ++ x :: post)) : majorNode m x.addr =
    ⟨x.cell.2, last 0 (pre.map Major.cell), first (post.map Major.cell) 0⟩ := by
  have hseg := h.seg
  rw [List.map_append, List.map_cons] at hseg
  exact Option.some.inj hseg.node

theorem Major.Stored.minorAt (h : x.Stored m) (hminors : x.minors = l ++ c :: r) :
    minorNode m c.addr = ⟨(c.cell x.addr).2, last 0 (minorCells x.addr l),
      first (minorCells x.addr r) 0⟩ := by
  have hseg := h.seg
  rw [hminors, minorCells, List.map_append, List.map_cons] at hseg
  exact Option.some.inj hseg.node

theorem total_insert :
    total Minor.region (l ++ c :: r) = total Minor.region (l ++ r) + (40 + c.size) := by
  rw [total_append, total_append, total_cons]
  simp only [Minor.region]
  omega

theorem Put.majorAt (hput : Put m m' x.addr (last 0 (minorCells x.addr l))
      (first (minorCells x.addr r) 0) c)
    (h : Stored m (pre ++ x :: post)) (hminors : x.minors = l ++ r)
    (hpos : ∀ d ∈ l, d.addr ≠ 0) : majorNode m' x.addr =
      ⟨(Major.cell { x with minors := l ++ c :: r }).2, last 0 (pre.map Major.cell),
        first (post.map Major.cell) 0⟩ := by
  have hfirst : (if last 0 (minorCells x.addr l) = 0 then c.addr
      else first (minorCells x.addr (l ++ r)) 0) = first (minorCells x.addr (l ++ c :: r)) 0 := by
    simp only [last_minorCells_eq_zero hpos]
    cases l <;> rfl
  rw [hput.major, h.majorAt]
  simp only [Major.cell, hminors, hfirst, total_insert, Nat.add_assoc]

theorem Taken.majorAt (htaken : Taken m m' x.addr (last 0 (minorCells x.addr l))
      (first (minorCells x.addr r) 0) c)
    (h : Stored m (pre ++ x :: post)) (hminors : x.minors = l ++ c :: r)
    (hpos : ∀ d ∈ l, d.addr ≠ 0) : majorNode m' x.addr =
      ⟨(Major.cell { x with minors := l ++ r }).2, last 0 (pre.map Major.cell),
        first (post.map Major.cell) 0⟩ := by
  have hfirst : (if last 0 (minorCells x.addr l) = 0 then first (minorCells x.addr r) 0
      else first (minorCells x.addr (l ++ c :: r)) 0) = first (minorCells x.addr (l ++ r)) 0 := by
    simp only [last_minorCells_eq_zero hpos]
    cases l <;> rfl
  rw [htaken.major, h.majorAt]
  simp only [Major.cell, hminors, hfirst, total_insert]
  congr 2
  omega

theorem Put.stored (hput : Put m m' x.addr (last 0 (minorCells x.addr l))
      (first (minorCells x.addr r) 0) c)
    (hx : x.Stored m) (hminors : x.minors = l ++ r) (hroom : ∀ d ∈ l ++ r, 32 ≤ d.size)
    (hpacked : Placed Minor.region (x.addr + 40) hi (l ++ c :: r)) :
    Major.Stored m' { x with minors := l ++ c :: r } := by
  obtain ⟨hl, -, hr⟩ := packed_around hpacked
  have hout : ∀ d ∈ l ++ r, d.addr + 40 + d.size ≤ c.region.start ∨
      c.region.start + c.region.size ≤ d.addr := by
    intro d hd
    simp only [Minor.region]
    rcases List.mem_append.mp hd with hd | hd
    · exact .inl (hl d hd).2
    · exact .inr (by have hd' := (hr d hd).1; omega)
  have hseg := hx.seg
  rw [hminors, minorCells, List.map_append, seg_append] at hseg
  constructor
  · rw [minorCells, List.map_append, List.map_cons, seg_append]
    exact ⟨hput.relinked.left hpacked.erase hout hseg.1, congrArg some hput.node,
      hput.relinked.right hpacked.erase hout hseg.2⟩
  · intro d hd
    rcases mem_middle.mp hd with rfl | hd
    · exact hput.distance
    · have hptr := d.ptr_bounds
      have hsize := hroom d hd
      rw [hput.relinked.data hpacked.erase hout hd _ (by omega) (by omega)]
      exact hx.distance d (hminors ▸ hd)

theorem Taken.stored (htaken : Taken m m' x.addr (last 0 (minorCells x.addr l))
      (first (minorCells x.addr r) 0) c)
    (hx : x.Stored m) (hminors : x.minors = l ++ c :: r) (hroom : ∀ d ∈ l ++ r, 32 ≤ d.size)
    (hpacked : Placed Minor.region (x.addr + 40) hi (l ++ c :: r)) :
    Major.Stored m' { x with minors := l ++ r } := by
  obtain ⟨hl, -, hr⟩ := packed_around hpacked
  have hout : ∀ d ∈ l ++ r, d.addr + 40 + d.size ≤ c.addr ∨ c.addr + 40 ≤ d.addr := by
    intro d hd
    rcases List.mem_append.mp hd with hd | hd
    · exact .inl (hl d hd).2
    · exact .inr (by have hd' := (hr d hd).1; omega)
  have hseg := hx.seg
  rw [hminors, minorCells, List.map_append, List.map_cons, seg_append] at hseg
  constructor
  · rw [minorCells, List.map_append, seg_append]
    exact ⟨htaken.relinked.left hpacked.erase hout hseg.1,
      htaken.relinked.right hpacked.erase hout hseg.2.2⟩
  · intro d hd
    have hptr := d.ptr_bounds
    have hsize := hroom d hd
    rw [htaken.relinked.data hpacked.erase hout hd _ (by omega) (by omega)]
    refine hx.distance d (hminors ▸ ?_)
    exact mem_middle.mpr (.inr hd)

/-! ## The other blocks -/

theorem blocks_apart {y : Major} (h : Placed Major.region 1 hi (pre ++ x :: post))
    (hy : y ∈ pre ++ post) : y.stop ≤ x.addr ∨ x.stop ≤ y.addr := by
  obtain ⟨hpre, hpost⟩ := h.around
  rcases List.mem_append.mp hy with hy | hy
  · exact .inl (hpre y hy)
  · exact .inr (hpost y hy)

theorem Major.Ok.record (h : x.Ok) : x.addr + 40 ≤ x.stop :=
  (Nat.le_add_right ..).trans h.packed.le

theorem Major.Ok.inside (h : x.Ok) (hc : c ∈ x.minors) :
    x.addr + 40 ≤ c.addr ∧ c.addr + 40 + c.size ≤ x.stop := by
  have hin := h.packed.inside hc
  simp only [Minor.region] at hin
  omega

theorem blocks_before {y : Major} (h : Placed Major.region 1 hi (pre ++ post)) (hok : x.Ok)
    (hx : x ∈ pre) (hy : y ∈ post) : x.addr + 40 ≤ y.addr :=
  hok.record.trans (h.before hx hy)

theorem Major.Stored.same (h : x.Stored m) (hok : x.Ok) (hsame : Same m m' x.addr x.stop) :
    x.Stored m' := by
  refine h.frame fun c hc => ?_
  have hin := hok.inside hc
  have hptr := hok.ptr_le hc
  exact hsame.part (by omega) (by omega)

theorem Major.Ok.majorNodes (h : x.Ok) (hsame : Same m m' x.addr x.stop) :
    majorNodes m' x.addr = majorNodes m x.addr :=
  congrArg some (Same.majorNode (hsame.part (Nat.le_refl _) h.record))

theorem Stored.replace (h : Stored m (pre ++ x :: post))
    (hplaced : Placed Major.region 1 hi (pre ++ x :: post)) (hok : ∀ y ∈ pre ++ post, y.Ok)
    (hsame : ∀ lo hi, hi ≤ x.addr ∨ x.stop ≤ lo → Same m m' lo hi) (haddr : x'.addr = x.addr)
    (hnode : majorNode m' x.addr = ⟨x'.cell.2, last 0 (pre.map Major.cell),
      first (post.map Major.cell) 0⟩) (hx : x'.Stored m') :
    Stored m' (pre ++ x' :: post) := by
  have hother {y : Major} (hy : y ∈ pre ++ post) : Same m m' y.addr y.stop :=
    hsame _ _ (blocks_apart hplaced hy)
  have hseg := h.seg
  rw [List.map_append, List.map_cons] at hseg
  constructor
  · rw [List.map_append, List.map_cons, show x'.cell = (x.cell.1, x'.cell.2) from
      Prod.ext haddr rfl]
    refine hseg.setData (fun d hd => ?_) (congrArg some hnode)
    rw [← List.map_append] at hd
    obtain ⟨y, hy, rfl⟩ := List.mem_map.mp hd
    exact (hok y hy).majorNodes (hother hy)
  · intro y hy
    rcases mem_middle.mp hy with rfl | hy
    · exact hx
    · have hold := h.minors y (mem_middle.mpr (.inr hy))
      exact hold.same (hok y hy) (hother hy)

/-! ## Blocks that come and go -/

theorem piece_apart {y : Major} (h : Placed Major.region 1 hi arena) (hok : ∀ z ∈ arena, z.Ok)
    (hx : x ∈ arena) (hy : y ∈ arena) (hc : c ∈ y.minors) :
    c.addr + 40 + c.size ≤ x.addr ∨ x.addr + 40 ≤ c.addr := by
  have hin := (hok y hy).inside hc
  have hrecord := (hok x hx).record
  rcases h.apart hx hy with rfl | hlt | hlt
  · exact .inr hin.1
  · exact .inr (by simp only [Major.region, Major.stop] at *; omega)
  · exact .inl (by simp only [Major.region, Major.stop] at *; omega)

section Appended

variable {pages : Nat} (h : Appended m m' (last 0 (arena.map Major.cell)) maj pages)
  (hplaced : Placed Major.region 1 hi arena) (hok : ∀ y ∈ arena, y.Ok) (hmaj : hi ≤ maj)

include h hplaced hok hmaj

theorem Appended.pieces : ∀ y ∈ arena, ∀ c ∈ y.minors, Same m m' c.addr (c.addr + 40 + c.size) := by
  intro y hy c hc
  refine h.same _ _ (fun hlast => ?_) (.inl ?_)
  · obtain ⟨x, hx, heq⟩ := last_map hlast
    rw [← heq]
    exact piece_apart hplaced hok hx hy hc
  · have hin := (hok y hy).inside hc
    have hstop := (hplaced.inside hy).2
    simp only [Major.region, Major.stop] at *
    omega

theorem Appended.stored (hm : Stored m arena) : Stored m' (arena ++ [⟨maj, pages, []⟩]) := by
  constructor
  · rw [List.map_append, List.map_singleton]
    refine seg_concat.mpr ⟨hm.seg.newEnd fun as x heq => ?_, congrArg some h.node⟩
    subst heq
    have hlast : last 0 ((as ++ [x]).map Major.cell) = x.addr := by
      rw [List.map_append, List.map_singleton, last_concat]
      rfl
    have hpos := (hplaced.inside (a := x) (by simp)).1
    simp only [Major.region] at hpos
    constructor
    · intro a ha
      have hrecord := (hok a (by simp [ha])).record
      have hstop := (hplaced.inside (a := a) (by simp [ha])).2
      have hbefore := hplaced.around.1 a ha
      simp only [Major.region, Major.stop] at *
      have hsame : Same m m' a.addr (a.addr + 40) :=
        h.same _ _ (fun _ => by rw [hlast]; omega) (by omega)
      exact congrArg some (Same.majorNode hsame)
    · have hbefore := h.before (by rw [hlast]; omega)
      rw [hlast] at hbefore
      exact congrArg some hbefore
  · intro y hy
    rcases List.mem_append.mp hy with hy | hy
    · refine (hm.minors y hy).frame fun c hc => ?_
      have hptr := (hok y hy).ptr_le hc
      exact (Appended.pieces h hplaced hok hmaj y hy c hc).part (Nat.le_refl _) (by omega)
    · obtain rfl := List.mem_singleton.mp hy
      exact ⟨trivial, fun c hc => absurd hc List.not_mem_nil⟩

end Appended

section Released

variable (h : Released m m' (last 0 (pre.map Major.cell)) (first (post.map Major.cell) 0))
  (hplaced : Placed Major.region 1 hi (pre ++ x :: post)) (hok : ∀ y ∈ pre ++ x :: post, y.Ok)

include h hplaced hok

theorem Released.pieces :
    ∀ y ∈ pre ++ post, ∀ c ∈ y.minors, Same m m' c.addr (c.addr + 40 + c.size) := by
  intro y hy c hc
  have hmem {z : Major} (hz : z ∈ pre ++ post) : z ∈ pre ++ x :: post :=
    mem_middle.mpr (.inr hz)
  refine h.same _ _ (fun hlast => ?_) (fun hfirst => ?_)
  · obtain ⟨z, hz, heq⟩ := last_map hlast
    rw [← heq]
    exact piece_apart hplaced hok (hmem (List.mem_append_left _ hz)) (hmem hy) hc
  · obtain ⟨z, hz, heq⟩ := first_map hfirst
    rw [← heq]
    exact piece_apart hplaced hok (hmem (List.mem_append_right _ hz)) (hmem hy) hc

theorem Released.stored (hm : Stored m (pre ++ x :: post)) : Stored m' (pre ++ post) := by
  have hrecord {y : Major} (hy : y ∈ pre ++ x :: post) := (hok y hy).record
  have hpos {y : Major} (hy : y ∈ pre ++ x :: post) : 1 ≤ y.addr := (hplaced.inside hy).1
  have hmem {z : Major} (hz : z ∈ pre ++ post) : z ∈ pre ++ x :: post :=
    mem_middle.mpr (.inr hz)
  -- the record of a block that is neither of the two neighbours
  have hother {y : Major} (hy : y ∈ pre ++ post) (hprev : last 0 (pre.map Major.cell) ≠ y.addr)
      (hnext : first (post.map Major.cell) 0 ≠ y.addr) :
      majorNodes m' y.addr = majorNodes m y.addr := by
    have happ {z : Major} (hz : z ∈ pre ++ post) (hne : z.addr ≠ y.addr) :
        y.addr + 40 ≤ z.addr ∨ z.addr + 40 ≤ y.addr := by
      have hy' := hrecord (hmem hy)
      have hz' := hrecord (hmem hz)
      rcases hplaced.apart (hmem hz) (hmem hy) with rfl | hlt | hlt
      · exact absurd rfl hne
      · exact .inr (by simp only [Major.region, Major.stop] at *; omega)
      · exact .inl (by simp only [Major.region, Major.stop] at *; omega)
    refine congrArg some (Same.majorNode (h.same _ _ (fun hlast => ?_) (fun hfirst => ?_)))
    · obtain ⟨z, hz, heq⟩ := last_map hlast
      rw [← heq] at hprev ⊢
      exact happ (List.mem_append_left _ hz) hprev
    · obtain ⟨z, hz, heq⟩ := first_map hfirst
      rw [← heq] at hnext ⊢
      exact happ (List.mem_append_right _ hz) hnext
  have herased := hplaced.erase
  have hseg := hm.seg
  rw [List.map_append, List.map_cons, seg_append] at hseg
  constructor
  · rw [List.map_append, seg_append]
    refine ⟨hseg.1.newEnd fun as p heq => ?_, hseg.2.2.newStart fun n as heq => ?_⟩
    · subst heq
      have hlast : last 0 ((as ++ [p]).map Major.cell) = p.addr := by
        rw [List.map_append, List.map_singleton, last_concat]
        rfl
      have hp := hpos (y := p) (by simp)
      refine ⟨fun a ha => hother (by simp [ha]) ?_ fun hfirst => ?_, ?_⟩
      · have hap := blocks_before
          (show Placed Major.region 1 hi (as ++ p :: post) by simpa using herased)
          (hok a (by simp [ha])) ha List.mem_cons_self
        omega
      · have ha' := hpos (y := a) (by simp [ha])
        obtain ⟨n, hn, hn'⟩ := first_map
          (show first (post.map Major.cell) 0 ≠ 0 by omega)
        have han := blocks_before herased (hok a (by simp [ha])) (by simp [ha]) hn
        have hcell : n.addr = a.addr := hn'.trans hfirst
        omega
      · have hbefore := h.before (by rw [hlast]; omega)
        rw [hlast] at hbefore
        exact congrArg some hbefore
    · subst heq
      have hn := hpos (y := n) (by simp)
      refine ⟨fun a ha => hother (by simp [ha]) (fun hlast => ?_) ?_, ?_⟩
      · have ha' := hpos (y := a) (by simp [ha])
        obtain ⟨p, hp, hp'⟩ := last_map
          (show last 0 (pre.map Major.cell) ≠ 0 by omega)
        have hpa := blocks_before herased (hok p (by simp [hp])) hp (List.mem_cons_of_mem n ha)
        have hcell : p.addr = a.addr := hp'.trans hlast
        omega
      · have hna := blocks_before
          (show Placed Major.region 1 hi ((pre ++ [n]) ++ as) by simpa using herased)
          (hok n (by simp)) (by simp) ha
        have hcell : first ((n :: as).map Major.cell) 0 = n.addr := rfl
        omega
      · have hne : n.addr ≠ 0 := by omega
        exact congrArg some (h.behind hne)
  · intro y hy
    refine (hm.minors y (hmem hy)).frame fun c hc => ?_
    have hptr := (hok y (hmem hy)).ptr_le hc
    exact (Released.pieces h hplaced hok y hy c hc).part (Nat.le_refl _) (by omega)

end Released

end VersionSix.Kmalloc
