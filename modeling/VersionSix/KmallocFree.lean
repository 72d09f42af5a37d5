import VersionSix.KmallocServe

/-!
# `kfree`, `kcalloc` and `krealloc`

A pointer leads back to its record (`recordAt`), so `kfree` takes out the piece
it was given, and the block with it if nothing else is in there
(`kfree_freed`). The byte in front of the pointer says how far it was moved,
and the record in front of that names the block.

The two calls that are made of others follow. `kcalloc` is a `kmalloc` with the
block cleared (`kcalloc_served`). `krealloc` keeps a block that is large enough
and only changes its size; otherwise it gets a new one, copies as many bytes as
the old one had, and frees the old one, in this order. The copy goes by words
first and by bytes for what is left, which is a copy of all of them (`copied`),
and the new block is apart from the old one since that was still in use.
-/

namespace VersionSix.Kmalloc

open ByteStore Linked Placement

variable {P : Type} {next : P → Nat} {liballocAlloc : Nat → P → Option (Nat × P)} {h : Heap P}
  {arena pre post : Arena} {x : Major} {l r : List Minor} {c : Minor} {p' : P} {size req : Nat}

/-! ## From a pointer to its record -/

/-- What the record says that is found in front of a pointer. -/
structure RecordAt (h : Heap P) (x : Major) (c : Minor) : Prop where
  min : sub64 (unalign h.memory c.ptr) LiballocMinor.bytes = c.addr
  magic : load h.memory LiballocMinor.magic c.addr = liballocMagic
  block : load h.memory LiballocMinor.block c.addr = x.addr
  size : load h.memory LiballocMinor.size c.addr = c.size
  reqSize : load h.memory LiballocMinor.reqSize c.addr = c.req
  nonnull : c.ptr ≠ 0

theorem recordAt (hh : Holds next h arena) (hx : x ∈ arena) (hc : c ∈ x.minors) :
    RecordAt h x c := by
  have hs := hh.sound hx
  have hin := hs.ok.inside hc
  have hptr := c.ptr_bounds
  have hle := hs.ok.ptr_le hc
  have hlimit := hs.limit
  have hback : unalign h.memory c.ptr = c.addr + 40 :=
    unalign_alignUp (by unfold Minor.ptr at *; omega) (hs.stored.distance c hc)
  obtain ⟨l, r, hminors⟩ := List.append_of_mem hc
  have hnode := hs.stored.minorAt hminors
  constructor
  case min =>
    rw [hback]
    unfold LiballocMinor.bytes sub64
    omega
  case magic => exact congrArg (fun n => n.data.magic) hnode
  case block => exact congrArg (fun n => n.data.block) hnode
  case size => exact congrArg (fun n => n.data.size) hnode
  case reqSize => exact congrArg (fun n => n.data.reqSize) hnode
  case nonnull => omega

/-! ## `kfree` -/

def without (pre : Arena) (x : Major) (post : Arena) (minors : List Minor) : Arena :=
  if minors = [] then pre ++ post else pre ++ { x with minors } :: post

theorem pieces_without (minors : List Minor) :
    pieces (without pre x post minors) = pieces (pre ++ { x with minors } :: post) := by
  unfold without
  split
  · next hempty =>
      subst hempty
      simp [pieces]
  · rfl

theorem region_without {minors : List Minor} {y : Major} (hy : y ∈ without pre x post minors) :
    ∃ z ∈ pre ++ x :: post, z.region = y.region := by
  unfold without at hy
  split at hy
  · exact ⟨y, mem_middle.mpr (.inr hy), rfl⟩
  · rcases mem_middle.mp hy with rfl | hy
    · exact ⟨x, by simp, rfl⟩
    · exact ⟨y, mem_middle.mpr (.inr hy), rfl⟩

theorem settled_without (hsettled : Settled (pre ++ x :: post)) (minors : List Minor) :
    Settled (without pre x post minors) := by
  unfold without
  split
  · exact fun y hy => hsettled y (mem_middle.mpr (.inr hy))
  · next hne =>
      intro y hy
      rcases mem_middle.mp hy with rfl | hy
      · exact hne
      · exact hsettled y (mem_middle.mpr (.inr hy))

/-- The heap has taken back a piece. -/
structure Freed (next : P → Nat) (h h' : Heap P) (arena arena' : Arena) : Prop where
  holds : Holds next h' arena'
  kept : Kept h.memory h'.memory arena'
  outside : Outside h.memory h'.memory arena
  pages : h'.pages = h.pages
  counts : h'.lWarningCount = h.lWarningCount ∧ h'.lErrorCount = h.lErrorCount ∧
    h'.lPossibleOverruns = h.lPossibleOverruns

theorem betterBet_cases (h : Heap P) (maj : Nat) :
    betterBet h maj = h ∨ betterBet h maj = { h with lBestBet := maj } := by
  unfold betterBet
  split
  · split
    · exact .inr rfl
    · exact .inl rfl
  · exact .inl rfl

/-- A block that has nothing in it is given back, as it is. -/
theorem releaseMajor_freed (hh : Holds next h (pre ++ x :: post)) (hempty : x.minors = []) :
    Freed next h (releaseMajor h x.addr) (pre ++ x :: post) (pre ++ post) ∧
      Same h.memory (releaseMajor h x.addr).memory x.addr x.stop := by
  have hs := hh.sound (x := x) (by simp)
  have hrecord := hs.ok.record
  have hlimit := hs.limit
  obtain ⟨m', heq, hreleased⟩ := releaseMajor_released hh.stored.majorAt
    (fun hp => by
      obtain ⟨y, hy, heq⟩ := last_map hp
      have hlt := blocks_before hh.placed (hh.ok y (by simp [hy])) hy List.mem_cons_self
      rw [← heq]
      exact hlt)
    (fun hn => by
      obtain ⟨y, hy, heq⟩ := first_map hn
      have hplaced : Placed Major.region 1 (next h.pages) ((pre ++ [x]) ++ post) := by
        simpa using hh.placed
      have hlt := blocks_before hplaced (hh.ok x (by simp)) (by simp) hy
      have hy' := hh.sound (x := y) (by simp [hy])
      have hylimit := hy'.limit
      have hyrecord := hy'.ok.record
      rw [← heq]
      simp only [Major.cell]
      omega) (by omega)
  rw [heq]
  refine ⟨?_, hreleased.inside hh⟩
  exact
    { holds := hh.release hreleased hempty
      kept := hreleased.kept hh
      outside := hreleased.outside hh
      pages := rfl
      counts := ⟨rfl, rfl, rfl⟩ }

/-- What is left of a piece that was freed: a dead record, and the way to it. -/
structure Dead (m : Bytes) (c : Minor) : Prop where
  magic : load m LiballocMinor.magic c.addr = liballocDead
  distance : m (c.ptr - 16) = UInt8.ofNat (c.ptr - (c.addr + 40))

theorem Dead.same {m m' : Bytes} (h : Dead m c) (hsame : Same m m' c.addr c.ptr) : Dead m' c where
  magic := by
    have hptr := c.ptr_bounds
    rw [hsame.load (by simp only [LiballocMinor.magic]; omega)
      (by simp only [LiballocMinor.magic]; omega), h.magic]
  distance := by
    have hptr := c.ptr_bounds
    rw [hsame (c.ptr - 16) (by omega) (by omega), h.distance]

/-- The first part of `kfree`: the piece is taken out of its block. -/
theorem kfree_taken (hh : Holds next h (pre ++ x :: post)) (hminors : x.minors = l ++ c :: r) :
    ∃ m', Taken h.memory m' x.addr (last 0 (minorCells x.addr l))
        (first (minorCells x.addr r) 0) c ∧
      kfree h c.ptr = if l ++ r = [] then
          releaseMajor { h with memory := m', lInuse := sub64 h.lInuse c.size } x.addr
        else betterBet { h with memory := m', lInuse := sub64 h.lInuse c.size } x.addr := by
  have hrec := recordAt hh (x := x) (c := c) (by simp) (by simp [hminors])
  have hs := hh.sound (x := x) (by simp)
  have hin := hs.ok.inside (c := c) (by simp [hminors])
  have hlimit := hs.limit
  have hpacked := hs.ok.packed
  rw [hminors] at hpacked
  obtain ⟨hl, -, hr⟩ := packed_around hpacked
  have husage : 40 + c.size ≤ load h.memory LiballocMajor.usage x.addr := by
    rw [hs.loadUsage, hminors, total_insert]
    omega
  obtain ⟨m', hunlink, htaken⟩ := unlinkMinor_taken (hs.stored.minorAt hminors) hin.1
    (fun hp => by
      obtain ⟨d, hd, heq⟩ := last_minorCells hp
      have hd' := hl d hd
      omega)
    (fun hn => by
      obtain ⟨d, hd, heq⟩ := first_minorCells_mem hn
      have hd' := hr d hd
      omega) (by omega) husage (sub64 h.lInuse c.size)
  have hfirst : load m' LiballocMajor.first x.addr = first (minorCells x.addr (l ++ r)) 0 :=
    congrArg (fun n => n.data.first) (hh.take hminors htaken).stored.majorAt
  have hempty : load m' LiballocMajor.first x.addr = 0 ↔ l ++ r = [] := by
    rw [hfirst]
    rcases hrest : l ++ r with _ | ⟨d, rest⟩
    · simp [minorCells]
    · have hd := hs.ok.inside (c := d) (by
        rw [hminors]
        exact mem_middle.mpr (.inr (by simp [hrest])))
      simp only [minorCells, List.map_cons, first_cons, Minor.cell, reduceCtorEq, iff_false]
      omega
  refine ⟨m', htaken, ?_⟩
  unfold kfree
  simp only [if_neg hrec.nonnull, hrec.min, hrec.magic, hrec.block, hrec.size, ne_eq,
    not_true_eq_false, if_false, hunlink, hempty]

theorem kfree_freed (hh : Holds next h (pre ++ x :: post)) (hminors : x.minors = l ++ c :: r) :
    Freed next h (kfree h c.ptr) (pre ++ x :: post) (without pre x post (l ++ r)) := by
  obtain ⟨m', htaken, heq⟩ := kfree_taken hh hminors
  have hh' := hh.take hminors htaken
  have hkept := htaken.kept hh hminors
  have hout : Outside h.memory m' (pre ++ x :: post) := fun lo hi hlohi =>
    htaken.outside hh hminors lo hi (hlohi x (by simp))
  rw [heq, without]
  split
  · next hrest =>
      rw [hrest] at hh' hkept
      obtain ⟨hfreed, -⟩ := releaseMajor_freed hh' rfl
      exact
        { holds := hfreed.holds
          kept := fun y hy d hd => (hkept y (mem_middle.mpr (.inr hy)) d hd).trans
            (hfreed.kept y hy d hd)
          outside := fun lo hi hlohi => (hout lo hi hlohi).trans
            (hfreed.outside.of_regions (by simp [Major.region]) lo hi hlohi)
          pages := hfreed.pages
          counts := hfreed.counts }
  · rcases betterBet_cases { h with memory := m', lInuse := sub64 h.lInuse c.size } x.addr with
      heq | heq
    · rw [heq]
      exact ⟨hh', hkept, hout, rfl, rfl, rfl, rfl⟩
    · rw [heq]
      exact ⟨hh'.setBet (x := { x with minors := l ++ r }) (by simp), hkept, hout, rfl, rfl, rfl,
        rfl⟩

theorem kfree_dead (hh : Holds next h (pre ++ x :: post)) (hminors : x.minors = l ++ c :: r) :
    Dead (kfree h c.ptr).memory c := by
  obtain ⟨m', htaken, heq⟩ := kfree_taken hh hminors
  have hs := hh.sound (x := x) (by simp)
  have hin := hs.ok.inside (c := c) (by simp [hminors])
  have hle := hs.ok.ptr_le (c := c) (by simp [hminors])
  have hptr := c.ptr_bounds
  have hpacked := hs.ok.packed
  rw [Major.Packed, hminors] at hpacked
  obtain ⟨hl, -, hr⟩ := packed_around hpacked
  have hdead : Dead m' c := by
    refine ⟨htaken.dead, ?_⟩
    rw [← hs.stored.distance c (by simp [hminors])]
    refine htaken.relinked.same (c.ptr - 16) (c.ptr - 15) (.inr (by omega)) (fun hp => ?_)
      (fun hn => ?_) (.inr (by simp only; omega)) _ (Nat.le_refl _) (by omega)
    · obtain ⟨d, hd, heq⟩ := last_minorCells hp
      have hd' := hl d hd
      omega
    · obtain ⟨d, hd, heq⟩ := first_minorCells_mem hn
      have hd' := hr d hd
      have hroom := hs.ok.room c (by simp [hminors])
      omega
  rw [heq]
  split
  · next hrest =>
      have hh' := hh.take hminors htaken
      rw [hrest] at hh'
      obtain ⟨-, hsame⟩ := releaseMajor_freed hh' rfl
      exact hdead.same (hsame.part (by simp only; omega) (by simp only [Major.stop] at *; omega))
  · rcases betterBet_cases { h with memory := m', lInuse := sub64 h.lInuse c.size } x.addr with
      heq | heq
    · rwa [heq]
    · rwa [heq]

/-- A second `kfree` with the same pointer is noticed, and does nothing else. -/
theorem kfree_of_dead (hdead : Dead h.memory c) (hptr : c.ptr < 2 ^ 64) :
    kfree h c.ptr = { h with lErrorCount := h.lErrorCount + 1 } := by
  have hb := c.ptr_bounds
  have hback : unalign h.memory c.ptr = c.addr + 40 := unalign_alignUp hptr hdead.distance
  have hmin : sub64 (unalign h.memory c.ptr) LiballocMinor.bytes = c.addr := by
    rw [hback]
    unfold LiballocMinor.bytes sub64
    omega
  unfold kfree
  rw [if_neg (by omega)]
  simp only [hmin, hdead.magic]
  rw [if_pos (by decide), notMagic, hdead.magic]
  exact if_neg (by decide)

/-! ## `kcalloc` -/

theorem liballocMemset_eq {m : Bytes} {s n : Nat} {v : UInt8} (hs : s ≠ 0) (hn : n < 2 ^ 32) :
    ∃ m', liballocMemset m s v n = some m' ∧ (∀ i, i < n → m' (s + i) = v) ∧
      ∀ i, i < s ∨ s + n ≤ i → m' i = m i := by
  unfold liballocMemset
  rw [if_neg (show ¬ (s = 0 ∨ 2 ^ 32 ≤ n) by omega)]
  split
  · exact ⟨m, rfl, fun i hi => by omega, fun i _ => rfl⟩
  · exact ⟨_, rfl, fun i hi => if_pos (by omega), fun i hi => if_neg (by omega)⟩

theorem kcalloc_served {nobj : Nat} (hh : Holds next h arena) (hreq : nobj * size < 2 ^ 31)
    (hready : Ready liballocAlloc next arena (nobj * size + 32) h.pages) :
    ∃ h' arena' c, kcalloc liballocAlloc h nobj size = some (h', c.ptr) ∧
      Served liballocAlloc next h h' arena arena' (nobj * size + 32) (nobj * size) c ∧
        ∀ i, i < nobj * size → h'.memory (c.ptr + i) = 0 := by
  have hreal : CInt.uint64 (CInt.int32 (nobj * size)) = nobj * size := by
    rw [← Nat.cast_mul, CInt.int32_eq (by omega) (by omega), CInt.uint64_natCast (by omega)]
  obtain ⟨h', arena', c, hcall, hs⟩ := kmalloc_served hh (by omega) hready
  have hptr := c.ptr_bounds
  have hasked := hs.asked
  obtain ⟨m', hset, hin, hout⟩ := liballocMemset_eq (m := h'.memory) (s := c.ptr) (v := 0)
    (by omega) (show nobj * size < 2 ^ 32 by omega)
  refine ⟨{ h' with memory := m' }, arena', c, ?_, hs.fill (by rwa [hasked]), hin⟩
  unfold kcalloc
  simp only [hreal, hcall, Option.bind_eq_bind, Option.bind_some, hset]

/-! ## Copying -/

section Copying

variable {m : Bytes} {d s a b n : Nat}

/-- Memory after `n` bytes were copied from `s` to `d`. -/
def copied (m : Bytes) (d s n : Nat) : Bytes :=
  fun i => if d ≤ i ∧ i < d + n then m (s + (i - d)) else m i

theorem copied_in {i : Nat} (h : i < n) : copied m d s n (d + i) = m (s + i) := by
  unfold copied
  rw [if_pos (by omega), Nat.add_sub_cancel_left]

theorem copied_out {i : Nat} (h : i < d ∨ d + n ≤ i) : copied m d s n i = m i :=
  if_neg (by omega)

theorem copied_copied (h : d + (a + b) ≤ s ∨ s + (a + b) ≤ d) :
    copied (copied m d s a) (d + a) (s + a) b = copied m d s (a + b) := by
  funext i
  rcases Nat.lt_or_ge i d with hi | hi
  · rw [copied_out (by omega), copied_out (.inl hi), copied_out (.inl hi)]
  obtain ⟨j, rfl⟩ := Nat.exists_eq_add_of_le hi
  rcases Nat.lt_or_ge j a with hj | hj
  · rw [copied_out (by omega), copied_in hj, copied_in (by omega)]
  obtain ⟨k, rfl⟩ := Nat.exists_eq_add_of_le hj
  rcases Nat.lt_or_ge k b with hk | hk
  · rw [copied_in (show a + k < a + b by omega), ← Nat.add_assoc d a k, copied_in hk,
      copied_out (by omega)]
    congr 1
    omega
  · rw [copied_out (by omega), copied_out (by omega), copied_out (by omega)]

theorem copyBytes_eq (h : d + n ≤ s ∨ s + n ≤ d) : copyBytes n m d s = copied m d s n := by
  induction n generalizing m d s with
  | zero =>
      funext i
      rw [copied_out (by omega)]
      rfl
  | succ n ih =>
      have hfirst : Function.update m d (m s) = copied m d s 1 := by
        funext i
        by_cases hi : i = d
        · subst hi
          rw [Function.update_self]
          exact (copied_in (i := 0) Nat.one_pos).symm
        · rw [Function.update_of_ne hi, copied_out (by omega)]
      rw [copyBytes, ih (by omega), hfirst, copied_copied (by omega), Nat.add_comm 1 n]

theorem copyWords_eq (h : d + 4 * n ≤ s ∨ s + 4 * n ≤ d) :
    copyWords n m d s = copied m d s (4 * n) := by
  induction n generalizing m d s with
  | zero =>
      funext i
      rw [copied_out (by omega)]
      rfl
  | succ n ih =>
      have hfirst : setLe 4 m d (le 4 m s) = copied m d s 4 := by
        funext i
        rcases Nat.lt_or_ge i d with hi | hi
        · rw [setLe_out (.inl hi), copied_out (.inl hi)]
        obtain ⟨j, rfl⟩ := Nat.exists_eq_add_of_le hi
        rcases Nat.lt_or_ge j 4 with hj | hj
        · rw [setLe_le m m hj, copied_in hj]
        · rw [setLe_out (by omega), copied_out (by omega)]
      rw [copyWords, ih (by omega), hfirst, copied_copied (by omega)]
      congr 1
      omega

/-- Words and bytes, as long as source and destination do not overlap. -/
theorem liballocMemcpy_eq (hd : d ≠ 0) (h : d + n ≤ s ∨ s + n ≤ d) :
    liballocMemcpy m d s n = some (copied m d s n) := by
  unfold liballocMemcpy
  rw [if_neg hd]
  split
  · next hn =>
      subst hn
      refine congrArg some (funext fun i => ?_)
      rw [copied_out (by omega)]
  · simp only
    rw [copyWords_eq (by omega), copyBytes_eq (by omega), copied_copied (by omega)]
    congr 2
    omega

end Copying

/-! ## `krealloc` -/

section Krealloc

variable {n : Nat}

theorem minorNode_setReq {m : Bytes} {a : Nat} (hn : n < 2 ^ 32) :
    minorNode (store m LiballocMinor.reqSize a n) a =
      { minorNode m a with data := { (minorNode m a).data with reqSize := n } } := by
  simp (disch := omega) only [LiballocMinor.reqSize, store_mk, minorNode_eq, le_setLe_disjoint,
    le_setLe_same, Nat.mod_eq_of_lt]

theorem Holds.setReq (hh : Holds next h (pre ++ x :: post)) (hminors : x.minors = l ++ c :: r)
    (hle : n ≤ c.req) :
    Holds next { h with memory := store h.memory LiballocMinor.reqSize c.addr n }
      (pre ++ { x with minors := l ++ { c with req := n } :: r } :: post) := by
  have hs := hh.sound (x := x) (by simp)
  have hok := hs.ok
  have hpacked := hok.packed
  rw [Major.Packed, hminors] at hpacked
  obtain ⟨hl, hc, hr⟩ := packed_around hpacked
  have hroom := hok.room c (by simp [hminors])
  have hbytes := hok.bytes
  have hn : n < 2 ^ 32 := by
    have hlt := load_lt h.memory LiballocMinor.reqSize c.addr
    have hreq : load h.memory LiballocMinor.reqSize c.addr = c.req :=
      (recordAt hh (x := x) (by simp) (by simp [hminors])).reqSize
    simp only [LiballocMinor.reqSize] at hlt hreq
    omega
  have hsame : ∀ lo hi, hi ≤ c.addr + 32 ∨ c.addr + 36 ≤ lo →
      Same h.memory (store h.memory LiballocMinor.reqSize c.addr n) lo hi :=
    fun lo hi hout => (Same.refl _ lo hi).store (by simp only [LiballocMinor.reqSize]; omega)
  have hok' : Major.Ok { x with minors := l ++ { c with req := n } :: r } := by
    refine ⟨?_, fun d hd => ?_, hbytes⟩
    · exact hok.packed.congr (by simp [hminors, Minor.region])
    · rcases mem_middle.mp hd with rfl | hd
      · simp only
        omega
      · exact hok.room d (by rw [hminors]; exact mem_middle.mpr (.inr hd))
  have hother : ∀ d ∈ l ++ r, d.addr + 40 + d.size ≤ c.addr ∨ c.addr + 40 ≤ d.addr := by
    intro d hd
    rcases List.mem_append.mp hd with hd | hd
    · exact .inl (hl d hd).2
    · exact .inr (by have hd' := (hr d hd).1; omega)
  have hfirst : first (minorCells x.addr (l ++ { c with req := n } :: r)) 0
      = first (minorCells x.addr x.minors) 0 := by
    rw [hminors]
    cases l <;> rfl
  refine hh.replace rfl rfl hok' (fun lo hi hout => hsame lo hi (by omega)) ?_ ?_ ?_
  · rw [Same.majorNode (hsame x.addr (x.addr + 40) (by omega)), hh.stored.majorAt]
    simp only [Major.cell, hfirst]
    simp [hminors, Minor.region]
  · have hseg := hs.stored.seg
    rw [hminors, minorCells, List.map_append, List.map_cons] at hseg
    constructor
    · rw [minorCells, List.map_append, List.map_cons]
      refine hseg.setData (fun d hd => ?_) ?_
      · rw [← List.map_append] at hd
        obtain ⟨d, hmem, rfl⟩ := List.mem_map.mp hd
        have hd' := hother d hmem
        exact congrArg some (Same.minorNode (hsame d.addr (d.addr + 40) (by omega)))
      · refine congrArg some ((minorNode_setReq hn).trans ?_)
        rw [hs.stored.minorAt hminors]
        rfl
    · intro d hd
      rcases mem_middle.mp hd with rfl | hd
      · have hptr := c.ptr_bounds
        exact (hsame (c.ptr - 16) (c.ptr - 15) (by omega) _ (Nat.le_refl _) (by omega)).trans
          (hs.stored.distance c (by simp [hminors]))
      · have hptr := d.ptr_bounds
        have hroom := hok.room d (by rw [hminors]; exact mem_middle.mpr (.inr hd))
        have hd' := hother d hd
        exact (hsame (d.ptr - 16) (d.ptr - 15) (by omega) _ (Nat.le_refl _) (by omega)).trans
          (hs.stored.distance d (by rw [hminors]; exact mem_middle.mpr (.inr hd)))
  · refine hh.inuse.trans ?_
    simp [hminors]

theorem krealloc_shrunk (hrec : RecordAt h x c) (hpos : n ≠ 0) (hle : n ≤ c.req) :
    krealloc liballocAlloc h c.ptr n = some
      ({ h with memory := store h.memory LiballocMinor.reqSize c.addr n }, c.ptr) := by
  unfold krealloc
  simp only [if_neg hpos, if_neg hrec.nonnull, hrec.min, hrec.magic, hrec.reqSize, ne_eq,
    not_true_eq_false, if_false, if_pos hle]

theorem krealloc_grown (hh : Holds next h arena) (hc : c ∈ pieces arena) (hlt : c.req < n)
    (hn : n + 4208 ≤ 2 ^ 32) (hready : Ready liballocAlloc next arena (n + 32) h.pages) :
    ∃ h' arena' d, krealloc liballocAlloc h c.ptr n = some (kfree h' c.ptr, d.ptr) ∧
      Served liballocAlloc next h h' arena arena' (n + 32) n d ∧
        ∀ i, i < c.req → h'.memory (d.ptr + i) = h.memory (c.ptr + i) := by
  obtain ⟨x, hx, hcx⟩ := mem_pieces.mp hc
  have hrec := recordAt hh hx hcx
  obtain ⟨h', arena', d, hcall, hs⟩ := kmalloc_served hh hn hready
  have hasked := hs.asked
  have hcptr := c.ptr_bounds
  have hdptr := d.ptr_bounds
  have hcle := hh.ptr_le hc
  have hdle := hs.holds.ptr_le hs.mem
  have hapart : d.ptr + c.req ≤ c.ptr ∨ c.ptr + c.req ≤ d.ptr := by
    rcases hs.holds.pieces_apart (hs.mem_of_mem hc) hs.mem with rfl | hlt' | hlt'
    · exact absurd hc hs.not_mem
    · exact .inr (by omega)
    · exact .inl (by omega)
  refine ⟨{ h' with memory := copied h'.memory d.ptr c.ptr c.req }, arena', d, ?_, ?_, ?_⟩
  · unfold krealloc
    simp only [if_neg (show n ≠ 0 by omega), if_neg hrec.nonnull, hrec.min, hrec.magic,
      hrec.reqSize, ne_eq, not_true_eq_false, if_false, if_neg (show ¬ n ≤ c.req by omega), hcall,
      Option.bind_eq_bind, Option.bind_some, liballocMemcpy_eq (show d.ptr ≠ 0 by omega) hapart]
  · exact hs.fill fun i hi => copied_out (by omega)
  · intro i hi
    refine (copied_in hi).trans ?_
    exact hs.kept x hx c hcx _ (by omega) (by omega)

end Krealloc

end VersionSix.Kmalloc
