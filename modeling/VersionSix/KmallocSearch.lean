import VersionSix.KmallocStored

/-!
# The search for a place

Both loops of `kmalloc`. The one within a block finds the first gap that is
large enough (`searchMajor_spec`); the one through the blocks ends with a place
in one of them, or none of them has one and new pages are taken
(`searchMajors_served`). The counters of turns suffice.

A gap is in front of the first piece, between two pieces or behind the last
one, and each of these is a case of the source with its own comparison. `Gap`
says in one way that there is a place behind some of the pieces, so that the
loop can be a statement about the ones it has passed: all gaps up to here are
too small.
-/

namespace VersionSix.Kmalloc

open ByteStore Linked Placement

/-! ## Gaps of a block -/

/-- A block of the heap, with its record. -/
structure Sound (m : Bytes) (x : Major) : Prop where
  stored : x.Stored m
  data : (majorNode m x.addr).data = x.cell.2
  ok : x.Ok
  pos : 1 ≤ x.addr
  limit : x.stop < 2 ^ 64

/-- There is a place for `c` behind the pieces `l`. -/
structure Gap (x : Major) (l r : List Minor) (c : Minor) : Prop where
  minors : x.minors = l ++ r
  start : c.addr = stop Minor.region (x.addr + 40) l
  stop : c.addr + (40 + c.size) ≤ front Minor.region x.stop r
  room : c.req + 32 ≤ c.size

def Major.HasRoom (x : Major) (size : Nat) : Prop :=
  Fits Minor.region (x.addr + 40) x.stop (40 + size) x.minors

variable {P : Type} {h : Heap P} {m : Bytes} {x : Major} {l r : List Minor} {c d : Minor}
  {size req : Nat}

theorem Gap.packed (hgap : Gap x l r c) (hok : x.Ok) : x.Packed (l ++ c :: r) := by
  have hpacked := hok.packed
  rw [hgap.minors] at hpacked
  exact hpacked.insert hgap.start.ge hgap.stop

theorem Gap.hasRoom (hgap : Gap x l r c) : x.HasRoom c.size :=
  ⟨l, r, hgap.minors, hgap.start ▸ hgap.stop⟩

theorem Sound.loadUsage (hs : Sound m x) :
    load m LiballocMajor.usage x.addr = 40 + total Minor.region x.minors :=
  congrArg MajorData.usage hs.data

theorem Sound.loadSize (hs : Sound m x) : load m LiballocMajor.size x.addr = 4096 * x.pages :=
  congrArg MajorData.size hs.data

theorem Sound.loadFirst (hs : Sound m x) :
    load m LiballocMajor.first x.addr = first (minorCells x.addr x.minors) 0 :=
  congrArg MajorData.first hs.data

theorem Gap.sized (hgap : Gap x l r c) (hs : Sound m x) : Sized m x.addr c := by
  have hpacked := hgap.packed hs.ok
  have hin := hpacked.inside (a := c) (by simp)
  have hle := hpacked.le
  have hroom := hgap.room
  have hbytes := hs.ok.bytes
  have hlimit := hs.limit
  have htotal : total Minor.region (l ++ c :: r) = total Minor.region x.minors + (40 + c.size) := by
    rw [total_insert, hgap.minors]
  simp only [Minor.region, Major.stop] at hin hle hlimit
  constructor
  case maj_pos => exact hs.pos
  case low => omega
  case high => omega
  case size => omega
  case size_lt => omega
  case req_lt => omega
  case usage_lt =>
    rw [hs.loadUsage]
    omega

/-- A case of `kmalloc` has put a piece into the block. -/
def Found (h : Heap P) (x : Major) (size req : Nat) (result : Heap P × Nat) : Prop :=
  ∃ l r c, Gap x l r c ∧ c.size = size ∧ c.req = req ∧
    Placing h result x.addr (last 0 (minorCells x.addr l)) (first (minorCells x.addr r) 0) c

/-! ## The loop within a block -/

theorem behind_eq {stop min s : Nat} (hle : min + 40 + s ≤ stop) (hlt : stop < 2 ^ 64) :
    sub64 (sub64 (sub64 stop min) 40) s = stop - (min + (40 + s)) := by
  unfold sub64
  omega

theorem Sound.loadMinor (hs : Sound m x) (hminors : x.minors = l ++ d :: r) :
    load m LiballocMinor.size d.addr = d.size ∧
      load m LiballocMinor.next d.addr = first (minorCells x.addr r) 0 := by
  have hnode := hs.stored.minorAt hminors
  exact ⟨congrArg (fun n => n.data.size) hnode, congrArg Node.next hnode⟩

theorem last_minorCells_concat (maj : Nat) (l : List Minor) (d : Minor) :
    last 0 (minorCells maj (l ++ [d])) = d.addr := by
  rw [minorCells, List.map_append, List.map_singleton, last_concat]
  rfl

theorem gap_behind (hminors : x.minors = (l ++ [d]) ++ r) (hreq : req + 32 ≤ size)
    (hgap : d.addr + (40 + d.size) + (40 + size) ≤ front Minor.region x.stop r) :
    Gap x (l ++ [d]) r ⟨d.addr + (40 + d.size), size, req⟩ where
  minors := hminors
  start := (stop_append_singleton (r := Minor.region)).symm
  stop := hgap
  room := hreq

theorem putBehind_found (hs : Sound h.memory x) (hminors : x.minors = l ++ [d])
    (hreq : req + 32 ≤ size) (hgap : d.addr + (40 + d.size) + (40 + size) ≤ x.stop) :
    Found h x size req (putBehind h x.addr d.addr size req) := by
  have hgap' := gap_behind (r := []) (by simpa using hminors) hreq hgap
  obtain ⟨hsize, -⟩ := hs.loadMinor hminors
  have hin := hs.ok.inside (c := d) (by simp [hminors])
  refine ⟨_, _, _, hgap', rfl, rfl, ?_⟩
  rw [last_minorCells_concat]
  have haddr : d.addr + (40 + d.size) = d.addr + 40 + load h.memory LiballocMinor.size d.addr := by
    rw [hsize]
    omega
  have hput := putBehind_placing (hgap'.sized hs) hin.1 (by simp only; omega) haddr
  exact hput

theorem putBetween_found {e : Minor} (hs : Sound h.memory x) (hminors : x.minors = l ++ d :: e :: r)
    (hreq : req + 32 ≤ size) (hgap : d.addr + (40 + d.size) + (40 + size) ≤ e.addr) :
    Found h x size req (putBetween h x.addr d.addr size req) := by
  have hgap' := gap_behind (r := e :: r) (by simpa using hminors) hreq hgap
  obtain ⟨hsize, hnext⟩ := hs.loadMinor hminors
  have hin := hs.ok.inside (c := d) (by simp [hminors])
  have he := hs.ok.inside (c := e) (by simp [hminors])
  have hlimit := hs.limit
  refine ⟨_, _, _, hgap', rfl, rfl, ?_⟩
  rw [last_minorCells_concat]
  have haddr : d.addr + (40 + d.size) = d.addr + 40 + load h.memory LiballocMinor.size d.addr := by
    rw [hsize]
    omega
  have hcell : first (minorCells x.addr (e :: r)) 0 = e.addr := rfl
  rw [hcell] at hnext ⊢
  have hput := putBetween_placing (hgap'.sized hs) hin.1 (by simp only; omega) haddr hnext
    (by simp only; omega) (by omega)
  exact hput

/-- The loop from a piece on: all gaps behind it are too small, or there is a place. -/
theorem searchMinors_spec (hs : Sound h.memory x) (hsize : size + 40 < 2 ^ 64)
    (hreq : req + 32 ≤ size) {turns : Nat} (hminors : x.minors = l ++ d :: r)
    (hturns : r.length + 1 < turns) :
    (searchMinors h x.addr size req turns d.addr = some none ∧
        ¬ Fits Minor.region (d.addr + (40 + d.size)) x.stop (40 + size) r) ∨
      ∃ result, searchMinors h x.addr size req turns d.addr = some (some result) ∧
        Found h x size req result := by
  induction r generalizing l d turns with
  | nil =>
      obtain ⟨turns, rfl⟩ : ∃ t, turns = t + 2 := ⟨turns - 2, by simp at hturns; omega⟩
      obtain ⟨hd, hnext⟩ := hs.loadMinor hminors
      have hin := hs.ok.inside (c := d) (by simp [hminors])
      have hstop : (x.addr + load h.memory LiballocMajor.size x.addr) % 2 ^ 64 = x.stop := by
        rw [hs.loadSize]
        exact Nat.mod_eq_of_lt hs.limit
      rw [searchMinors, if_neg (by omega)]
      simp only [hd, hnext, minorCells, List.map_nil, first_nil, if_true, hstop,
        LiballocMinor.bytes, behind_eq hin.2 hs.limit, spaceFor_eq hsize, fits_nil]
      split
      · exact .inr ⟨_, rfl, putBehind_found hs hminors hreq (by omega)⟩
      · exact .inl ⟨rfl, by omega⟩
  | cons e r ih =>
      obtain ⟨turns, rfl⟩ : ∃ t, turns = t + 1 := ⟨turns - 1, by omega⟩
      obtain ⟨hd, hnext⟩ := hs.loadMinor hminors
      have hpacked := hs.ok.packed
      rw [hminors] at hpacked
      have hde := ((packed_around hpacked).2.2 e List.mem_cons_self).1
      have he := hs.ok.inside (c := e) (by simp [hminors])
      have hin := hs.ok.inside (c := d) (by simp [hminors])
      have hlimit := hs.limit
      have hcell : first (minorCells x.addr (e :: r)) 0 = e.addr := rfl
      rw [searchMinors, if_neg (by omega)]
      simp only [hd, hnext, hcell, if_neg (show e.addr ≠ 0 by omega),
        LiballocMinor.bytes, behind_eq hde (by omega), spaceFor_eq hsize, fits_cons]
      split
      · exact .inr ⟨_, rfl, putBetween_found hs hminors hreq (by omega)⟩
      · have hrest := ih (l := l ++ [d]) (d := e) (by simpa using hminors)
          (show r.length + 1 < turns by simp only [List.length_cons] at hturns; omega)
        refine hrest.imp (fun hnone => ⟨hnone.1, ?_⟩) id
        rintro (hfront | hfits)
        · simp only [Minor.region] at hfront
          omega
        · exact hnone.2 hfits

/-! ## A block -/

theorem length_le_total (minors : List Minor) :
    40 * minors.length ≤ total Minor.region minors := by
  induction minors with
  | nil => exact Nat.le_refl 0
  | cons c minors ih =>
      simp only [List.length_cons, total_cons, Minor.region]
      omega

theorem brandNew_found (hs : Sound h.memory x) (hminors : x.minors = []) (hreq : req + 32 ≤ size)
    (hroom : x.addr + 40 + (40 + size) ≤ x.stop) :
    Found h x size req (brandNew h x.addr size req) := by
  have hgap : Gap x [] [] ⟨x.addr + 40, size, req⟩ :=
    { minors := hminors, start := rfl, stop := hroom, room := hreq }
  have hput := brandNew_placing (hgap.sized hs) rfl
  exact ⟨_, _, _, hgap, rfl, rfl, hput⟩

theorem squeezeIn_found (hs : Sound h.memory x) (hminors : x.minors = c :: r)
    (hreq : req + 32 ≤ size) (hroom : x.addr + 40 + (40 + size) ≤ c.addr) :
    Found h x size req (squeezeIn h x.addr size req) := by
  have hgap : Gap x [] (c :: r) ⟨x.addr + 40, size, req⟩ :=
    { minors := hminors, start := rfl, stop := hroom, room := hreq }
  have hin := hs.ok.inside (c := c) (by simp [hminors])
  have hlimit := hs.limit
  have hfirst : load h.memory LiballocMajor.first x.addr = c.addr := by
    rw [hs.loadFirst, hminors]
    rfl
  have hput := squeezeIn_placing (hgap.sized hs) rfl hfirst (by simp only; omega) (by omega)
  exact ⟨_, _, _, hgap, rfl, rfl, hput⟩

/-- The search in a block finds a place exactly if there is one. -/
theorem searchMajor_spec (hs : Sound h.memory x) (hsize : size + 40 < 2 ^ 64)
    (hreq : req + 32 ≤ size) (hroom : x.minors = [] → x.addr + 40 + (40 + size) ≤ x.stop) :
    (searchMajor h x.addr size req = some none ∧ ¬ x.HasRoom size) ∨
      ∃ result, searchMajor h x.addr size req = some (some result) ∧
        Found h x size req result := by
  unfold searchMajor
  rcases hminors : x.minors with _ | ⟨c, r⟩
  · have hfirst : load h.memory LiballocMajor.first x.addr = 0 := by
      rw [hs.loadFirst, hminors]
      rfl
    simp only [hfirst, if_true]
    exact .inr ⟨_, rfl, brandNew_found hs hminors hreq (hroom hminors)⟩
  · have hfirst : load h.memory LiballocMajor.first x.addr = c.addr := by
      rw [hs.loadFirst, hminors]
      rfl
    have hin := hs.ok.inside (c := c) (by simp [hminors])
    have hlimit := hs.limit
    have hfront : sub64 (sub64 c.addr x.addr) LiballocMajor.bytes = c.addr - (x.addr + 40) := by
      simp only [sub64, LiballocMajor.bytes]
      omega
    simp only [hfirst, if_neg (show c.addr ≠ 0 by omega), hfront, spaceFor_eq hsize]
    split
    · exact .inr ⟨_, rfl, squeezeIn_found hs hminors hreq (by omega)⟩
    · have hlength : r.length + 1 < load h.memory LiballocMajor.size x.addr
          / LiballocMinor.bytes + 1 := by
        have hle := hs.ok.packed.le
        have htotal := length_le_total x.minors
        rw [hminors] at hle htotal
        rw [hs.loadSize]
        simp only [Major.stop, LiballocMinor.bytes, List.length_cons] at *
        omega
      refine (searchMinors_spec (l := []) hs hsize hreq hminors hlength).imp_left fun hnone => ?_
      refine ⟨hnone.1, ?_⟩
      rw [Major.HasRoom, hminors, fits_cons]
      rintro (hgap | hfits)
      · simp only [Minor.region] at hgap
        omega
      · exact hnone.2 hfits

end VersionSix.Kmalloc
