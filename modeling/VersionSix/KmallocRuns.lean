import VersionSix.KmallocStore

/-!
# Runs of the heap

Every call that its caller may make returns, and does to the heap what the
store allows (`step_refines`), and so do all runs of such calls
(`runs_refine`). Where the pages come from is left open: a `PageSource` hands
them out in order and keeps what is `Sound` of its state, as long as there is
room. A call of the heap asks for pages at most once, and gives none back, so
that the source is as sound behind a run as it was before.

The store is nondeterministic, since it does not say which address a new block
gets. So a run of the code is matched by some run of the store with the same
results, and whatever holds of all runs of the store holds of the code. The
pages of `kernel/` are put in for the source in `KernelHeap`.
-/

namespace VersionSix.Kmalloc

open ByteStore Placement

variable {P : Type} {next : P → Nat} {liballocAlloc : Nat → P → Option (Nat × P)} {h : Heap P}
  {t : Store} {arena : Arena} {p n : Nat}

/-- The pages for a piece of `n` bytes, its record and that of the block, rounded up. -/
theorem pagesFor_eq (hn : n + 4208 ≤ 2 ^ 32) : pagesFor (n + 32) = (n + 4207) / 4096 := by
  unfold pagesFor lPageSize lPageCount LiballocMajor.bytes LiballocMinor.bytes
  simp only [Nat.mod_eq_of_lt (show n + 32 < 2 ^ 32 by omega),
    Nat.mod_eq_of_lt (show n + 32 + 40 < 2 ^ 32 by omega),
    Nat.mod_eq_of_lt (show n + 32 + 40 + 40 < 2 ^ 32 by omega)]
  split <;> split <;> omega

/-! ## One call -/

theorem Refines.blocks_zero (hr : Refines next h t arena) : t.blocks 0 = none := by
  refine Option.eq_none_iff_forall_ne_some.mpr fun bs hp => ?_
  obtain ⟨c, -, hptr, -⟩ := (hr.blocks 0 bs).mp hp
  have hb := c.ptr_bounds
  omega

/-- The pages of a block are never given back to the page allocator. -/
theorem kfree_pages (h : Heap P) (ptr : Nat) : (kfree h ptr).pages = h.pages := by
  have hmagic (min : Nat) : (notMagic h min).pages = h.pages := by
    simp only [notMagic, apply_ite Heap.pages, ite_self]
  have hbetter (h : Heap P) (maj : Nat) : (betterBet h maj).pages = h.pages := by
    rcases betterBet_cases h maj with hbet | hbet <;> rw [hbet]
  simp only [kfree, apply_ite Heap.pages, hmagic, hbetter, unlinkMinor, releaseMajor, ite_self]

theorem Refines.freeNull (hr : Refines next h t arena) :
    Refines next (kfree h 0) (t.erase 0) arena := by
  have hsame : t.erase 0 = t := by
    unfold Store.erase
    rw [← hr.blocks_zero, Function.update_eq_self]
  rw [hsame]
  exact { hr with holds := { hr.holds with }, errors := hr.errors }

theorem kfree_refines (hr : Refines next h t arena) (hp : p ≠ 0 → t.blocks p ≠ none) :
    ∃ arena', Refines next (kfree h p) (t.erase p) arena' := by
  by_cases hzero : p = 0
  · subst hzero
    exact ⟨arena, hr.freeNull⟩
  · obtain ⟨bs, hbs⟩ := Option.ne_none_iff_exists'.mp (hp hzero)
    obtain ⟨c, hc, rfl, -⟩ := hr.length hbs
    exact hr.freed hc

section Calls

variable {Room : Nat → P → Prop} {Sound : P → Prop}
  (hsource : PageSource liballocAlloc next Room Sound) (hsound : Sound h.pages)

include hsource hsound

theorem ready_of_left {size : Nat} (hsize : size + 4176 ≤ 2 ^ 32)
    (hpages : PagesLeft liballocAlloc Room (pagesFor size) h.pages) :
    Ready liballocAlloc next arena size h.pages :=
  fun _ =>
    let ⟨p', hready, _⟩ := hsource.ready (pagesFor_bounds hsize).1 hsound hpages
    ⟨p', hready⟩

theorem sound_of_served {h' : Heap P} {arena' : Arena} {size req : Nat} {c : Minor}
    (hsize : size + 4176 ≤ 2 ^ 32)
    (hpages : PagesLeft liballocAlloc Room (pagesFor size) h.pages)
    (hs : Served liballocAlloc next h h' arena arena' size req c) : Sound h'.pages := by
  rcases hs.place with ⟨-, hsame⟩ | ⟨-, hcall⟩
  · rwa [hsame]
  · exact (hsource.alloc (pagesFor_bounds hsize).1 hsound hpages.2 hcall).2.2.2

theorem kmalloc_refines (hr : Refines next h t arena) (hn : n + 4208 ≤ 2 ^ 32)
    (hpages : PagesLeft liballocAlloc Room (pagesFor (n + 32)) h.pages) :
    ∃ h' arena' p bs, kmalloc liballocAlloc h n = some (h', p) ∧ t.New p n ∧ bs.length = n ∧
      Sound h'.pages ∧ Refines next h' (t.set p bs) arena' := by
  obtain ⟨h', arena', c, hcall, hs⟩ := kmalloc_served hr.holds hn
    (ready_of_left hsource hsound (by omega) hpages)
  refine ⟨h', arena', c.ptr, content h'.memory c, hcall, hr.new hs, ?_,
    sound_of_served hsource hsound (by omega) hpages hs, hr.served hs⟩
  rw [content, length_bytesAt, hs.asked]

theorem kcalloc_refines {nobj size : Nat} (hr : Refines next h t arena)
    (hn : nobj * size < 2 ^ 31)
    (hpages : PagesLeft liballocAlloc Room (pagesFor (nobj * size + 32)) h.pages) :
    ∃ h' arena' p, kcalloc liballocAlloc h nobj size = some (h', p) ∧ t.New p (nobj * size) ∧
      Sound h'.pages ∧ Refines next h' (t.set p (List.replicate (nobj * size) 0)) arena' := by
  obtain ⟨h', arena', c, hcall, hs, hzero⟩ := kcalloc_served hr.holds hn
    (ready_of_left hsource hsound (by omega) hpages)
  have hcontent : content h'.memory c = List.replicate (nobj * size) 0 := by
    refine List.ext_getElem (by simp [content, hs.asked]) fun i hi _ => ?_
    rw [content, length_bytesAt, hs.asked] at hi
    rw [List.getElem_replicate]
    exact (getElem_bytesAt _).trans (hzero i hi)
  refine ⟨h', arena', c.ptr, hcall, hr.new hs,
    sound_of_served hsource hsound (by omega) hpages hs, ?_⟩
  rw [← hcontent]
  exact hr.served hs

theorem krealloc_refines (hr : Refines next h t arena) (hp : p ≠ 0 → t.blocks p ≠ none)
    (hn : n + 4208 ≤ 2 ^ 32)
    (hpages : PagesLeft liballocAlloc Room (pagesFor (n + 32)) h.pages) :
    ∃ h' t' b arena', krealloc liballocAlloc h p n = some (h', b) ∧
      Spec t (.krealloc p n) t' b ∧ Sound h'.pages ∧ Refines next h' t' arena' := by
  by_cases hzero : n = 0
  · subst hzero
    obtain ⟨arena', hr'⟩ := kfree_refines hr hp
    refine ⟨_, _, 0, arena', ?_, .reallocZero, ?_, hr'⟩
    · rw [krealloc, if_pos rfl]
    · rwa [kfree_pages]
  by_cases hnull : p = 0
  · subst hnull
    obtain ⟨h', arena', q, bs, hcall, hnew, hlength, hsound', hr'⟩ :=
      kmalloc_refines hsource hsound hr hn hpages
    refine ⟨h', _, q, arena', ?_, .reallocNull hzero hnew hlength, hsound', hr'⟩
    rw [krealloc, if_neg hzero, if_pos rfl, hcall]
  obtain ⟨bs, hbs⟩ := Option.ne_none_iff_exists'.mp (hp hnull)
  obtain ⟨c, hc, rfl, hlength, hcontent⟩ := hr.length hbs
  obtain ⟨x, hx, hcx⟩ := mem_pieces.mp hc
  rcases Nat.lt_or_ge c.req n with hlt | hle
  · obtain ⟨h', arena', d, hcall, hs, hcopy⟩ := krealloc_grown hr.holds hc hlt hn
      (ready_of_left hsource hsound (by omega) hpages)
    have hmem := hs.mem_of_mem hc
    obtain ⟨arena'', hr'⟩ := (hr.served hs).freed hmem
    have hsound' := sound_of_served hsource hsound (by omega) hpages hs
    refine ⟨_, _, d.ptr, arena'', hcall, ?_, by rwa [kfree_pages], hr'⟩
    refine .reallocLarger hbs (by omega) (hr.new hs) (by rw [content, length_bytesAt, hs.asked]) ?_
    -- what was in the old block is at the front of the new one
    rw [List.prefix_iff_eq_take, ← hlength, content, take_bytesAt (by rw [hs.asked]; omega),
      ← hcontent, content]
    exact (bytesAt_congr hcopy).symm
  · obtain ⟨arena', hr'⟩ := hr.shrunk hc hle
    refine ⟨_, _, c.ptr, arena', krealloc_shrunk (recordAt hr.holds hx hcx) hzero hle, ?_, hsound,
      hr'⟩
    rw [hcontent]
    exact .reallocSmaller hzero hbs (by omega)

/-- **One call**: what users may do returns, and is what the store allows. -/
theorem step_refines (hr : Refines next h t arena) {a : Call}
    (hok : Allowed liballocAlloc Room h t a) : ∃ h' t' b, step liballocAlloc h a = some (h', b) ∧
      Spec t a t' b ∧ Sound h'.pages ∧ ∃ arena', Refines next h' t' arena' := by
  cases a with
  | kmalloc n =>
      obtain ⟨hn, hpages⟩ := hok
      obtain ⟨h', arena', p, bs, hcall, hnew, hlength, hsound', hr'⟩ :=
        kmalloc_refines hsource hsound hr hn hpages
      exact ⟨h', _, p, hcall, .kmalloc hnew hlength, hsound', arena', hr'⟩
  | kcalloc nobj size =>
      obtain ⟨hn, hpages⟩ := hok
      obtain ⟨h', arena', p, hcall, hnew, hsound', hr'⟩ :=
        kcalloc_refines hsource hsound hr hn hpages
      exact ⟨h', _, p, hcall, .kcalloc hnew, hsound', arena', hr'⟩
  | krealloc p n =>
      obtain ⟨hp, hn, hpages⟩ := hok
      obtain ⟨h', t', b, arena', hcall, hspec, hsound', hr'⟩ :=
        krealloc_refines hsource hsound hr hp hn hpages
      exact ⟨h', t', b, hcall, hspec, hsound', arena', hr'⟩
  | kfree p =>
      obtain ⟨arena', hr'⟩ := kfree_refines hr hok
      exact ⟨_, _, 0, rfl, .kfree, by rwa [kfree_pages], arena', hr'⟩
  | put p i v =>
      obtain ⟨bs, hp, hi⟩ := hok
      exact ⟨_, _, 0, rfl, .put hp, hsound, arena, hr.put hp hi⟩
  | get p i =>
      obtain ⟨bs, hp, hi⟩ := hok
      obtain ⟨c, -, rfl, hlength, hcontent⟩ := hr.length hp
      have hbyte : h.memory (c.ptr + i) = bs[i] := by
        subst hcontent
        exact (getElem_bytesAt _).symm
      exact ⟨h, t, bs[i].toNat, by rw [step, hbyte], .get hp hi, hsound, arena, hr⟩
  | pageAllocate n =>
      obtain ⟨hn, hpages⟩ := hok
      obtain ⟨p', hready, hsound'⟩ := hsource.ready hn hsound hpages
      obtain ⟨hfree, hr'⟩ := hr.pageAllocate hready
      refine ⟨_, _, next h.pages, ?_, .pageAllocate hfree (length_bytesAt ..), hsound', arena, hr'⟩
      rw [step, hready.alloc, Option.map_some]
  | pagePut p i v =>
      obtain ⟨bs, hp, hi⟩ := hok
      exact ⟨_, _, 0, rfl, .pagePut hp, hsound, arena, hr.pagePut hp hi⟩
  | pageGet p i =>
      obtain ⟨bs, hp, hi⟩ := hok
      obtain ⟨hbytes, -⟩ := hr.pages p bs hp
      have hbyte : h.memory (p + i) = bs[i] := by
        have hget := getElem_bytesAt (b := h.memory) (p := p) (n := bs.length) (i := i) (by simpa)
        simp only [hbytes] at hget
        exact hget.symm
      exact ⟨h, t, bs[i].toNat, by rw [step, hbyte], .pageGet hp hi, hsound, arena, hr⟩

end Calls

/-! ## All runs -/

theorem Refines.arena_eq_nil (hr : Refines next h t arena) (hnone : ∀ p, t.blocks p = none) :
    arena = [] := by
  rcases arena with _ | ⟨x, arena⟩
  · rfl
  · obtain ⟨c, rest, hc⟩ := List.exists_cons_of_ne_nil (hr.settled x List.mem_cons_self)
    have hmem : c ∈ pieces (x :: arena) := mem_pieces.mpr ⟨x, by simp, by simp [hc]⟩
    have hsome := (hr.blocks c.ptr _).mpr ⟨c, hmem, rfl, rfl⟩
    rw [hnone] at hsome
    cases hsome

theorem refines_start (memory : Bytes) {pages : P} (hpos : 1 ≤ next pages)
    (hlimit : next pages < 2 ^ 64) : Refines next (Heap.start memory pages) Store.empty [] where
  holds :=
    { placed := hpos
      limit := hlimit
      ok := by simp
      stored := ⟨trivial, by simp⟩
      root := rfl
      bet := .inl rfl
      allocated := rfl
      inuse := rfl }
  settled := by simp [Settled]
  blocks p bs := by simp [Store.empty, pieces]
  pages p bs hp := by cases hp
  pagesApart p bs q bs' hp := by cases hp
  errors := ⟨rfl, rfl⟩

theorem runs_refine {Room : Nat → P → Prop} {Sound : P → Prop}
    (hsource : PageSource liballocAlloc next Room Sound) (memory : Bytes) {pages : P}
    (hpos : 1 ≤ next pages) (hlimit : next pages < 2 ^ 64) (hsound : Sound pages)
    {calls : List Call}
    (hok : Run.GuardedBy (step liballocAlloc) Spec (Allowed liballocAlloc Room)
      (Heap.start memory pages) Store.empty calls) :
    ∃ h' t' results, Run.trace (step liballocAlloc) (Heap.start memory pages) calls
        = some (h', results) ∧ Run.Runs Spec Store.empty calls t' results ∧
      Sound h'.pages ∧ ∃ arena, Refines next h' t' arena := by
  refine Run.trace_simulates
    (R := fun h t => Sound h.pages ∧ ∃ arena, Refines next h t arena) ?_
    ⟨hsound, [], refines_start memory hpos hlimit⟩ hok
  rintro h t a ⟨hsound, arena, hr⟩ ha
  exact step_refines hsource hsound hr ha

end VersionSix.Kmalloc
