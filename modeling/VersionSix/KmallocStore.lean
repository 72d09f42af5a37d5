import VersionSix.KmallocFree
import VersionSix.Run

/-!
# The heap as a store of blocks

What the heap is for: it hands out blocks of bytes, and each keeps what its user has
written until it is freed. A block is new memory: it overlaps no other one, and no
pages that somebody else got from `page_allocate`; those keep what is in them as well.

`Spec` is the store, `step` the calls of `kmalloc.c` between the accesses of its users.
`Refines` relates the two.

The bytes are a map of virtual addresses, as `kmalloc.c` sees them. That is the memory of
the machine only if the page allocator has frames left for the pages, which no page table
and no other page is made of. `PageSource` therefore comes with a condition, `Room`, and
`Allowed` asks for it before every call that may take pages.
-/

namespace VersionSix.Kmalloc

open ByteStore Placement

/-! ## The store -/

/-- Blocks of bytes under their addresses, of the heap and of `page_allocate`. -/
structure Store where
  blocks : Nat → Option (List UInt8)
  pages : Nat → Option (List UInt8)

def Store.empty : Store := ⟨fun _ => none, fun _ => none⟩

namespace Store

def set (t : Store) (p : Nat) (bs : List UInt8) : Store :=
  { t with blocks := Function.update t.blocks p (some bs) }

def erase (t : Store) (p : Nat) : Store := { t with blocks := Function.update t.blocks p none }

def setPages (t : Store) (p : Nat) (bs : List UInt8) : Store :=
  { t with pages := Function.update t.pages p (some bs) }

section Updates

variable {t : Store} {p q : Nat} {bs : List UInt8}

@[simp] theorem blocks_set_same : (t.set p bs).blocks p = some bs := Function.update_self ..

theorem blocks_set_other (h : q ≠ p) : (t.set p bs).blocks q = t.blocks q :=
  Function.update_of_ne h _ _

@[simp] theorem blocks_erase_same : (t.erase p).blocks p = none := Function.update_self ..

theorem blocks_erase_other (h : q ≠ p) : (t.erase p).blocks q = t.blocks q :=
  Function.update_of_ne h _ _

@[simp] theorem pages_setPages_same : (t.setPages p bs).pages p = some bs :=
  Function.update_self ..

theorem pages_setPages_other (h : q ≠ p) : (t.setPages p bs).pages q = t.pages q :=
  Function.update_of_ne h _ _

end Updates

def Free (t : Store) (r : Region) : Prop :=
  (∀ q bs, t.blocks q = some bs → r.Apart ⟨q, bs.length⟩) ∧
    ∀ q bs, t.pages q = some bs → r.Apart ⟨q, bs.length⟩

/-- An address that can be handed out for `n` bytes. -/
structure New (t : Store) (p n : Nat) : Prop where
  nonnull : p ≠ 0
  aligned : p % 16 = 0
  unused : t.blocks p = none
  free : t.Free ⟨p, n⟩

end Store

/-- What is called, and what users do in between with their blocks (`put`, `get`) and
others with their pages (`pagePut`, `pageGet`). -/
inductive Call
  | kmalloc (reqSize : Nat)
  | kcalloc (nobj size : Nat)
  | krealloc (p size : Nat)
  | kfree (p : Nat)
  | put (p i : Nat) (v : UInt8)
  | get (p i : Nat)
  | pageAllocate (n : Nat)
  | pagePut (p i : Nat) (v : UInt8)
  | pageGet (p i : Nat)

/-- What a call may do to the store, and return. -/
inductive Spec : Store → Call → Store → Nat → Prop
  | kmalloc {t p n bs} (hnew : t.New p n) (hlength : bs.length = n) :
      Spec t (.kmalloc n) (t.set p bs) p
  | kcalloc {t p nobj size} (hnew : t.New p (nobj * size)) :
      Spec t (.kcalloc nobj size) (t.set p (List.replicate (nobj * size) 0)) p
  | kfree {t p} : Spec t (.kfree p) (t.erase p) 0
  | reallocZero {t p} : Spec t (.krealloc p 0) (t.erase p) 0
  | reallocNull {t p n bs} (hn : n ≠ 0) (hnew : t.New p n) (hlength : bs.length = n) :
      Spec t (.krealloc 0 n) (t.set p bs) p
  | reallocSmaller {t p n bs} (hn : n ≠ 0) (hp : t.blocks p = some bs) (hle : n ≤ bs.length) :
      Spec t (.krealloc p n) (t.set p (bs.take n)) p
  | reallocLarger {t p q n bs bs'} (hp : t.blocks p = some bs) (hlt : bs.length < n)
      (hnew : t.New q n) (hlength : bs'.length = n) (hsame : bs <+: bs') :
      Spec t (.krealloc p n) ((t.set q bs').erase p) q
  | put {t p i v bs} (hp : t.blocks p = some bs) : Spec t (.put p i v) (t.set p (bs.set i v)) 0
  | get {t p i bs} (hp : t.blocks p = some bs) (hi : i < bs.length) :
      Spec t (.get p i) t bs[i].toNat
  | pageAllocate {t p n bs} (hfree : t.Free ⟨p, 4096 * n⟩) (hlength : bs.length = 4096 * n) :
      Spec t (.pageAllocate n) (t.setPages p bs) p
  | pagePut {t p i v bs} (hp : t.pages p = some bs) :
      Spec t (.pagePut p i v) (t.setPages p (bs.set i v)) 0
  | pageGet {t p i bs} (hp : t.pages p = some bs) (hi : i < bs.length) :
      Spec t (.pageGet p i) t bs[i].toNat

/-! ## The code -/

variable {P : Type}

def step (liballocAlloc : Nat → P → Option (Nat × P)) (h : Heap P) : Call → Option (Heap P × Nat)
  | .kmalloc reqSize => kmalloc liballocAlloc h reqSize
  | .kcalloc nobj size => kcalloc liballocAlloc h nobj size
  | .krealloc p size => krealloc liballocAlloc h p size
  | .kfree p => some (kfree h p, 0)
  | .put p i v | .pagePut p i v =>
      some ({ h with memory := Function.update h.memory (p + i) v }, 0)
  | .get p i | .pageGet p i => some (h, (h.memory (p + i)).toNat)
  | .pageAllocate n =>
      (liballocAlloc n h.pages).map fun (v, pages) => ({ h with pages }, v)

/-- Pages come one after the other as long as there is `Room` for them. `Sound` is what is
known of the state they come from. -/
structure PageSource (liballocAlloc : Nat → P → Option (Nat × P)) (next : P → Nat)
    (Room : Nat → P → Prop) (Sound : P → Prop) : Prop where
  alloc : ∀ {n p v p'}, 1 ≤ n → Sound p → Room n p → liballocAlloc n p = some (v, p') →
    v = next p ∧ next p' = next p + 4096 * n ∧ next p' < 2 ^ 64 ∧ Sound p'

/-- There is room for a call of `liballoc_alloc`, and it returns. -/
def PagesLeft (liballocAlloc : Nat → P → Option (Nat × P)) (Room : Nat → P → Prop) (n : Nat)
    (p : P) : Prop :=
  (liballocAlloc n p).isSome ∧ Room n p

theorem PageSource.ready {liballocAlloc : Nat → P → Option (Nat × P)} {next : P → Nat}
    {Room : Nat → P → Prop} {Sound : P → Prop} (hsource : PageSource liballocAlloc next Room Sound)
    {n : Nat} {p : P} (hn : 1 ≤ n) (hsound : Sound p) (hleft : PagesLeft liballocAlloc Room n p) :
    ∃ p', PagesReady liballocAlloc next n p p' ∧ Sound p' := by
  obtain ⟨⟨v, p'⟩, hcall⟩ := Option.isSome_iff_exists.mp hleft.1
  obtain ⟨rfl, hmoved, hlimit, hsound'⟩ := hsource.alloc hn hsound hleft.2 hcall
  exact ⟨p', ⟨hcall, hmoved, hlimit⟩, hsound'⟩

/-- What users have to keep to: they pass pointers that they got, stay within their
blocks and do not ask for too much. -/
def Allowed (liballocAlloc : Nat → P → Option (Nat × P)) (Room : Nat → P → Prop) (h : Heap P)
    (t : Store) : Call → Prop
  | .kmalloc n => n + 4208 ≤ 2 ^ 32 ∧ PagesLeft liballocAlloc Room (pagesFor (n + 32)) h.pages
  | .kcalloc nobj size => nobj * size < 2 ^ 31 ∧
      PagesLeft liballocAlloc Room (pagesFor (nobj * size + 32)) h.pages
  | .krealloc p n => (p ≠ 0 → t.blocks p ≠ none) ∧ n + 4208 ≤ 2 ^ 32 ∧
      PagesLeft liballocAlloc Room (pagesFor (n + 32)) h.pages
  | .kfree p => p ≠ 0 → t.blocks p ≠ none
  | .put p i _ | .get p i => ∃ bs, t.blocks p = some bs ∧ i < bs.length
  | .pageAllocate n => 1 ≤ n ∧ PagesLeft liballocAlloc Room n h.pages
  | .pagePut p i _ | .pageGet p i => ∃ bs, t.pages p = some bs ∧ i < bs.length

/-! ## The relation -/

variable {next : P → Nat} {liballocAlloc : Nat → P → Option (Nat × P)} {h h' : Heap P}
  {t : Store} {arena arena' : Arena} {c : Minor} {size req : Nat}

def content (m : Bytes) (c : Minor) : List UInt8 := bytesAt m c.ptr c.req

/-- The blocks are the pieces, and the pages are elsewhere. -/
structure Refines (next : P → Nat) (h : Heap P) (t : Store) (arena : Arena) : Prop where
  holds : Holds next h arena
  settled : Settled arena
  blocks : ∀ p bs, t.blocks p = some bs ↔ ∃ c ∈ pieces arena, c.ptr = p ∧ content h.memory c = bs
  pages : ∀ p bs, t.pages p = some bs → bytesAt h.memory p bs.length = bs ∧
    p + bs.length ≤ next h.pages ∧ ∀ x ∈ arena, x.region.Apart ⟨p, bs.length⟩
  pagesApart : ∀ p bs q bs', t.pages p = some bs → t.pages q = some bs' →
    p = q ∨ Region.Apart ⟨p, bs.length⟩ ⟨q, bs'.length⟩
  errors : h.lErrorCount = 0 ∧ h.lPossibleOverruns = 0

theorem Refines.length (hr : Refines next h t arena) {p : Nat} {bs : List UInt8}
    (hp : t.blocks p = some bs) : ∃ c ∈ pieces arena, c.ptr = p ∧ c.req = bs.length ∧
      content h.memory c = bs := by
  obtain ⟨c, hc, hptr, hcontent⟩ := (hr.blocks p bs).mp hp
  refine ⟨c, hc, hptr, ?_, hcontent⟩
  rw [← hcontent, content, length_bytesAt]

theorem Outside.same {m m' : Bytes} {p n : Nat} (h : Outside m m' arena)
    (hout : ∀ x ∈ arena, x.region.Apart ⟨p, n⟩) : Same m m' p (p + n) :=
  h p (p + n) fun x hx => (hout x hx).symm

/-! ### A new block -/

section Served

variable (hr : Refines next h t arena)
  (hs : Served liballocAlloc next h h' arena arena' size req c)

include hr hs

theorem Refines.new : t.New c.ptr req where
  nonnull := by
    have hptr := c.ptr_bounds
    omega
  aligned := alignUp_mod _
  unused := by
    refine Option.eq_none_iff_forall_ne_some.mpr fun bs hp => ?_
    obtain ⟨d, hd, hptr, -⟩ := (hr.blocks _ bs).mp hp
    obtain rfl := hs.holds.ptr_inj (hs.mem_of_mem hd) hs.mem hptr
    exact hs.not_mem hd
  free := by
    have hcle := hs.holds.ptr_le hs.mem
    have hcptr := c.ptr_bounds
    have hasked := hs.asked
    refine ⟨fun q bs hq => ?_, fun q bs hq => ?_⟩
    · obtain ⟨d, hd, hptr, hlength, -⟩ := hr.length hq
      have hdle := hr.holds.ptr_le hd
      have hdptr := d.ptr_bounds
      rcases hs.holds.pieces_apart hs.mem (hs.mem_of_mem hd) with rfl | hlt | hlt
      · exact absurd hd hs.not_mem
      · exact .inl (by simp only; omega)
      · exact .inr (by simp only; omega)
    · obtain ⟨-, hnext, hout⟩ := hr.pages q bs hq
      obtain ⟨x, hx, hc⟩ := mem_pieces.mp hs.mem
      have hin := (hs.holds.ok x hx).inside hc
      have hx' := hs.apart hout hnext x hx
      simp only [Region.Apart, Major.region, Major.stop] at *
      omega

theorem Refines.served : Refines next h' (t.set c.ptr (content h'.memory c)) arena' where
  holds := hs.holds
  settled := hs.settled hr.settled
  blocks p bs := by
    have hsame {d : Minor} (hd : d ∈ pieces arena) :
        content h'.memory d = content h.memory d := by
      obtain ⟨x, hx, hdx⟩ := mem_pieces.mp hd
      have hle := hr.holds.ptr_le hd
      have hptr := d.ptr_bounds
      exact (hs.kept x hx d hdx).bytesAt (by omega) hle
    by_cases hp : p = c.ptr
    · subst hp
      rw [Store.blocks_set_same, Option.some_inj]
      refine ⟨fun heq => ⟨c, hs.mem, rfl, heq⟩, ?_⟩
      rintro ⟨d, hd, hptr, heq⟩
      rw [hs.holds.ptr_inj hd hs.mem hptr] at heq
      exact heq
    · rw [Store.blocks_set_other hp, hr.blocks]
      constructor
      · rintro ⟨d, hd, hptr, heq⟩
        exact ⟨d, hs.mem_of_mem hd, hptr, (hsame hd).trans heq⟩
      · rintro ⟨d, hd, hptr, heq⟩
        rcases List.mem_cons.mp (hs.pieces.subset hd) with rfl | hd
        · exact absurd hptr.symm hp
        · exact ⟨d, hd, hptr, (hsame hd).symm.trans heq⟩
  pages p bs hp := by
    obtain ⟨hbytes, hnext, hout⟩ := hr.pages p bs hp
    have hout' := hs.apart hout hnext
    refine ⟨?_, hnext.trans hs.next_le, hout'⟩
    rw [(hs.outside.same hout').bytesAt (Nat.le_refl p) (Nat.le_refl _), hbytes]
  pagesApart := hr.pagesApart
  errors := by
    obtain ⟨-, herrors, hoverruns⟩ := hs.counts
    exact ⟨herrors.trans hr.errors.1, hoverruns.trans hr.errors.2⟩

end Served

/-! ### A block that is freed -/

theorem Refines.freed (hr : Refines next h t arena) (hc : c ∈ pieces arena) :
    ∃ arena', Refines next (kfree h c.ptr) (t.erase c.ptr) arena' := by
  obtain ⟨x, hx, hcx⟩ := mem_pieces.mp hc
  obtain ⟨pre, post, rfl⟩ := List.append_of_mem hx
  obtain ⟨l, r, hminors⟩ := List.append_of_mem hcx
  have hf := kfree_freed hr.holds hminors
  have hperm : (pieces (pre ++ x :: post)).Perm (c :: pieces (without pre x post (l ++ r))) := by
    rw [pieces_without]
    exact pieces_middle hminors rfl
  have hsub {d : Minor} (hd : d ∈ pieces (without pre x post (l ++ r))) :
      d ∈ pieces (pre ++ x :: post) :=
    hperm.symm.subset (List.mem_cons_of_mem c hd)
  have hnot := (List.nodup_cons.mp (hperm.nodup_iff.mp hr.holds.pieces_nodup)).1
  have hsame {d : Minor} (hd : d ∈ pieces (without pre x post (l ++ r))) :
      content (kfree h c.ptr).memory d = content h.memory d := by
    obtain ⟨y, hy, hdy⟩ := mem_pieces.mp hd
    have hle := hr.holds.ptr_le (hsub hd)
    have hptr := d.ptr_bounds
    exact (hf.kept y hy d hdy).bytesAt (by omega) hle
  refine ⟨without pre x post (l ++ r), ?_⟩
  exact
    { holds := hf.holds
      settled := settled_without hr.settled _
      blocks := by
        intro p bs
        by_cases hp : p = c.ptr
        · subst hp
          rw [Store.blocks_erase_same]
          refine ⟨nofun, ?_⟩
          rintro ⟨d, hd, hptr, -⟩
          obtain rfl := hr.holds.ptr_inj (hsub hd) hc hptr
          exact absurd hd hnot
        · rw [Store.blocks_erase_other hp, hr.blocks]
          constructor
          · rintro ⟨d, hd, hptr, heq⟩
            rcases List.mem_cons.mp (hperm.subset hd) with rfl | hd
            · exact absurd hptr.symm hp
            · exact ⟨d, hd, hptr, (hsame hd).trans heq⟩
          · rintro ⟨d, hd, hptr, heq⟩
            exact ⟨d, hsub hd, hptr, (hsame hd).symm.trans heq⟩
      pages := by
        intro p bs hp
        obtain ⟨hbytes, hnext, hout⟩ := hr.pages p bs hp
        refine ⟨?_, by rwa [hf.pages], fun y hy => ?_⟩
        · rw [(hf.outside.same hout).bytesAt (Nat.le_refl p) (Nat.le_refl _), hbytes]
        · obtain ⟨z, hz, hregion⟩ := region_without hy
          exact hregion ▸ hout z hz
      pagesApart := hr.pagesApart
      errors := by
        obtain ⟨-, herrors, hoverruns⟩ := hf.counts
        exact ⟨herrors.trans hr.errors.1, hoverruns.trans hr.errors.2⟩ }

/-! ### Users and others -/

section Users

variable {p i n : Nat} {v : UInt8} {bs : List UInt8} {p' : P}

theorem Refines.put (hr : Refines next h t arena) (hp : t.blocks p = some bs)
    (hi : i < bs.length) : Refines next { h with memory := Function.update h.memory (p + i) v }
      (t.set p (bs.set i v)) arena := by
  obtain ⟨c, hc, rfl, hlength, hcontent⟩ := hr.length hp
  have hcle := hr.holds.ptr_le hc
  have hcptr := c.ptr_bounds
  exact
    { holds := hr.holds.write (hr.holds.records hc fun j hj =>
        Function.update_of_ne (by omega) _ _)
      settled := hr.settled
      blocks := by
        intro q bs'
        by_cases hq : q = c.ptr
        · subst hq
          have hnew : content (Function.update h.memory (c.ptr + i) v) c = bs.set i v := by
            rw [content, bytesAt_update, ← hcontent, content]
          rw [Store.blocks_set_same, Option.some_inj]
          refine ⟨fun heq => ⟨c, hc, rfl, hnew.trans heq⟩, ?_⟩
          rintro ⟨d, hd, hptr, heq⟩
          rw [hr.holds.ptr_inj hd hc hptr] at heq
          exact hnew.symm.trans heq
        · rw [Store.blocks_set_other hq, hr.blocks]
          have hother {d : Minor} (hd : d ∈ pieces arena) (hne : d.ptr = q) :
              content (Function.update h.memory (c.ptr + i) v) d = content h.memory d := by
            have hdle := hr.holds.ptr_le hd
            have hdptr := d.ptr_bounds
            refine (Same.update d.ptr (d.ptr + d.req) ?_).bytesAt (Nat.le_refl _) (Nat.le_refl _)
            rcases hr.holds.pieces_apart hc hd with rfl | hlt | hlt
            · exact absurd hne.symm hq
            · exact .inl (by omega)
            · exact .inr (by omega)
          refine exists_congr fun d => and_congr_right fun hd => and_congr_right fun hne => ?_
          rw [hother hd hne]
      pages := by
        intro q bs' hq
        obtain ⟨hbytes, hnext, hout⟩ := hr.pages q bs' hq
        obtain ⟨x, hx, hcx⟩ := mem_pieces.mp hc
        have hin := (hr.holds.ok x hx).inside hcx
        have hx' := hout x hx
        refine ⟨?_, hnext, hout⟩
        simp only [Region.Apart, Major.region, Major.stop] at hx' hin
        rw [(Same.update q (q + bs'.length) (by omega)).bytesAt (Nat.le_refl _) (Nat.le_refl _),
          hbytes]
      pagesApart := hr.pagesApart
      errors := hr.errors }

theorem records_of_regions {m m' : Bytes} (hok : ∀ x ∈ arena, x.Ok)
    (hsame : ∀ x ∈ arena, Same m m' x.addr x.stop) : Records m m' arena := by
  refine fun x hx => ⟨(hsame x hx).part (Nat.le_refl _) (hok x hx).record, fun c hc => ?_⟩
  have hin := (hok x hx).inside hc
  have hle := (hok x hx).ptr_le hc
  exact (hsame x hx).part (by omega) (by omega)

theorem Refines.pagePut (hr : Refines next h t arena) (hp : t.pages p = some bs)
    (hi : i < bs.length) : Refines next { h with memory := Function.update h.memory (p + i) v }
      (t.setPages p (bs.set i v)) arena := by
  obtain ⟨hbytes, hnext, hout⟩ := hr.pages p bs hp
  have hregion : ∀ x ∈ arena, Same h.memory (Function.update h.memory (p + i) v) x.addr x.stop := by
    intro x hx
    have hx' := hout x hx
    simp only [Region.Apart, Major.region] at hx'
    exact Same.update _ _ (by simp only [Major.stop]; omega)
  exact
    { holds := hr.holds.write (records_of_regions hr.holds.ok hregion)
      settled := hr.settled
      blocks := by
        intro q bs'
        refine (hr.blocks q bs').trans (exists_congr fun d => and_congr_right fun hd => ?_)
        obtain ⟨x, hx, hdx⟩ := mem_pieces.mp hd
        have hin := (hr.holds.ok x hx).inside hdx
        have hle := hr.holds.ptr_le hd
        have hptr := d.ptr_bounds
        have hsame : content (Function.update h.memory (p + i) v) d = content h.memory d :=
          (hregion x hx).bytesAt (by omega) (by omega)
        rw [hsame]
      pages := by
        intro q bs' hq
        by_cases heq : q = p
        · subst heq
          obtain rfl := Option.some.inj (Store.pages_setPages_same.symm.trans hq)
          rw [List.length_set]
          exact ⟨by rw [bytesAt_update, hbytes], hnext, hout⟩
        · rw [Store.pages_setPages_other heq] at hq
          obtain ⟨hbytes', hnext', hout'⟩ := hr.pages q bs' hq
          refine ⟨?_, hnext', hout'⟩
          rcases hr.pagesApart q bs' p bs hq hp with heq' | happ
          · exact absurd heq' heq
          · simp only [Region.Apart] at happ
            rw [(Same.update q (q + bs'.length) (by omega)).bytesAt (Nat.le_refl _)
              (Nat.le_refl _), hbytes']
      pagesApart := by
        have hold {q : Nat} {bs' : List UInt8}
            (hq : (t.setPages p (bs.set i v)).pages q = some bs') :
            ∃ bs₀, t.pages q = some bs₀ ∧ bs₀.length = bs'.length := by
          by_cases heq : q = p
          · subst heq
            obtain rfl := Option.some.inj (Store.pages_setPages_same.symm.trans hq)
            exact ⟨bs, hp, List.length_set.symm⟩
          · exact ⟨bs', (Store.pages_setPages_other heq).symm.trans hq, rfl⟩
        intro q bs₁ q' bs₂ hq hq'
        obtain ⟨bs₁', hq, hlength⟩ := hold hq
        obtain ⟨bs₂', hq', hlength'⟩ := hold hq'
        rw [← hlength, ← hlength']
        exact hr.pagesApart q bs₁' q' bs₂' hq hq'
      errors := hr.errors }

theorem Refines.pageAllocate (hr : Refines next h t arena)
    (hready : PagesReady liballocAlloc next n h.pages p') :
    t.Free ⟨next h.pages, 4096 * n⟩ ∧ Refines next { h with pages := p' }
      (t.setPages (next h.pages) (bytesAt h.memory (next h.pages) (4096 * n))) arena := by
  have hle : next h.pages ≤ next p' := by
    have hmoved := hready.moved
    omega
  have hbelow {q : Nat} {bs : List UInt8} (hq : t.pages q = some bs) :
      q + bs.length ≤ next h.pages :=
    (hr.pages q bs hq).2.1
  have hblocks {x : Major} (hx : x ∈ arena) : x.stop ≤ next h.pages := (hr.holds.placed.inside hx).2
  refine ⟨⟨fun q bs hq => .inr ?_, fun q bs hq => .inr (hbelow hq)⟩, ?_⟩
  · obtain ⟨d, hd, rfl, hlength, -⟩ := hr.length hq
    obtain ⟨x, hx, hdx⟩ := mem_pieces.mp hd
    have hin := (hr.holds.ok x hx).inside hdx
    have hdle := hr.holds.ptr_le hd
    have hx' := hblocks hx
    simp only
    omega
  exact
    { holds := { hr.holds with placed := hr.holds.placed.mono hle, limit := hready.limit }
      settled := hr.settled
      blocks := hr.blocks
      pages := by
        intro q bs hq
        by_cases heq : q = next h.pages
        · subst heq
          obtain rfl := Option.some.inj (Store.pages_setPages_same.symm.trans hq)
          rw [length_bytesAt]
          exact ⟨rfl, hready.moved.ge, fun x hx => .inl (hblocks hx)⟩
        · rw [Store.pages_setPages_other heq] at hq
          obtain ⟨hbytes, hnext, hout⟩ := hr.pages q bs hq
          exact ⟨hbytes, hnext.trans hle, hout⟩
      pagesApart := by
        intro q bs₁ q' bs₂ hq hq'
        by_cases heq : q = next h.pages <;> by_cases heq' : q' = next h.pages
        · exact .inl (heq.trans heq'.symm)
        · rw [Store.pages_setPages_other heq'] at hq'
          exact .inr (.inr (heq ▸ hbelow hq'))
        · rw [Store.pages_setPages_other heq] at hq
          exact .inr (.inl (heq' ▸ hbelow hq))
        · rw [Store.pages_setPages_other heq] at hq
          rw [Store.pages_setPages_other heq'] at hq'
          exact hr.pagesApart q bs₁ q' bs₂ hq hq'
      errors := hr.errors }

theorem Refines.shrunk (hr : Refines next h t arena) (hc : c ∈ pieces arena) (hle : n ≤ c.req) :
    ∃ arena', Refines next { h with memory := store h.memory LiballocMinor.reqSize c.addr n }
      (t.set c.ptr ((content h.memory c).take n)) arena' := by
  obtain ⟨x, hx, hcx⟩ := mem_pieces.mp hc
  obtain ⟨pre, post, rfl⟩ := List.append_of_mem hx
  obtain ⟨l, r, hminors⟩ := List.append_of_mem hcx
  have hholds := hr.holds.setReq hminors hle
  have hcptr := c.ptr_bounds
  have hcle := hr.holds.ptr_le hc
  have hin := (hr.holds.ok x hx).inside hcx
  -- the pieces are the same but for one
  have hold : (pieces (pre ++ x :: post)).Perm
      (c :: pieces (pre ++ { x with minors := l ++ r } :: post)) := pieces_middle hminors rfl
  have hnew : (pieces (pre ++ { x with minors := l ++ { c with req := n } :: r } :: post)).Perm
      ({ c with req := n } :: pieces (pre ++ { x with minors := l ++ r } :: post)) :=
    pieces_middle rfl rfl
  have hsame {d : Minor} (hd : d ∈ pieces (pre ++ x :: post)) : Same h.memory
      (store h.memory LiballocMinor.reqSize c.addr n) d.ptr (d.ptr + d.req) := by
    have hdptr := d.ptr_bounds
    have hdle := hr.holds.ptr_le hd
    refine (Same.refl _ d.ptr (d.ptr + d.req)).store ?_
    simp only [LiballocMinor.reqSize]
    rcases hr.holds.pieces_apart hc hd with rfl | hlt | hlt <;> omega
  have hcontent : content (store h.memory LiballocMinor.reqSize c.addr n) { c with req := n }
      = (content h.memory c).take n := by
    rw [content, content, take_bytesAt hle]
    exact (hsame hc).bytesAt (Nat.le_refl _) (Nat.add_le_add_left hle _)
  refine ⟨pre ++ { x with minors := l ++ { c with req := n } :: r } :: post, ?_⟩
  exact
    { holds := hholds
      settled := by
        intro y hy
        rcases mem_middle.mp hy with rfl | hy
        · simp
        · exact hr.settled y (mem_middle.mpr (.inr hy))
      blocks := by
        intro q bs'
        by_cases hq : q = c.ptr
        · subst hq
          rw [Store.blocks_set_same, Option.some_inj]
          have hmem := hnew.symm.subset List.mem_cons_self
          refine ⟨fun heq => ⟨_, hmem, rfl, hcontent.trans heq⟩, ?_⟩
          rintro ⟨d, hd, hptr, heq⟩
          rw [hholds.ptr_inj hd hmem hptr] at heq
          exact hcontent.symm.trans heq
        · rw [Store.blocks_set_other hq, hr.blocks]
          constructor
          · rintro ⟨d, hd, hptr, heq⟩
            refine ⟨d, ?_, hptr, ((hsame hd).bytesAt (Nat.le_refl _) (Nat.le_refl _)).trans heq⟩
            rcases List.mem_cons.mp (hold.subset hd) with rfl | hd
            · exact absurd hptr.symm hq
            · exact hnew.symm.subset (List.mem_cons_of_mem _ hd)
          · rintro ⟨d, hd, hptr, heq⟩
            rcases List.mem_cons.mp (hnew.subset hd) with rfl | hd
            · exact absurd hptr.symm hq
            · have hd := hold.symm.subset (List.mem_cons_of_mem _ hd)
              exact ⟨d, hd, hptr,
                ((hsame hd).bytesAt (Nat.le_refl _) (Nat.le_refl _)).symm.trans heq⟩
      pages := by
        intro q bs' hq
        obtain ⟨hbytes, hnext, hout⟩ := hr.pages q bs' hq
        have hx' := hout x hx
        simp only [Region.Apart, Major.region, Major.stop] at hx' hin
        refine ⟨?_, hnext, fun y hy => ?_⟩
        · have hkept := (Same.refl h.memory q (q + bs'.length)).store
            (p := c.addr) (f := LiballocMinor.reqSize) (v := n)
            (by simp only [LiballocMinor.reqSize]; omega)
          rw [hkept.bytesAt (Nat.le_refl _) (Nat.le_refl _), hbytes]
        · rcases mem_middle.mp hy with rfl | hy
          · exact hout x hx
          · exact hout y (mem_middle.mpr (.inr hy))
      pagesApart := hr.pagesApart
      errors := hr.errors }

end Users

end VersionSix.Kmalloc
