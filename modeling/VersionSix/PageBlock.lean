import Mathlib.Algebra.Ring.Parity
import Mathlib.Data.Nat.Count
import VersionSix.PageQueries

/-!
# Page blocks

`page_group_get_page_block` of `mem/pagegroup.c`. Behind a free page `i` the
inner loop runs only to page `num_pages`, not to `i + num_pages`, and it gives
up at a page that is free: the free pages below `num_pages` go by in pairs. An
odd one is the result, whatever lies behind it; otherwise the first free page
from `num_pages` on is, and nothing behind it is looked at.

So the search always stops, at a page that the parity of the bitmap determines
(`Outcome`). Whether that page is a right answer is another question, and an
independent one: it has to begin a block of free pages itself, or the 32-bit
product of its address has to wrap around to a page that does (`Begins`).
`block_search_iff` puts the two together.

The loop is proved by what it has behind it, pairs of free pages (`Paired`),
and by what the inner loop finds (`Check`).
-/

namespace VersionSix.Mem

open Bitmap

/-! ## Functions -/

/-- The inner loop from page `n` on: where it leaves `i` and `n`. -/
def checkLoop (group : PageGroup) (numPages i : UInt32) : Nat → UInt32 → Option (UInt32 × UInt32)
  | 0, _ => none
  | fuel + 1, n =>
      if n < numPages then
        if n ≥ group.numPages then some (n, 0)
        else
          (viBitmapTest group.pageBitmap n.toUInt64).bind fun taken =>
            if taken then checkLoop group numPages i fuel (n + 1) else some (n, 0)
      else some (i, n)

/-- The loop of `page_group_get_page_block` from page `i` on. -/
def blockLoop (group : PageGroup) (numPages : UInt32) : Nat → UInt32 → Option UInt64
  | 0, _ => none
  | fuel + 1, i =>
      if i < group.numPages then
        (viBitmapTest group.pageBitmap i.toUInt64).bind fun taken =>
          if taken then blockLoop group numPages fuel (i + 1)
          else if numPages = 1 then some (pageGroupBitToAddr group i)
          else
            (checkLoop group numPages i (numPages.toNat + 1) (i + 1)).bind fun (i, n) =>
              if n = 0 then blockLoop group numPages fuel (i + 1)
              else some (pageGroupBitToAddr group i)
      else some 0

/-- `none` is an access outside of the bitmap, or a loop that takes more turns
than there are pages. -/
def pageGroupGetPageBlock (group : Option PageGroup) (numPages : UInt32) : Option UInt64 :=
  match group with
  | none => some 0
  | some group =>
      if numPages < 1 ∨ numPages > group.numPages then some 0
      else blockLoop group numPages (group.numPages.toNat + 1) 0

/-! ## Blocks -/

variable {g : PageGroup} {k : Nat}

/-- Page `i` of the group is not set. -/
def Free (g : PageGroup) (i : Nat) : Prop := i < g.numPages.toNat ∧ g.pageBitmap.bit i = false

instance : DecidablePred (Free g) := fun i =>
  inferInstanceAs (Decidable (i < g.numPages.toNat ∧ g.pageBitmap.bit i = false))

/-- From page `i` on there are `k` free pages. -/
def Block (g : PageGroup) (k i : Nat) : Prop := ∀ j < k, Free g (i + j)

/-- What the result of a search for `k` pages has to be. -/
structure Answers (g : PageGroup) (k : Nat) (addr : UInt64) : Prop where
  sound : addr ≠ 0 → ∃ i, Block g k i ∧ addr.toNat = pageAddress g i
  complete : addr = 0 → ∀ i, ¬ Block g k i

/-- How many of the pages below `k` are free. -/
def freeBelow (g : PageGroup) (k : Nat) : Nat := Nat.count (Free g) k

/-- The last free page below `k`. -/
structure LastBelow (g : PageGroup) (k r : Nat) : Prop where
  free : Free g r
  below : r < k
  last : ∀ j, r < j → j < k → ¬ Free g j

/-- The first free page from `k` on. -/
structure FirstFrom (g : PageGroup) (k r : Nat) : Prop where
  free : Free g r
  from_ : k ≤ r
  first : ∀ j, k ≤ j → j < r → ¬ Free g j

/-- The sum that `PAGE_GROUP_BIT_TO_ADDR` makes of the base and the 32-bit product of
page `r` stays inside the address space, and it is not the 0 that means no page. -/
def Addressed (g : PageGroup) (r : Nat) : Prop :=
  0 < g.physicalBase.toNat + wrapped g r ∧ g.physicalBase.toNat + wrapped g r < 2 ^ 64

/-- Page `r` is a right answer to a search for `k` pages. It begins a block itself and its
product fits into 32 bits; otherwise the product has to wrap around to that of another page
which begins one, or the sum to 0 where there is no block. -/
inductive Begins (g : PageGroup) (k r : Nat) : Prop
  | block (hblock : Block g k r) (hprod : r * g.pageSize.toNat < 2 ^ 32) (haddr : Addressed g r)
  | shifted {i : Nat} (hne : i ≠ r) (hprod : r * g.pageSize.toNat % 2 ^ 32 = i * g.pageSize.toNat)
      (hblock : Block g k i) (haddr : Addressed g r)
  | zero (hsum : g.physicalBase.toNat + wrapped g r = 0 ∨
      g.physicalBase.toNat + wrapped g r = 2 ^ 64) (hnone : ∀ i, ¬ Block g k i)

/-- The pages that stop the search have to begin a block. -/
structure BlockCondition (g : PageGroup) (k : Nat) : Prop where
  odd : Odd (freeBelow g k) → ∀ r, LastBelow g k r → Begins g k r
  even : Even (freeBelow g k) → ∀ r, FirstFrom g k r → Begins g k r
  none : Even (freeBelow g k) → (∀ r, ¬ FirstFrom g k r) → freeBelow g k ≠ k

/-! ## Where the search stops -/

/-- The result of the search. -/
inductive Outcome (g : PageGroup) (k : Nat) : UInt64 → Prop
  | odd {r : Nat} (hodd : Odd (freeBelow g k)) (hlast : LastBelow g k r) :
      Outcome g k (pageGroupBitToAddr g (UInt32.ofNat r))
  | even {r : Nat} (heven : Even (freeBelow g k)) (hfirst : FirstFrom g k r) :
      Outcome g k (pageGroupBitToAddr g (UInt32.ofNat r))
  | none (heven : Even (freeBelow g k)) (hnone : ∀ j, k ≤ j → ¬ Free g j) : Outcome g k 0

/-- What the outer loop has behind it at page `i`. -/
structure Paired (g : PageGroup) (k i : Nat) : Prop where
  below : i ≤ k → Even (freeBelow g i)
  beyond : k ≤ i → Even (freeBelow g k)
  passed : ∀ j, k ≤ j → j < i → ¬ Free g j

theorem freeBelow_succ_of_free {i : Nat} (h : Free g i) :
    freeBelow g (i + 1) = freeBelow g i + 1 := by
  rw [freeBelow, Nat.count_succ, if_pos h]
  rfl

theorem freeBelow_succ_of_taken {i : Nat} (h : ¬ Free g i) :
    freeBelow g (i + 1) = freeBelow g i := by
  rw [freeBelow, Nat.count_succ, if_neg h]
  rfl

theorem freeBelow_eq {i n : Nat} (hin : i ≤ n) (h : ∀ j, i ≤ j → j < n → ¬ Free g j) :
    freeBelow g n = freeBelow g i := by
  induction n, hin using Nat.le_induction with
  | base => rfl
  | succ n hin ih =>
      rw [freeBelow_succ_of_taken (h n hin (Nat.lt_succ_self n))]
      exact ih fun j hj hlt => h j hj (Nat.lt_succ_of_lt hlt)

theorem Charted.test_free (h : Charted g) {i : Nat} (hi : i < g.numPages.toNat) :
    viBitmapTest g.pageBitmap (UInt32.ofNat i).toUInt64 = some (decide (¬ Free g i)) := by
  have hofNat := h.ofNat_toNat (Nat.le_of_lt hi)
  have hlt : UInt32.ofNat i < g.numPages := by rwa [UInt32.lt_iff_toNat_lt, hofNat]
  rw [h.test hlt, hofNat]
  cases hbit : g.pageBitmap.bit i with
  | false => simp [Free, hi, hbit]
  | true => simp [Free, hbit]

/-- What the inner loop finds from page `n` on: the next free page below `k`, or
none. -/
inductive Check (g : PageGroup) (k : Nat) (i : UInt32) (n : Nat) : UInt32 × UInt32 → Prop
  | stopped {j : Nat} (hj : n ≤ j) (hjk : j < k) (hfree : Free g j)
      (hfirst : ∀ j', n ≤ j' → j' < j → ¬ Free g j') : Check g k i n (UInt32.ofNat j, 0)
  | through {n' : UInt32} (hnone : ∀ j, n ≤ j → j < k → ¬ Free g j) (hn' : n' ≠ 0) :
      Check g k i n (i, n')

theorem Check.of_taken {i : UInt32} {n : Nat} {x : UInt32 × UInt32} (htaken : ¬ Free g n)
    (h : Check g k i (n + 1) x) : Check g k i n x := by
  have hrest : ∀ j, n ≤ j → (n + 1 ≤ j → ¬ Free g j) → ¬ Free g j := by
    intro j hj hj'
    rcases Nat.eq_or_lt_of_le hj with rfl | hj
    · exact htaken
    · exact hj' hj
  cases h with
  | stopped hj hjk hfree hfirst =>
      refine .stopped (by omega) hjk hfree fun j' hj' hlt => ?_
      exact hrest j' hj' fun hle => hfirst j' hle hlt
  | through hnone hn' =>
      exact .through (fun j hj hjk => hrest j hj fun hle => hnone j hle hjk) hn'

theorem Charted.check_done (h : Charted g) {k : UInt32} (i : UInt32) {fuel n : Nat} (hn : 0 < n)
    (hnum : n ≤ g.numPages.toNat) (hkn : k.toNat ≤ n) :
    ∃ x, checkLoop g k i (fuel + 1) (UInt32.ofNat n) = some x ∧ Check g k.toNat i n x := by
  have hofNat : (UInt32.ofNat n).toNat = n := h.ofNat_toNat hnum
  have hltk : ¬ UInt32.ofNat n < k := by
    rw [UInt32.lt_iff_toNat_lt, hofNat]
    omega
  rw [checkLoop, if_neg hltk]
  refine ⟨_, rfl, .through (fun j hj hjk => by omega) fun hzero => ?_⟩
  rw [hzero] at hofNat
  exact absurd hofNat (Nat.ne_of_lt hn)

theorem Charted.check (h : Charted g) {k : UInt32} (hk : k.toNat ≤ g.numPages.toNat) (i : UInt32)
    {fuel n : Nat} (hn : 0 < n) (hnum : n ≤ g.numPages.toNat) (hfuel : k.toNat ≤ n + fuel) :
    ∃ x, checkLoop g k i (fuel + 1) (UInt32.ofNat n) = some x ∧ Check g k.toNat i n x := by
  induction fuel generalizing n with
  | zero => exact h.check_done i hn hnum hfuel
  | succ fuel ih =>
      by_cases hlt : n < k.toNat
      · have hofNat : (UInt32.ofNat n).toNat = n := h.ofNat_toNat hnum
        have hltk : UInt32.ofNat n < k := by rwa [UInt32.lt_iff_toNat_lt, hofNat]
        have hin : ¬ UInt32.ofNat n ≥ g.numPages := by
          rw [ge_iff_le, UInt32.le_iff_toNat_le, hofNat]
          omega
        rw [checkLoop, if_pos hltk, if_neg hin, h.test_free (by omega), Option.bind_some]
        by_cases hfree : Free g n
        · refine ⟨_, by simp [hfree], .stopped (Nat.le_refl n) hlt hfree fun j hj hj' => ?_⟩
          omega
        · obtain ⟨x, hx, hcheck⟩ := ih (Nat.succ_pos n) (by omega) (by omega)
          rw [Nat.succ_eq_add_one, UInt32.ofNat_add] at hx
          exact ⟨x, by simpa [hfree] using hx, hcheck.of_taken hfree⟩
      · exact h.check_done i hn hnum (Nat.le_of_not_lt hlt)

theorem Paired.taken {i : Nat} (h : Paired g k i) (htaken : ¬ Free g i) : Paired g k (i + 1) := by
  refine ⟨fun hle => ?_, fun hle => ?_, fun j hj hlt => ?_⟩
  · rw [freeBelow_succ_of_taken htaken]
    exact h.below (by omega)
  · rcases Nat.eq_or_lt_of_le hle with rfl | hlt
    · rw [freeBelow_succ_of_taken htaken]
      exact h.below (by omega)
    · exact h.beyond (by omega)
  · rcases Nat.eq_or_lt_of_le (Nat.le_of_lt_succ hlt) with rfl | hlt
    · exact htaken
    · exact h.passed j hj hlt

theorem Paired.pair {i j : Nat} (h : Paired g k i) (hi : Free g i) (hij : i < j) (hjk : j < k)
    (hj : Free g j) (hbetween : ∀ j', i + 1 ≤ j' → j' < j → ¬ Free g j') :
    Paired g k (j + 1) := by
  have heven : Even (freeBelow g (j + 1)) := by
    rw [freeBelow_succ_of_free hj, freeBelow_eq hij hbetween, freeBelow_succ_of_free hi]
    have hbelow := h.below (by omega)
    grind
  refine ⟨fun _ => heven, fun hle => ?_, fun j' hj' hlt => by omega⟩
  obtain rfl : k = j + 1 := by omega
  exact heven

/-- A free page without another one behind it below `k` is where the search stops. -/
theorem Paired.outcome {i : Nat} (h : Paired g k i) (hi : Free g i)
    (hnone : ∀ j, i + 1 ≤ j → j < k → ¬ Free g j) :
    Outcome g k (pageGroupBitToAddr g (UInt32.ofNat i)) := by
  by_cases hik : i < k
  · refine .odd ?_ ⟨hi, hik, fun j hj hjk => hnone j hj hjk⟩
    rw [freeBelow_eq hik hnone, freeBelow_succ_of_free hi]
    exact (h.below (Nat.le_of_lt hik)).add_one
  · have hki : k ≤ i := Nat.le_of_not_lt hik
    exact .even (h.beyond hki) ⟨hi, hki, h.passed⟩

/-- At the end of the group nothing is left to be found. -/
theorem Paired.end (h : Paired g k g.numPages.toNat) (hk : k ≤ g.numPages.toNat) :
    Outcome g k 0 := by
  refine .none (h.beyond hk) fun j hj hfree => ?_
  exact h.passed j hj hfree.1 hfree

/-- **The search ends**, with one of the three outcomes. -/
theorem Charted.block (h : Charted g) {k : UInt32} (hk : k.toNat ≤ g.numPages.toNat)
    {fuel i : Nat} (hfuel : g.numPages.toNat ≤ i + fuel) (hi : i ≤ g.numPages.toNat)
    (hpaired : Paired g k.toNat i) :
    ∃ a, blockLoop g k (fuel + 1) (UInt32.ofNat i) = some a ∧ Outcome g k.toNat a := by
  induction fuel generalizing i with
  | zero =>
      obtain rfl : i = g.numPages.toNat := Nat.le_antisymm hi hfuel
      rw [blockLoop, UInt32.ofNat_toNat, if_neg (UInt32.lt_irrefl _)]
      exact ⟨0, rfl, hpaired.end hk⟩
  | succ fuel ih =>
      have hofNat : (UInt32.ofNat i).toNat = i := h.ofNat_toNat hi
      rcases Nat.eq_or_lt_of_le hi with rfl | hlt
      · rw [blockLoop, UInt32.ofNat_toNat, if_neg (UInt32.lt_irrefl _)]
        exact ⟨0, rfl, hpaired.end hk⟩
      have hlt' : UInt32.ofNat i < g.numPages := by rwa [UInt32.lt_iff_toNat_lt, hofNat]
      rw [blockLoop, if_pos hlt', h.test_free hlt, Option.bind_some]
      by_cases hfree : Free g i
      · simp only [hfree, not_true, decide_false, Bool.false_eq_true, if_false]
        by_cases hone : k = 1
        · subst hone
          rw [if_pos rfl]
          refine ⟨_, rfl, hpaired.outcome hfree fun j hj hj1 => ?_⟩
          rw [UInt32.toNat_one] at hj1
          omega
        · rw [if_neg hone, ← UInt32.ofNat_one, ← UInt32.ofNat_add]
          obtain ⟨x, hx, hcheck⟩ := h.check hk (UInt32.ofNat i) (Nat.succ_pos i) hlt
            (Nat.le_add_left k.toNat (i + 1))
          rw [hx, Option.bind_some]
          cases hcheck with
          | @stopped j hj hjk hfj hfirst =>
              rw [if_pos rfl, ← UInt32.ofNat_add]
              exact ih (by omega) (Nat.le_trans hjk hk) (hpaired.pair hfree hj hjk hfj hfirst)
          | through hnone hn =>
              rw [if_neg hn]
              exact ⟨_, rfl, hpaired.outcome hfree hnone⟩
      · simp only [hfree, not_false_eq_true, decide_true, if_true]
        rw [← UInt32.ofNat_one, ← UInt32.ofNat_add]
        exact ih (by omega) hlt (hpaired.taken hfree)

/-! ## When the search is right -/

theorem LastBelow.unique {r r' : Nat} (h : LastBelow g k r) (h' : LastBelow g k r') : r = r' := by
  rcases Nat.lt_trichotomy r r' with hlt | heq | hgt
  · exact absurd h'.free (h.last r' hlt h'.below)
  · exact heq
  · exact absurd h.free (h'.last r hgt h.below)

theorem FirstFrom.unique {r r' : Nat} (h : FirstFrom g k r) (h' : FirstFrom g k r') :
    r = r' := by
  rcases Nat.lt_trichotomy r r' with hlt | heq | hgt
  · exact absurd h.free (h'.first r h.from_ hlt)
  · exact heq
  · exact absurd h'.free (h.first r' h'.from_ hgt)

/-- Without a free page from `k` on, the only block can be at page 0. -/
theorem block_iff_of_none (hnone : ∀ j, k ≤ j → ¬ Free g j) (hpos : 1 ≤ k) :
    (∃ i, Block g k i) ↔ freeBelow g k = k := by
  rw [freeBelow, Nat.count_iff_forall]
  constructor
  · rintro ⟨i, hi⟩
    cases i with
    | zero => exact fun j hj => by simpa using hi j hj
    | succ i =>
        have hlast := hi (k - 1) (by omega)
        exact absurd hlast (hnone _ (by omega))
  · intro hall
    exact ⟨0, fun j hj => by simpa using hall j hj⟩

theorem bitToAddr_toNat {r : Nat} (hr : r < 2 ^ 32) :
    (pageGroupBitToAddr g (UInt32.ofNat r)).toNat
      = (g.physicalBase.toNat + wrapped g r) % 2 ^ 64 := by
  unfold pageGroupBitToAddr
  rw [UInt64.toNat_add, UInt32.toNat_toUInt64, UInt32.toNat_mul, UInt32.toNat_ofNat_of_lt' hr,
    Nat.add_comm]
  rfl

/-- The sum either is the address, or the address is 0 or one in front of the group. -/
theorem answers_iff_begins {r : Nat} (hr : r < 2 ^ 32) :
    Answers g k (pageGroupBitToAddr g (UInt32.ofNat r)) ↔ Begins g k r := by
  have haddr := bitToAddr_toNat (g := g) hr
  have hbase := g.physicalBase.toNat_lt
  have hlt : wrapped g r < 2 ^ 32 := Nat.mod_lt _ (by decide)
  have hzero : pageGroupBitToAddr g (UInt32.ofNat r) = 0 ↔
      g.physicalBase.toNat + wrapped g r = 0 ∨ g.physicalBase.toNat + wrapped g r = 2 ^ 64 := by
    rw [← UInt64.toNat_inj, haddr, UInt64.toNat_zero]
    omega
  constructor
  · intro h
    by_cases hz : pageGroupBitToAddr g (UInt32.ofNat r) = 0
    · exact .zero (hzero.mp hz) (h.complete hz)
    · obtain ⟨i, hblock, heq⟩ := h.sound hz
      rw [hzero] at hz
      rw [haddr, pageAddress] at heq
      -- beyond the end of the address space the sum would fall in front of the group
      have hin : Addressed g r := ⟨by omega, by omega⟩
      have hprod : wrapped g r = i * g.pageSize.toNat := by
        rw [Nat.mod_eq_of_lt hin.2] at heq
        exact Nat.add_left_cancel heq
      by_cases hir : i = r
      · subst hir
        exact .block hblock (hprod ▸ hlt) hin
      · exact .shifted hir hprod hblock hin
  · intro h
    cases h with
    | block hblock hprod hin =>
        have hsum : (pageGroupBitToAddr g (UInt32.ofNat r)).toNat = pageAddress g r := by
          rw [haddr, Nat.mod_eq_of_lt hin.2, wrapped_of_lt hprod, pageAddress]
        refine ⟨fun _ => ⟨r, hblock, hsum⟩, fun hz => ?_⟩
        obtain ⟨hlow, hhigh⟩ := hin
        have hz' := hzero.mp hz
        omega
    | @shifted i hne hprod hblock hin =>
        have hsum : (pageGroupBitToAddr g (UInt32.ofNat r)).toNat = pageAddress g i := by
          rw [haddr, Nat.mod_eq_of_lt hin.2, wrapped, hprod, pageAddress]
        refine ⟨fun _ => ⟨i, hblock, hsum⟩, fun hz => ?_⟩
        obtain ⟨hlow, hhigh⟩ := hin
        have hz' := hzero.mp hz
        omega
    | zero hsum hnone => exact ⟨fun hne => absurd (hzero.mpr hsum) hne, fun _ => hnone⟩

theorem Charted.answers_iff_begins (h : Charted g) {r : Nat} (hr : Free g r) :
    Answers g k (pageGroupBitToAddr g (UInt32.ofNat r)) ↔ Begins g k r :=
  Mem.answers_iff_begins
    (Nat.lt_trans hr.1 (Nat.lt_trans h.numPages_lt (by decide)))

theorem Outcome.answers_iff {a : UInt64} (hg : Charted g) (h : Outcome g k a) (hpos : 1 ≤ k) :
    Answers g k a ↔ BlockCondition g k := by
  cases h with
  | odd hodd hlast =>
      constructor
      · intro hans
        refine ⟨fun _ r hr => ?_, fun heven => ?_, fun heven => ?_⟩
        · obtain rfl := hr.unique hlast
          exact (hg.answers_iff_begins hr.free).mp hans
        · exact absurd heven (Nat.not_even_iff_odd.mpr hodd)
        · exact absurd heven (Nat.not_even_iff_odd.mpr hodd)
      · intro hcond
        exact (hg.answers_iff_begins hlast.free).mpr (hcond.odd hodd _ hlast)
  | even heven hfirst =>
      constructor
      · intro hans
        refine ⟨fun hodd => ?_, fun _ r hr => ?_, fun _ hnone => ?_⟩
        · exact absurd heven (Nat.not_even_iff_odd.mpr hodd)
        · obtain rfl := hr.unique hfirst
          exact (hg.answers_iff_begins hr.free).mp hans
        · exact absurd hfirst (hnone _)
      · intro hcond
        exact (hg.answers_iff_begins hfirst.free).mpr (hcond.even heven _ hfirst)
  | none heven hnone =>
      have hblock := block_iff_of_none hnone hpos
      constructor
      · intro hans
        refine ⟨fun hodd => ?_, fun _ r hr => ?_, fun _ _ hcount => ?_⟩
        · exact absurd heven (Nat.not_even_iff_odd.mpr hodd)
        · exact absurd hr.free (hnone r hr.from_)
        · obtain ⟨i, hi⟩ := hblock.mpr hcount
          exact hans.complete rfl i hi
      · intro hcond
        refine ⟨fun hne => absurd rfl hne, fun _ i hi => ?_⟩
        exact hcond.none heven (fun r hr => hnone r hr.from_ hr.free) (hblock.mp ⟨i, hi⟩)

/-- In a group of less than 4 GiB at a base other than 0 page `r` has to begin the block
itself. -/
theorem begins_iff (hfits : Fits g) (hbase : g.physicalBase ≠ 0)
    (hprod : ∀ i < g.numPages.toNat, i * g.pageSize.toNat < 2 ^ 32) {r : Nat}
    (hr : r < g.numPages.toNat) : Begins g k r ↔ Block g k r := by
  have hpos : 0 < g.physicalBase.toNat :=
    Nat.pos_of_ne_zero fun hzero => hbase (UInt64.toNat_inj.mp hzero)
  have htop := hfits.wrapped_lt hr
  constructor
  · intro h
    cases h with
    | block hblock => exact hblock
    | @shifted i hne heq =>
        rw [Nat.mod_eq_of_lt (hprod r hr)] at heq
        exact absurd (Nat.eq_of_mul_eq_mul_right hfits.pageSize heq).symm hne
    | zero hsum => omega
  · intro h
    exact .block h (hprod r hr) ⟨by omega, htop⟩

/-- **The search is sound and complete** exactly if the page it stops at begins
a block, or there is none to stop at and no block. Where it stops is told by
the bitmap: at the last free page below `num_pages` if those are odd in number,
otherwise at the first free page from there on. That the search ends is part of
the theorem. -/
theorem block_search_iff (h : Charted g) {k : UInt32} (hone : 1 ≤ k) (hk : k ≤ g.numPages) :
    (∃ a, pageGroupGetPageBlock (some g) k = some a ∧ Answers g k.toNat a) ↔
      BlockCondition g k.toNat := by
  have hpos : 1 ≤ k.toNat := UInt32.le_iff_toNat_le.mp hone
  have hk' := UInt32.le_iff_toNat_le.mp hk
  have hstart : Paired g k.toNat 0 :=
    ⟨fun _ => by simp [freeBelow], fun hle => by omega, fun j _ hlt => by omega⟩
  obtain ⟨a, hblock, hout⟩ := h.block hk' (Nat.le_add_left _ 0) (Nat.zero_le _) hstart
  have hrange : ¬ (k < 1 ∨ k > g.numPages) := by
    rw [gt_iff_lt, UInt32.lt_iff_toNat_lt, UInt32.lt_iff_toNat_lt, UInt32.toNat_one]
    omega
  have hrun : pageGroupGetPageBlock (some g) k = some a := by
    rw [← hblock]
    exact if_neg hrange
  rw [← hout.answers_iff h hpos, hrun]
  simp

theorem block_search_iff_onePage : ∃ a,
    pageGroupGetPageBlock (some (freeGroup 4 4096)) 1 = some a ∧
      Answers (freeGroup 4 4096) 1 a := by
  have hcharted : Charted (freeGroup 4 4096) := ⟨⟨by decide, by decide⟩, rfl⟩
  refine (block_search_iff hcharted (by decide) (by decide)).mpr ⟨fun _ r hr => ?_, ?_, ?_⟩
  · obtain rfl : r = 0 := Nat.lt_one_iff.mp hr.below
    refine .block (fun j hj => ?_) (by decide) ⟨by decide, by decide⟩
    obtain rfl : j = 0 := Nat.lt_one_iff.mp hj
    exact ⟨by decide, rfl⟩
  · intro heven
    exact absurd heven (by decide)
  · intro heven
    exact absurd heven (by decide)

theorem third_page_found :
    pageGroupSetupBitmap (newGroup 4096) 0x4000 = some (freeGroup 4 4096) ∧
      pageGroupGetPageBlock (some (freeGroup 4 4096)) 3 = some 0x3000 ∧
      pageAddress (freeGroup 4 4096) 2 = 0x3000 ∧
      ¬ ∃ a, pageGroupGetPageBlock (some (freeGroup 4 4096)) 3 = some a ∧
        Answers (freeGroup 4 4096) 3 a := by
  refine ⟨rfl, rfl, rfl, ?_⟩
  rintro ⟨a, ha, hans⟩
  obtain rfl : 0x3000 = a := Option.some.inj ha
  obtain ⟨i, hi, haddr⟩ := hans.sound (by decide)
  have haddr' : 0x3000 = 4096 + i * 4096 := haddr
  obtain rfl : i = 2 := by omega
  exact absurd (hi 2 (by decide)).1 (by decide)

end VersionSix.Mem
