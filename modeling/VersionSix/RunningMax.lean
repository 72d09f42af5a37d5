import Mathlib.Data.List.Induction
import Mathlib.Order.Lattice

/-!
# Running maxima

One pass over a list that keeps the largest element so far and the one that it
took the place of. In the end the first is the first of the largest; the other
one is the first of the largest before it, and that is the second largest only
if one of those stands there (`former_iff`). An element that comes behind the
largest one is never looked at again, however large it is.

`run_spec` says what the pass has at its end in terms of where elements stand;
`former_iff` turns that into the condition under which the pass computes what
it is usually taken for. The elements are compared by a key with a strict
comparison, so of equal ones the first is kept.

The last part restricts a pass to the elements that satisfy a test, as a
program does that skips entries: it is the pass over the list without the
others.
-/

namespace RunningMax

variable {α β : Type*} [LinearOrder β]

structure Kept (α : Type*) where
  best : Option α
  former : Option α

def step (f : α → β) (s : Kept α) (a : α) : Kept α :=
  match s.best with
  | none => ⟨some a, none⟩
  | some m => if f m < f a then ⟨some a, some m⟩ else s

def run (f : α → β) (l : List α) : Kept α := l.foldl (step f) ⟨none, none⟩

def Largest (f : α → β) (l : List α) (m : α) : Prop := m ∈ l ∧ ∀ x ∈ l, f x ≤ f m

/-- The largest of those that are smaller than the largest. -/
def SecondLargest (f : α → β) (l : List α) (r : α) : Prop :=
  r ∈ l ∧ ∃ m, Largest f l m ∧ f r < f m ∧ ∀ x ∈ l, f x < f m → f x ≤ f r

/-- `m` is the first of the largest, behind `pre`. -/
structure FirstMax (f : α → β) (l pre : List α) (m : α) (post : List α) : Prop where
  split : l = pre ++ m :: post
  before : ∀ x ∈ pre, f x < f m
  behind : ∀ x ∈ post, f x ≤ f m

variable {f : α → β} {l pre post : List α} {m r : α}

theorem SecondLargest.of_eq (h : SecondLargest f l r) {p : α} (hp : p ∈ l) (heq : f p = f r) :
    SecondLargest f l p := by
  obtain ⟨-, m, hm, hlt, hbelow⟩ := h
  exact ⟨hp, m, hm, heq ▸ hlt, fun x hx hxm => heq ▸ hbelow x hx hxm⟩

theorem run_concat (f : α → β) (l : List α) (a : α) : run f (l ++ [a]) = step f (run f l) a :=
  List.foldl_append

theorem FirstMax.le (h : FirstMax f l pre m post) : ∀ x ∈ l, f x ≤ f m := by
  intro x hx
  rw [h.split] at hx
  rcases List.mem_append.mp hx with hx | hx
  · exact (h.before x hx).le
  · rcases List.mem_cons.mp hx with rfl | hx
    · exact le_rfl
    · exact h.behind x hx

theorem FirstMax.largest (h : FirstMax f l pre m post) : Largest f l m := by
  refine ⟨?_, h.le⟩
  rw [h.split]
  exact List.mem_append_right _ (List.mem_cons_self ..)

/-- **The pass.** -/
theorem run_spec (f : α → β) (hl : l ≠ []) :
    ∃ pre m post, FirstMax f l pre m post ∧ run f l = ⟨some m, (run f pre).best⟩ := by
  induction l using List.reverseRecOn with
  | nil => exact absurd rfl hl
  | append_singleton l a ih =>
      by_cases hnil : l = []
      · subst hnil
        exact ⟨[], a, [], ⟨rfl, by simp, by simp⟩, rfl⟩
      · obtain ⟨pre, m, post, hmax, hrun⟩ := ih hnil
        rw [run_concat, hrun]
        by_cases hlt : f m < f a
        · refine ⟨l, a, [], ⟨rfl, fun x hx => (hmax.le x hx).trans_lt hlt, by simp⟩, ?_⟩
          rw [hrun]
          exact if_pos hlt
        · refine ⟨pre, m, post ++ [a], ⟨?_, hmax.before, ?_⟩, if_neg hlt⟩
          · rw [hmax.split, List.append_assoc, List.cons_append]
          · intro x hx
            rcases List.mem_append.mp hx with hx | hx
            · exact hmax.behind x hx
            · rw [List.mem_singleton.mp hx]
              exact not_lt.mp hlt

theorem best_largest (hl : l ≠ []) : ∃ m, (run f l).best = some m ∧ Largest f l m := by
  obtain ⟨pre, m, post, hmax, hrun⟩ := run_spec f hl
  exact ⟨m, by rw [hrun], hmax.largest⟩

/-- An element that is smaller than the largest, with none larger before it,
stands before the first of the largest. -/
theorem FirstMax.mem_pre (h : FirstMax f l pre m post) {pre' post' : List α}
    (hsplit : l = pre' ++ r :: post') (hpre : ∀ x ∈ pre', f x ≤ f r) (hlt : f r < f m) :
    r ∈ pre := by
  have heq : (pre' ++ [r]) ++ post' = pre ++ m :: post := by
    rw [← h.split, hsplit, List.append_assoc, List.singleton_append]
  have hnot : m ∉ pre' ++ [r] := by
    intro hm
    rcases List.mem_append.mp hm with hm | hm
    · exact absurd ((hpre m hm).trans_lt hlt) (lt_irrefl _)
    · rw [List.mem_singleton.mp hm] at hlt
      exact absurd hlt (lt_irrefl _)
  have hmem : r ∈ pre' ++ [r] := List.mem_append_right _ (List.mem_singleton_self r)
  rcases List.append_eq_append_iff.mp heq with ⟨as, hpre', -⟩ | ⟨as, hpre', hrest⟩
  · rw [hpre']
    exact List.mem_append_left _ hmem
  · cases as with
    | nil =>
        rw [List.append_nil] at hpre'
        exact hpre' ▸ hmem
    | cons a as =>
        obtain ⟨rfl, -⟩ := List.cons.inj hrest
        exact absurd (hpre' ▸ List.mem_append_right _ (List.mem_cons_self ..)) hnot

/-- **The former one.** It is the second largest exactly if one of the second
largest has none of the largest before it. -/
theorem former_iff :
    (∃ p, (run f l).former = some p ∧ SecondLargest f l p) ↔
      ∃ pre r post, l = pre ++ r :: post ∧ (∀ x ∈ pre, f x ≤ f r) ∧ SecondLargest f l r := by
  constructor
  · rintro ⟨p, hformer, hsecond⟩
    have hl : l ≠ [] := List.ne_nil_of_mem hsecond.1
    obtain ⟨pre, m, post, hmax, hrun⟩ := run_spec f hl
    rw [hrun] at hformer
    have hpre : pre ≠ [] := by
      rintro rfl
      cases hformer
    obtain ⟨pre₁, p₁, post₁, hmax₁, hrun₁⟩ := run_spec f hpre
    rw [hrun₁] at hformer
    obtain rfl := Option.some.inj hformer
    refine ⟨pre₁, p₁, post₁ ++ m :: post, ?_, fun x hx => (hmax₁.before x hx).le, hsecond⟩
    rw [hmax.split, hmax₁.split, List.append_assoc, List.cons_append]
  · rintro ⟨pre', r, post', hsplit, hpre', hsecond⟩
    obtain ⟨pre, m, post, hmax, hrun⟩ := run_spec f (List.ne_nil_of_mem hsecond.1)
    obtain ⟨hr, m', hlargest, hlt, hbelow⟩ := hsecond
    have hsame : f m' = f m := le_antisymm (hmax.le m' hlargest.1) (hlargest.2 m hmax.largest.1)
    rw [hsame] at hlt hbelow
    have hmem : r ∈ pre := hmax.mem_pre hsplit hpre' hlt
    obtain ⟨p, hbest, hp, hple⟩ := best_largest (f := f) (List.ne_nil_of_mem hmem)
    have hpl : p ∈ l := hmax.split ▸ List.mem_append_left _ hp
    refine ⟨p, by rw [hrun, hbest], hpl, m, hmax.largest, hmax.before p hp, fun x hx hxm => ?_⟩
    exact (hbelow x hx hxm).trans (hple r hmem)

theorem best_mem (h : (run f l).best = some r) : r ∈ l := by
  rcases eq_or_ne l [] with rfl | hl
  · cases h
  · obtain ⟨m, hm, hlargest⟩ := best_largest (f := f) hl
    obtain rfl := Option.some.inj (hm.symm.trans h)
    exact hlargest.1

theorem former_mem (h : (run f l).former = some r) : r ∈ l ∧ ∃ m ∈ l, f r < f m := by
  have hl : l ≠ [] := by
    rintro rfl
    cases h
  obtain ⟨pre, m, post, hmax, hrun⟩ := run_spec f hl
  rw [hrun] at h
  have hpre : pre ≠ [] := by
    rintro rfl
    cases h
  obtain ⟨p, hbest, hp, -⟩ := best_largest (f := f) hpre
  rw [hbest] at h
  obtain rfl := Option.some.inj h
  refine ⟨?_, m, hmax.largest.1, hmax.before p hp⟩
  rw [hmax.split]
  exact List.mem_append_left _ hp

/-! ## A pass over some of the elements

It looks at those above a bound only: what is as large as one of them is one of
them. -/

section Filter

variable {p : α → Bool} (hp : ∀ x y, f x ≤ f y → p x → p y)

include hp

theorem Largest.of_filter (h : Largest f (l.filter p) m) : Largest f l m := by
  obtain ⟨hm, hpm⟩ := List.mem_filter.mp h.1
  refine ⟨hm, fun x hx => ?_⟩
  by_contra hlt
  have hpx : p x := hp m x (not_le.mp hlt).le hpm
  exact hlt (h.2 x (List.mem_filter.mpr ⟨hx, hpx⟩))

theorem secondLargest_filter_iff :
    SecondLargest f (l.filter p) r ↔ p r ∧ SecondLargest f l r := by
  constructor
  · rintro ⟨hr, m, hm, hlt, hbelow⟩
    obtain ⟨hr, hpr⟩ := List.mem_filter.mp hr
    refine ⟨hpr, hr, m, hm.of_filter hp, hlt, fun x hx hxm => ?_⟩
    by_contra hrx
    have hpx : p x := hp r x (not_le.mp hrx).le hpr
    exact hrx (hbelow x (List.mem_filter.mpr ⟨hx, hpx⟩) hxm)
  · rintro ⟨hpr, hr, m, ⟨hm, hle⟩, hlt, hbelow⟩
    have hpm : p m := hp r m hlt.le hpr
    refine ⟨List.mem_filter.mpr ⟨hr, hpr⟩, m, ⟨List.mem_filter.mpr ⟨hm, hpm⟩, ?_⟩, hlt, ?_⟩
    · intro x hx
      exact hle x (List.mem_filter.mp hx).1
    · intro x hx hxm
      exact hbelow x (List.mem_filter.mp hx).1 hxm

theorem split_filter_iff (hpr : p r) :
    (∃ pre post, l.filter p = pre ++ r :: post ∧ ∀ x ∈ pre, f x ≤ f r) ↔
      ∃ pre post, l = pre ++ r :: post ∧ ∀ x ∈ pre, f x ≤ f r := by
  constructor
  · rintro ⟨pre, post, hsplit, hle⟩
    obtain ⟨l₁, l₂, rfl, rfl, hl₂⟩ := List.filter_eq_append_iff.mp hsplit
    obtain ⟨l₃, l₄, rfl, hnot, -, -⟩ := List.filter_eq_cons_iff.mp hl₂
    refine ⟨l₁ ++ l₃, l₄, (List.append_assoc ..).symm, fun x hx => ?_⟩
    by_contra hrx
    have hpx : p x := hp r x (not_le.mp hrx).le hpr
    rcases List.mem_append.mp hx with hx | hx
    · exact hrx (hle x (List.mem_filter.mpr ⟨hx, hpx⟩))
    · exact hnot x hx hpx
  · rintro ⟨pre, post, rfl, hle⟩
    refine ⟨pre.filter p, post.filter p, ?_, fun x hx => hle x (List.mem_filter.mp hx).1⟩
    rw [List.filter_append, List.filter_cons_of_pos hpr]

theorem former_filter_iff :
    (∃ q, (run f (l.filter p)).former = some q ∧ SecondLargest f l q) ↔
      ∃ r, p r ∧ SecondLargest f l r ∧ ∃ pre post, l = pre ++ r :: post ∧ ∀ x ∈ pre, f x ≤ f r := by
  constructor
  · rintro ⟨q, hq, hsecond⟩
    have hpq : p q := (List.mem_filter.mp (former_mem hq).1).2
    obtain ⟨pre, r, post, hsplit, hle, hr⟩ :=
      former_iff.mp ⟨q, hq, (secondLargest_filter_iff hp).mpr ⟨hpq, hsecond⟩⟩
    obtain ⟨hpr, hr⟩ := (secondLargest_filter_iff hp).mp hr
    exact ⟨r, hpr, hr, (split_filter_iff hp hpr).mp ⟨pre, post, hsplit, hle⟩⟩
  · rintro ⟨r, hpr, hr, hfirst⟩
    obtain ⟨pre, post, hsplit, hle⟩ := (split_filter_iff hp hpr).mpr hfirst
    obtain ⟨q, hq, hsecond⟩ :=
      former_iff.mpr ⟨pre, r, post, hsplit, hle, (secondLargest_filter_iff hp).mpr ⟨hpr, hr⟩⟩
    exact ⟨q, hq, ((secondLargest_filter_iff hp).mp hsecond).2⟩

end Filter

end RunningMax
