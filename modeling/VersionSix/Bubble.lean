import Mathlib.Data.List.Perm.Basic
import Mathlib.Order.Lattice

/-!
# Sorting by exchange of neighbours

Bubble sort by a key, as passes over a list until one of them exchanges
nothing. A pass exchanges neighbours only when the second one has the smaller
key, so items with one key keep their order (`pass_filter`), and each exchange
takes away one inversion (`pass_inversions`): a number of passes beyond
`inversions` is never needed (`sort_spec`). The loop of the program has no
bound, so this is what makes it end.

In a sorted list that keeps the order of every key, the first item with a
property is the one with the least key, and of those the first in the original
list (`first_of_stable`). This is how a list that is sorted by priority and
searched from the front is used: the statement says who is found in terms of
the list before it was sorted, with no mention of passes.

Keys are from any linear order, and nothing is asked of the items.
-/

namespace Bubble

variable {α κ : Type*} [LinearOrder κ] (key : α → κ)

/-- One pass over `a :: l`, and whether it exchanged anything. -/
def pass : α → List α → List α × Bool
  | a, [] => ([a], false)
  | a, b :: l =>
      if key b < key a then (b :: (pass a l).1, true)
      else (a :: (pass b l).1, (pass b l).2)

/-- Passes until one exchanges nothing, at most as many as the first argument. -/
def sort : Nat → List α → Option (List α)
  | 0, _ => none
  | _ + 1, [] => some []
  | n + 1, a :: l => if (pass key a l).2 then sort n (pass key a l).1 else some (pass key a l).1

def inversions : List α → Nat
  | [] => 0
  | a :: l => l.countP (fun b => key b < key a) + inversions l

variable {key}

/-! ## One pass -/

theorem pass_perm (a : α) (l : List α) : (pass key a l).1.Perm (a :: l) := by
  induction l generalizing a with
  | nil => exact .refl _
  | cons b l ih =>
      rw [pass]
      split
      · exact ((ih a).cons b).trans (.swap ..)
      · exact (ih b).cons a

theorem pass_filter (a : α) (l : List α) (k : κ) :
    (pass key a l).1.filter (key · = k) = (a :: l).filter (key · = k) := by
  induction l generalizing a with
  | nil => rfl
  | cons b l ih =>
      rw [pass]
      split
      · next hlt =>
        rw [List.filter_cons, ih a, List.filter_cons, List.filter_cons, List.filter_cons]
        by_cases hb : key b = k
        · have ha : key a ≠ k := fun ha => hlt.ne (hb.trans ha.symm)
          simp [hb, ha]
        · simp [hb]
      · rw [List.filter_cons, ih b, List.filter_cons (x := a)]

theorem pass_of_not_swapped {a : α} {l : List α} (h : (pass key a l).2 = false) :
    (pass key a l).1 = a :: l ∧ (a :: l).Pairwise (key · ≤ key ·) := by
  induction l generalizing a with
  | nil => exact ⟨rfl, List.pairwise_singleton ..⟩
  | cons b l ih =>
      rw [pass] at h ⊢
      split at h
      · cases h
      · next hge =>
        obtain ⟨heq, hsorted⟩ := ih h
        rw [if_neg hge, heq]
        refine ⟨rfl, List.pairwise_cons.mpr ⟨fun c hc => ?_, hsorted⟩⟩
        rcases List.mem_cons.mp hc with rfl | hc
        · exact not_lt.mp hge
        · exact (not_lt.mp hge).trans (List.rel_of_pairwise_cons hsorted hc)

theorem pass_countP (a : α) (l : List α) (p : α → Bool) :
    (pass key a l).1.countP p = (a :: l).countP p :=
  (pass_perm a l).countP_eq p

/-- A pass adds no inversion, and takes one away when it exchanges anything. -/
theorem pass_inversions (a : α) (l : List α) :
    inversions key (pass key a l).1 + (if (pass key a l).2 then 1 else 0) ≤
      inversions key (a :: l) := by
  induction l generalizing a with
  | nil => exact Nat.le_refl _
  | cons b l ih =>
      rw [pass]
      split
      · next hlt =>
        -- the pair `a`, `b` is an inversion no more; `b` now stands before `a :: l`
        have ha := ih a
        rw [if_pos rfl, inversions, pass_countP, List.countP_cons_of_neg (by simpa using hlt.le)]
        rw [inversions] at ha
        rw [inversions, inversions, List.countP_cons_of_pos (by simpa using hlt)]
        omega
      · have hb := ih b
        simp only [inversions, pass_countP] at hb ⊢
        omega

/-! ## All passes -/

theorem sort_spec {n : Nat} {l : List α} (h : inversions key l < n) :
    ∃ l', sort key n l = some l' ∧ l'.Perm l ∧ l'.Pairwise (key · ≤ key ·) ∧
      ∀ k, l'.filter (key · = k) = l.filter (key · = k) := by
  induction n generalizing l with
  | zero => exact absurd h (Nat.not_lt_zero _)
  | succ n ih =>
      cases l with
      | nil => exact ⟨[], rfl, .refl _, .nil, fun _ => rfl⟩
      | cons a l =>
          rw [sort]
          split
          · next hswapped =>
            have hless : inversions key (pass key a l).1 + (if (pass key a l).2 then 1 else 0) ≤
                inversions key (a :: l) := pass_inversions a l
            rw [if_pos hswapped] at hless
            obtain ⟨l', hl', hperm, hsorted, hfilter⟩ := ih (l := (pass key a l).1) (by omega)
            exact ⟨l', hl', hperm.trans (pass_perm a l), hsorted,
              fun k => (hfilter k).trans (pass_filter a l k)⟩
          · next hkept =>
            obtain ⟨heq, hsorted⟩ := pass_of_not_swapped (Bool.not_eq_true _ ▸ hkept)
            rw [heq]
            exact ⟨_, rfl, .refl _, hsorted, fun _ => rfl⟩

theorem inversions_le (l : List α) : inversions key l ≤ l.length * l.length := by
  induction l with
  | nil => exact Nat.le_refl _
  | cons a l ih =>
      have hcount := List.countP_le_length (p := fun b => key b < key a) (l := l)
      have hsquare : (l.length + 1) * (l.length + 1) =
          l.length * l.length + l.length + l.length + 1 := Nat.succ_mul_succ ..
      rw [inversions, List.length_cons]
      omega

/-! ## Sorted lists that keep the order of every key -/

/-- `a` has the property, none before it has the property and a key as small,
and none behind it has the property and a smaller one. -/
def First (key : α → κ) (p : α → Bool) (l : List α) (a : α) : Prop :=
  ∃ l₁ l₂, l = l₁ ++ a :: l₂ ∧ p a = true ∧ (∀ b ∈ l₁, p b = true → key a < key b) ∧
    ∀ b ∈ l₂, p b = true → key a ≤ key b

theorem first_of_stable {l l' : List α} (hperm : l'.Perm l) (hsorted : l'.Pairwise (key · ≤ key ·))
    (hfilter : ∀ k, l'.filter (key · = k) = l.filter (key · = k)) {p : α → Bool} {a : α}
    (ha : l'.find? p = some a) : First key p l a := by
  obtain ⟨hp, l₁, l₂, rfl, hbefore⟩ := List.find?_eq_some_iff_append.mp ha
  have hleast : ∀ b ∈ l, p b = true → key a ≤ key b := by
    intro b hb hpb
    rcases List.mem_append.mp (hperm.mem_iff.mpr hb) with hb | hb
    · exact absurd hpb (by simpa using hbefore b hb)
    · rcases List.mem_cons.mp hb with rfl | hb
      · exact le_rfl
      · exact List.rel_of_pairwise_cons (List.pairwise_append.mp hsorted).2.1 hb
  -- among the items with the key of `a` it is the first with the property
  have hkey : (l.filter (key · = key a)).find? p = some a := by
    rw [← hfilter, List.filter_append, List.filter_cons_of_pos (by simp), List.find?_append,
      List.find?_eq_none.mpr fun b hb => by simpa using hbefore b (List.mem_filter.mp hb).1,
      Option.none_or, List.find?_cons_of_pos hp]
  rw [List.find?_filter] at hkey
  obtain ⟨-, m₁, m₂, rfl, hm⟩ := List.find?_eq_some_iff_append.mp hkey
  refine ⟨m₁, m₂, rfl, hp, fun b hb hpb => ?_, fun b hb hpb => hleast b (by simp [hb]) hpb⟩
  refine lt_of_le_of_ne (hleast b (by simp [hb]) hpb) fun heq => ?_
  simpa [← heq, hpb] using hm b hb

end Bubble
