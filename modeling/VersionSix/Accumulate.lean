import Mathlib.Data.Set.Insert

/-!
# Operations that only add

What a state shows is a set of points, and an operation adds the same points in
every state (`Adds`). Then a loop of such operations is one again, and what it
adds depends on the members of its list only (`Adds.foldl`): the order of the
turns is of no importance, and neither is whether one of them is made twice.

The states themselves may differ in more than what they show, and usually do
after two loops in different orders; the statement is about `shown` alone. It
fits loops that mark pixels, set flags or collect names, where a turn looks at
the input and not at what was marked before.

A turn that is made only under a condition is one of these operations too, as
long as the condition does not look at the state (`Adds.ite`).
-/

namespace Accumulate

variable {σ α π : Type*} {shown : σ → Set π} {f : σ → σ} {S : Set π}

def Adds (shown : σ → Set π) (f : σ → σ) (S : Set π) : Prop := ∀ s, shown (f s) = shown s ∪ S

theorem Adds.ite {c : Prop} [Decidable c] (hf : Adds shown f S) :
    Adds shown (fun s => if c then f s else s) {x | c ∧ x ∈ S} := by
  intro s
  ext x
  by_cases hc : c
  · simp only [hc, if_true, hf s, true_and, Set.mem_union, Set.mem_ofPred_eq]
  · simp only [hc, if_false, false_and, Set.mem_union, Set.mem_ofPred_eq, or_false]

theorem Adds.foldl {turn : σ → α → σ} {S : α → Set π} (l : List α)
    (h : ∀ a ∈ l, Adds shown (turn · a) (S a)) :
    Adds shown (fun s => l.foldl turn s) {x | ∃ a ∈ l, x ∈ S a} := by
  induction l with
  | nil =>
      intro s
      ext x
      simp only [List.foldl_nil, List.not_mem_nil, false_and, exists_false, Set.mem_union,
        Set.mem_ofPred_eq, or_false]
  | cons a l ih =>
      obtain ⟨ha, hl⟩ := List.forall_mem_cons.mp h
      intro s
      show shown (l.foldl turn (turn s a)) = _
      rw [ih hl, ha]
      ext x
      simp only [Set.mem_union, Set.mem_ofPred_eq, List.mem_cons, or_and_right, exists_or,
        exists_eq_left, or_assoc]

end Accumulate
