import Mathlib.Data.List.Basic

/-!
# Tables of bounded size

Loops that append to a table of `n` slots, where one that is full takes no
more: the append fails, and with it the rest of the loop. A loop over turns
that each append a list appends all of these lists (`foldlM_appendAll`), or
runs out of slots.

So a nest of loops that fills a table can be taken apart from the inside: first
what one turn appends, then what the loop over the turns does, up to the list
that the outermost one leaves (`bind_appendAll` for code in front of a loop).
Whether there is room is then a single question about the length of that list,
asked once at the end (`length_le_of_appendAll`), and not at every append.

The table is a list with a bound. Fixed slots and a counter, as a program has
them, are the first `length` slots of it.
-/

namespace BoundedTable

variable {α β : Type*} {n : Nat} {table xs ys : List α}

def append (n : Nat) (table : List α) (x : α) : Option (List α) :=
  if table.length < n then some (table ++ [x]) else none

def appendAll (n : Nat) (table xs : List α) : Option (List α) :=
  if table.length + xs.length ≤ n then some (table ++ xs) else none

theorem appendAll_nil (h : table.length ≤ n) : appendAll n table [] = some table := by
  rw [appendAll, if_pos (by simpa using h), List.append_nil]

theorem append_eq (x : α) : append n table x = appendAll n table [x] := by
  rw [append, appendAll, List.length_singleton]
  rfl

theorem appendAll_some (h : table.length + xs.length ≤ n) :
    appendAll n table xs = some (table ++ xs) :=
  if_pos h

theorem appendAll_eq_some {t : List α} :
    appendAll n table xs = some t ↔ table.length + xs.length ≤ n ∧ t = table ++ xs := by
  unfold appendAll
  split
  case isTrue h => simp [h, eq_comm]
  case isFalse h => simp [h]

theorem length_le_of_appendAll {t : List α} (h : appendAll n table xs = some t) :
    t.length ≤ n := by
  obtain ⟨hle, rfl⟩ := appendAll_eq_some.mp h
  rwa [List.length_append]

theorem appendAll_bind (n : Nat) (table xs ys : List α) :
    (appendAll n table xs).bind (fun t => appendAll n t ys) = appendAll n table (xs ++ ys) := by
  by_cases h : table.length + xs.length ≤ n
  · rw [appendAll_some h, Option.bind_some]
    simp only [appendAll, List.length_append, List.append_assoc, Nat.add_assoc]
  · have hall : ¬ table.length + (xs ++ ys).length ≤ n := by
      rw [List.length_append]
      omega
    rw [appendAll, if_neg h, appendAll, if_neg hall]
    rfl

/-- Two lists one after the other, the second by any code that appends it. -/
theorem bind_appendAll {f : List α → Option (List α)}
    (h : ∀ t : List α, t.length ≤ n → f t = appendAll n t ys) :
    (appendAll n table xs).bind f = appendAll n table (xs ++ ys) := by
  rw [← appendAll_bind]
  cases hxs : appendAll n table xs with
  | none => rfl
  | some t => exact h t (length_le_of_appendAll hxs)

/-- **The loop.** -/
theorem foldlM_appendAll {turn : List α → β → Option (List α)} {out : β → List α} {l : List β}
    (hturn : ∀ b ∈ l, ∀ t : List α, t.length ≤ n → turn t b = appendAll n t (out b))
    (htable : table.length ≤ n) :
    l.foldlM turn table = appendAll n table (l.flatMap out) := by
  induction l generalizing table with
  | nil => exact (appendAll_nil htable).symm
  | cons b l ih =>
      rw [List.foldlM_cons, List.flatMap_cons, hturn b (List.mem_cons_self ..) table htable]
      refine bind_appendAll fun t ht => ih (fun b' hb' => ?_) ht
      exact hturn b' (List.mem_cons_of_mem _ hb')

end BoundedTable
