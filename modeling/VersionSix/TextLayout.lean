import VersionSix.PathText

/-!
# Text in lines

The lines of a text that is broken at every `sep` and where a line has `n`
characters, and the last `m` of these lines in a window. A text none of whose
pieces is longer than a line is broken at the separators alone
(`layout_eq_fields`).

A full line is broken when the next character comes, not when the line becomes
full: a separator behind exactly `n` characters ends the line and starts no
empty one. Programs that move to the next row as soon as the last column is
written differ from this in just that case, and the definition is made so that
the difference shows.

`layout` reads with an accumulator, as a terminal does. Characters are any
type, and what a line looks like on a screen (blanks behind its end, colours)
is left to whoever shows it.
-/

namespace TextLayout

open PathText

section Layout

variable {α : Type*} [DecidableEq α] {sep : α} {n : Nat}

/-- The lines, where `cur` is what was read of the first. -/
def layout (sep : α) (n : Nat) (cur : List α) : List α → List (List α)
  | [] => [cur]
  | x :: xs =>
      if x = sep then cur :: layout sep n [] xs
      else if cur.length = n then cur :: layout sep n [x] xs
      else layout sep n (cur ++ [x]) xs

theorem cur_length_le (acc xs : List α) (h : ∀ f ∈ fields sep acc xs, f.length ≤ n) :
    acc.length ≤ n := by
  induction xs generalizing acc with
  | nil => exact h acc (List.mem_singleton_self acc)
  | cons x xs ih =>
      by_cases hx : x = sep
      · subst hx
        rw [fields_sep] at h
        exact h acc (List.mem_cons_self ..)
      · rw [fields_of_ne hx] at h
        have hle := ih (acc ++ [x]) h
        rw [List.length_append] at hle
        exact Nat.le_of_add_right_le hle

theorem layout_eq_fields {cur xs : List α} (h : ∀ f ∈ fields sep cur xs, f.length ≤ n) :
    layout sep n cur xs = fields sep cur xs := by
  induction xs generalizing cur with
  | nil => rfl
  | cons x xs ih =>
      by_cases hx : x = sep
      · subst hx
        rw [fields_sep] at h ⊢
        rw [layout, if_pos rfl, ih fun f hf => h f (List.mem_cons_of_mem _ hf)]
      · rw [fields_of_ne hx] at h ⊢
        have hle := cur_length_le _ _ h
        rw [List.length_append, List.length_singleton] at hle
        rw [layout, if_neg hx, if_neg (by omega), ih h]

end Layout

/-! ## The window -/

variable {α : Type*} {m : Nat}

/-- Line `i` of the last `m` lines. -/
def shownLine (m : Nat) (lines : List (List α)) (i : Nat) : List α :=
  lines.getD (lines.length - m + i) []

theorem getD_concat (l : List α) (x d : α) (k : Nat) :
    (l ++ [x]).getD k d = if k = l.length then x else l.getD k d := by
  rcases Nat.lt_trichotomy k l.length with hlt | rfl | hgt
  · rw [if_neg (by omega), List.getD, List.getElem?_append_left hlt]
    rfl
  · simp
  · have hlen : (l ++ [x]).length ≤ k := by
      rw [List.length_append, List.length_singleton]
      exact hgt
    rw [if_neg (by omega), List.getD, List.getD, List.getElem?_eq_none hlen,
      List.getElem?_eq_none hgt.le]

theorem shownLine_concat (closed : List (List α)) (cur : List α) (i : Nat) :
    shownLine m (closed ++ [cur]) i =
      if closed.length + 1 - m + i = closed.length then cur
      else closed.getD (closed.length + 1 - m + i) [] := by
  rw [shownLine, List.length_append, List.length_singleton, getD_concat]

/-- A new line in a window that is full moves the others up. -/
theorem shownLine_scroll {closed : List (List α)} {cur : List α} (h : m ≤ closed.length + 1)
    {i : Nat} (hi : i + 1 < m) :
    shownLine m (closed ++ [cur] ++ [[]]) i = shownLine m (closed ++ [cur]) (i + 1) := by
  rw [shownLine_concat, shownLine, List.length_append, List.length_singleton, if_neg (by omega)]
  congr 1
  omega

theorem shownLine_last {closed : List (List α)} (h : m ≤ closed.length + 1) (hm : 1 ≤ m) :
    shownLine m (closed ++ [[]]) (m - 1) = [] := by
  rw [shownLine_concat, if_pos (by omega)]

theorem shownLine_next {closed : List (List α)} {cur : List α} (h : closed.length + 1 < m)
    (i : Nat) :
    shownLine m (closed ++ [cur] ++ [[]]) i = shownLine m (closed ++ [cur]) i := by
  rw [shownLine_concat, shownLine, List.length_append, List.length_singleton]
  have hleft : closed.length + 1 + 1 - m = 0 := by omega
  have hright : closed.length + 1 - m = 0 := by omega
  rw [hleft, hright, Nat.zero_add]
  by_cases hi : i = closed.length + 1
  · subst hi
    rw [if_pos rfl]
    simp
  · rw [if_neg hi]

end TextLayout
