import Mathlib.Data.Nat.ModEq
import Mathlib.Data.List.Rotate

/-!
# Circular buffers

A list used as a circular buffer: the items of the queue stand from a read
index on, around the end; the next one goes behind them. What stands in the
other cells does not matter, so neither a push nor a pop has to clear anything.

Items are read as a rotation of the buffer, cut after their number. Then a pop
is a step of the index (`items_pop`) and a push a store behind the last item,
both as equations of lists, and wrapping around is the rotation's business.

The number of items is given separately from the two indexes, and has to be:
when the indexes are equal the buffer is empty or full, and an index alone does
not tell which. A program that judges by comparing its indexes is wrong in one
of these cases, or when one index has wrapped around and the other has not.
-/

namespace Ring

variable {α : Type*} {buffer : List α} {r n : Nat}

/-- The `n` items from the index `r` on. -/
def items (buffer : List α) (r n : Nat) : List α := (buffer.rotate r).take n

@[simp] theorem items_zero (buffer : List α) (r : Nat) : items buffer r 0 = [] := List.take_zero

theorem items_length (h : n ≤ buffer.length) : (items buffer r n).length = n := by
  rw [items, List.length_take, List.length_rotate, Nat.min_eq_left h]

theorem items_getElem? {i : Nat} (hi : i < n) (hn : n ≤ buffer.length) :
    (items buffer r n)[i]? = buffer[(i + r) % buffer.length]? := by
  rw [items, List.getElem?_take_of_lt hi, List.getElem?_rotate (hi.trans_le hn)]

theorem index_ne {k i j : Nat} (hi : i < k) (hj : j < k) (h : i ≠ j) :
    (i + r) % k ≠ (j + r) % k := by
  intro heq
  have hmod : i % k = j % k := Nat.ModEq.add_right_cancel' r heq
  rw [Nat.mod_eq_of_lt hi, Nat.mod_eq_of_lt hj] at hmod
  exact h hmod

theorem items_push (hn : n < buffer.length) (a : α) :
    items (buffer.set ((r + n) % buffer.length) a) r (n + 1) = items buffer r n ++ [a] := by
  have hset : (buffer.set ((r + n) % buffer.length) a).length = buffer.length := List.length_set
  have hlen : (items buffer r n).length = n := items_length hn.le
  refine List.ext_getElem? fun i => ?_
  rcases lt_trichotomy i n with hi | rfl | hi
  · rw [items_getElem? (Nat.lt_succ_of_lt hi) (hset.symm ▸ hn), hset,
      List.getElem?_append_left (hlen.symm ▸ hi), items_getElem? hi hn.le, Nat.add_comm r n,
      List.getElem?_set_ne (index_ne (r := r) hn (hi.trans hn) hi.ne')]
  · have hlt : (r + i) % buffer.length < buffer.length := Nat.mod_lt _ (Nat.zero_lt_of_lt hn)
    rw [items_getElem? (Nat.lt_succ_self i) (hset.symm ▸ hn), hset, Nat.add_comm i r,
      List.getElem?_set_self hlt, List.getElem?_append_right hlen.le, hlen, Nat.sub_self]
    rfl
  · have hnew : (items (buffer.set ((r + n) % buffer.length) a) r (n + 1)).length = n + 1 :=
      items_length (hset.symm ▸ hn)
    rw [List.getElem?_eq_none (by omega), List.getElem?_eq_none]
    rw [List.length_append, hlen, List.length_singleton]
    omega

/-- The first item is at the read index; the others stand from the next one on. -/
theorem items_pop (hr : r < buffer.length) (hn : n < buffer.length) :
    ∃ a, buffer[r]? = some a ∧
      items buffer r (n + 1) = a :: items buffer ((r + 1) % buffer.length) n := by
  refine ⟨buffer[r], List.getElem?_eq_getElem hr, List.ext_getElem? fun i => ?_⟩
  rcases lt_or_ge i (n + 1) with hi | hi
  · rw [items_getElem? hi hn]
    cases i with
    | zero => rw [Nat.zero_add, Nat.mod_eq_of_lt hr, List.getElem?_eq_getElem hr]; rfl
    | succ i =>
        rw [List.getElem?_cons_succ, items_getElem? (Nat.lt_of_succ_lt_succ hi) hn.le,
          Nat.add_mod_mod, Nat.add_right_comm, Nat.add_assoc]
  · rw [List.getElem?_eq_none (by rw [items_length hn]; exact hi), List.getElem?_eq_none]
    rw [List.length_cons, items_length hn.le]
    exact hi

/-- What is written over the first item does not change the others. -/
theorem items_set_first (hr : r < buffer.length) (hn : n < buffer.length) (a : α) :
    items (buffer.set r a) ((r + 1) % buffer.length) n =
      items buffer ((r + 1) % buffer.length) n := by
  have hset : (buffer.set r a).length = buffer.length := List.length_set
  refine List.ext_getElem? fun i => ?_
  rcases lt_or_ge i n with hi | hi
  · have hne : r ≠ (i + (r + 1) % buffer.length) % buffer.length := by
      have hoff := index_ne (r := r) (Nat.zero_lt_of_lt hn)
        (show i + 1 < buffer.length by omega) (Nat.succ_ne_zero i).symm
      rw [Nat.zero_add, Nat.mod_eq_of_lt hr] at hoff
      rwa [Nat.add_mod_mod, Nat.add_comm r 1, ← Nat.add_assoc]
    rw [items_getElem? hi (hset.symm ▸ hn.le), items_getElem? hi hn.le, hset,
      List.getElem?_set_ne hne]
  · rw [List.getElem?_eq_none, List.getElem?_eq_none]
    · rwa [items_length hn.le]
    · rwa [items_length (hset.symm ▸ hn.le)]

end Ring
