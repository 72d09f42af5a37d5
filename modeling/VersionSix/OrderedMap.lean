import Mathlib.Data.List.Basic

/-!
# Finite maps in the order of insertion

An association list in which a new key goes to the end and a known one keeps
its place. `get_put` and `get_remove` say what an operation changes for every
key, `keys_put` and `keys_remove` in which order the keys are left. Iteration
is the list itself, so a program whose iteration order is part of its contract
can be compared with it directly.

Keys are not required to differ. The operations keep them different where they
were, and `get` finds the first of several; a list that is split around a key
it has once is what most proofs about a linked implementation start from
(`get_split`, `put_split`).

Nothing here is about hashes or buckets: which keys count as equal is decided
by equality.
-/

namespace OrderedMap

variable {K V : Type*}

def keys (xs : List (K × V)) : List K := xs.map Prod.fst

@[simp] theorem keys_cons (x : K × V) (xs : List (K × V)) : keys (x :: xs) = x.1 :: keys xs := rfl

@[simp] theorem keys_append (xs ys : List (K × V)) : keys (xs ++ ys) = keys xs ++ keys ys :=
  List.map_append

variable [DecidableEq K]

def get (k : K) (xs : List (K × V)) : Option V := (xs.find? fun x => x.1 = k).map Prod.snd

def put (k : K) (v : V) : List (K × V) → List (K × V)
  | [] => [(k, v)]
  | x :: xs => if x.1 = k then (k, v) :: xs else x :: put k v xs

def remove (k : K) (xs : List (K × V)) : List (K × V) := xs.filter fun x => x.1 ≠ k

variable {k : K} {v : V} {xs ys : List (K × V)}

/-! ## Known and new keys -/

theorem get_of_not_mem (h : k ∉ keys xs) : get k xs = none := by
  rw [get, Option.map_eq_none_iff, List.find?_eq_none]
  intro x hx
  rw [decide_eq_true_eq]
  rintro rfl
  exact h (List.mem_map_of_mem hx)

theorem get_split (v : V) (h : k ∉ keys xs) : get k (xs ++ (k, v) :: ys) = some v := by
  have hxs := get_of_not_mem h
  unfold get at hxs ⊢
  rw [List.find?_append, Option.map_eq_none_iff.mp hxs, Option.none_or,
    List.find?_cons_of_pos (by simp)]
  rfl

theorem put_of_not_mem (v : V) (h : k ∉ keys xs) : put k v xs = xs ++ [(k, v)] := by
  induction xs with
  | nil => rfl
  | cons x xs ih =>
      rw [keys_cons, List.mem_cons, not_or] at h
      rw [put, if_neg (Ne.symm h.1), ih h.2]
      rfl

theorem put_split (v v' : V) (h : k ∉ keys xs) :
    put k v' (xs ++ (k, v) :: ys) = xs ++ (k, v') :: ys := by
  induction xs with
  | nil => exact if_pos rfl
  | cons x xs ih =>
      rw [keys_cons, List.mem_cons, not_or] at h
      rw [List.cons_append, put, if_neg (Ne.symm h.1), ih h.2]
      rfl

theorem remove_of_not_mem (h : k ∉ keys xs) : remove k xs = xs := by
  refine List.filter_eq_self.mpr fun x hx => ?_
  rw [decide_eq_true_eq]
  rintro rfl
  exact h (List.mem_map_of_mem hx)

theorem remove_split (v : V) (hxs : k ∉ keys xs) (hys : k ∉ keys ys) :
    remove k (xs ++ (k, v) :: ys) = xs ++ ys := by
  have hx := remove_of_not_mem hxs
  have hy := remove_of_not_mem hys
  unfold remove at hx hy ⊢
  rw [List.filter_append, List.filter_cons_of_neg (by simp), hx, hy]

/-! ## Laws -/

theorem get_put (k k' : K) (v : V) (xs : List (K × V)) :
    get k' (put k v xs) = if k' = k then some v else get k' xs := by
  induction xs with
  | nil =>
      by_cases h : k' = k
      · simp [put, get, h]
      · simp [put, get, h, Ne.symm h]
  | cons x xs ih =>
      unfold get at ih ⊢
      rw [put]
      by_cases hx : x.1 = k
      · subst hx
        rw [if_pos rfl]
        by_cases h : k' = x.1
        · simp [h]
        · simp [h, Ne.symm h]
      · rw [if_neg hx]
        by_cases h : x.1 = k'
        · subst h
          simp [hx]
        · simpa [h] using ih

theorem get_remove (k k' : K) (xs : List (K × V)) :
    get k' (remove k xs) = if k' = k then none else get k' xs := by
  unfold get remove
  rw [List.find?_filter]
  by_cases h : k' = k
  · subst h
    rw [if_pos rfl, Option.map_eq_none_iff, List.find?_eq_none]
    simp
  · rw [if_neg h]
    congr 2
    funext x
    by_cases hx : x.1 = k'
    · simp [hx, h]
    · simp [hx]

theorem keys_put (k : K) (v : V) (xs : List (K × V)) :
    keys (put k v xs) = if k ∈ keys xs then keys xs else keys xs ++ [k] := by
  by_cases h : k ∈ keys xs
  · rw [if_pos h]
    induction xs with
    | nil => cases h
    | cons x xs ih =>
        rw [put]
        by_cases hx : x.1 = k
        · rw [if_pos hx, keys_cons, keys_cons, hx]
        · rw [if_neg hx, keys_cons, keys_cons, ih]
          exact (List.mem_cons.mp h).resolve_left (Ne.symm hx)
  · rw [if_neg h, put_of_not_mem v h, keys_append]
    rfl

theorem keys_remove (k : K) (xs : List (K × V)) :
    keys (remove k xs) = (keys xs).filter fun k' => k' ≠ k := by
  rw [keys, keys, remove, List.filter_map]
  rfl

theorem length_put_le (k : K) (v : V) (xs : List (K × V)) :
    (put k v xs).length ≤ xs.length + 1 := by
  have h := congrArg List.length (keys_put k v xs)
  rw [keys, List.length_map] at h
  rw [h]
  split <;> simp [keys]

end OrderedMap
