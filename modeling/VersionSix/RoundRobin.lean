import Mathlib.Data.List.Perm.Subperm
import Mathlib.Data.List.Nodup
import Mathlib.Data.Nat.Find
import Mathlib.Data.Nat.ModEq

/-!
# Searching a ring

`n` positions in a ring, a test `ok` on positions, and a search that goes from
one position to the next until the test succeeds. The loop has no bound of its
own; with fuel, the ring is exhausted after `n` steps (`search_stuck`), and
what it finds is the first hit strictly after the start (`search_eq_some`). A
start that passes the test itself is found last: it comes up again after all
the others.

Positions are counted from the start as remainders, so that "first behind" is
an order on distances and not on indexes. When every position passes the test,
`n` searches in a row visit each position once (`orbit_count`): the search that
starts where the last one ended starves nobody.

The test is a parameter. A program whose test changes from one search to the
next uses `search_eq_some` for each of them; what stays fixed is the ring.
-/

namespace RoundRobin

/-- The position after `i`; the last one is followed by the first. -/
def next (n i : Nat) : Nat := if i + 1 < n then i + 1 else 0

def search (ok : Nat → Bool) (n : Nat) : Nat → Nat → Option Nat
  | 0, _ => none
  | fuel + 1, i => if ok (next n i) then some (next n i) else search ok n fuel (next n i)

/-! ## Positions as remainders -/

theorem next_lt {n i : Nat} (hi : i < n) : next n i < n := by
  unfold next
  split <;> omega

theorem next_eq_mod {n i : Nat} (hi : i < n) : next n i = (i + 1) % n := by
  unfold next
  split
  · rw [Nat.mod_eq_of_lt ‹_›]
  · rw [show i + 1 = n by omega, Nat.mod_self]

theorem next_add {n i d : Nat} (hi : i < n) : (next n i + d) % n = (i + (d + 1)) % n := by
  rw [next_eq_mod hi, Nat.mod_add_mod, Nat.add_assoc, Nat.add_comm 1 d]

/-! ## The search -/

/-- What the search finds is the first position after `i` that passes. -/
theorem search_eq_some {ok : Nat → Bool} {n fuel i j : Nat} (hi : i < n) :
    search ok n fuel i = some j ↔
      ∃ d < fuel, j = (i + (d + 1)) % n ∧ ok j ∧ ∀ e < d, ¬ ok ((i + (e + 1)) % n) := by
  induction fuel generalizing i with
  | zero => simp [search]
  | succ fuel ih =>
      unfold search
      rw [next_eq_mod hi]
      by_cases hok : ok ((i + 1) % n)
      · rw [if_pos hok]
        constructor
        · rintro ⟨rfl⟩
          exact ⟨0, by omega, rfl, hok, by omega⟩
        · rintro ⟨d, -, rfl, -, hbefore⟩
          cases d with
          | zero => rfl
          | succ d => exact absurd hok (hbefore 0 (by omega))
      · rw [if_neg hok, ← next_eq_mod hi, ih (next_lt hi)]
        constructor
        · rintro ⟨d, hd, rfl, hj, hbefore⟩
          rw [next_add hi] at hj ⊢
          refine ⟨d + 1, by omega, rfl, hj, fun e he => ?_⟩
          cases e with
          | zero => exact hok
          | succ e =>
              rw [← next_add hi]
              exact hbefore e (by omega)
        · rintro ⟨d, hd, rfl, hj, hbefore⟩
          cases d with
          | zero => exact absurd hj hok
          | succ d =>
              refine ⟨d, by omega, (next_add hi).symm, hj, fun e he => ?_⟩
              rw [next_add hi]
              exact hbefore (e + 1) (by omega)

theorem exists_first {ok : Nat → Bool} {n i : Nat} (hi : i < n) (hok : ∃ j < n, ok j) :
    ∃ d < n, ok ((i + (d + 1)) % n) ∧ ∀ e < d, ¬ ok ((i + (e + 1)) % n) := by
  obtain ⟨j, hj, hjok⟩ := hok
  have hex : ∃ d, ok ((i + (d + 1)) % n) := by
    refine ⟨j + n - i - 1, ?_⟩
    rw [show i + (j + n - i - 1 + 1) = j + n by omega, Nat.add_mod_right, Nat.mod_eq_of_lt hj]
    exact hjok
  refine ⟨Nat.find hex, ?_, Nat.find_spec hex, fun e he => Nat.find_min hex he⟩
  by_cases hle : i < j
  · refine lt_of_le_of_lt (Nat.find_min' hex (m := j - i - 1) ?_) (by omega)
    rw [show i + (j - i - 1 + 1) = j by omega, Nat.mod_eq_of_lt hj]
    exact hjok
  · refine lt_of_le_of_lt (Nat.find_min' hex (m := j + n - i - 1) ?_) (by omega)
    rw [show i + (j + n - i - 1 + 1) = j + n by omega, Nat.add_mod_right, Nat.mod_eq_of_lt hj]
    exact hjok

/-- A search that fails on fuel `n` fails on every fuel: the loop never ends. -/
theorem search_stuck {ok : Nat → Bool} {n i : Nat} (hi : i < n)
    (h : search ok n n i = none) (fuel : Nat) : search ok n fuel i = none := by
  refine Option.eq_none_iff_forall_ne_some.mpr fun j hj => ?_
  obtain ⟨d, -, rfl, hok, -⟩ := (search_eq_some hi).mp hj
  obtain ⟨d', hd', hok', hbefore⟩ := exists_first hi ⟨_, Nat.mod_lt _ (by omega), hok⟩
  rw [(search_eq_some hi).mpr ⟨d', hd', rfl, hok', hbefore⟩] at h
  cases h

/-! ## Going round once -/

theorem search_all {ok : Nat → Bool} {n i : Nat} (hi : i < n) (hok : ∀ j < n, ok j) :
    search ok n n i = some ((i + 1) % n) :=
  (search_eq_some hi).mpr ⟨0, by omega, rfl, hok _ (Nat.mod_lt _ (by omega)), by omega⟩

theorem orbit_nodup {n i : Nat} : ((List.range n).map fun d => (i + (d + 1)) % n).Nodup := by
  refine List.Nodup.map_on (fun d hd e he h => ?_) List.nodup_range
  rw [List.mem_range] at hd he
  have hmod : d + 1 ≡ e + 1 [MOD n] := Nat.ModEq.add_left_cancel' i h
  exact Nat.ModEq.eq_of_lt_of_lt (Nat.ModEq.add_right_cancel' 1 hmod) hd he

theorem orbit_count {n i j : Nat} (hi : i < n) (hj : j < n) :
    ((List.range n).map fun d => (i + (d + 1)) % n).count j = 1 := by
  refine List.count_eq_one_of_mem orbit_nodup ?_
  rw [List.mem_map]
  by_cases hlt : i < j
  · refine ⟨j - i - 1, List.mem_range.mpr (by omega), ?_⟩
    rw [show i + (j - i - 1 + 1) = j by omega, Nat.mod_eq_of_lt hj]
  · refine ⟨j + n - i - 1, List.mem_range.mpr (by omega), ?_⟩
    rw [show i + (j + n - i - 1 + 1) = j + n by omega, Nat.add_mod_right, Nat.mod_eq_of_lt hj]

end RoundRobin
