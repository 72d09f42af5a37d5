import Mathlib.Algebra.BigOperators.Group.List.Basic
import Mathlib.Tactic.Ring

/-!
# One's complement sums

Numbers from 0 to `M`, added with an end-around carry; `M` is all ones. The sum
of some numbers is the one from 1 to `M` that is congruent to their total
modulo `M`, and 0 only if all of them are 0 (`sum_eq_rep`). So the order of the
summands and the moments at which the carry is folded in do not matter, as long
as no carry is lost on the way.

The complement of a total makes the sum `M` when it stands in the place of a 0
(`sum_place`, `rep_add_complement`): this is how a checksum that is stored in
its own field verifies. Sums of 0 and of `M` are congruent and still different,
which is why the representative is taken from 1 on; the exception for zeros is
the only one, and it is stated rather than avoided.

`M` is any number here. For checksums of 16-bit words it is 65535, and the
carry above it is what a shift and a mask take off.
-/

namespace OnesComplement

variable {M t x y : ℕ} {ws us vs : List ℕ}

def add (M x y : ℕ) : ℕ := if x + y > M then x + y - M else x + y

def sum (M : ℕ) (ws : List ℕ) : ℕ := ws.foldl (add M) 0

def rep (M t : ℕ) : ℕ := if t = 0 then 0 else (t - 1) % M + 1

theorem rep_zero (M : ℕ) : rep M 0 = 0 := if_pos rfl

theorem rep_pos (ht : 0 < t) : rep M t = (t - 1) % M + 1 := if_neg (Nat.ne_of_gt ht)

theorem rep_le (hM : 0 < M) (t : ℕ) : rep M t ≤ M := by
  unfold rep
  split
  · exact Nat.zero_le M
  · exact Nat.mod_lt _ hM

theorem rep_of_le (ht : t ≤ M) : rep M t = t := by
  rcases Nat.eq_zero_or_pos t with rfl | hpos
  · exact rep_zero M
  · rw [rep_pos hpos, Nat.mod_eq_of_lt (by omega)]
    omega

theorem rep_mul_add (q : ℕ) (hx : 0 < x) (hxM : x ≤ M) : rep M (M * q + x) = x := by
  have hpred : M * q + x - 1 = x - 1 + M * q := by omega
  rw [rep_pos (by omega), hpred, Nat.add_mul_mod_self_left, Nat.mod_eq_of_lt (by omega)]
  omega

/-- How far a total is from the number that stands for it. -/
theorem eq_mul_add_rep (M t : ℕ) : ∃ q, t = M * q + rep M t := by
  rcases Nat.eq_zero_or_pos t with rfl | hpos
  · exact ⟨0, by rw [rep_zero, Nat.mul_zero]⟩
  · have hdiv := Nat.div_add_mod (t - 1) M
    exact ⟨(t - 1) / M, by rw [rep_pos hpos]; omega⟩

theorem add_rep (hM : 0 < M) (hy : y ≤ M) : add M (rep M t) y = rep M (t + y) := by
  obtain ⟨q, hq⟩ := eq_mul_add_rep M t
  have hle := rep_le hM t
  unfold add
  split
  · next hcarry =>
      have hsplit : t + y = M * (q + 1) + (rep M t + y - M) := by
        rw [Nat.mul_add]
        omega
      rw [hsplit, rep_mul_add (q + 1) (by omega) (by omega)]
  · rcases Nat.eq_zero_or_pos (rep M t + y) with hzero | hpos
    · have hy0 : y = 0 := by omega
      rw [hy0, Nat.add_zero, Nat.add_zero]
    · have hsplit : t + y = M * q + (rep M t + y) := by omega
      rw [hsplit, rep_mul_add q hpos (by omega)]

theorem foldl_add (hM : 0 < M) (hws : ∀ w ∈ ws, w ≤ M) (t : ℕ) :
    ws.foldl (add M) (rep M t) = rep M (t + ws.sum) := by
  induction ws generalizing t with
  | nil => rfl
  | cons w ws ih =>
      rw [List.foldl_cons, add_rep hM (hws w (List.mem_cons_self ..)),
        ih (fun v hv => hws v (List.mem_cons_of_mem _ hv)), List.sum_cons, Nat.add_assoc]

/-- **The sum.** -/
theorem sum_eq_rep (hM : 0 < M) (hws : ∀ w ∈ ws, w ≤ M) : sum M ws = rep M ws.sum := by
  have hfold := foldl_add hM hws 0
  rwa [rep_zero, Nat.zero_add] at hfold

theorem sum_concat (ws : List ℕ) (w : ℕ) : sum M (ws ++ [w]) = add M (sum M ws) w := by
  rw [sum, List.foldl_append]
  rfl

theorem sum_place (hM : 0 < M) (hus : ∀ w ∈ us, w ≤ M) (hvs : ∀ w ∈ vs, w ≤ M) (hx : x ≤ M) :
    sum M (us ++ x :: vs) = rep M ((us ++ 0 :: vs).sum + x) := by
  have hall : ∀ w ∈ us ++ x :: vs, w ≤ M := by
    intro w hw
    rcases List.mem_append.mp hw with hw | hw
    · exact hus w hw
    · rcases List.mem_cons.mp hw with rfl | hw
      · exact hx
      · exact hvs w hw
  rw [sum_eq_rep hM hall]
  congr 1
  simp only [List.sum_append, List.sum_cons]
  ring

/-- The complement of a total is what is missing to a multiple of `M`. -/
theorem rep_add_complement (hM : 0 < M) (t : ℕ) : rep M (t + (M - rep M t)) = M := by
  obtain ⟨q, hq⟩ := eq_mul_add_rep M t
  have hle := rep_le hM t
  have hsplit : t + (M - rep M t) = M * q + M := by omega
  rw [hsplit, rep_mul_add q hM (Nat.le_refl M)]

theorem rep_add_complement_succ (hM : 0 < M) (t : ℕ) : rep M (t + (M - rep M t + 1)) = 1 := by
  obtain ⟨q, hq⟩ := eq_mul_add_rep M t
  have hle := rep_le hM t
  have hsplit : t + (M - rep M t + 1) = M * (q + 1) + 1 := by
    rw [Nat.mul_add]
    omega
  rw [hsplit, rep_mul_add (q + 1) Nat.one_pos hM]

end OnesComplement
