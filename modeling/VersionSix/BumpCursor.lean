import Mathlib.Data.List.Basic

/-!
# Bump cursors

An allocator that takes nothing back hands out the blocks of a region one after
the other. Which ones they are follows from how many there were (`taken`), so
nothing has to be remembered of a run but a number. All blocks have the same
size; a block is its first address.

Blocks of one cursor are apart (`taken_apart`), and those of two cursors are if
their regions are (`apart_of_regions`). Both are facts of arithmetic on the
number of steps, with no induction over runs.

Where the cursor is a machine word, the blocks are read modulo a bound. They
stay below it as long as the last one ends inside the region (`room_of_taken`),
and only then is anything above true of them: a cursor that is compared with
nothing goes on into whatever lies behind its region.
-/

namespace BumpCursor

/-- The blocks that `n` steps of the cursor pass, the newest first. -/
def taken (size start : Nat) : Nat → List Nat
  | 0 => []
  | n + 1 => (start + size * n) :: taken size start n

/-- No address is in both blocks. -/
def Apart (size f g : Nat) : Prop := f + size ≤ g ∨ g + size ≤ f

instance Apart.decidable (size f g : Nat) : Decidable (Apart size f g) :=
  inferInstanceAs (Decidable (_ ∨ _))

variable {size start : Nat}

theorem length_taken (size start n : Nat) : (taken size start n).length = n := by
  induction n with
  | zero => rfl
  | succ n ih => rw [taken, List.length_cons, ih]

theorem taken_add (size start m n : Nat) :
    taken size start (m + n) = taken size (start + size * m) n ++ taken size start m := by
  induction n with
  | zero => rfl
  | succ n ih =>
      rw [← Nat.add_assoc, taken, taken, ih, Nat.mul_add, ← Nat.add_assoc]
      rfl

theorem taken_map {start' : Nat} {g g' : Nat → Nat}
    (h : ∀ i, g (start + size * i) = g' (start' + size * i)) (n : Nat) :
    (taken size start n).map g = (taken size start' n).map g' := by
  induction n with
  | zero => rfl
  | succ n ih => rw [taken, taken, List.map_cons, List.map_cons, ih, h]

theorem taken_inside {n f : Nat} (hf : f ∈ taken size start n) :
    start ≤ f ∧ f + size ≤ start + size * n := by
  induction n with
  | zero => cases hf
  | succ n ih =>
      rw [Nat.mul_succ]
      rcases List.mem_cons.mp hf with rfl | hf
      · exact ⟨Nat.le_add_right _ _, Nat.le_of_eq (Nat.add_assoc ..)⟩
      · have hin := ih hf
        omega

theorem first_mem_taken (size start n : Nat) : start ∈ taken size start (n + 1) := by
  induction n with
  | zero => exact List.mem_cons_self
  | succ n ih => exact List.mem_cons_of_mem _ ih

theorem taken_apart (size start n : Nat) : (taken size start n).Pairwise (Apart size) := by
  induction n with
  | zero => exact .nil
  | succ n ih => exact List.pairwise_cons.mpr ⟨fun f hf => .inr (taken_inside hf).2, ih⟩

theorem apart_of_regions {start' m n : Nat}
    (h : start + size * m ≤ start' ∨ start' + size * n ≤ start) :
    (taken size start m ++ taken size start' n).Pairwise (Apart size) := by
  refine List.pairwise_append.mpr ⟨taken_apart .., taken_apart .., fun f hf g hg => ?_⟩
  have hin := taken_inside hf
  have hin' := taken_inside hg
  unfold Apart
  omega

/-! ## The cursor as a word -/

variable {bound limit n : Nat}

theorem taken_mod (hroom : start + size * n ≤ limit) (hlimit : limit < bound) (hsize : 0 < size) :
    (taken size start n).map (· % bound) = taken size start n := by
  refine List.map_congr_left (g := id) (fun f hf => ?_) |>.trans (List.map_id _)
  have hin := taken_inside hf
  exact Nat.mod_eq_of_lt (by omega)

/-- If all blocks end inside the region, then so does the cursor. -/
theorem room_of_taken (hstart : start ≤ limit) (hlimit : limit < bound)
    (h : ∀ f ∈ (taken size start n).map (· % bound), f + size ≤ limit) :
    start + size * n ≤ limit := by
  induction n with
  | zero => exact hstart
  | succ n ih =>
      rw [taken, List.map_cons] at h
      have hn := ih fun f hf => h f (List.mem_cons_of_mem _ hf)
      have hlast := h _ List.mem_cons_self
      rw [Nat.mod_eq_of_lt (by omega)] at hlast
      rwa [Nat.mul_succ, ← Nat.add_assoc]

end BumpCursor
