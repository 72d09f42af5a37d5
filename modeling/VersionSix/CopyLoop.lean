import Mathlib.Data.List.Induction
import Mathlib.Logic.Function.Basic

/-!
# Loops of assignments

A loop that assigns one entry of a memory in each turn, with values fixed
before it. An entry no turn assigns is kept (`copies_other`); one whose turns
agree has their value (`copies_agree`), in whatever order they are made. Nested
loops over rows and columns are one list of turns.

A loop that copies within the memory is another matter, since a turn may read
what an earlier one has assigned. It is the same as the loop with fixed values
as long as no turn does (`moves_eq_copies`). For overlapping areas that is a
condition on the direction of the loop, and a program that chooses its
direction by comparing positions establishes just this.

Entries are from any type with decidable equality, and so are values.
-/

namespace CopyLoop

open Function (update)

variable {α β κ : Type*} [DecidableEq κ] {dst src : α → κ} {val : α → β} {l l' : List α}
  {m : κ → β} {k : κ}

def copies (dst : α → κ) (val : α → β) (l : List α) (m : κ → β) : κ → β :=
  l.foldl (fun m a => update m (dst a) (val a)) m

theorem copies_append : copies dst val (l ++ l') m = copies dst val l' (copies dst val l m) :=
  List.foldl_append

theorem copies_other (h : ∀ a ∈ l, dst a ≠ k) : copies dst val l m k = m k := by
  induction l generalizing m with
  | nil => rfl
  | cons a l ih =>
      obtain ⟨ha, hl⟩ := List.forall_mem_cons.mp h
      rw [copies, List.foldl_cons]
      exact (ih hl).trans (Function.update_of_ne ha.symm _ _)

theorem copies_agree {a : α} (ha : a ∈ l) (h : ∀ b ∈ l, dst b = dst a → val b = val a) :
    copies dst val l m (dst a) = val a := by
  induction l using List.reverseRecOn with
  | nil => cases ha
  | append_singleton l c ih =>
      rw [copies_append]
      show update (copies dst val l m) (dst c) (val c) (dst a) = val a
      by_cases hc : dst c = dst a
      · rw [← hc, Function.update_self]
        exact h c (List.mem_append_right _ (List.mem_singleton_self c)) hc
      · rw [Function.update_of_ne (Ne.symm hc)]
        rcases List.mem_append.mp ha with ha | ha
        · exact ih ha fun b hb => h b (List.mem_append_left _ hb)
        · exact absurd (congrArg dst (List.mem_singleton.mp ha)).symm hc

/-! ## Within one memory -/

def moves (dst src : α → κ) (l : List α) (m : κ → β) : κ → β :=
  l.foldl (fun m a => update m (dst a) (m (src a))) m

theorem moves_append : moves dst src (l ++ l') m = moves dst src l' (moves dst src l m) :=
  List.foldl_append

theorem moves_map {γ : Type*} (g : γ → α) (l : List γ) :
    moves dst src (l.map g) m = moves (dst ∘ g) (src ∘ g) l m :=
  List.foldl_map

theorem moves_eq_copies (h : l.Pairwise fun a b => dst a ≠ src b) :
    moves dst src l m = copies dst (m ∘ src) l m := by
  induction l using List.reverseRecOn with
  | nil => rfl
  | append_singleton l c ih =>
      obtain ⟨hl, -, hc⟩ := List.pairwise_append.mp h
      have hsame : copies dst (m ∘ src) l m (src c) = m (src c) :=
        copies_other fun a ha => hc a ha c (List.mem_singleton_self c)
      rw [moves_append, copies_append, ih hl]
      show update (copies dst (m ∘ src) l m) (dst c) (copies dst (m ∘ src) l m (src c)) =
        update (copies dst (m ∘ src) l m) (dst c) (m (src c))
      rw [hsame]

end CopyLoop
