import Mathlib.Data.List.Infix
import Mathlib.Data.List.Induction

/-!
# Paths as text

A path is a list of names. Its text is every name behind a separator; the path
without names is the separator alone. Names are not empty and do not contain
the separator, so the text determines the path: `words` reads the names back
(`words_render`). It takes any text: a separator more than needed changes
nothing, and neither does one at the end.

Two readers are kept apart, since programs use both. `words` collects what is
not a separator and drops empty names. `fields` gives what stands between the
separators, also where it is empty; the words are the fields that are not
(`words_eq_filter`). Both are written with an accumulator, as a loop over the
characters with a buffer is, and the lemmas about them are by induction on the
text with the accumulator generalized.

Characters are a type parameter: only equality with the separator is decided.
-/

namespace PathText

variable {α : Type*} {sep : α}

def joined (sep : α) : List (List α) → List α
  | [] => []
  | c :: cs => sep :: c ++ joined sep cs

def render (sep : α) (cs : List (List α)) : List α := if cs = [] then [sep] else joined sep cs

def Names (sep : α) (cs : List (List α)) : Prop := ∀ c ∈ cs, c ≠ [] ∧ sep ∉ c

theorem render_of_ne {cs : List (List α)} (h : cs ≠ []) : render sep cs = joined sep cs := if_neg h

theorem render_cons (c : List α) (cs : List (List α)) :
    render sep (c :: cs) = sep :: c ++ joined sep cs := render_of_ne (List.cons_ne_nil c cs)

theorem joined_append (ps qs : List (List α)) :
    joined sep (ps ++ qs) = joined sep ps ++ joined sep qs := by
  induction ps with
  | nil => rfl
  | cons p ps ih => simp only [List.cons_append, joined, ih, List.append_assoc]

theorem joined_concat (cs : List (List α)) (c : List α) :
    joined sep (cs ++ [c]) = joined sep cs ++ sep :: c := by
  rw [joined_append]
  simp only [joined, List.append_nil]

theorem length_le_joined (sep : α) (cs : List (List α)) : cs.length ≤ (joined sep cs).length := by
  induction cs with
  | nil => exact Nat.le_refl 0
  | cons c cs ih =>
      simp only [joined, List.length_cons, List.cons_append, List.length_append]
      omega

theorem Names.cons {c : List α} {cs : List (List α)} (h : Names sep (c :: cs)) :
    (c ≠ [] ∧ sep ∉ c) ∧ Names sep cs := by
  simpa only [Names, List.forall_mem_cons] using h

theorem Names.parent {ps cs : List (List α)} (h : Names sep (ps ++ cs)) : Names sep ps :=
  fun c hc => h c (List.mem_append_left cs hc)

/-- No path but the empty one is the separator alone: names are not empty. -/
theorem joined_ne_sep {cs : List (List α)} (h : Names sep cs) : joined sep cs ≠ [sep] := by
  cases cs with
  | nil => exact (List.cons_ne_nil _ _).symm
  | cons c cs =>
      obtain ⟨⟨hne, -⟩, -⟩ := h.cons
      simp [joined, hne]

theorem render_eq_sep_iff {cs : List (List α)} (h : Names sep cs) :
    render sep cs = [sep] ↔ cs = [] := by
  constructor
  · intro hsep
    by_contra hne
    rw [render_of_ne hne] at hsep
    exact joined_ne_sep h hsep
  · rintro rfl
    rfl

theorem render_concat (cs : List (List α)) (c : List α) :
    render sep (cs ++ [c]) = (if cs = [] then [sep] else render sep cs ++ [sep]) ++ c := by
  have hne : cs ++ [c] ≠ [] := List.append_ne_nil_of_right_ne_nil _ (List.cons_ne_nil _ _)
  rw [render_of_ne hne, joined_concat]
  split
  · next hnil =>
    rw [hnil]
    rfl
  · next hcs =>
    rw [render_of_ne hcs, List.append_assoc]
    rfl

theorem render_take_succ {cs : List (List α)} {n : Nat} (h : n < cs.length) :
    (if 0 < n then render sep (cs.take n) ++ [sep] else render sep (cs.take n)) ++ cs[n] =
      render sep (cs.take (n + 1)) := by
  have htake : cs.take (n + 1) = cs.take n ++ [cs[n]] := (List.take_append_getElem h).symm
  have hempty : cs.take n = [] ↔ ¬ 0 < n := by
    rw [List.take_eq_nil_iff]
    constructor
    · rintro (h0 | rfl)
      · omega
      · exact absurd h (Nat.not_lt_zero n)
    · exact fun h0 => .inl (by omega)
  rw [htake, render_concat]
  by_cases hn : 0 < n
  · rw [if_pos hn, if_neg fun hnil => hempty.mp hnil hn]
  · rw [if_neg hn, if_pos (hempty.mpr hn), hempty.mpr hn]
    rfl

theorem length_render_le (sep : α) {ps cs : List (List α)} (h : ps <+: cs) :
    (render sep ps).length ≤ (render sep cs).length := by
  obtain ⟨qs, rfl⟩ := h
  cases ps with
  | nil =>
      cases qs with
      | nil => exact Nat.le_refl _
      | cons q qs =>
          rw [List.nil_append, render_cons]
          simp [render]
  | cons p ps =>
      rw [List.cons_append, render_cons, render_cons, joined_append]
      simp only [List.length_append]
      omega

/-- What is behind a name starts with a separator, if there is anything. -/
theorem joined_head (cs : List (List α)) : joined sep cs = [] ∨ ∃ t, joined sep cs = sep :: t := by
  cases cs with
  | nil => exact .inl rfl
  | cons c cs => exact .inr ⟨_, rfl⟩

/-! ## Reading the names back -/

section Words

variable [DecidableEq α]

/-- The names of a text, where `acc` is what was read of the first one. -/
def words (sep : α) (acc : List α) : List α → List (List α)
  | [] => if acc = [] then [] else [acc]
  | x :: xs =>
      if x = sep then (if acc = [] then words sep [] xs else acc :: words sep [] xs)
      else words sep (acc ++ [x]) xs

theorem words_append_sep (acc p q : List α) :
    words sep acc (p ++ sep :: q) = words sep acc p ++ words sep [] q := by
  induction p generalizing acc with
  | nil =>
      rw [List.nil_append, words, words, if_pos rfl]
      split <;> rfl
  | cons x p ih =>
      rw [List.cons_append, words, words]
      split
      · split
        · exact ih []
        · rw [ih [], List.cons_append]
      · exact ih _

theorem words_name {acc c : List α} (h : sep ∉ c) :
    words sep acc c = if acc ++ c = [] then [] else [acc ++ c] := by
  induction c generalizing acc with
  | nil => rw [words, List.append_nil]
  | cons x c ih =>
      rw [List.mem_cons, not_or] at h
      rw [words, if_neg (Ne.symm h.1), ih h.2, List.append_assoc, List.singleton_append]

/-- The name being read ends up in one of the names, from its start on. -/
theorem exists_word_of_acc (sep : α) {acc : List α} (h : acc ≠ []) (p : List α) :
    ∃ w ∈ words sep acc p, acc <+: w := by
  induction p generalizing acc with
  | nil =>
      rw [words, if_neg h]
      exact ⟨acc, List.mem_cons_self, List.prefix_rfl⟩
  | cons x p ih =>
      rw [words, if_neg h]
      split
      · exact ⟨acc, List.mem_cons_self, List.prefix_rfl⟩
      · obtain ⟨w, hw, hpre⟩ := ih (List.append_ne_nil_of_left_ne_nil h [x])
        exact ⟨w, hw, (List.prefix_append acc [x]).trans hpre⟩

theorem words_joined {cs : List (List α)} (h : Names sep cs) :
    words sep [] (joined sep cs) = cs := by
  induction cs using List.reverseRecOn with
  | nil => rfl
  | append_singleton cs c ih =>
      obtain ⟨hne, hsep⟩ := h c (by simp)
      rw [joined_concat, words_append_sep, ih h.parent, words_name hsep,
        List.nil_append, if_neg hne]

theorem words_render {cs : List (List α)} (h : Names sep cs) :
    words sep [] (render sep cs) = cs := by
  unfold render
  split
  · next hnil =>
    rw [hnil, words, if_pos rfl]
    rfl
  · exact words_joined h

/-! ## Fields -/

/-- What stands between the separators, also where it is empty. `acc` is what was read of
the first field. -/
def fields (sep : α) (acc : List α) : List α → List (List α)
  | [] => [acc]
  | x :: xs => if x = sep then acc :: fields sep [] xs else fields sep (acc ++ [x]) xs

theorem fields_sep (acc xs : List α) : fields sep acc (sep :: xs) = acc :: fields sep [] xs :=
  if_pos rfl

theorem fields_of_ne {x : α} (h : x ≠ sep) (acc xs : List α) :
    fields sep acc (x :: xs) = fields sep (acc ++ [x]) xs := if_neg h

theorem words_eq_filter (sep : α) (acc xs : List α) :
    words sep acc xs = (fields sep acc xs).filter fun f => f ≠ [] := by
  induction xs generalizing acc with
  | nil =>
      by_cases h : acc = [] <;> simp [words, fields, h]
  | cons x xs ih =>
      rw [words, fields]
      by_cases hx : x = sep
      · rw [if_pos hx, if_pos hx, ih]
        by_cases h : acc = [] <;> simp [h]
      · rw [if_neg hx, if_neg hx, ih]

end Words

end PathText
