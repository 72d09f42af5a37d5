import Mathlib.Data.List.Basic

/-!
# Writing one character after the other

A formatter gets a function that takes each character with its index. What it
does to the state behind that function is a fold over its text (`putAll`), so
all that has to be known about a formatter is the text: two outputs differ in
what they make of the same characters, and in nothing else.

Three of them are worked out. `collect` keeps the text itself and serves as the
meaning of a formatter. `bounded` writes to a buffer with places for `limit`
characters and drops the others, though the index goes on counting them; the
buffer gets the front of the text (`state_bounded`), and the bytes behind it
stay as they were. An output that ignores the index sees a stream
(`state_stream`), and one that ignores everything leaves only the count
(`state_null`).

The index is kept beside the state because programs return it: it is the length
of the whole text, whether or not there was room.
-/

namespace Emit

/-- Where the next character goes, and what was made of those before. -/
structure Sink (σ : Type) where
  idx : Nat
  state : σ

variable {α σ : Type} {out : α → Nat → σ → σ} {s : Sink σ} {cs ds : List α}

def put (out : α → Nat → σ → σ) (c : α) (s : Sink σ) : Sink σ := ⟨s.idx + 1, out c s.idx s.state⟩

def putAll (out : α → Nat → σ → σ) (cs : List α) (s : Sink σ) : Sink σ :=
  cs.foldl (fun s c => put out c s) s

@[simp] theorem putAll_nil : putAll out [] s = s := rfl

@[simp] theorem putAll_cons (c : α) : putAll out (c :: cs) s = putAll out cs (put out c s) := rfl

theorem putAll_append : putAll out (cs ++ ds) s = putAll out ds (putAll out cs s) :=
  List.foldl_append

@[simp] theorem idx_putAll : (putAll out cs s).idx = s.idx + cs.length := by
  induction cs generalizing s with
  | nil => rfl
  | cons c cs ih =>
      rw [putAll_cons, ih, put, List.length_cons, Nat.add_right_comm, Nat.add_assoc]

/-! ## Outputs -/

def collect (c : α) (_ : Nat) (cs : List α) : List α := cs ++ [c]

theorem state_collect (s : Sink (List α)) : (putAll collect cs s).state = s.state ++ cs := by
  induction cs generalizing s with
  | nil => simp
  | cons c cs ih => rw [putAll_cons, ih, put, collect, List.append_assoc, List.singleton_append]

theorem state_stream {g : α → σ → σ} (s : Sink σ) :
    (putAll (fun c _ => g c) cs s).state = cs.foldl (fun t c => g c t) s.state := by
  induction cs generalizing s with
  | nil => rfl
  | cons c cs ih => rw [putAll_cons, ih, put, List.foldl_cons]

theorem state_null (s : Sink σ) : (putAll (fun _ _ t => t) cs s).state = s.state := by
  induction cs generalizing s with
  | nil => rfl
  | cons c cs ih => rw [putAll_cons, ih, put]

/-- A buffer with places for `limit` characters, from `base` on. -/
def bounded (limit base : Nat) (c : α) (idx : Nat) (m : Nat → α) : Nat → α :=
  if idx < limit then fun i => if i = base + idx then c else m i else m

/-- Memory with a text in it. -/
def written (base : Nat) (cs : List α) (m : Nat → α) (i : Nat) : α :=
  if h : base ≤ i ∧ i - base < cs.length then cs[i - base] else m i

theorem written_out {m : Nat → α} {base i : Nat} (h : i < base ∨ base + cs.length ≤ i) :
    written base cs m i = m i :=
  dif_neg (by omega)

theorem written_in {m : Nat → α} {base k : Nat} (h : k < cs.length) :
    written base cs m (base + k) = cs[k] := by
  unfold written
  rw [dif_pos (by omega)]
  simp

theorem written_nil (base : Nat) (m : Nat → α) : written base [] m = m :=
  funext fun _ => written_out (by simp; omega)

theorem written_append (base : Nat) (cs ds : List α) (m : Nat → α) :
    written base (cs ++ ds) m = written (base + cs.length) ds (written base cs m) := by
  funext i
  rcases Nat.lt_or_ge i base with hi | hi
  · rw [written_out (.inl hi), written_out (.inl (by omega)), written_out (.inl hi)]
  obtain ⟨k, rfl⟩ := Nat.exists_eq_add_of_le hi
  rcases Nat.lt_or_ge k cs.length with hk | hk
  · rw [written_in (by simp; omega), written_out (.inl (by omega)), written_in hk,
      List.getElem_append_left hk]
  obtain ⟨j, rfl⟩ := Nat.exists_eq_add_of_le hk
  rcases Nat.lt_or_ge j ds.length with hj | hj
  · rw [written_in (by simp; omega), ← Nat.add_assoc, written_in hj]
    simp
  · rw [written_out (.inr (by simp; omega)), written_out (.inr (by omega)),
      written_out (.inr (by omega))]

theorem written_set {k base : Nat} {c : α} {m : Nat → α} (hk : k ≤ cs.length)
    (hlast : cs.length ≤ k + 1) : (fun i => if i = base + k then c else written base cs m i)
      = written base (cs.take k ++ [c]) m := by
  have hlength : (cs.take k ++ [c]).length = k + 1 := by simp; omega
  funext i
  rcases Nat.lt_or_ge i base with hi | hi
  · rw [if_neg (by omega), written_out (.inl hi), written_out (.inl hi)]
  obtain ⟨j, rfl⟩ := Nat.exists_eq_add_of_le hi
  rcases Nat.lt_trichotomy j k with hj | rfl | hj
  · rw [if_neg (by omega), written_in (show j < cs.length by omega),
      written_in (by omega), List.getElem_append_left (by simp; omega), List.getElem_take]
  · have hle : (cs.take j).length ≤ j := List.length_take_le ..
    rw [if_pos rfl, written_in (by omega), List.getElem_append_right hle]
    simp
  · rw [if_neg (by omega), written_out (.inr (by omega)), written_out (.inr (by omega))]

/-- **Truncation.** A buffer gets the front of the text. -/
theorem state_bounded (limit base : Nat) (s : Sink (Nat → α)) :
    (putAll (bounded limit base) cs s).state =
      written (base + s.idx) (cs.take (limit - s.idx)) s.state := by
  induction cs generalizing s with
  | nil => rw [putAll_nil, List.take_nil, written_nil]
  | cons c cs ih =>
      rw [putAll_cons, ih, put]
      simp only [bounded]
      split
      · next h =>
          obtain ⟨n, hn⟩ : ∃ n, limit - s.idx = n + 1 := ⟨limit - s.idx - 1, by omega⟩
          have hone : (fun i => if i = base + s.idx then c else s.state i)
              = written (base + s.idx) [c] s.state := by
            funext i
            by_cases hi : i = base + s.idx
            · subst hi
              rw [if_pos rfl]
              have hfirst : written (base + s.idx) [c] s.state (base + s.idx + 0) = c :=
                written_in (by simp)
              exact hfirst.symm
            · rw [if_neg hi, written_out (by simp; omega)]
          rw [hn, List.take_succ_cons, ← List.singleton_append, written_append, hone,
            show limit - (s.idx + 1) = n by omega]
          rfl
      · next h =>
          rw [show limit - (s.idx + 1) = 0 by omega, show limit - s.idx = 0 by omega,
            List.take_zero, List.take_zero, written_nil, written_nil]

end Emit
