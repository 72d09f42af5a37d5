import Mathlib.Data.List.Infix
import Mathlib.Data.List.Induction

/-!
# Trees given by a lookup function

A tree is a lookup `look : B → N → Option B` (a node and an edge name to the
child) and a root; `resolve` follows a path. Directory trees and page tables
are both of this form. Four local changes cover what is done to them:

- nothing on the path changed (`resolve_congr`);
- one edge to a fresh leaf was added (`resolve_install`);
- one edge was taken away (`resolve_prune`), and its node hung up elsewhere
  (`resolve_move`).

The last ones need that the tree is one: no node has two edges into it and the
root has none (`Unshared`), so every node has a single path
(`Unshared.path_unique`). Without that, taking an edge away may leave other
ways to its node, and a node that is hung up below itself is lost; `Move` names
the case that has to be excluded.

All of it is about the lookup as a function. What a program writes to make one
lookup of another is not said here, and nothing is asked to be finite.
-/

namespace PathTree

variable {B N : Type*}

/-! ## Following a path -/

def resolve (look : B → N → Option B) : B → List N → Option B
  | b, [] => some b
  | b, c :: cs => (look b c).bind fun b' => resolve look b' cs

@[simp] theorem resolve_nil (look : B → N → Option B) (b : B) : resolve look b [] = some b := rfl

theorem resolve_cons (look : B → N → Option B) (b : B) (c : N) (cs : List N) :
    resolve look b (c :: cs) = (look b c).bind fun b' => resolve look b' cs := rfl

theorem resolve_append (look : B → N → Option B) (b : B) (p q : List N) :
    resolve look b (p ++ q) = (resolve look b p).bind fun d => resolve look d q := by
  induction p generalizing b with
  | nil => rfl
  | cons c cs ih =>
      rw [List.cons_append, resolve_cons, resolve_cons]
      cases look b c with
      | none => rfl
      | some b' => exact ih b'

theorem resolve_concat (look : B → N → Option B) (b : B) (p : List N) (c : N) :
    resolve look b (p ++ [c]) = (resolve look b p).bind fun d => look d c := by
  rw [resolve_append]
  congr 1
  funext d
  rw [resolve_cons]
  cases look d c <;> rfl

theorem resolve_concat_eq_some {look : B → N → Option B} {b e : B} {p : List N} {c : N} :
    resolve look b (p ++ [c]) = some e ↔ ∃ d, resolve look b p = some d ∧ look d c = some e := by
  rw [resolve_concat, Option.bind_eq_some_iff]

theorem resolve_append_eq_none {look : B → N → Option B} {b : B} {p q : List N}
    (h : resolve look b p = none) : resolve look b (p ++ q) = none := by
  rw [resolve_append, h]
  rfl

/-- Two lookups that agree at every node the path passes resolve it alike. -/
theorem resolve_congr {look look' : B → N → Option B} {b : B} {p : List N}
    (h : ∀ q d c, q ++ [c] <+: p → resolve look b q = some d → look' d c = look d c) :
    resolve look' b p = resolve look b p := by
  induction p generalizing b with
  | nil => rfl
  | cons c cs ih =>
      have hc : look' b c = look b c := h [] b c (by simp) rfl
      rw [resolve_cons, resolve_cons, hc]
      cases hb : look b c with
      | none => rfl
      | some b' =>
          refine ih fun q d c' hq hd => h (c :: q) d c' ?_ ?_
          · rwa [List.cons_append, List.cons_prefix_cons, and_iff_right rfl]
          · rw [resolve_cons, hb]
            exact hd

/-! ## Hanging a fresh leaf into the tree -/

/-- The edge `d --c-->` at the end of the path `p` now leads to a node `n`
without edges: `p ++ [c]` resolves to it, and nothing lies beyond. -/
theorem resolve_install [DecidableEq N] {look look' : B → N → Option B} {root d n : B}
    {p : List N} {c : N} (hp : resolve look root p = some d) (hnew : look' d c = some n)
    (hleaf : ∀ e, look' n e = none)
    (hother : ∀ q d' c', resolve look root q = some d' → (q, c') ≠ (p, c) →
      look' d' c' = look d' c') (q : List N) :
    resolve look' root q
      = if q = p ++ [c] then some n
        else if p ++ [c] <+: q then none
        else resolve look root q := by
  have hsame : ∀ q, ¬ p ++ [c] <+: q → resolve look' root q = resolve look root q := by
    intro q hq
    refine resolve_congr fun r d' c' hr hd' => hother r d' c' hd' fun heq => hq ?_
    obtain ⟨rfl, rfl⟩ := Prod.mk.inj heq
    exact hr
  have hp' : resolve look' root p = some d := by
    rw [hsame p fun h => ?_, hp]
    have := h.length_le
    simp only [List.length_append, List.length_singleton] at this
    omega
  by_cases heq : q = p ++ [c]
  · rw [if_pos heq, heq, resolve_concat, hp']
    exact hnew
  · rw [if_neg heq]
    by_cases hpre : p ++ [c] <+: q
    · obtain ⟨t, rfl⟩ := hpre
      rw [if_pos (List.prefix_append _ _), resolve_append, resolve_concat, hp']
      cases t with
      | nil => simp at heq
      | cons e t => simp [hnew, resolve_cons, hleaf e]
    · rw [if_neg hpre]
      exact hsame q hpre

/-! ## Trees -/

/-- No node is the target of two edges and the root of none, among the nodes
a path reaches. -/
structure Unshared (look : B → N → Option B) (root : B) : Prop where
  parent : ∀ {p q d d' c c' b}, resolve look root p = some d → resolve look root q = some d' →
    look d c = some b → look d' c' = some b → d = d' ∧ c = c'
  root_top : ∀ {p d c}, resolve look root p = some d → look d c ≠ some root

theorem Unshared.path_unique {look : B → N → Option B} {root b : B} (h : Unshared look root)
    {p q : List N} (hp : resolve look root p = some b) (hq : resolve look root q = some b) :
    p = q := by
  induction p using List.reverseRecOn generalizing q b with
  | nil =>
      obtain rfl := Option.some.inj hp
      cases q using List.reverseRecOn with
      | nil => rfl
      | append_singleton q c =>
          obtain ⟨d, hd, hc⟩ := resolve_concat_eq_some.mp hq
          exact absurd hc (h.root_top hd)
  | append_singleton p c ih =>
      obtain ⟨d, hd, hc⟩ := resolve_concat_eq_some.mp hp
      cases q using List.reverseRecOn with
      | nil =>
          obtain rfl := Option.some.inj hq
          exact absurd hc (h.root_top hd)
      | append_singleton q c' =>
          obtain ⟨d', hd', hc'⟩ := resolve_concat_eq_some.mp hq
          obtain ⟨rfl, rfl⟩ := h.parent hd hd' hc hc'
          rw [ih hd hd']

/-! ## Taking a node out -/

/-- The edge `src --c-->` is gone: what it led to is not reached any more. -/
theorem resolve_prune [DecidableEq N] {look look' : B → N → Option B} {root src : B} {P : List N}
    {c : N} (htree : Unshared look root) (hP : resolve look root P = some src)
    (hold : look' src c = none)
    (hother : ∀ q d e, resolve look root q = some d → (d, e) ≠ (src, c) → look' d e = look d e)
    (q : List N) :
    resolve look' root q = if P ++ [c] <+: q then none else resolve look root q := by
  have hsame : ∀ q, ¬ P ++ [c] <+: q → resolve look' root q = resolve look root q := by
    intro q hq
    refine resolve_congr fun r d e hr hd => hother r d e hd ?_
    rintro ⟨rfl, rfl⟩
    rw [htree.path_unique hd hP] at hr
    exact hq hr
  split
  · next hpre =>
    obtain ⟨r, rfl⟩ := hpre
    have hshort : ¬ P ++ [c] <+: P := fun h => by
      have := h.length_le
      simp only [List.length_append, List.length_singleton] at this
      omega
    rw [resolve_append, resolve_concat, hsame P hshort, hP, Option.bind_some, hold]
    rfl
  · next hpre => exact hsame q hpre

/-! ## Moving a node -/

/-- The edge `src --c--> f` is replaced by the edge `dst --t--> f`: what
`Q ++ [t]` and everything below it resolve to is what `P ++ [c]` and
everything below it resolved to; no other path changes. -/
structure Move (look look' : B → N → Option B) (root : B) (P : List N) (c : N) (Q : List N)
    (t : N) : Prop where
  moved : ∀ r, resolve look' root (Q ++ t :: r) = resolve look root (P ++ c :: r)
  gone : ∀ r, resolve look' root (P ++ c :: r) = none
  kept : ∀ q, ¬ P ++ [c] <+: q → ¬ Q ++ [t] <+: q →
    resolve look' root q = resolve look root q

theorem resolve_move {look look' : B → N → Option B} {root src dst f : B} {P Q : List N}
    {c t : N} (htree : Unshared look root)
    (hP : resolve look root P = some src) (hf : look src c = some f)
    (hQ : resolve look root Q = some dst) (hfree : look dst t = none)
    (houtside : ¬ P ++ [c] <+: Q ++ [t])
    (hnew : look' dst t = some f) (hold : look' src c = none)
    (hother : ∀ q d e, resolve look root q = some d → (d, e) ≠ (src, c) → (d, e) ≠ (dst, t) →
      look' d e = look d e) :
    Move look look' root P c Q t := by
  -- a step `d --e-->` that differs is one of the two edges, and then it ends
  -- the only path there is to it
  have hsame : ∀ q, ¬ P ++ [c] <+: q → ¬ Q ++ [t] <+: q →
      resolve look' root q = resolve look root q := by
    intro q hqP hqQ
    refine resolve_congr fun r d e hr hd => hother r d e hd ?_ ?_
    · rintro ⟨rfl, rfl⟩
      rw [htree.path_unique hd hP] at hr
      exact hqP hr
    · rintro ⟨rfl, rfl⟩
      rw [htree.path_unique hd hQ] at hr
      exact hqQ hr
  have hQnone : ∀ r, resolve look root (Q ++ t :: r) = none := by
    intro r
    rw [resolve_append, hQ]
    simp [resolve_cons, hfree]
  have hPnotP : ¬ P ++ [c] <+: P := fun h => by
    have := h.length_le
    simp only [List.length_append, List.length_singleton] at this
    omega
  have hP' : resolve look' root P = some src := by
    rw [hsame P hPnotP fun h => ?_, hP]
    obtain ⟨r, rfl⟩ := h
    rw [List.append_assoc, List.singleton_append, hQnone] at hP
    cases hP
  have hQnotQ : ¬ Q ++ [t] <+: Q := fun h => by
    have := h.length_le
    simp only [List.length_append, List.length_singleton] at this
    omega
  have hQ' : resolve look' root Q = some dst := by
    rw [hsame Q (fun h => houtside (h.trans (List.prefix_append _ _))) hQnotQ, hQ]
  -- below `f` the two edges are out of reach
  have hbelow : ∀ r, resolve look' f r = resolve look f r := by
    intro r
    have hf' : resolve look root (P ++ [c]) = some f := by
      rw [resolve_concat, hP]
      exact hf
    refine resolve_congr fun q d e hq hd => ?_
    have hd' : resolve look root (P ++ [c] ++ q) = some d := by
      rw [resolve_append, hf']
      exact hd
    refine hother _ d e hd' ?_ ?_
    · rintro ⟨rfl, rfl⟩
      have := congrArg List.length (htree.path_unique hd' hP)
      simp only [List.length_append, List.length_singleton] at this
      omega
    · intro heq
      obtain ⟨rfl, rfl⟩ := Prod.mk.inj heq
      refine houtside ?_
      rw [← htree.path_unique hd' hQ]
      exact ⟨q ++ [e], by simp⟩
  refine ⟨fun r => ?_, fun r => ?_, hsame⟩
  · rw [resolve_append, hQ', resolve_append, hP]
    simp only [Option.bind_some, resolve_cons, hnew, hf]
    exact hbelow r
  · rw [resolve_append, hP']
    simp [resolve_cons, hold]

end PathTree
