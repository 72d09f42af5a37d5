import Mathlib.Data.List.Basic

/-!
# JSON strings in 7 bits

What stands between the quotes of a JSON string and the code units it is read
as, for text in 7-bit characters. `Body text units` is the grammar as a
relation: a character that stands for itself, a short escape, or `\u` with four
digits. Control characters, the quote and the backslash never stand for
themselves.

The grammar is unambiguous (`Body.unique`): the text determines the units,
since the character behind a backslash tells how far an escape goes. So a
writer is right if its text is a body of the intended units, and no reader has
to be modelled. That a text is not a body is shown the same way, by what may
follow a backslash (`Body.backslash_iff`).

Characters above 7 bits are left out. A program that passes on bytes as they
are would need the encoding to be part of the grammar.
-/

namespace JsonText

def quote : UInt8 := 34

def backslash : UInt8 := 92

def Unescaped (c : UInt8) : Prop := 0x20 ≤ c ∧ c < 0x80 ∧ c ≠ quote ∧ c ≠ backslash

instance (c : UInt8) : Decidable (Unescaped c) := inferInstanceAs (Decidable (_ ∧ _))

def shortEscape (c : UInt8) : Option Nat :=
  [(34, 34), (92, 92), (47, 47), (98, 8), (102, 12), (110, 10), (114, 13), (116, 9)].lookup c

def hexDigit (c : UInt8) : Option Nat :=
  if 48 ≤ c ∧ c ≤ 57 then some (c.toNat - 48)
  else if 65 ≤ c ∧ c ≤ 70 then some (c.toNat - 55)
  else if 97 ≤ c ∧ c ≤ 102 then some (c.toNat - 87)
  else none

def hexUnit (a b c d : UInt8) : Option Nat := do
  let w ← hexDigit a
  let x ← hexDigit b
  let y ← hexDigit c
  let z ← hexDigit d
  return ((w * 16 + x) * 16 + y) * 16 + z

/-- The text of a string, and its code units. -/
inductive Body : List UInt8 → List Nat → Prop
  | nil : Body [] []
  | char {c : UInt8} {s : List UInt8} {xs : List Nat} :
      Unescaped c → Body s xs → Body (c :: s) (c.toNat :: xs)
  | short {c : UInt8} {x : Nat} {s : List UInt8} {xs : List Nat} :
      shortEscape c = some x → Body s xs → Body (backslash :: c :: s) (x :: xs)
  | unicode {a b c d : UInt8} {x : Nat} {s : List UInt8} {xs : List Nat} :
      hexUnit a b c d = some x → Body s xs →
      Body (backslash :: 117 :: a :: b :: c :: d :: s) (x :: xs)

variable {c : UInt8} {s : List UInt8} {xs ys : List Nat}

theorem Body.char_iff (hc : c ≠ backslash) :
    Body (c :: s) xs ↔ Unescaped c ∧ ∃ ys, xs = c.toNat :: ys ∧ Body s ys := by
  constructor
  · intro h
    cases h with
    | char hu hs => exact ⟨hu, _, rfl, hs⟩
    | short => exact absurd rfl hc
    | unicode => exact absurd rfl hc
  · rintro ⟨hu, ys, rfl, hs⟩
    exact Body.char hu hs

theorem Body.backslash_iff :
    Body (backslash :: s) xs ↔
      (∃ c x t ys, s = c :: t ∧ shortEscape c = some x ∧ xs = x :: ys ∧ Body t ys) ∨
      ∃ a b c d x t ys, s = 117 :: a :: b :: c :: d :: t ∧ hexUnit a b c d = some x ∧
        xs = x :: ys ∧ Body t ys := by
  constructor
  · intro h
    cases h with
    | char hu _ => exact absurd rfl hu.2.2.2
    | short hc hs => exact Or.inl ⟨_, _, _, _, rfl, hc, rfl, hs⟩
    | unicode hx hs => exact Or.inr ⟨_, _, _, _, _, _, _, rfl, hx, rfl, hs⟩
  · rintro (⟨c, x, t, ys, rfl, hc, rfl, hs⟩ | ⟨a, b, c, d, x, t, ys, rfl, hx, rfl, hs⟩)
    · exact Body.short hc hs
    · exact Body.unicode hx hs

theorem shortEscape_u : shortEscape 117 = none := rfl

theorem Body.unique (hx : Body s xs) (hy : Body s ys) : xs = ys := by
  induction hx generalizing ys with
  | nil => cases hy; rfl
  | char hu _ ih =>
      obtain ⟨-, zs, rfl, hs⟩ := (Body.char_iff hu.2.2.2).mp hy
      rw [ih hs]
  | short hc _ ih =>
      rcases Body.backslash_iff.mp hy with ⟨c', x', t, zs, hs, hc', rfl, ht⟩ |
        ⟨a, b, c', d, x', t, zs, hs, -⟩
      · obtain ⟨rfl, rfl⟩ := List.cons.inj hs
        obtain rfl := Option.some.inj (hc.symm.trans hc')
        rw [ih ht]
      · obtain ⟨rfl, -⟩ := List.cons.inj hs
        cases shortEscape_u.symm.trans hc
  | unicode hx _ ih =>
      rcases Body.backslash_iff.mp hy with ⟨c', x', t, zs, hs, hc', rfl, ht⟩ |
        ⟨a, b, c', d, x', t, zs, hs, hx', rfl, ht⟩
      · obtain ⟨rfl, -⟩ := List.cons.inj hs
        cases shortEscape_u.symm.trans hc'
      · simp only [List.cons.injEq, true_and] at hs
        obtain ⟨rfl, rfl, rfl, rfl, rfl⟩ := hs
        obtain rfl := Option.some.inj (hx.symm.trans hx')
        rw [ih ht]

end JsonText
