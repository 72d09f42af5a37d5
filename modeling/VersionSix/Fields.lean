import Mathlib.Data.List.Basic
import Mathlib.Logic.Function.Basic
import VersionSix.Bytes

/-!
# Records in memory

A C struct at an address is its fields: each a little-endian word at an offset.
`load` and `store` are `p->f` and `p->f = v`. With the numbers of the field
filled in they are words of bytes (`load_mk`, `store_mk`), and what a store does
to a load is known of these; `Same` says that a stretch of memory was left
alone, and a store outside of it keeps it so (`Same.store`).

Records overlap in no way that the types would show, so what separates them is
arithmetic on addresses alone. The lemmas are stated with the offsets as
parameters and their side conditions as inequalities, which is the form `simp`
with `omega` as its discharger settles without further help.

Words may be narrower than a machine word: a field has its own width, a stored
value is cut to it, and a field that is loaded and stored elsewhere is a copy
of its bytes (`setLe_le`). Stretches of memory are lists of bytes at the end of
the file, for contents that a program moves without reading them.
-/

namespace ByteStore

structure Field where
  offset : Nat
  bytes : Nat

def load (b : Bytes) (f : Field) (p : Nat) : Nat := le f.bytes b (p + f.offset)

def store (b : Bytes) (f : Field) (p v : Nat) : Bytes := setLe f.bytes b (p + f.offset) v

variable {b b' b'' : Bytes} {f : Field} {p v : Nat}

@[simp] theorem load_mk (b : Bytes) (o n p : Nat) : load b ⟨o, n⟩ p = le n b (p + o) := rfl

@[simp] theorem store_mk (b : Bytes) (o n p v : Nat) : store b ⟨o, n⟩ p v = setLe n b (p + o) v :=
  rfl

theorem load_lt (b : Bytes) (f : Field) (p : Nat) : load b f p < 256 ^ f.bytes := le_lt ..

theorem store_out {i : Nat} (h : i < p + f.offset ∨ p + f.offset + f.bytes ≤ i) :
    store b f p v i = b i :=
  setLe_out h

theorem setLe_one (b : Bytes) (off v : Nat) : setLe 1 b off v off = UInt8.ofNat v := by
  unfold setLe
  rw [if_pos ⟨Nat.le_refl off, Nat.lt_succ_self off⟩, Nat.sub_self, pow_zero, Nat.div_one]

theorem le_byte {n off i : Nat} (b : Bytes) (h : i < n) :
    UInt8.ofNat (le n b off / 256 ^ i) = b (off + i) := by
  induction n generalizing off i with
  | zero => exact absurd h (Nat.not_lt_zero i)
  | succ n ih =>
      have hlt := (b off).toNat_lt
      cases i with
      | zero =>
          have hhead : ((b off).toNat + 256 * le n b (off + 1)) % 2 ^ 8 = (b off).toNat := by omega
          rw [le, pow_zero, Nat.div_one, ← UInt8.toNat_inj, UInt8.toNat_ofNat', hhead]
          rfl
      | succ i =>
          have htail : ((b off).toNat + 256 * le n b (off + 1)) / 256 = le n b (off + 1) := by
            omega
          rw [le, pow_succ', ← Nat.div_div_eq_div_mul, htail, ih (Nat.lt_of_succ_lt_succ h)]
          congr 1
          omega

/-- A word that is loaded and stored elsewhere is a copy of its bytes. -/
theorem setLe_le {n off src i : Nat} (b b' : Bytes) (h : i < n) :
    setLe n b off (le n b' src) (off + i) = b' (src + i) := by
  unfold setLe
  rw [if_pos (by omega), Nat.add_sub_cancel_left, le_byte b' h]

/-! ## What is left alone -/

/-- The bytes from `lo` up to `hi` are the same. -/
def Same (b b' : Bytes) (lo hi : Nat) : Prop := ∀ i, lo ≤ i → i < hi → b' i = b i

theorem Same.refl (b : Bytes) (lo hi : Nat) : Same b b lo hi := fun _ _ _ => rfl

theorem Same.trans {lo hi : Nat} (h : Same b b' lo hi) (h' : Same b' b'' lo hi) :
    Same b b'' lo hi :=
  fun i hlo hhi => (h' i hlo hhi).trans (h i hlo hhi)

theorem Same.part {lo hi lo' hi' : Nat} (h : Same b b' lo hi) (hlo : lo ≤ lo') (hhi : hi' ≤ hi) :
    Same b b' lo' hi' :=
  fun i h₁ h₂ => h i (hlo.trans h₁) (h₂.trans_le hhi)

theorem Same.store {lo hi : Nat} (h : Same b b' lo hi)
    (hout : hi ≤ p + f.offset ∨ p + f.offset + f.bytes ≤ lo) :
    Same b (ByteStore.store b' f p v) lo hi :=
  fun i hlo hhi => (store_out (by omega)).trans (h i hlo hhi)

theorem Same.setLe {lo hi n off : Nat} (h : Same b b' lo hi) (hout : hi ≤ off ∨ off + n ≤ lo) :
    Same b (ByteStore.setLe n b' off v) lo hi :=
  fun i hlo hhi => (setLe_out (by omega)).trans (h i hlo hhi)

theorem Same.le {lo hi n off : Nat} (h : Same b b' lo hi) (hlo : lo ≤ off) (hhi : off + n ≤ hi) :
    ByteStore.le n b' off = ByteStore.le n b off :=
  le_congr fun i hi => h (off + i) (by omega) (by omega)

theorem Same.load {lo hi : Nat} (h : Same b b' lo hi) (hlo : lo ≤ p + f.offset)
    (hhi : p + f.offset + f.bytes ≤ hi) : ByteStore.load b' f p = ByteStore.load b f p :=
  h.le hlo hhi

/-! ## Stretches of memory as lists -/

section BytesAt

variable {n i : Nat} {c : UInt8}

def bytesAt (b : Bytes) (p n : Nat) : List UInt8 := (List.range n).map fun i => b (p + i)

@[simp] theorem length_bytesAt (b : Bytes) (p n : Nat) : (bytesAt b p n).length = n := by
  simp [bytesAt]

theorem getElem_bytesAt (h : i < (bytesAt b p n).length) : (bytesAt b p n)[i] = b (p + i) := by
  simp [bytesAt]

theorem bytesAt_congr (h : ∀ i, i < n → b' (p + i) = b (q + i)) : bytesAt b' p n = bytesAt b q n :=
  List.map_congr_left fun i hi => h i (List.mem_range.mp hi)

theorem Same.bytesAt {lo hi : Nat} (h : Same b b' lo hi) (hlo : lo ≤ p) (hhi : p + n ≤ hi) :
    ByteStore.bytesAt b' p n = ByteStore.bytesAt b p n :=
  bytesAt_congr fun i hi => h (p + i) (by omega) (by omega)

theorem take_bytesAt {k : Nat} (h : n ≤ k) : (bytesAt b p k).take n = bytesAt b p n := by
  rw [bytesAt, bytesAt, ← List.map_take, List.take_range, Nat.min_eq_left h]

theorem bytesAt_update (b : Bytes) (p n i : Nat) (c : UInt8) :
    bytesAt (Function.update b (p + i) c) p n = (bytesAt b p n).set i c := by
  refine List.ext_getElem (by simp) fun j hj hj' => ?_
  rw [getElem_bytesAt, List.getElem_set, getElem_bytesAt]
  by_cases hij : i = j
  · subst hij
    simp
  · rw [if_neg hij, Function.update_of_ne (by omega)]

theorem Same.update (lo hi : Nat) (h : p < lo ∨ hi ≤ p) : Same b (Function.update b p c) lo hi :=
  fun _ _ _ => Function.update_of_ne (by omega) _ _

end BytesAt

end ByteStore
