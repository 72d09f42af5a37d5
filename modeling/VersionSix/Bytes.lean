import Mathlib.Tactic.Ring

/-!
# Byte stores

A store is a total map from addresses to bytes: a disk, a buffer, the bytes of
a packed record. `read` copies a window out, `write` copies a window in, and
the rest of the file says what a window sees after the other window was
written: everything (`read_write_same`) or nothing (`read_write_disjoint`).
Addresses are unbounded; a program that computes them in 32 or 64 bits brings
its own arithmetic and only has to say where a window starts.

On top of that sit the two things packed records are made of: little-endian
words (`le`/`setLe`) and NUL-terminated strings (`cstr`/`putStr`), with the
same pair of laws each. A word that does not fit is cut, as in a C assignment.
A string is read as far as its terminator, and only if that lies within the
bytes one looks at (`cstr_of_length`); a string that is stored over a window
may run beyond it, and `cstr_putStr_cut` says what is read of it then.

Regions at the end are windows without content, for statements about which
bytes belong to whom.
-/

namespace ByteStore

abbrev Bytes := Nat → UInt8

/-! ## Windows -/

/-- The `n` bytes at `off`, as a buffer that is zero past its end. -/
def read (d : Bytes) (off n : Nat) : Bytes :=
  fun i => if i < n then d (off + i) else 0

/-- `d` with the first `n` bytes of `buf` stored at `off`. The address is
signed: bytes that would land below zero are outside the store. -/
def write (d : Bytes) (off : Int) (n : Nat) (buf : Bytes) : Bytes :=
  fun a => if off ≤ a ∧ (a : Int) < off + n then buf ((a : Int) - off).toNat else d a

theorem write_out {d : Bytes} {off : Int} {n : Nat} {buf : Bytes} {a : Nat}
    (h : (a : Int) < off ∨ off + n ≤ a) : write d off n buf a = d a := by
  unfold write
  rw [if_neg (by omega)]

theorem write_in {d : Bytes} {off n : Nat} {buf : Bytes} {i : Nat} (h : i < n) :
    write d off n buf (off + i) = buf i := by
  unfold write
  rw [if_pos (by omega)]
  congr 1
  omega

theorem read_congr {d d' : Bytes} {off n : Nat}
    (h : ∀ i, i < n → d (off + i) = d' (off + i)) : read d off n = read d' off n := by
  funext i
  by_cases hi : i < n
  · simp only [read, hi, if_true, h i hi]
  · simp only [read, hi, if_false]

theorem read_eq {d : Bytes} {off n i : Nat} (h : i < n) : read d off n i = d (off + i) := by
  simp only [read, h, if_true]

theorem read_write_same (d : Bytes) (off n : Nat) (buf : Bytes) :
    read (write d off n buf) off n = read buf 0 n := by
  funext i
  by_cases hi : i < n
  · rw [read_eq hi, read_eq hi, write_in hi, Nat.zero_add]
  · simp only [read, hi, if_false]

theorem read_write_disjoint {d : Bytes} {off n : Nat} {off' : Int} {n' : Nat} {buf : Bytes}
    (h : ((off + n : Nat) : Int) ≤ off' ∨ off' + n' ≤ off) :
    read (write d off' n' buf) off n = read d off n :=
  read_congr fun i hi => write_out (by omega)

@[simp] theorem write_zero (d : Bytes) (off : Int) (buf : Bytes) : write d off 0 buf = d := by
  funext a
  exact write_out (by omega)

/-! ## Little-endian words -/

/-- The `n`-byte little-endian word at `off`. -/
def le : Nat → Bytes → Nat → Nat
  | 0, _, _ => 0
  | n + 1, b, off => (b off).toNat + 256 * le n b (off + 1)

/-- `b` with the `n`-byte little-endian word `v` stored at `off`; what does
not fit in `n` bytes is lost, as in a C assignment. -/
def setLe (n : Nat) (b : Bytes) (off v : Nat) : Bytes :=
  fun i => if off ≤ i ∧ i < off + n then UInt8.ofNat (v / 256 ^ (i - off)) else b i

theorem le_lt (n : Nat) (b : Bytes) (off : Nat) : le n b off < 256 ^ n := by
  induction n generalizing off with
  | zero => simp [le]
  | succ n ih =>
      have h1 := ih (off + 1)
      have h2 : (b off).toNat < 256 := (b off).toNat_lt
      rw [le, pow_succ]
      omega

theorem le_congr {n : Nat} {b b' : Bytes} {off off' : Nat}
    (h : ∀ i, i < n → b (off + i) = b' (off' + i)) : le n b off = le n b' off' := by
  induction n generalizing off off' with
  | zero => rfl
  | succ n ih =>
      have h0 : b off = b' off' := h 0 (Nat.succ_pos n)
      rw [le, le, h0, ih]
      intro i hi
      have hstep := h (i + 1) (Nat.succ_lt_succ hi)
      rwa [← Nat.add_assoc, ← Nat.add_assoc, Nat.add_right_comm, Nat.add_right_comm off'] at hstep

theorem le_read {d : Bytes} {o m n off : Nat} (h : off + n ≤ m) :
    le n (read d o m) off = le n d (o + off) :=
  le_congr fun i hi => by rw [read_eq (by omega), Nat.add_assoc]

theorem le_setLe_disjoint {n n' : Nat} {b : Bytes} {off off' v : Nat}
    (h : off + n ≤ off' ∨ off' + n' ≤ off) :
    le n (setLe n' b off' v) off = le n b off := by
  refine le_congr fun i hi => ?_
  unfold setLe
  rw [if_neg (by omega)]

theorem le_setLe_same (n : Nat) (b : Bytes) (off v : Nat) :
    le n (setLe n b off v) off = v % 256 ^ n := by
  -- the tail of the word is the word `v / 256` stored one byte further on
  induction n generalizing b off v with
  | zero => simp [le, Nat.mod_one]
  | succ n ih =>
      have htail : le n (setLe (n + 1) b off v) (off + 1)
          = le n (setLe n b (off + 1) (v / 256)) (off + 1) := by
        refine le_congr fun i hi => ?_
        unfold setLe
        rw [if_pos (by omega), if_pos (by omega), Nat.div_div_eq_div_mul, ← pow_succ']
        congr 3
        omega
      have hhead : (setLe (n + 1) b off v off).toNat = v % 256 := by
        unfold setLe
        rw [if_pos (by omega), Nat.sub_self, pow_zero, Nat.div_one]
        simp
      rw [le, hhead, htail, ih, pow_succ', Nat.mod_mul]

theorem setLe_out {n : Nat} {b : Bytes} {off v i : Nat} (h : i < off ∨ off + n ≤ i) :
    setLe n b off v i = b i := by
  unfold setLe
  rw [if_neg (by omega)]

/-! ## NUL-terminated strings -/

/-- The string at `off`, when its terminator lies within the next `n` bytes. -/
def cstr : Nat → Bytes → Nat → Option (List UInt8)
  | 0, _, _ => none
  | n + 1, b, off => if b off = 0 then some [] else (cstr n b (off + 1)).map (b off :: ·)

/-- `b` with the string `s` and its terminator stored at `off`. -/
def putStr (b : Bytes) (off : Nat) (s : List UInt8) : Bytes :=
  fun i =>
    if off ≤ i ∧ i < off + s.length then s.getD (i - off) 0
    else if i = off + s.length then 0
    else b i

theorem cstr_congr {n : Nat} {b b' : Bytes} {off off' : Nat}
    (h : ∀ i, i < n → b (off + i) = b' (off' + i)) : cstr n b off = cstr n b' off' := by
  induction n generalizing off off' with
  | zero => rfl
  | succ n ih =>
      have h0 : b off = b' off' := h 0 (Nat.succ_pos n)
      have htail : cstr n b (off + 1) = cstr n b' (off' + 1) := ih fun i hi => by
        have hstep := h (i + 1) (Nat.succ_lt_succ hi)
        rwa [← Nat.add_assoc, ← Nat.add_assoc, Nat.add_right_comm,
          Nat.add_right_comm off'] at hstep
      rw [cstr, cstr, h0, htail]

theorem cstr_read {d : Bytes} {o m n off : Nat} (h : off + n ≤ m) :
    cstr n (read d o m) off = cstr n d (o + off) :=
  cstr_congr fun i hi => by rw [read_eq (by omega), Nat.add_assoc]

theorem putStr_out {b : Bytes} {off : Nat} {s : List UInt8} {i : Nat}
    (h : i < off ∨ off + s.length < i) : putStr b off s i = b i := by
  unfold putStr
  rw [if_neg (by omega), if_neg (by omega)]

theorem le_putStr {n : Nat} {b : Bytes} {off off' : Nat} {s : List UInt8}
    (h : off + n ≤ off' ∨ off' + s.length < off) :
    le n (putStr b off' s) off = le n b off :=
  le_congr fun i hi => putStr_out (by omega)

theorem cstr_setLe {n n' : Nat} {b : Bytes} {off off' v : Nat}
    (h : off + n ≤ off' ∨ off' + n' ≤ off) :
    cstr n (setLe n' b off' v) off = cstr n b off :=
  cstr_congr fun i hi => setLe_out (by omega)

theorem cstr_putStr {n : Nat} {b : Bytes} {off : Nat} {s : List UInt8}
    (hs : ∀ c ∈ s, c ≠ 0) (hn : s.length < n) : cstr n (putStr b off s) off = some s := by
  induction s generalizing n b off with
  | nil =>
      obtain ⟨n, rfl⟩ : ∃ k, n = k + 1 := ⟨n - 1, by simp at hn; omega⟩
      simp [cstr, putStr]
  | cons c s ih =>
      obtain ⟨n, rfl⟩ : ∃ k, n = k + 1 := ⟨n - 1, by omega⟩
      have hhead : putStr b off (c :: s) off = c := by simp [putStr]
      have htail : cstr n (putStr b off (c :: s)) (off + 1)
          = cstr n (putStr b (off + 1) s) (off + 1) := by
        refine cstr_congr fun i _ => ?_
        have h1 : off + 1 + i - off = i + 1 := by omega
        have h2 : off + 1 + i - (off + 1) = i := by omega
        simp only [putStr, List.length_cons, h1, h2, List.getD_cons_succ]
        split_ifs <;> first | rfl | omega
      rw [cstr, hhead, if_neg (hs c (List.mem_cons_self ..)), htail,
        ih (fun x hx => hs x (List.mem_cons_of_mem _ hx))
          (by simp only [List.length_cons] at hn; omega)]
      rfl

theorem cstr_putStr_cut {n : Nat} {b : Bytes} {off : Nat} {s : List UInt8}
    (hs : ∀ c ∈ s, c ≠ 0) (hn : n ≤ s.length) : cstr n (putStr b off s) off = none := by
  have hcut : ∀ m j, m + j ≤ s.length → cstr m (putStr b off s) (off + j) = none := by
    intro m
    induction m with
    | zero => exact fun j _ => rfl
    | succ m ih =>
        intro j hj
        have hchar : putStr b off s (off + j) = s[j] := by
          rw [putStr, if_pos (by omega), Nat.add_sub_cancel_left, List.getD_eq_getElem?_getD,
            List.getElem?_eq_getElem (by omega), Option.getD_some]
        rw [cstr, if_neg (hchar ▸ hs _ (List.getElem_mem _)), Nat.add_assoc, ih (j + 1) (by omega)]
        rfl
  exact hcut n 0 hn

theorem cstr_length {n : Nat} {b : Bytes} {off : Nat} {s : List UInt8}
    (h : cstr n b off = some s) : s.length < n := by
  induction n generalizing off s with
  | zero => cases h
  | succ n ih =>
      rw [cstr] at h
      split_ifs at h
      · rw [← Option.some.inj h]
        exact Nat.succ_pos n
      · obtain ⟨t, ht, rfl⟩ := Option.map_eq_some_iff.mp h
        exact Nat.succ_lt_succ (ih ht)

/-- A string is read as far as its terminator, however far one may look. -/
theorem cstr_of_length {n k : Nat} {b : Bytes} {off : Nat} {s : List UInt8}
    (h : cstr n b off = some s) (hk : s.length < k) : cstr k b off = some s := by
  induction n generalizing off s k with
  | zero => cases h
  | succ n ih =>
      obtain ⟨k, rfl⟩ : ∃ j, k = j + 1 := ⟨k - 1, by omega⟩
      rw [cstr] at h ⊢
      split_ifs at h ⊢
      · exact h
      · obtain ⟨t, ht, rfl⟩ := Option.map_eq_some_iff.mp h
        rw [ih ht (Nat.lt_of_succ_lt_succ hk), Option.map_some]

theorem cstr_eq_iff {n k : Nat} {b : Bytes} {off : Nat} {s t : List UInt8}
    (h : cstr n b off = some s) (hk : t.length < k) : cstr k b off = some t ↔ s = t := by
  constructor
  · intro ht
    have hs := cstr_of_length h (Nat.lt_of_lt_of_le (Nat.lt_succ_self s.length)
      (Nat.le_max_left (s.length + 1) (t.length + 1)))
    have ht' := cstr_of_length ht (Nat.lt_of_lt_of_le (Nat.lt_succ_self t.length)
      (Nat.le_max_right (s.length + 1) (t.length + 1)))
    exact Option.some.inj (hs.symm.trans ht')
  · rintro rfl
    exact cstr_of_length h hk

/-! ## Regions -/

/-- `size` addresses from `start` on. -/
structure Region where
  start : Nat
  size : Nat
deriving DecidableEq

namespace Region

def Within (r s : Region) : Prop := s.start ≤ r.start ∧ r.start + r.size ≤ s.start + s.size

def Apart (r s : Region) : Prop := r.start + r.size ≤ s.start ∨ s.start + s.size ≤ r.start

theorem Apart.symm {r s : Region} (h : r.Apart s) : s.Apart r := Or.symm h

theorem Apart.within {r s t : Region} (h : r.Apart s) (ht : t.Within s) : r.Apart t := by
  unfold Apart Within at *
  omega

end Region

theorem le_setLe_apart {n n' : Nat} {b : Bytes} {off off' v : Nat}
    (h : Region.Apart ⟨off, n⟩ ⟨off', n'⟩) : le n (setLe n' b off' v) off = le n b off :=
  le_setLe_disjoint h

end ByteStore
