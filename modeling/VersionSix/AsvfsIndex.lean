import VersionSix.AsvfsDisk
import VersionSix.DirTree

/-!
# ASVFS: index arrays

What is done to the index of a directory block. `asvfs_unlink` takes an entry
out by moving up the ones behind it; `asvfs_mknod`, `asvfs_mkdir` and
`asvfs_rename` append one. On the list of entries an append is one at the end
and the other is `unlinked`, and the rest of the development speaks of the
lists only.

The loop of `asvfs_unlink` has no branch for a child that is not there: from
the first entry that is the child on, every place gets the id behind it, and
whether or not there was one, the number of entries goes down. So a child that
is not listed costs the directory its last entry, and that is what `unlinked`
does too. The induction is over the index, with what the loop has met so far as
its state (`Met`, `Shifts`).

The last place of a full index gets what stands behind the array in the block
(`unlinkBlock_shifts`). It is no entry any more.
-/

namespace VersionSix.Asvfs

open ByteStore DirTree

/-! ## Functions -/

/-- The loop of `asvfs_unlink` over the index: from the child on, every entry
gets the one behind it. -/
def unlinkLoop (childBlockId nextIndex : Nat) : List Nat → (useNext : Bool) → Bytes → Bytes
  | [], _, b => b
  | i :: is, useNext, b =>
      let useNext := useNext || Directory.index b i == childBlockId
      let b := if useNext then
          Directory.setIndex b i
            (if i + 1 ≥ 256 then 0
            else if i = nextIndex - 1 then 0
            else Directory.index b (i + 1))
        else b
      unlinkLoop childBlockId nextIndex is useNext b

/-- The directory block as `asvfs_unlink` writes it back. -/
def unlinkBlock (childBlockId : Nat) (b : Bytes) : Bytes :=
  let b := unlinkLoop childBlockId (Directory.nextIndex b)
    (List.range (Directory.nextIndex b)) false b
  if Directory.nextIndex b ≠ 0 then Directory.setNextIndex b (Directory.nextIndex b - 1) else b

/-- `index[ next_index++ ] = id`. -/
def appendIndex (b : Bytes) (id : Nat) : Option Bytes :=
  if Directory.nextIndex b < 256 then
    some (Directory.setNextIndex (Directory.setIndex b (Directory.nextIndex b) id)
      (Directory.nextIndex b + 1))
  else none

/-! ## Words of the block -/

theorem length_entries (b : Bytes) : (Directory.entries b).length = Directory.nextIndex b := by
  rw [Directory.entries, List.length_map, List.length_range]

theorem index_lt (b : Bytes) (i : Nat) : Directory.index b i < 2 ^ 32 := le_lt 4 b _

theorem index_setIndex_same {b : Bytes} {i v : Nat} (hv : v < 2 ^ 32) :
    Directory.index (Directory.setIndex b i v) i = v := by
  rw [Directory.index, Directory.setIndex, le_setLe_same]
  exact Nat.mod_eq_of_lt hv

theorem index_setIndex_ne {b : Bytes} {i j v : Nat} (h : j ≠ i) :
    Directory.index (Directory.setIndex b i v) j = Directory.index b j :=
  le_setLe_disjoint (by omega)

theorem nextIndex_setIndex {b : Bytes} {i v : Nat} (h : i < 256) :
    Directory.nextIndex (Directory.setIndex b i v) = Directory.nextIndex b :=
  le_setLe_disjoint (by omega)

theorem type_setIndex {b : Bytes} {i v : Nat} :
    Directory.type (Directory.setIndex b i v) = Directory.type b :=
  le_setLe_disjoint (by omega)

theorem index_setNextIndex {b : Bytes} {i v : Nat} (h : i < 256) :
    Directory.index (Directory.setNextIndex b v) i = Directory.index b i :=
  le_setLe_disjoint (by omega)

theorem nextIndex_setNextIndex {b : Bytes} {v : Nat} (hv : v < 2 ^ 32) :
    Directory.nextIndex (Directory.setNextIndex b v) = v := by
  rw [Directory.nextIndex, Directory.setNextIndex, le_setLe_same]
  exact Nat.mod_eq_of_lt hv

theorem type_setNextIndex {b : Bytes} {v : Nat} :
    Directory.type (Directory.setNextIndex b v) = Directory.type b :=
  le_setLe_disjoint (by omega)

/-! ## Taking an entry out -/

/-- What the loop stores at `i`. -/
def shifted (nextIndex : Nat) (b : Bytes) (i : Nat) : Nat :=
  if i + 1 ≥ 256 then 0 else if i = nextIndex - 1 then 0 else Directory.index b (i + 1)

theorem shifted_lt (k : Nat) (b : Bytes) (i : Nat) : shifted k b i < 2 ^ 32 := by
  unfold shifted
  split
  · decide
  · split
    · decide
    · exact index_lt b _

/-- The child is met at or before `j`, from `i` on. -/
def Met (child : Nat) (b : Bytes) (i j : Nat) : Prop :=
  ∃ l, i ≤ l ∧ l ≤ j ∧ Directory.index b l = child

/-- From the child on every entry is shifted, those in front of it stay. -/
structure Shifts (child k i m : Nat) (useNext : Bool) (b b' : Bytes) : Prop where
  type : Directory.type b' = Directory.type b
  nextIndex : Directory.nextIndex b' = Directory.nextIndex b
  before : ∀ j < i, Directory.index b' j = Directory.index b j
  shifts : ∀ j, i ≤ j → j < i + m → (useNext = true ∨ Met child b i j) →
    Directory.index b' j = shifted k b j
  keeps : ∀ j, i ≤ j → j < i + m → ¬ (useNext = true ∨ Met child b i j) →
    Directory.index b' j = Directory.index b j

theorem met_succ {child i j : Nat} {b : Bytes} {useNext : Bool} (h : i < j) :
    (useNext || Directory.index b i == child) = true ∨ Met child b (i + 1) j ↔
      useNext = true ∨ Met child b i j := by
  rw [Bool.or_eq_true, beq_iff_eq, or_assoc]
  refine or_congr_right ⟨?_, ?_⟩
  · rintro (hi | ⟨l, hl, hj, hc⟩)
    · exact ⟨i, Nat.le_refl i, by omega, hi⟩
    · exact ⟨l, by omega, hj, hc⟩
  · rintro ⟨l, hl, hj, hc⟩
    obtain rfl | hlt := Nat.eq_or_lt_of_le hl
    · exact .inl hc
    · exact .inr ⟨l, hlt, hj, hc⟩

theorem unlinkLoop_shifts {child k m i : Nat} {useNext : Bool} {b : Bytes} (hm : i + m ≤ 256) :
    Shifts child k i m useNext b (unlinkLoop child k (List.range' i m) useNext b) := by
  induction m generalizing i useNext b with
  | zero => exact ⟨rfl, rfl, fun j _ => rfl, fun j hi hj => by omega, fun j hi hj => by omega⟩
  | succ m ih =>
      obtain ⟨u, hu⟩ : ∃ u, (useNext || Directory.index b i == child) = u := ⟨_, rfl⟩
      obtain ⟨b₁, hb₁⟩ : ∃ b₁, (if u then Directory.setIndex b i (shifted k b i) else b) = b₁ :=
        ⟨_, rfl⟩
      have hstep : unlinkLoop child k (List.range' i (m + 1)) useNext b =
          unlinkLoop child k (List.range' (i + 1) m) u b₁ := by
        rw [List.range'_succ, unlinkLoop, ← hb₁, ← hu]
        rfl
      have hother : ∀ j, j ≠ i → Directory.index b₁ j = Directory.index b j := by
        intro j hj
        rw [← hb₁]
        split
        · exact index_setIndex_ne hj
        · rfl
      have hshifted : ∀ j, i < j → shifted k b₁ j = shifted k b j := fun j hj => by
        rw [shifted, shifted, hother (j + 1) (by omega)]
      have hmet : ∀ j, i < j → (u = true ∨ Met child b₁ (i + 1) j ↔
          useNext = true ∨ Met child b i j) := by
        intro j hj
        rw [← met_succ hj, hu]
        refine or_congr_right (exists_congr fun l => and_congr_right fun hl => ?_)
        rw [hother l (by omega)]
      have hself : useNext = true ∨ Met child b i i ↔ u = true := by
        rw [← hu, Bool.or_eq_true, beq_iff_eq]
        refine or_congr_right ⟨?_, fun h => ⟨i, Nat.le_refl i, Nat.le_refl i, h⟩⟩
        rintro ⟨l, hl, hl', hc⟩
        obtain rfl : l = i := by omega
        exact hc
      have h₁ : Shifts child k (i + 1) m u b₁
          (unlinkLoop child k (List.range' (i + 1) m) u b₁) := ih (by omega)
      rw [hstep]
      refine ⟨?_, ?_, fun j hj => ?_, fun j hi hj hcond => ?_, fun j hi hj hcond => ?_⟩
      · rw [h₁.type, ← hb₁]
        split
        · exact type_setIndex
        · rfl
      · rw [h₁.nextIndex, ← hb₁]
        split
        · exact nextIndex_setIndex (by omega)
        · rfl
      · rw [h₁.before j (by omega), hother j (by omega)]
      · obtain rfl | hlt := Nat.eq_or_lt_of_le hi
        · rw [h₁.before i (by omega), ← hb₁, if_pos (hself.mp hcond),
            index_setIndex_same (shifted_lt k b i)]
        · rw [h₁.shifts j hlt (by omega) ((hmet j hlt).mpr hcond), hshifted j hlt]
      · obtain rfl | hlt := Nat.eq_or_lt_of_le hi
        · rw [h₁.before i (by omega), ← hb₁, if_neg fun h => hcond (hself.mpr h)]
        · rw [h₁.keeps j hlt (by omega) fun h => hcond ((hmet j hlt).mp h), hother j (by omega)]

theorem getElem?_entries (b : Bytes) (j : Nat) :
    (Directory.entries b)[j]? =
      if j < Directory.nextIndex b then some (Directory.index b j) else none := by
  rw [Directory.entries, List.getElem?_map]
  split
  · next h => rw [List.getElem?_range h, Option.map_some]
  · next h => rw [List.getElem?_eq_none (by simpa using h), Option.map_none]

/-- The block is met at `j` if it is listed at or before `j`. -/
theorem met_append {child j : Nat} {b : Bytes} {l r : List Nat}
    (h : Directory.entries b = l ++ child :: r) (hnot : child ∉ l)
    (hj : j < Directory.nextIndex b) :
    Met child b 0 j ↔ l.length ≤ j := by
  have hentry : ∀ i < Directory.nextIndex b, (l ++ child :: r)[i]? = some (Directory.index b i) :=
    fun i hi => by rw [← h, getElem?_entries, if_pos hi]
  constructor
  · rintro ⟨i, -, hij, hi⟩
    by_contra hlt
    have hmem := hentry i (by omega)
    rw [List.getElem?_append_left (by omega), hi] at hmem
    exact hnot (List.mem_of_getElem? hmem)
  · intro hlen
    refine ⟨l.length, Nat.zero_le _, hlen, ?_⟩
    have hself := hentry l.length (by omega)
    rw [List.getElem?_append_right (Nat.le_refl _), Nat.sub_self, List.getElem?_cons_zero] at hself
    exact (Option.some.inj hself).symm

/-- The index array loses its last place, and what is behind the child moves
up. -/
theorem unlinkBlock_shifts (child : Nat) {b : Bytes} (hlen : Directory.nextIndex b ≤ 256) :
    Directory.type (unlinkBlock child b) = Directory.type b ∧
    Directory.nextIndex (unlinkBlock child b) = Directory.nextIndex b - 1 ∧
    ∀ j, j < Directory.nextIndex b - 1 →
      (Met child b 0 j → Directory.index (unlinkBlock child b) j = Directory.index b (j + 1)) ∧
      (¬ Met child b 0 j → Directory.index (unlinkBlock child b) j = Directory.index b j) := by
  obtain ⟨b₁, hb₁⟩ : ∃ b₁, unlinkLoop child (Directory.nextIndex b)
      (List.range (Directory.nextIndex b)) false b = b₁ := ⟨_, rfl⟩
  have h : Shifts child (Directory.nextIndex b) 0 (Directory.nextIndex b) false b b₁ := by
    rw [← hb₁, List.range_eq_range']
    exact unlinkLoop_shifts (by omega)
  have hunlink : unlinkBlock child b =
      if Directory.nextIndex b ≠ 0 then Directory.setNextIndex b₁ (Directory.nextIndex b - 1)
      else b₁ := by
    simp only [unlinkBlock, hb₁, h.nextIndex]
  rw [hunlink]
  split
  · refine ⟨type_setNextIndex.trans h.type, nextIndex_setNextIndex (by omega), fun j hj => ?_⟩
    rw [index_setNextIndex (by omega)]
    constructor
    · intro hmet
      rw [h.shifts j (Nat.zero_le j) (by omega) (.inr hmet), shifted, if_neg (by omega),
        if_neg (by omega)]
    · intro hmet
      exact h.keeps j (Nat.zero_le j) (by omega) (not_or.mpr ⟨Bool.false_ne_true, hmet⟩)
  · next hzero => exact ⟨h.type, by rw [h.nextIndex]; omega, fun j hj => by omega⟩

theorem entries_unlinkBlock (child : Nat) {b : Bytes} (hlen : Directory.nextIndex b ≤ 256) :
    Directory.entries (unlinkBlock child b) = unlinked child (Directory.entries b) := by
  obtain ⟨-, hnext, hindex⟩ := unlinkBlock_shifts child hlen
  have hlen' := length_entries b
  refine List.ext_getElem? fun j => ?_
  rw [getElem?_entries, hnext]
  by_cases hmem : child ∈ Directory.entries b
  · obtain ⟨l, r, hnot, hsplit, herase⟩ := List.exists_erase_eq hmem
    have hentry : ∀ i < Directory.nextIndex b,
        (l ++ child :: r)[i]? = some (Directory.index b i) :=
      fun i hi => by rw [← hsplit, getElem?_entries, if_pos hi]
    have hcount : l.length + r.length + 1 = Directory.nextIndex b := by
      rw [← hlen', hsplit, List.length_append, List.length_cons]
      omega
    rw [unlinked, if_pos hmem, herase]
    split
    · next hj =>
      by_cases hmet : l.length ≤ j
      · rw [(hindex j hj).1 ((met_append hsplit hnot (by omega)).mpr hmet),
          ← hentry (j + 1) (by omega), List.getElem?_append_right hmet,
          List.getElem?_append_right (by omega),
          show j + 1 - l.length = j - l.length + 1 by omega, List.getElem?_cons_succ]
      · rw [(hindex j hj).2 fun h => hmet ((met_append hsplit hnot (by omega)).mp h),
          ← hentry j (by omega), List.getElem?_append_left (by omega),
          List.getElem?_append_left (by omega)]
    · next hj =>
      rw [List.getElem?_eq_none (by rw [List.length_append]; omega)]
  · rw [unlinked, if_neg hmem, List.getElem?_dropLast, hlen']
    split
    · next hj =>
      have hunmet : ¬ Met child b 0 j := by
        rintro ⟨i, -, hij, hi⟩
        have hat : (Directory.entries b)[i]? = some child := by
          rw [getElem?_entries, if_pos (by omega), hi]
        exact hmem (List.mem_of_getElem? hat)
      rw [(hindex j hj).2 hunmet, getElem?_entries, if_pos (by omega)]
    · rfl

/-! ## Appending one -/

theorem appendIndex_spec {b b' : Bytes} {id : Nat} (hid : id < 2 ^ 32)
    (h : appendIndex b id = some b') :
    Directory.type b' = Directory.type b ∧ Directory.nextIndex b' ≤ 256 ∧
      Directory.entries b' = Directory.entries b ++ [id] := by
  obtain ⟨hlen, hb'⟩ := Option.ite_none_right_eq_some.mp h
  have hold : ∀ i < Directory.nextIndex b, Directory.index b' i = Directory.index b i := by
    intro i hi
    rw [← Option.some.inj hb', index_setNextIndex (by omega), index_setIndex_ne (by omega)]
  have hnew : Directory.index b' (Directory.nextIndex b) = id := by
    rw [← Option.some.inj hb', index_setNextIndex hlen, index_setIndex_same hid]
  have hlarge : Directory.nextIndex b + 1 < 2 ^ 32 := by omega
  have hnext : Directory.nextIndex b' = Directory.nextIndex b + 1 := by
    rw [← Option.some.inj hb', nextIndex_setNextIndex hlarge]
  refine ⟨?_, le_of_eq_of_le hnext hlen, ?_⟩
  · rw [← Option.some.inj hb', type_setNextIndex, type_setIndex]
  · rw [Directory.entries, hnext, List.range_succ, List.map_append, List.map_singleton, hnew,
      List.map_congr_left fun i hi => hold i (List.mem_range.mp hi), Directory.entries]

theorem appendIndex_isSome {b : Bytes} (id : Nat) (h : Directory.nextIndex b < 256) :
    ∃ b', appendIndex b id = some b' := by
  rw [appendIndex, if_pos h]
  exact ⟨_, rfl⟩

end VersionSix.Asvfs
