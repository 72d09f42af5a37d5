import VersionSix.Bytes

/-!
# Filling a store

A store that is filled piece by piece. Where the pieces agree on the addresses
they share, their order is of no importance: an address of a piece ends up with
the byte of the piece, every other address keeps what it held. Pieces that do
not overlap agree, and so do two copies of the same bytes, which is what a
loader makes when segments share a page.

A word that is stored is a piece of a few bytes, so relocations and segments
are of one kind.

`Heap` is a store together with the places that were written, for results about
what a program leaves alone. The places are recorded beside the store and read
by nothing: a run on a `Heap` is the run on its store, and what is outside of
all recorded places is as before.
-/

namespace ByteStore

/-- Bytes that go to a region. -/
structure Piece where
  region : Region
  bytes : Bytes

namespace Piece

def Covers (p : Piece) (a : Nat) : Prop :=
  p.region.start ≤ a ∧ a < p.region.start + p.region.size

instance (p : Piece) (a : Nat) : Decidable (p.Covers a) := inferInstanceAs (Decidable (_ ∧ _))

/-- The byte for the address `a`. -/
def byteAt (p : Piece) (a : Nat) : UInt8 := p.bytes (a - p.region.start)

/-- The little-endian word `v` of `n` bytes at `addr`. -/
def word (n addr v : Nat) : Piece := ⟨⟨addr, n⟩, fun i => UInt8.ofNat (v / 256 ^ i)⟩

end Piece

def place (b : Bytes) (p : Piece) : Bytes := write b p.region.start p.region.size p.bytes

theorem place_covered {b : Bytes} {p : Piece} {a : Nat} (h : p.Covers a) :
    place b p a = p.byteAt a := by
  obtain ⟨hle, hlt⟩ := h
  obtain ⟨i, rfl⟩ := Nat.exists_eq_add_of_le hle
  rw [place, write_in (Nat.lt_of_add_lt_add_left hlt), Piece.byteAt, Nat.add_sub_cancel_left]

theorem place_other {b : Bytes} {p : Piece} {a : Nat} (h : ¬ p.Covers a) : place b p a = b a := by
  refine write_out ?_
  unfold Piece.Covers at h
  omega

theorem setLe_eq_place (n : Nat) (b : Bytes) (addr v : Nat) :
    setLe n b addr v = place b (.word n addr v) := by
  funext a
  by_cases ha : (Piece.word n addr v).Covers a
  · rw [place_covered ha]
    exact if_pos ha
  · rw [place_other ha]
    exact if_neg ha

def Agree (ps : List Piece) : Prop :=
  ∀ p ∈ ps, ∀ q ∈ ps, ∀ a, p.Covers a → q.Covers a → p.byteAt a = q.byteAt a

variable {ps : List Piece} {a : Nat}

theorem placeAll_other (b : Bytes) (h : ∀ p ∈ ps, ¬ p.Covers a) : ps.foldl place b a = b a := by
  induction ps generalizing b with
  | nil => rfl
  | cons p ps ih =>
      rw [List.foldl_cons, ih _ fun q hq => h q (List.mem_cons_of_mem p hq),
        place_other (h p List.mem_cons_self)]

theorem placeAll_last (b : Bytes) (h : ∃ p ∈ ps, p.Covers a) :
    ∃ p ∈ ps, p.Covers a ∧ ps.foldl place b a = p.byteAt a := by
  induction ps generalizing b with
  | nil =>
      obtain ⟨p, hp, -⟩ := h
      cases hp
  | cons q ps ih =>
      rw [List.foldl_cons]
      by_cases hlater : ∃ p ∈ ps, p.Covers a
      · obtain ⟨p, hp, hlast⟩ := ih (place b q) hlater
        exact ⟨p, List.mem_cons_of_mem q hp, hlast⟩
      · obtain ⟨p, hp, ha⟩ := h
        rcases List.mem_cons.mp hp with rfl | hp
        · refine ⟨p, List.mem_cons_self, ha, ?_⟩
          rw [placeAll_other _ fun r hr hra => hlater ⟨r, hr, hra⟩, place_covered ha]
        · exact absurd ⟨p, hp, ha⟩ hlater

theorem placeAll_covered (b : Bytes) (hagree : Agree ps) {p : Piece} (hp : p ∈ ps)
    (ha : p.Covers a) : ps.foldl place b a = p.byteAt a := by
  obtain ⟨q, hq, hqa, hlast⟩ := placeAll_last b ⟨p, hp, ha⟩
  rw [hlast]
  exact hagree q hq p hp a hqa ha

theorem le_placeAll_word {n addr v : Nat} (b : Bytes) (hagree : Agree ps)
    (hp : Piece.word n addr v ∈ ps) : le n (ps.foldl place b) addr = v % 256 ^ n := by
  rw [← le_setLe_same n b addr v, setLe_eq_place]
  refine le_congr fun i hi => ?_
  have ha : (Piece.word n addr v).Covers (addr + i) :=
    ⟨Nat.le_add_right .., Nat.add_lt_add_left hi addr⟩
  rw [placeAll_covered b hagree hp ha, place_covered ha]

theorem le_placeAll_other {n addr : Nat} (b : Bytes)
    (h : ∀ p ∈ ps, ∀ i < n, ¬ p.Covers (addr + i)) :
    le n (ps.foldl place b) addr = le n b addr :=
  le_congr fun i hi => placeAll_other b fun p hp => h p hp i hi

theorem foldlM_place {α : Type*} {xs : List α} {step : Bytes → α → Option Bytes}
    {piece : α → Option Piece}
    (h : ∀ x ∈ xs, ∀ b, step b x = some ((piece x).elim b (place b))) (b : Bytes) :
    xs.foldlM step b = some ((xs.filterMap piece).foldl place b) := by
  induction xs generalizing b with
  | nil => rfl
  | cons x xs ih =>
      rw [List.foldlM_cons, h x List.mem_cons_self, Option.bind_eq_bind, Option.bind_some,
        ih fun y hy => h y (List.mem_cons_of_mem x hy)]
      cases hx : piece x with
      | none => rw [List.filterMap_cons_none hx, Option.elim_none]
      | some p => rw [List.filterMap_cons_some hx, Option.elim_some, List.foldl_cons]

/-! ## Stores and what they write -/

/-- A store, and the places written in it in order. Nothing reads the latter. -/
structure Heap where
  memory : Bytes
  stores : List Region

namespace Heap

def put (h : Heap) (p : Piece) : Heap where
  memory := place h.memory p
  stores := h.stores ++ [p.region]

def store (h : Heap) (addr v : Nat) : Heap where
  memory := setLe 8 h.memory addr v
  stores := h.stores ++ [⟨addr, 8⟩]

theorem putAll_memory (h : Heap) : (ps.foldl put h).memory = ps.foldl place h.memory := by
  induction ps generalizing h with
  | nil => rfl
  | cons p ps ih => exact ih (h.put p)

theorem putAll_stores (h : Heap) :
    (ps.foldl put h).stores = h.stores ++ ps.map Piece.region := by
  induction ps generalizing h with
  | nil => simp
  | cons p ps ih =>
      rw [List.foldl_cons, ih, put]
      simp

end Heap

end ByteStore
