import VersionSix.Bytes

/-!
# Placing things in a range

`Placed r lo hi as` says that the regions of `as` lie between `lo` and `hi`,
one after the other, with gaps where there is nothing. Something can be put
into a gap (`Placed.insert`) and taken out again (`Placed.erase`); what is
placed is apart (`Placed.pairwise`), and no gap is larger than what is free
altogether (`Fits.free`).

The things are any type with a function `r` to their regions. A list of blocks
and the pieces inside one block are both placements, one level apart, and
`Placed.flatMap` puts the two together. Since only the regions count
(`Placed.congr`), a thing may change its content without any of this being
touched.

`Fits` asks whether some gap is large enough, wherever it is. A search that
looks at the gaps in order finds one exactly then, and which one it takes is
its own affair.
-/

namespace Placement

open ByteStore (Region)

variable {α : Type*} {r : α → Region} {lo hi n : Nat} {a : α} {as bs : List α}

def Placed (r : α → Region) (lo hi : Nat) : List α → Prop
  | [] => lo ≤ hi
  | a :: as => lo ≤ (r a).start ∧ Placed r ((r a).start + (r a).size) hi as

def stop (r : α → Region) (lo : Nat) : List α → Nat
  | [] => lo
  | a :: as => stop r ((r a).start + (r a).size) as

def front (r : α → Region) (hi : Nat) : List α → Nat
  | [] => hi
  | a :: _ => (r a).start

def total (r : α → Region) (as : List α) : Nat := (as.map fun a => (r a).size).sum

@[simp] theorem total_nil : total r [] = 0 := rfl

@[simp] theorem total_cons : total r (a :: as) = (r a).size + total r as := rfl

@[simp] theorem total_append : total r (as ++ bs) = total r as + total r bs := by
  rw [total, List.map_append, List.sum_append]
  rfl

@[simp] theorem stop_append_singleton : stop r lo (as ++ [a]) = (r a).start + (r a).size := by
  induction as generalizing lo with
  | nil => rfl
  | cons b as ih => exact ih

theorem mem_middle {b : α} : b ∈ as ++ a :: bs ↔ b = a ∨ b ∈ as ++ bs :=
  List.perm_middle.mem_iff.trans List.mem_cons

theorem Placed.le (h : Placed r lo hi as) : lo + total r as ≤ hi := by
  induction as generalizing lo with
  | nil => exact h
  | cons a as ih =>
      have hrest := ih h.2
      have hstart := h.1
      rw [total_cons]
      omega

theorem Placed.mono {hi' : Nat} (h : Placed r lo hi as) (hhi : hi ≤ hi') : Placed r lo hi' as := by
  induction as generalizing lo with
  | nil => exact Nat.le_trans h hhi
  | cons a as ih => exact ⟨h.1, ih h.2⟩

theorem Placed.of_le {lo' : Nat} (h : Placed r lo hi as) (hlo : lo' ≤ lo) :
    Placed r lo' hi as := by
  cases as with
  | nil => exact Nat.le_trans hlo h
  | cons a as => exact ⟨hlo.trans h.1, h.2⟩

theorem placed_append :
    Placed r lo hi (as ++ bs) ↔ Placed r lo (stop r lo as) as ∧ Placed r (stop r lo as) hi bs := by
  induction as generalizing lo with
  | nil => exact (and_iff_right (Nat.le_refl lo)).symm
  | cons a as ih => rw [List.cons_append, Placed, Placed, ih, and_assoc, stop]

theorem Placed.stop_le (h : Placed r lo hi as) : stop r lo as ≤ hi := by
  induction as generalizing lo with
  | nil => exact h
  | cons a as ih => exact ih h.2

theorem Placed.inside (h : Placed r lo hi as) (ha : a ∈ as) :
    lo ≤ (r a).start ∧ (r a).start + (r a).size ≤ hi := by
  induction as generalizing lo with
  | nil => cases ha
  | cons b as ih =>
      rcases List.mem_cons.mp ha with rfl | ha
      · exact ⟨h.1, (Nat.le_add_right _ _).trans h.2.le⟩
      · have hin := ih h.2 ha
        exact ⟨by have := h.1; omega, hin.2⟩

theorem Placed.pairwise (h : Placed r lo hi as) :
    as.Pairwise fun a b => (r a).start + (r a).size ≤ (r b).start := by
  induction as generalizing lo with
  | nil => exact .nil
  | cons a as ih => exact List.pairwise_cons.mpr ⟨fun b hb => (h.2.inside hb).1, ih h.2⟩

theorem Placed.before {b : α} (h : Placed r lo hi (as ++ bs)) (ha : a ∈ as) (hb : b ∈ bs) :
    (r a).start + (r a).size ≤ (r b).start :=
  (List.pairwise_append.mp h.pairwise).2.2 a ha b hb

theorem Placed.apart {b : α} (h : Placed r lo hi as) (ha : a ∈ as) (hb : b ∈ as) :
    a = b ∨ (r a).start + (r a).size ≤ (r b).start ∨ (r b).start + (r b).size ≤ (r a).start := by
  let apart (a b : α) : Prop := (r a).start + (r a).size ≤ (r b).start
  have hpair : as.Pairwise apart := h.pairwise
  exact List.Pairwise.forall_of_forall_of_flip (R := fun a b => a = b ∨ apart a b ∨ apart b a)
    (fun _ _ => .inl rfl) (hpair.imp fun hab => .inr (.inl hab))
    (hpair.imp fun hab => .inr (.inr hab)) ha hb

theorem Placed.around (h : Placed r lo hi (as ++ a :: bs)) :
    (∀ b ∈ as, (r b).start + (r b).size ≤ (r a).start) ∧
      ∀ b ∈ bs, (r a).start + (r a).size ≤ (r b).start := by
  have hpair := List.pairwise_append.mp h.pairwise
  exact ⟨fun b hb => hpair.2.2 b hb a List.mem_cons_self, (List.pairwise_cons.mp hpair.2.1).1⟩

theorem Placed.insert (h : Placed r lo hi (as ++ bs)) (hstop : stop r lo as ≤ (r a).start)
    (hfront : (r a).start + (r a).size ≤ front r hi bs) : Placed r lo hi (as ++ a :: bs) := by
  obtain ⟨has, hbs⟩ := placed_append.mp h
  refine placed_append.mpr ⟨has, hstop, ?_⟩
  cases bs with
  | nil => exact hfront
  | cons b bs => exact ⟨hfront, hbs.2⟩

theorem Placed.erase (h : Placed r lo hi (as ++ a :: bs)) : Placed r lo hi (as ++ bs) := by
  obtain ⟨has, hstart, hbs⟩ := placed_append.mp h
  exact placed_append.mpr ⟨has, hbs.of_le (hstart.trans (Nat.le_add_right ..))⟩

theorem Placed.append {mid : Nat} (has : Placed r lo mid as) (hbs : Placed r mid hi bs) :
    Placed r lo hi (as ++ bs) := by
  induction as generalizing lo with
  | nil => exact hbs.of_le has
  | cons a as ih => exact ⟨has.1, ih has.2⟩

theorem Placed.flatMap {β : Type*} {s : β → Region} {f : α → List β} (h : Placed r lo hi as)
    (hf : ∀ a ∈ as, Placed s (r a).start ((r a).start + (r a).size) (f a)) :
    Placed s lo hi (as.flatMap f) := by
  induction as generalizing lo with
  | nil => exact h
  | cons a as ih =>
      have hrest := ih h.2 fun b hb => hf b (List.mem_cons_of_mem a hb)
      have ha := hf a List.mem_cons_self
      rw [List.flatMap_cons]
      exact (ha.of_le h.1).append hrest

theorem Placed.congr {β : Type*} {s : β → Region} {cs : List β} (h : Placed r lo hi as)
    (hsame : cs.map s = as.map r) : Placed s lo hi cs := by
  induction as generalizing lo cs with
  | nil =>
      obtain rfl := List.map_eq_nil_iff.mp hsame
      exact h
  | cons a as ih =>
      obtain ⟨c, cs, rfl, hc, hcs⟩ := List.map_eq_cons_iff.mp hsame
      rw [Placed, hc]
      exact ⟨h.1, ih h.2 hcs⟩

/-! ## Gaps -/

/-- There is a gap of `n`. -/
def Fits (r : α → Region) (lo hi n : Nat) (as : List α) : Prop :=
  ∃ bs cs, as = bs ++ cs ∧ stop r lo bs + n ≤ front r hi cs

theorem Placed.front_le (h : Placed r lo hi as) : front r hi as + total r as ≤ hi := by
  cases as with
  | nil => exact Nat.le_refl hi
  | cons a as =>
      have hrest := h.2.le
      rw [front, total_cons]
      omega

theorem Fits.free (h : Placed r lo hi as) (hfits : Fits r lo hi n as) :
    lo + total r as + n ≤ hi := by
  obtain ⟨bs, cs, rfl, hgap⟩ := hfits
  obtain ⟨hbs, hcs⟩ := placed_append.mp h
  have hbefore := hbs.le
  have hbehind := hcs.front_le
  rw [total_append]
  omega

/-- The gap in front of the first thing, or one behind it. -/
theorem fits_cons : Fits r lo hi n (a :: as) ↔
    lo + n ≤ (r a).start ∨ Fits r ((r a).start + (r a).size) hi n as := by
  constructor
  · rintro ⟨bs, cs, heq, hgap⟩
    cases bs with
    | nil =>
        obtain rfl := (List.nil_append cs).symm.trans heq.symm
        exact .inl hgap
    | cons b bs =>
        obtain ⟨rfl, rfl⟩ := List.cons.inj heq
        exact .inr ⟨bs, cs, rfl, hgap⟩
  · rintro (hgap | ⟨bs, cs, rfl, hgap⟩)
    · exact ⟨[], a :: as, rfl, hgap⟩
    · exact ⟨a :: bs, cs, rfl, hgap⟩

theorem fits_nil : Fits r lo hi n [] ↔ lo + n ≤ hi := by
  constructor
  · rintro ⟨bs, cs, heq, hgap⟩
    obtain ⟨rfl, rfl⟩ := List.append_eq_nil_iff.mp heq.symm
    exact hgap
  · exact fun h => ⟨[], [], rfl, h⟩

end Placement
