import Mathlib.Data.List.Nodup
import Mathlib.Data.List.Induction
import Mathlib.Logic.Function.Basic

/-!
# Doubly linked segments

Nodes with a link in each direction, stored under addresses; address 0 is no
node. `Seg m p cs e` says that the cells `cs` are linked up in this order from
the node `p` to the node `e`. Segments can be cut anywhere (`seg_append`), they
only depend on their own nodes (`Seg.frame`), and the links that leave them at
either end can be set (`Seg.setNext`, `Seg.setPrev`). With these three an
insertion or a removal in the middle is a cut, two links and a paste, whatever
stands on either side.

A whole list is a segment from 0 to 0 with different addresses (`Chain`). That
the addresses differ is what makes a store to one node harmless to the others;
it is kept by the operations and never argued again.

Heads, tails and counters belong to the program that keeps the list, and so
does the question where new nodes come from.
-/

namespace Linked

structure Node (D : Type*) where
  data : D
  prev : Nat
  next : Nat

abbrev Nodes (D : Type*) := Nat → Option (Node D)

abbrev Cell (D : Type*) := Nat × D

variable {D : Type*} {m m' : Nodes D} {p e : Nat} {c : Cell D} {cs ds : List (Cell D)}

/-! ## Storing links -/

def Nodes.setPrev (m : Nodes D) (a v : Nat) : Option (Nodes D) :=
  (m a).map fun n => Function.update m a (some { n with prev := v })

def Nodes.setNext (m : Nodes D) (a v : Nat) : Option (Nodes D) :=
  (m a).map fun n => Function.update m a (some { n with next := v })

def Nodes.modifyData (m : Nodes D) (a : Nat) (f : D → D) : Option (Nodes D) :=
  (m a).map fun n => Function.update m a (some { n with data := f n.data })

theorem setPrev_of_node {a : Nat} {n : Node D} (h : m a = some n) (v : Nat) :
    m.setPrev a v = some (Function.update m a (some { n with prev := v })) := by
  rw [Nodes.setPrev, h, Option.map_some]

theorem setNext_of_node {a : Nat} {n : Node D} (h : m a = some n) (v : Nat) :
    m.setNext a v = some (Function.update m a (some { n with next := v })) := by
  rw [Nodes.setNext, h, Option.map_some]

/-! ## The ends of a segment -/

def first : List (Cell D) → Nat → Nat
  | [], e => e
  | c :: _, _ => c.1

def last : Nat → List (Cell D) → Nat
  | p, [] => p
  | _, c :: cs => last c.1 cs

@[simp] theorem first_nil (e : Nat) : first ([] : List (Cell D)) e = e := rfl

@[simp] theorem first_cons (c : Cell D) (cs : List (Cell D)) (e : Nat) :
    first (c :: cs) e = c.1 := rfl

@[simp] theorem last_nil (p : Nat) : last p ([] : List (Cell D)) = p := rfl

@[simp] theorem last_concat (p : Nat) (cs : List (Cell D)) (c : Cell D) :
    last p (cs ++ [c]) = c.1 := by
  induction cs generalizing p with
  | nil => rfl
  | cons d cs ih => exact ih d.1

theorem first_append (cs ds : List (Cell D)) (e : Nat) :
    first (cs ++ ds) e = first cs (first ds e) := by
  cases cs <;> rfl

theorem last_append (p : Nat) (cs ds : List (Cell D)) :
    last p (cs ++ ds) = last (last p cs) ds := by
  induction cs generalizing p with
  | nil => rfl
  | cons d cs ih => exact ih d.1

/-! ## Segments -/

def Seg (m : Nodes D) : Nat → List (Cell D) → Nat → Prop
  | _, [], _ => True
  | p, c :: cs, e => m c.1 = some ⟨c.2, p, first cs e⟩ ∧ Seg m c.1 cs e

theorem seg_append : Seg m p (cs ++ ds) e ↔ Seg m p cs (first ds e) ∧ Seg m (last p cs) ds e := by
  induction cs generalizing p with
  | nil => exact (true_and _).symm ▸ Iff.rfl
  | cons c cs ih =>
      rw [List.cons_append, Seg, Seg, first_append, ih, and_assoc]
      rfl

theorem seg_concat : Seg m p (cs ++ [c]) e ↔ Seg m p cs c.1 ∧ m c.1 = some ⟨c.2, last p cs, e⟩ := by
  rw [seg_append, first_cons, Seg, Seg, first_nil, and_true]

theorem Seg.node (h : Seg m p (cs ++ c :: ds) e) :
    m c.1 = some ⟨c.2, last p cs, first ds e⟩ :=
  (seg_append.mp h).2.1

theorem Seg.frame (h : Seg m p cs e) (hsame : ∀ c ∈ cs, m' c.1 = m c.1) : Seg m' p cs e := by
  induction cs generalizing p with
  | nil => trivial
  | cons c cs ih =>
      refine ⟨?_, ih h.2 fun d hd => hsame d (List.mem_cons_of_mem _ hd)⟩
      rw [hsame c (List.mem_cons_self ..)]
      exact h.1

theorem Seg.update (h : Seg m p cs e) {a : Nat} (ha : a ∉ cs.map Prod.fst) (n : Option (Node D)) :
    Seg (Function.update m a n) p cs e := by
  refine h.frame fun c hc => Function.update_of_ne ?_ _ _
  rintro rfl
  exact ha (List.mem_map_of_mem hc)

theorem Seg.setData {v : D} (h : Seg m p (cs ++ c :: ds) e)
    (hsame : ∀ d ∈ cs ++ ds, m' d.1 = m d.1)
    (hnode : m' c.1 = some ⟨v, last p cs, first ds e⟩) : Seg m' p (cs ++ (c.1, v) :: ds) e := by
  obtain ⟨hcs, -, hds⟩ := seg_append.mp h
  exact seg_append.mpr ⟨hcs.frame fun d hd => hsame d (List.mem_append_left _ hd), hnode,
    hds.frame fun d hd => hsame d (List.mem_append_right _ hd)⟩

theorem Seg.setNext (h : Seg m p (cs ++ [c]) e) (hc : c.1 ∉ cs.map Prod.fst) (e' : Nat) :
    ∃ m', m.setNext c.1 e' = some m' ∧ Seg m' p (cs ++ [c]) e' ∧ ∀ a, a ≠ c.1 → m' a = m a := by
  obtain ⟨hcs, hnode⟩ := seg_concat.mp h
  refine ⟨_, setNext_of_node hnode e', seg_concat.mpr ⟨hcs.update hc _, ?_⟩, fun a ha => ?_⟩
  · rw [Function.update_self]
  · rw [Function.update_of_ne ha]

theorem Seg.setPrev (h : Seg m p (c :: cs) e) (hc : c.1 ∉ cs.map Prod.fst) (p' : Nat) :
    ∃ m', m.setPrev c.1 p' = some m' ∧ Seg m' p' (c :: cs) e ∧ ∀ a, a ≠ c.1 → m' a = m a := by
  obtain ⟨hnode, hcs⟩ := h
  refine ⟨_, setPrev_of_node hnode p', ⟨?_, hcs.update hc _⟩, fun a ha => ?_⟩
  · rw [Function.update_self]
  · rw [Function.update_of_ne ha]

section Ends

variable {β : Type*} {f : β → Cell D} {bs : List β}

theorem last_map (h : last p (bs.map f) ≠ p) : ∃ b ∈ bs, (f b).1 = last p (bs.map f) := by
  cases bs using List.reverseRecOn with
  | nil => exact absurd rfl h
  | append_singleton bs b =>
      refine ⟨b, by simp, ?_⟩
      rw [List.map_append, List.map_singleton, last_concat]

theorem first_map (h : first (bs.map f) e ≠ e) : ∃ b ∈ bs, (f b).1 = first (bs.map f) e := by
  cases bs with
  | nil => exact absurd rfl h
  | cons b bs => exact ⟨b, List.mem_cons_self, rfl⟩

theorem Seg.newEnd {e' : Nat} (h : Seg m p (bs.map f) e)
    (hsame : ∀ as b, bs = as ++ [b] → (∀ a ∈ as, m' (f a).1 = m (f a).1) ∧
      m' (f b).1 = (m (f b).1).map fun n => { n with next := e' }) : Seg m' p (bs.map f) e' := by
  cases bs using List.reverseRecOn with
  | nil => trivial
  | append_singleton as b =>
      obtain ⟨has, hb⟩ := hsame as b rfl
      rw [List.map_append, List.map_singleton] at h ⊢
      obtain ⟨hseg, hnode⟩ := seg_concat.mp h
      refine seg_concat.mpr ⟨hseg.frame fun c hc => ?_, by rw [hb, hnode, Option.map_some]⟩
      obtain ⟨a, ha, rfl⟩ := List.mem_map.mp hc
      exact has a ha

theorem Seg.newStart {p' : Nat} (h : Seg m p (bs.map f) e)
    (hsame : ∀ b as, bs = b :: as → (∀ a ∈ as, m' (f a).1 = m (f a).1) ∧
      m' (f b).1 = (m (f b).1).map fun n => { n with prev := p' }) : Seg m' p' (bs.map f) e := by
  cases bs with
  | nil => trivial
  | cons b as =>
      obtain ⟨has, hb⟩ := hsame b as rfl
      obtain ⟨hnode, hseg⟩ := h
      refine ⟨by rw [hb, hnode, Option.map_some], hseg.frame fun c hc => ?_⟩
      obtain ⟨a, ha, rfl⟩ := List.mem_map.mp hc
      exact has a ha

end Ends

/-! ## Whole lists -/

/-- The cells `cs`, at different addresses, are linked up to a list. -/
structure Chain (m : Nodes D) (cs : List (Cell D)) : Prop where
  seg : Seg m 0 cs 0
  nodup : (cs.map Prod.fst).Nodup
  nonnull : ∀ c ∈ cs, c.1 ≠ 0

theorem chain_nil (m : Nodes D) : Chain m [] :=
  ⟨trivial, List.nodup_nil, fun _ h => absurd h List.not_mem_nil⟩

theorem Chain.apart (h : Chain m (cs ++ c :: ds)) :
    c.1 ∉ cs.map Prod.fst ∧ c.1 ∉ ds.map Prod.fst ∧
      ∀ a ∈ cs.map Prod.fst, a ∉ ds.map Prod.fst := by
  have hnodup := h.nodup
  rw [List.map_append, List.map_cons, List.nodup_append, List.nodup_cons] at hnodup
  obtain ⟨-, ⟨hds, -⟩, hne⟩ := hnodup
  exact ⟨fun hc => hne _ hc _ (List.mem_cons_self ..) rfl, hds,
    fun a ha hb => hne a ha a (List.mem_cons_of_mem _ hb) rfl⟩

theorem Chain.not_mem (h : Chain m cs) {a : Nat} (ha : m a = none) : a ∉ cs.map Prod.fst := by
  intro hmem
  obtain ⟨c, hc, rfl⟩ := List.mem_map.mp hmem
  obtain ⟨l, r, rfl⟩ := List.append_of_mem hc
  rw [h.seg.node] at ha
  cases ha

theorem Chain.update (h : Chain m cs) {a : Nat} (ha : a ∉ cs.map Prod.fst) (n : Option (Node D)) :
    Chain (Function.update m a n) cs :=
  ⟨h.seg.update ha n, h.nodup, h.nonnull⟩

theorem Chain.insert (h : Chain m (cs ++ ds)) (hc : c.1 ≠ 0) (hfree : m c.1 = none)
    (hcs : Seg m' 0 cs c.1) (hnode : m' c.1 = some ⟨c.2, last 0 cs, first ds 0⟩)
    (hds : Seg m' c.1 ds 0) : Chain m' (cs ++ c :: ds) where
  seg := seg_append.mpr ⟨hcs, hnode, hds⟩
  nodup := by
    have hperm : (cs ++ c :: ds).Perm (c :: (cs ++ ds)) := List.perm_middle
    rw [(hperm.map Prod.fst).nodup_iff, List.map_cons, List.nodup_cons]
    exact ⟨h.not_mem hfree, h.nodup⟩
  nonnull d hd := by
    rcases List.mem_append.mp hd with hd | hd
    · exact h.nonnull d (List.mem_append_left _ hd)
    · rcases List.mem_cons.mp hd with rfl | hd
      · exact hc
      · exact h.nonnull d (List.mem_append_right _ hd)

/-- The parts of a list that are left when a node between them is taken out. -/
theorem Chain.remove (h : Chain m (cs ++ c :: ds)) (hcs : Seg m' 0 cs (first ds 0))
    (hds : Seg m' (last 0 cs) ds 0) : Chain m' (cs ++ ds) where
  seg := seg_append.mpr ⟨hcs, hds⟩
  nodup := h.nodup.sublist (((List.sublist_cons_self c ds).append_left cs).map _)
  nonnull d hd := h.nonnull d (((List.sublist_cons_self c ds).append_left cs).subset hd)

theorem Chain.modifyData (h : Chain m (cs ++ c :: ds)) (f : D → D) :
    ∃ m', m.modifyData c.1 f = some m' ∧ Chain m' (cs ++ (c.1, f c.2) :: ds) := by
  obtain ⟨hcs, hnode, hds⟩ := seg_append.mp h.seg
  obtain ⟨hc, hd, -⟩ := h.apart
  have hmap : (cs ++ (c.1, f c.2) :: ds).map Prod.fst = (cs ++ c :: ds).map Prod.fst := by simp
  refine ⟨_, by rw [Nodes.modifyData, hnode, Option.map_some], ?_, hmap ▸ h.nodup, ?_⟩
  · exact seg_append.mpr ⟨hcs.update hc _, Function.update_self .., hds.update hd _⟩
  · intro d hd'
    rcases List.mem_append.mp hd' with hmem | hmem
    · exact h.nonnull d (List.mem_append_left _ hmem)
    · rcases List.mem_cons.mp hmem with rfl | hmem
      · exact h.nonnull c (by simp)
      · exact h.nonnull d (List.mem_append_right _ (List.mem_cons_of_mem _ hmem))

theorem Chain.first_eq_zero (h : Chain m cs) : first cs 0 = 0 ↔ cs = [] := by
  cases cs with
  | nil => simp
  | cons c cs =>
      rw [first_cons]
      simpa using h.nonnull c (by simp)

theorem Chain.last_eq_zero (h : Chain m cs) : last 0 cs = 0 ↔ cs = [] := by
  cases cs using List.reverseRecOn with
  | nil => simp
  | append_singleton cs c =>
      rw [last_concat]
      simpa using h.nonnull c (by simp)

/-- Of two members one follows the other exactly if the other precedes the
one. -/
theorem Chain.next_iff_prev (h : Chain m cs) {c d : Cell D} (hc : c ∈ cs) (hd : d ∈ cs)
    {n n' : Node D} (hn : m c.1 = some n) (hn' : m d.1 = some n') :
    n.next = d.1 ↔ n'.prev = c.1 := by
  have hinj := List.inj_on_of_nodup_map h.nodup
  obtain ⟨l, r, rfl⟩ := List.append_of_mem hc
  obtain rfl := Option.some.inj (hn.symm.trans h.seg.node)
  constructor
  · intro hnext
    cases r with
    | nil => exact absurd hnext.symm (h.nonnull d hd)
    | cons e r =>
        rw [← hinj (by simp) hd hnext] at hn'
        have hseg : Seg m 0 ((l ++ [c]) ++ e :: r) 0 := by simpa using h.seg
        obtain rfl := Option.some.inj (hn'.symm.trans hseg.node)
        exact last_concat ..
  · intro hprev
    obtain ⟨l', r', heq⟩ := List.append_of_mem hd
    have hseg := h.seg
    rw [heq] at hseg
    obtain rfl := Option.some.inj (hn'.symm.trans hseg.node)
    cases l' using List.reverseRecOn with
    | nil => exact absurd hprev.symm (h.nonnull c (by simp))
    | append_singleton l' e =>
        rw [last_concat] at hprev
        have hec := hinj (by simp [heq]) hc hprev
        have hseg' : Seg m 0 (l' ++ e :: d :: r') 0 := by simpa using hseg
        have hnode := hseg'.node
        rw [hec, h.seg.node] at hnode
        exact congrArg Node.next (Option.some.inj hnode)

end Linked
