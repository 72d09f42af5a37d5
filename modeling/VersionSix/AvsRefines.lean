import VersionSix.AvsList

/-!
# The list is a sequence

Every function of `list.c` keeps `Rep` and does to the cells what `seqStep`
says, and returns what the sequence returns (`list_refines_sequence`, for runs
of any length).

The routines at the bottom are the two insertions and the removal; they are
stated for a list cut open at the node they are given, with the ends as the
cases where one side is empty. That a store into one node leaves the others
alone is where the cells being at different addresses comes in, and the only
place.

A caller has to see to little: an address that is in use by no cell for what is
inserted, and for a node that is passed in, that it is one of the list
(`Op.Ok`). Last in, first out of pushes and pops, and first in, first out of
the queue functions, are facts about sequences then.
-/

namespace VersionSix.Avs

open Linked

variable {D : Type} {s : State D} {cs l r : List (Cell D)} {c : Cell D} {a : Nat} {d : D}

/-- The list `s` has the cells `cs`. -/
structure Rep (s : State D) (cs : List (Cell D)) : Prop where
  chain : Chain s.nodes cs
  head : s.list.head = first cs 0
  tail : s.list.tail = last 0 cs
  size : s.list.size = cs.length

/-- The allocator may hand out `a`. -/
def Fresh (s : State D) (a : Nat) : Prop := a ≠ 0 ∧ s.nodes a = none

/-! ## New nodes -/

@[simp] theorem allocate_self (m : Nodes D) (a : Nat) (n : Node D) : allocate m a n a = some n :=
  Function.update_self ..

theorem allocate_of_ne {m : Nodes D} {a b : Nat} (h : b ≠ a) (n : Node D) :
    allocate m a n b = m b := Function.update_of_ne h ..

theorem Rep.allocate_seg (h : Rep s (l ++ r)) (ha : Fresh s a) (n : Node D) :
    Seg (allocate s.nodes a n) 0 l (first r 0) ∧ Seg (allocate s.nodes a n) (last 0 l) r 0 := by
  have hnot := h.chain.not_mem ha.2
  rw [List.map_append, List.mem_append, not_or] at hnot
  obtain ⟨hl, hr⟩ := seg_append.mp h.chain.seg
  exact ⟨hl.update hnot.1 _, hr.update hnot.2 _⟩

theorem Rep.ne_of_fresh (h : Rep s cs) (ha : Fresh s a) (hc : c ∈ cs) : c.1 ≠ a := by
  rintro rfl
  exact h.chain.not_mem ha.2 (List.mem_map_of_mem hc)

theorem Rep.head_eq_iff (h : Rep s (l ++ c :: r)) : c.1 = s.list.head ↔ l = [] := by
  rw [h.head]
  cases l with
  | nil => simp
  | cons x l =>
      have hx := h.chain.apart.1
      simp only [List.map_cons, List.mem_cons, not_or] at hx
      simpa using hx.1

theorem Rep.tail_eq_iff (h : Rep s (l ++ c :: r)) : c.1 = s.list.tail ↔ r = [] := by
  rw [h.tail]
  cases r using List.reverseRecOn with
  | nil => simp
  | append_singleton r x =>
      have hx := h.chain.apart.2.1
      simp only [List.map_append, List.mem_append, not_or] at hx
      rw [← List.cons_append, ← List.append_assoc, last_concat]
      simpa using hx.2

/-! ## Insertion -/

theorem Rep.insert {b : Cell D} {m : Nodes D} (h : Rep s (l ++ b :: c :: r))
    (hchain : Chain m ((l ++ [b]) ++ (a, d) :: c :: r)) :
    Rep ⟨m, { s.list with size := s.list.size + 1 }⟩ (l ++ b :: (a, d) :: c :: r) := by
  refine ⟨by rwa [List.append_assoc] at hchain, ?_, ?_, ?_⟩
  · dsimp only
    rw [h.head, first_append, first_append]
    rfl
  · dsimp only
    rw [h.tail, last_append, last_append]
    rfl
  · dsimp only
    rw [h.size]
    simp only [List.length_append, List.length_cons]
    omega

theorem insertBefore_empty (h : Rep s []) (ha : Fresh s a) (d : D) :
    ∃ s', avsListInsertBefore s 0 d a = some s' ∧ Rep s' [(a, d)] := by
  unfold avsListInsertBefore
  rw [if_pos rfl]
  refine ⟨_, rfl, ?_, rfl, rfl, ?_⟩
  · have hchain : Chain s.nodes ([] ++ []) := h.chain
    exact hchain.insert ha.1 ha.2 trivial (allocate_self _ _ ⟨d, 0, 0⟩) trivial
  · simp [h.size]

theorem insertBefore_head (h : Rep s (c :: r)) (ha : Fresh s a) (d : D) :
    ∃ s', avsListInsertBefore s c.1 d a = some s' ∧ Rep s' ((a, d) :: c :: r) := by
  have hchain : Chain s.nodes ([] ++ c :: r) := h.chain
  have hc0 : c.1 ≠ 0 := h.chain.nonnull c (by simp)
  have hca : c.1 ≠ a := h.ne_of_fresh ha (by simp)
  have htail : s.list.tail ≠ 0 := by
    rw [h.tail, Ne, h.chain.last_eq_zero]
    simp
  obtain ⟨-, hr⟩ := Rep.allocate_seg (l := []) h ha ⟨d, 0, c.1⟩
  obtain ⟨m, hm, hseg, hframe⟩ := hr.setPrev hchain.apart.2.1 a
  have hnode : m a = some ⟨d, 0, c.1⟩ := by rw [hframe a hca.symm, allocate_self]
  unfold avsListInsertBefore
  rw [if_neg hc0, if_pos (Rep.head_eq_iff (l := []) h |>.mpr rfl), if_neg htail, hm]
  refine ⟨_, rfl, hchain.insert ha.1 ha.2 trivial hnode hseg, rfl, h.tail, ?_⟩
  rw [List.length_cons, Int.natCast_succ, ← h.size]

theorem insertBefore_middle {b : Cell D} (h : Rep s (l ++ b :: c :: r)) (ha : Fresh s a) (d : D) :
    ∃ s', avsListInsertBefore s c.1 d a = some s' ∧ Rep s' (l ++ b :: (a, d) :: c :: r) := by
  have h' : Rep s ((l ++ [b]) ++ c :: r) := by rwa [List.append_assoc]
  have hc0 : c.1 ≠ 0 := h.chain.nonnull c (by simp)
  have hca : c.1 ≠ a := h.ne_of_fresh ha (by simp)
  have hba : b.1 ≠ a := h.ne_of_fresh ha (by simp)
  obtain ⟨hbl, hbr, -⟩ := h.chain.apart
  obtain ⟨hcl, hcr, -⟩ := h'.chain.apart
  obtain ⟨hl, hr⟩ := h'.allocate_seg ha ⟨d, 0, c.1⟩
  have hbefore : allocate s.nodes a ⟨d, 0, c.1⟩ c.1 = some ⟨c.2, b.1, first r 0⟩ := by
    rw [allocate_of_ne hca, h'.chain.seg.node, last_concat]
  -- the new node gets its link back, then the two sides get theirs to it
  have hm₁ : (allocate s.nodes a ⟨d, 0, c.1⟩).setPrev a b.1 =
      some (Function.update _ a (some ⟨d, b.1, c.1⟩)) :=
    setPrev_of_node (allocate_self s.nodes a ⟨d, 0, c.1⟩) b.1
  rw [last_concat] at hr
  have hnot := h'.chain.not_mem ha.2
  rw [List.map_append, List.mem_append, not_or] at hnot
  obtain ⟨m₂, hm₂, hr₂, hframe₂⟩ := (hr.update hnot.2 (some ⟨d, b.1, c.1⟩)).setPrev hcr a
  have hl₂ : Seg m₂ 0 (l ++ [b]) c.1 := (hl.update hnot.1 _).frame fun x hx =>
    hframe₂ x.1 fun hxc => hcl (hxc ▸ List.mem_map_of_mem hx)
  have hnode₂ : m₂ a = some ⟨d, b.1, c.1⟩ := by rw [hframe₂ a hca.symm, Function.update_self]
  obtain ⟨m₃, hm₃, hl₃, hframe₃⟩ := hl₂.setNext hbl a
  have hr₃ : Seg m₃ a (c :: r) 0 := hr₂.frame fun x hx =>
    hframe₃ x.1 fun hxb => hbr (hxb ▸ List.mem_map_of_mem hx)
  have hnode₃ : m₃ a = some ⟨d, b.1, c.1⟩ := by rw [hframe₃ a hba.symm, hnode₂]
  have hchain : Chain m₃ ((l ++ [b]) ++ (a, d) :: c :: r) :=
    h'.chain.insert ha.1 ha.2 hl₃ (by rw [hnode₃, last_concat, first_cons]) hr₃
  unfold avsListInsertBefore
  rw [if_neg hc0, if_neg (h'.head_eq_iff.not.mpr (by simp))]
  simp only [Option.bind_eq_bind, Option.bind_some, hbefore, hm₁, hm₂, hnode₂, hm₃]
  exact ⟨_, rfl, h.insert hchain⟩

theorem insertAfter_empty (h : Rep s []) (ha : Fresh s a) (d : D) :
    ∃ s', avsListInsertAfter s 0 d a = some s' ∧ Rep s' [(a, d)] := by
  unfold avsListInsertAfter
  rw [if_pos (.inl rfl), if_pos (show s.list.tail = 0 from h.tail)]
  refine ⟨_, rfl, ?_, rfl, rfl, ?_⟩
  · have hchain : Chain s.nodes ([] ++ []) := h.chain
    exact hchain.insert ha.1 ha.2 trivial (allocate_self _ _ ⟨d, 0, 0⟩) trivial
  · simp [h.size]

theorem insertAfter_tail (h : Rep s (l ++ [c])) (ha : Fresh s a) (d : D) {n : Nat}
    (hn : n = 0 ∨ n = c.1) :
    ∃ s', avsListInsertAfter s n d a = some s' ∧ Rep s' (l ++ [c] ++ [(a, d)]) := by
  have hc0 : c.1 ≠ 0 := h.chain.nonnull c (by simp)
  have hca : c.1 ≠ a := h.ne_of_fresh ha (by simp)
  have htail : s.list.tail = c.1 := by rw [h.tail, last_concat]
  obtain ⟨hl, -⟩ := Rep.allocate_seg (r := []) (by rwa [List.append_nil]) ha ⟨d, 0, 0⟩
  have hchain : Chain s.nodes ((l ++ [c]) ++ []) := by
    rw [List.append_nil]
    exact h.chain
  obtain ⟨m, hm, hseg, hframe⟩ := hl.setNext h.chain.apart.1 a
  have hnode : m a = some ⟨d, 0, 0⟩ := by rw [hframe a hca.symm, allocate_self]
  have hm' : m.setPrev a c.1 = some (Function.update m a (some ⟨d, c.1, 0⟩)) :=
    setPrev_of_node hnode c.1
  have hnot := h.chain.not_mem ha.2
  unfold avsListInsertAfter
  rw [htail, if_pos hn, if_neg hc0]
  simp only [Option.bind_eq_bind, Option.bind_some, hm, hm']
  refine ⟨_, rfl, ?_, ?_, by rw [last_concat], ?_⟩
  · refine hchain.insert ha.1 ha.2 (hseg.update hnot _) ?_ trivial
    rw [last_concat]
    exact Function.update_self ..
  · rw [h.head, List.append_assoc, first_append, first_append]
    rfl
  · rw [h.size]
    simp only [List.length_append, List.length_singleton]
    omega

theorem insertAfter_middle {b : Cell D} (h : Rep s (l ++ c :: b :: r)) (ha : Fresh s a) (d : D) :
    ∃ s', avsListInsertAfter s c.1 d a = some s' ∧ Rep s' (l ++ c :: (a, d) :: b :: r) := by
  have h' : Rep s ((l ++ [c]) ++ b :: r) := by rwa [List.append_assoc]
  have hc0 : c.1 ≠ 0 := h.chain.nonnull c (by simp)
  have hca : c.1 ≠ a := h.ne_of_fresh ha (by simp)
  have hba : b.1 ≠ a := h.ne_of_fresh ha (by simp)
  obtain ⟨hcl, hcr, -⟩ := h.chain.apart
  obtain ⟨hbl, hbr, -⟩ := h'.chain.apart
  obtain ⟨hl, hr⟩ := h'.allocate_seg ha ⟨d, 0, 0⟩
  have hafter : allocate s.nodes a ⟨d, 0, 0⟩ c.1 = some ⟨c.2, last 0 l, b.1⟩ := by
    rw [allocate_of_ne hca, h.chain.seg.node, first_cons]
  have hm₁ : (allocate s.nodes a ⟨d, 0, 0⟩).setNext a b.1 =
      some (Function.update _ a (some ⟨d, 0, b.1⟩)) :=
    setNext_of_node (allocate_self s.nodes a ⟨d, 0, 0⟩) b.1
  have hnot := h'.chain.not_mem ha.2
  rw [List.map_append, List.mem_append, not_or] at hnot
  obtain ⟨m₂, hm₂, hr₂, hframe₂⟩ := (hr.update hnot.2 (some ⟨d, 0, b.1⟩)).setPrev hbr a
  have hl₂ : Seg m₂ 0 (l ++ [c]) b.1 := (hl.update hnot.1 _).frame fun x hx =>
    hframe₂ x.1 fun hxb => hbl (hxb ▸ List.mem_map_of_mem hx)
  have hnode₂ : m₂ a = some ⟨d, 0, b.1⟩ := by rw [hframe₂ a hba.symm, Function.update_self]
  have hm₃ : m₂.setPrev a c.1 = some (Function.update m₂ a (some ⟨d, c.1, b.1⟩)) :=
    setPrev_of_node hnode₂ c.1
  obtain ⟨m₄, hm₄, hl₄, hframe₄⟩ := (hl₂.update hnot.1 (some ⟨d, c.1, b.1⟩)).setNext hcl a
  have hr₄ : Seg m₄ a (b :: r) 0 := (hr₂.update hnot.2 _).frame fun x hx =>
    hframe₄ x.1 fun hxc => hcr (hxc ▸ List.mem_map_of_mem hx)
  have hnode₄ : m₄ a = some ⟨d, c.1, b.1⟩ := by rw [hframe₄ a hca.symm, Function.update_self]
  have hchain : Chain m₄ ((l ++ [c]) ++ (a, d) :: b :: r) :=
    h'.chain.insert ha.1 ha.2 hl₄ (by rw [hnode₄, last_concat, first_cons]) hr₄
  have hother : ¬ (c.1 = 0 ∨ c.1 = s.list.tail) :=
    not_or.mpr ⟨hc0, h.tail_eq_iff.not.mpr (by simp)⟩
  unfold avsListInsertAfter
  rw [if_neg hother]
  simp only [Option.bind_eq_bind, Option.bind_some, Function.update_self, hafter, hm₁, hm₂, hm₃,
    hm₄]
  exact ⟨_, rfl, h.insert hchain⟩

/-! ## Removal -/

/-- The node is taken out; its own memory is left as it was. -/
theorem remove_member (h : Rep s (l ++ c :: r)) :
    ∃ s', avsListRemove s c.1 = some s' ∧ Rep s' (l ++ r) ∧ s'.nodes c.1 = s.nodes c.1 := by
  have hnode := h.chain.seg.node
  obtain ⟨hl, -, hr⟩ := seg_append.mp h.chain.seg
  obtain ⟨hcl, hcr, hlr⟩ := h.chain.apart
  have hsize : s.list.size - 1 = ((l ++ r).length : Int) := by
    rw [h.size]
    simp only [List.length_append, List.length_cons]
    omega
  unfold avsListRemove
  rw [hnode, Option.bind_eq_bind, Option.bind_some]
  cases l using List.reverseRecOn with
  | nil =>
      cases r with
      | nil =>
          rw [if_pos ⟨rfl, rfl⟩]
          exact ⟨_, rfl, ⟨chain_nil _, rfl, rfl, hsize⟩, hnode.symm ▸ hnode⟩
      | cons e r =>
          have he0 : e.1 ≠ 0 := h.chain.nonnull e (by simp)
          have hce : c.1 ≠ e.1 := fun hce => hcr (by simp [hce])
          obtain ⟨hne, -⟩ := List.nodup_cons.mp (List.nodup_cons.mp h.chain.nodup).2
          obtain ⟨m, hm, hseg, hframe⟩ := hr.setPrev hne 0
          rw [if_neg fun hboth => he0 hboth.2, if_pos (last_nil 0)]
          simp only [first_cons, ne_eq, he0, not_false_eq_true, if_true, hm, Option.bind_eq_bind,
            Option.bind_some]
          refine ⟨_, rfl, ⟨h.chain.remove trivial hseg, rfl, ?_, hsize⟩, ?_⟩
          · exact h.tail
          · exact (hframe c.1 hce).trans hnode
  | append_singleton l b =>
      have hb0 : b.1 ≠ 0 := h.chain.nonnull b (by simp)
      have hcb : c.1 ≠ b.1 := fun hcb => hcl (by simp [hcb])
      have h' : Chain s.nodes (l ++ b :: c :: r) := by simpa using h.chain
      have hbl := h'.apart.1
      rw [last_concat] at hnode ⊢
      have hhead : s.list.head = first (l ++ [b] ++ r) 0 := by
        rw [h.head, first_append, first_append, first_append, first_append l]
        rfl
      dsimp only
      cases r with
      | nil =>
          obtain ⟨m, hm, hseg, hframe⟩ := hl.setNext hbl 0
          rw [if_neg fun hboth => hb0 hboth.1, if_neg hb0, if_pos (first_nil 0), hm]
          refine ⟨_, rfl, ⟨h.chain.remove hseg trivial, hhead, ?_, hsize⟩, ?_⟩
          · rw [List.append_nil, last_concat]
          · exact (hframe c.1 hcb).trans hnode
      | cons e r =>
          have he0 : e.1 ≠ 0 := h.chain.nonnull e (by simp)
          have hce : c.1 ≠ e.1 := fun hce => hcr (by simp [hce])
          have hchain : Chain s.nodes ((l ++ [b, c]) ++ e :: r) := by simpa using h.chain
          have hne := hchain.apart.2.1
          obtain ⟨m₁, hm₁, hr₁, hframe₁⟩ := hr.setPrev hne b.1
          have hl₁ : Seg m₁ 0 (l ++ [b]) c.1 := hl.frame fun x hx => hframe₁ x.1 fun hxe =>
            hlr x.1 (List.mem_map_of_mem hx) (by simp [hxe])
          have hnode₁ : m₁ c.1 = some ⟨c.2, b.1, e.1⟩ := by rw [hframe₁ c.1 hce, hnode, first_cons]
          obtain ⟨m₂, hm₂, hl₂, hframe₂⟩ := hl₁.setNext hbl e.1
          have hr₂ : Seg m₂ b.1 (e :: r) 0 := hr₁.frame fun x hx => hframe₂ x.1 fun hxb =>
            hlr b.1 (by simp) (hxb ▸ List.mem_map_of_mem hx)
          rw [if_neg fun hboth => hb0 hboth.1, if_neg hb0, if_neg (by rwa [first_cons])]
          simp only [first_cons, Option.bind_eq_bind, Option.bind_some, hm₁, hnode₁, hm₂]
          refine ⟨_, rfl, ⟨h.chain.remove hl₂ (by rwa [last_concat]), hhead, ?_, hsize⟩, ?_⟩
          · rw [h.tail, last_append, last_append _ (l ++ [b])]
            rfl
          · exact (hframe₂ c.1 hcb).trans hnode₁

theorem Rep.free (h : Rep s cs) (ha : a ∉ cs.map Prod.fst) : Rep ⟨avsFree s.nodes a, s.list⟩ cs :=
  ⟨h.chain.update ha none, h.head, h.tail, h.size⟩

theorem Rep.not_mem_rest (h : Rep s (l ++ c :: r)) : c.1 ∉ (l ++ r).map Prod.fst := by
  rw [List.map_append, List.mem_append, not_or]
  exact ⟨h.chain.apart.1, h.chain.apart.2.1⟩

theorem free_member (h : Rep s (l ++ c :: r)) :
    ∃ s', avsListFree s c.1 = some s' ∧ Rep s' (l ++ r) := by
  obtain ⟨s', hs', hrep, -⟩ := remove_member h
  unfold avsListFree
  rw [hs']
  exact ⟨_, rfl, hrep.free h.not_mem_rest⟩

theorem take_member (h : Rep s (l ++ c :: r)) :
    ∃ s', avsListTake s c.1 = some (s', some c.2) ∧ Rep s' (l ++ r) := by
  obtain ⟨s', hs', hrep, hnode⟩ := remove_member h
  unfold avsListTake
  rw [hs', Option.bind_eq_bind, Option.bind_some, hnode, h.chain.seg.node]
  exact ⟨_, rfl, hrep.free h.not_mem_rest⟩

theorem pop_spec (h : Rep s cs) :
    ∃ s', avsListPop s = some (s', cs.head?.map Prod.snd) ∧ Rep s' cs.tail := by
  unfold avsListPop
  cases cs with
  | nil => exact ⟨s, if_pos h.head, h⟩
  | cons c cs =>
      obtain ⟨s', hs', hrep⟩ := take_member (l := []) h
      rw [show s.list.head = c.1 from h.head, if_neg (h.chain.nonnull c (by simp))]
      exact ⟨s', hs', hrep⟩

theorem dequeue_spec (h : Rep s cs) (hcs : cs ≠ []) :
    ∃ s', avsListDequeue s = some (s', cs.getLast?.map Prod.snd) ∧ Rep s' cs.dropLast := by
  unfold avsListDequeue
  cases cs using List.reverseRecOn with
  | nil => exact absurd rfl hcs
  | append_singleton cs c =>
      obtain ⟨s', hs', hrep⟩ := take_member (r := []) h
      rw [h.tail, last_concat, List.getLast?_concat, List.dropLast_concat]
      exact ⟨s', hs', by rwa [List.append_nil] at hrep⟩

theorem emptyLoop_spec (h : Rep s cs) :
    ∃ s', avsListEmptyLoop cs.length s = some s' ∧ Rep s' [] := by
  induction cs generalizing s with
  | nil => exact ⟨s, if_pos h.head, h⟩
  | cons c cs ih =>
      obtain ⟨s₁, hs₁, h₁⟩ := free_member (l := []) h
      obtain ⟨s₂, hs₂, h₂⟩ := ih h₁
      refine ⟨s₂, ?_, h₂⟩
      rw [List.length_cons, avsListEmptyLoop, show s.list.head = c.1 from h.head,
        if_neg (h.chain.nonnull c (by simp)), hs₁, Option.bind_some, hs₂]

theorem empty_spec (h : Rep s cs) : ∃ s', avsListEmpty s = some s' ∧ Rep s' [] := by
  obtain ⟨s', hs', hrep⟩ := emptyLoop_spec h
  unfold avsListEmpty
  rw [h.size, Int.toNat_natCast, hs']
  exact ⟨_, rfl, hrep.chain, hrep.head, hrep.tail, rfl⟩

/-! ## Search -/

theorem walk_seg {m : Nodes D} {p e n : Nat} (h : Seg m p cs e) (hn : n ≤ cs.length) :
    walk m n (first cs e) = some (first (cs.drop n) e) := by
  induction n generalizing p cs with
  | zero => rfl
  | succ n ih =>
      cases cs with
      | nil => exact absurd hn (Nat.not_succ_le_zero n)
      | cons c cs =>
          rw [walk, first_cons, h.1, Option.bind_some, List.drop_succ_cons]
          exact ih h.2 (Nat.le_of_succ_le_succ hn)

theorem atIndexNode_spec (h : Rep s cs) (i : Int) :
    avsListAtIndexNode s i = some (addr (seqAt cs i)) := by
  unfold avsListAtIndexNode seqAt
  rw [h.size]
  by_cases hneg : i < 0
  · rw [if_neg (by omega), if_pos hneg, if_pos hneg]
    rfl
  · rw [if_neg hneg, if_neg hneg]
    by_cases hlt : i.toNat < cs.length
    · rw [if_neg (by omega), h.head, walk_seg h.chain.seg (Nat.le_of_lt hlt),
        List.drop_eq_getElem_cons hlt, List.getElem?_eq_getElem hlt]
      rfl
    · rw [if_pos (by omega), List.getElem?_eq_none (by omega)]
      rfl

theorem seqAt_mem {i : Int} (h : seqAt cs i = some c) : c ∈ cs := by
  unfold seqAt at h
  split at h
  · cases h
  · exact List.mem_of_getElem? h

theorem atIndexData_spec (h : Rep s cs) (i : Int) :
    avsListAtIndexData s i = some ((seqAt cs i).map Prod.snd) := by
  unfold avsListAtIndexData
  rw [atIndexNode_spec h, Option.bind_eq_bind, Option.bind_some]
  cases hc : seqAt cs i with
  | none => rfl
  | some c =>
      have hmem := seqAt_mem hc
      obtain ⟨l, r, rfl⟩ := List.append_of_mem hmem
      rw [addr, Option.map_some, Option.getD_some, if_neg (h.chain.nonnull c hmem),
        h.chain.seg.node]
      rfl

theorem findLoop_seg {m : Nodes D} {p e : Nat} (h : Seg m p cs e) (found : D → Bool) :
    findLoop m found cs.length (first cs e) = some (addr (cs.find? fun c => found c.2)) := by
  induction cs generalizing p with
  | nil => rfl
  | cons c cs ih =>
      rw [List.length_cons, findLoop, first_cons, h.1, Option.bind_some, List.find?_cons, ih h.2]
      cases found c.2 <;> rfl

theorem findData_spec (h : Rep s cs) (d : D) (compare : D → D → Int) :
    avsListFindData s d compare = some (addr (cs.find? fun c => compare d c.2 = 0)) := by
  unfold avsListFindData
  rw [h.size, Int.toNat_natCast, h.head]
  exact findLoop_seg h.chain.seg _

/-! ## One call -/

theorem seqInsertBefore_split (x : Cell D) (h : c.1 ∉ l.map Prod.fst) :
    seqInsertBefore c.1 x (l ++ c :: r) = l ++ x :: c :: r := by
  induction l with
  | nil => exact if_pos rfl
  | cons y l ih =>
      rw [List.map_cons, List.mem_cons, not_or] at h
      rw [List.cons_append, seqInsertBefore, if_neg (Ne.symm h.1), ih h.2]
      rfl

theorem seqInsertAfter_split (x : Cell D) (h : c.1 ∉ l.map Prod.fst) :
    seqInsertAfter c.1 x (l ++ c :: r) = l ++ c :: x :: r := by
  induction l with
  | nil => exact if_pos rfl
  | cons y l ih =>
      rw [List.map_cons, List.mem_cons, not_or] at h
      rw [List.cons_append, seqInsertAfter, if_neg (Ne.symm h.1), ih h.2]
      rfl

theorem seqInsertAfter_null (x : Cell D) (h : ∀ c ∈ cs, c.1 ≠ 0) :
    seqInsertAfter 0 x cs = cs ++ [x] := by
  induction cs with
  | nil => rfl
  | cons y cs ih =>
      rw [seqInsertAfter, if_neg (h y (by simp)), ih fun c hc => h c (List.mem_cons_of_mem _ hc)]
      rfl

theorem seqRemove_split (h : c.1 ∉ l.map Prod.fst) : seqRemove c.1 (l ++ c :: r) = l ++ r := by
  unfold seqRemove
  rw [List.eraseP_append_right _ fun x hx => ?_, List.eraseP_cons_of_pos (by simp)]
  rw [decide_eq_true_eq]
  exact fun hxc => h (hxc ▸ List.mem_map_of_mem hx)

theorem insertBefore_spec (h : Rep s cs) (ha : Fresh s a) {n : Nat}
    (hn : n ∈ cs.map Prod.fst ∨ n = 0 ∧ cs = []) (d : D) :
    ∃ s', avsListInsertBefore s n d a = some s' ∧ Rep s' (seqInsertBefore n (a, d) cs) := by
  rcases hn with hn | ⟨rfl, rfl⟩
  · obtain ⟨c, hc, rfl⟩ := List.mem_map.mp hn
    obtain ⟨l, r, rfl⟩ := List.append_of_mem hc
    rw [seqInsertBefore_split _ h.chain.apart.1]
    cases l using List.reverseRecOn with
    | nil => exact insertBefore_head h ha d
    | append_singleton l b =>
        rw [List.append_assoc] at h ⊢
        exact insertBefore_middle h ha d
  · exact insertBefore_empty h ha d

theorem insertAfter_spec (h : Rep s cs) (ha : Fresh s a) {n : Nat}
    (hn : n ∈ cs.map Prod.fst ∨ n = 0) (d : D) :
    ∃ s', avsListInsertAfter s n d a = some s' ∧ Rep s' (seqInsertAfter n (a, d) cs) := by
  rcases hn with hn | rfl
  · obtain ⟨c, hc, rfl⟩ := List.mem_map.mp hn
    obtain ⟨l, r, rfl⟩ := List.append_of_mem hc
    rw [seqInsertAfter_split _ h.chain.apart.1]
    cases r with
    | nil =>
        obtain ⟨s', hs', hrep⟩ := insertAfter_tail h ha d (.inr rfl)
        exact ⟨s', hs', by rwa [List.append_assoc] at hrep⟩
    | cons b r => exact insertAfter_middle h ha d
  · rw [seqInsertAfter_null _ h.chain.nonnull]
    cases cs using List.reverseRecOn with
    | nil => exact insertAfter_empty h ha d
    | append_singleton cs c => exact insertAfter_tail h ha d (.inl rfl)

theorem prepend_spec (h : Rep s cs) (ha : Fresh s a) (d : D) :
    ∃ s', avsListPrepend s d a = some s' ∧ Rep s' ((a, d) :: cs) := by
  unfold avsListPrepend
  rw [h.head]
  cases cs with
  | nil => exact insertBefore_empty h ha d
  | cons c cs => exact insertBefore_head h ha d

theorem append_spec (h : Rep s cs) (ha : Fresh s a) (d : D) :
    ∃ s', avsListAppend s d a = some s' ∧ Rep s' (cs ++ [(a, d)]) := by
  obtain ⟨s', hs', hrep⟩ := insertAfter_spec h ha (.inr rfl) d
  rw [seqInsertAfter_null _ h.chain.nonnull] at hrep
  exact ⟨s', hs', hrep⟩

theorem remove_spec (h : Rep s cs) {n : Nat} (hn : n ∈ cs.map Prod.fst) :
    ∃ s', avsListRemove s n = some s' ∧ Rep s' (seqRemove n cs) := by
  obtain ⟨c, hc, rfl⟩ := List.mem_map.mp hn
  obtain ⟨l, r, rfl⟩ := List.append_of_mem hc
  obtain ⟨s', hs', hrep, -⟩ := remove_member h
  rw [seqRemove_split h.chain.apart.1]
  exact ⟨s', hs', hrep⟩

theorem free_spec (h : Rep s cs) {n : Nat} (hn : n ∈ cs.map Prod.fst) :
    ∃ s', avsListFree s n = some s' ∧ Rep s' (seqRemove n cs) := by
  obtain ⟨c, hc, rfl⟩ := List.mem_map.mp hn
  obtain ⟨l, r, rfl⟩ := List.append_of_mem hc
  rw [seqRemove_split h.chain.apart.1]
  exact free_member h

def Op.Ok (s : State D) (cs : List (Cell D)) : Op D → Prop
  | .append _ a | .prepend _ a | .push _ a | .enqueue _ a => Fresh s a
  | .insertBefore n _ a => Fresh s a ∧ (n ∈ cs.map Prod.fst ∨ n = 0 ∧ cs = [])
  | .insertAfter n _ a => Fresh s a ∧ (n ∈ cs.map Prod.fst ∨ n = 0)
  | .dequeue => cs ≠ []
  | .remove n | .free n => n ∈ cs.map Prod.fst
  | .pop | .empty | .atIndexNode _ | .atIndexData _ | .findData _ _ => True

theorem step_refines (h : Rep s cs) (op : Op D) (hop : op.Ok s cs) :
    ∃ s', step s op = some (s', (seqStep cs op).2) ∧ Rep s' (seqStep cs op).1 := by
  cases op with
  | append d a =>
      obtain ⟨s', hs', hrep⟩ := append_spec h hop d
      exact ⟨s', by rw [step, hs']; rfl, hrep⟩
  | prepend d a | push d a | enqueue d a =>
      obtain ⟨s', hs', hrep⟩ := prepend_spec h hop d
      exact ⟨s', congrArg (Option.map (·, Result.list)) hs', hrep⟩
  | insertBefore n d a =>
      obtain ⟨s', hs', hrep⟩ := insertBefore_spec h hop.1 hop.2 d
      exact ⟨s', by rw [step, hs']; rfl, hrep⟩
  | insertAfter n d a =>
      obtain ⟨s', hs', hrep⟩ := insertAfter_spec h hop.1 hop.2 d
      exact ⟨s', by rw [step, hs']; rfl, hrep⟩
  | pop =>
      obtain ⟨s', hs', hrep⟩ := pop_spec h
      exact ⟨s', by rw [step, hs']; rfl, hrep⟩
  | dequeue =>
      obtain ⟨s', hs', hrep⟩ := dequeue_spec h hop
      exact ⟨s', by rw [step, hs']; rfl, hrep⟩
  | remove n =>
      obtain ⟨s', hs', hrep⟩ := remove_spec h hop
      exact ⟨s', by rw [step, hs']; rfl, hrep⟩
  | free n =>
      obtain ⟨s', hs', hrep⟩ := free_spec h hop
      exact ⟨s', by rw [step, hs']; rfl, hrep⟩
  | empty =>
      obtain ⟨s', hs', hrep⟩ := empty_spec h
      exact ⟨s', by rw [step, hs']; rfl, hrep⟩
  | atIndexNode i => exact ⟨s, by rw [step, atIndexNode_spec h]; rfl, h⟩
  | atIndexData i => exact ⟨s, by rw [step, atIndexData_spec h]; rfl, h⟩
  | findData d compare => exact ⟨s, by rw [step, findData_spec h]; rfl, h⟩

/-! ## Runs -/

/-- The pointers of a doubly linked list with the cells `cs`. -/
structure WellFormed (s : State D) (cs : List (Cell D)) : Prop where
  member : ∀ c ∈ cs, ∃ n, s.nodes c.1 = some n ∧ n.data = c.2
  head_prev : s.list.head ≠ 0 → ∃ n, s.nodes s.list.head = some n ∧ n.prev = 0
  tail_next : s.list.tail ≠ 0 → ∃ n, s.nodes s.list.tail = some n ∧ n.next = 0
  inverse : ∀ {c d n n'}, c ∈ cs → d ∈ cs → s.nodes c.1 = some n → s.nodes d.1 = some n' →
    (n.next = d.1 ↔ n'.prev = c.1)
  size : s.list.size = cs.length
  head_null : s.list.head = 0 ↔ cs = []
  tail_null : s.list.tail = 0 ↔ cs = []

theorem Rep.wellFormed (h : Rep s cs) : WellFormed s cs where
  member c hc := by
    obtain ⟨l, r, rfl⟩ := List.append_of_mem hc
    exact ⟨_, h.chain.seg.node, rfl⟩
  head_prev hne := by
    rw [h.head] at hne ⊢
    cases cs with
    | nil => exact absurd rfl hne
    | cons c cs => exact ⟨_, h.chain.seg.1, rfl⟩
  tail_next hne := by
    rw [h.tail] at hne ⊢
    cases cs using List.reverseRecOn with
    | nil => exact absurd rfl hne
    | append_singleton cs c =>
        rw [last_concat]
        exact ⟨_, (seg_concat.mp h.chain.seg).2, rfl⟩
  inverse hc hd hn hn' := h.chain.next_iff_prev hc hd hn hn'
  size := h.size
  head_null := by rw [h.head, h.chain.first_eq_zero]
  tail_null := by rw [h.tail, h.chain.last_eq_zero]

theorem init_rep (m : Nodes D) : Rep (avsListInit m) [] := ⟨chain_nil m, rfl, rfl, rfl⟩

/-- The sequence after a run, and what its calls return. -/
abbrev seqRun (cs : List (Cell D)) (ops : List (Op D)) : List (Cell D) × List (Result D) :=
  Run.outputs seqStep cs ops

/-- Every call of the run meets `Op.Ok`. -/
abbrev Admissible (s : State D) (cs : List (Cell D)) (ops : List (Op D)) : Prop :=
  Run.Guarded step seqStep (fun s cs op => op.Ok s cs) s cs ops

def Op.enqueued : Op D → Option D
  | .enqueue d _ => some d
  | _ => none

def Result.taken : Result D → Option D
  | .data d => d
  | _ => none

/-- What is dequeued, and what is still queued, came in in this order. -/
theorem seqRun_fifo (cs : List (Cell D)) {ops : List (Op D)}
    (hops : ∀ op ∈ ops, (∃ d a, op = .enqueue d a) ∨ op = .dequeue) :
    (seqRun cs ops).2.filterMap Result.taken ++ ((seqRun cs ops).1.map Prod.snd).reverse
      = (cs.map Prod.snd).reverse ++ ops.filterMap Op.enqueued := by
  induction ops generalizing cs with
  | nil => simp [seqRun, Run.outputs]
  | cons op ops ih =>
      have hrest := ih (seqStep cs op).1 fun o ho => hops o (List.mem_cons_of_mem _ ho)
      rw [seqRun, Run.outputs]
      rcases hops op (List.mem_cons_self ..) with ⟨d, a, rfl⟩ | rfl
      · refine hrest.trans ?_
        simp [seqStep, Op.enqueued]
      · cases cs using List.reverseRecOn with
        | nil => exact hrest
        | append_singleton cs c =>
            have hnone : Op.enqueued (.dequeue : Op D) = none := rfl
            simp only [seqStep, List.dropLast_concat, List.getLast?_concat] at hrest ⊢
            simpa [Result.taken, List.filterMap_cons_none hnone] using hrest

/-- Pushes and pops that match. -/
inductive Balanced : List (Op D) → Prop
  | nil : Balanced []
  | push {d a ops ops'} (h : Balanced ops) (h' : Balanced ops') :
      Balanced (.push d a :: ops ++ .pop :: ops')

theorem Balanced.seqRun {ops : List (Op D)} (h : Balanced ops) (cs : List (Cell D)) :
    (seqRun cs ops).1 = cs := by
  induction h generalizing cs with
  | nil => rfl
  | @push d a ops ops' _ _ ih ih' =>
      rw [Avs.seqRun, List.cons_append, Run.outputs, Run.outputs_append, Run.outputs]
      dsimp only [seqStep]
      rw [ih, ih']
      rfl

theorem seqRun_lifo (cs : List (Cell D)) {ops : List (Op D)} (h : Balanced ops) (d : D) (a : Nat) :
    seqRun cs (.push d a :: ops ++ [.pop])
      = (cs, .list :: (seqRun ((a, d) :: cs) ops).2 ++ [.data (some d)]) := by
  rw [seqRun, List.cons_append, Run.outputs, Run.outputs_append]
  dsimp only [seqStep]
  rw [h.seqRun]
  rfl

/-- **The list refines a sequence.** Every run of calls returns, with the
results of the sequence, and leaves a well-formed list of its cells. A caller
has to pass nodes of the list and addresses that no cell has. Pushes and pops
that match leave what was there, and what is queued comes out in the order in
which it went in. -/
theorem list_refines_sequence {ops : List (Op D)} (h : Rep s cs) (hops : Admissible s cs ops) :
    (∃ s', Run.trace step s ops = some (s', (seqRun cs ops).2) ∧ Rep s' (seqRun cs ops).1 ∧
      WellFormed s' (seqRun cs ops).1) ∧
    ((∀ op ∈ ops, (∃ d a, op = .enqueue d a) ∨ op = .dequeue) →
      (seqRun cs ops).2.filterMap Result.taken ++ ((seqRun cs ops).1.map Prod.snd).reverse
        = (cs.map Prod.snd).reverse ++ ops.filterMap Op.enqueued) ∧
    ∀ d a ops', ops = .push d a :: ops' ++ [.pop] → Balanced ops' →
      seqRun cs ops = (cs, .list :: (seqRun ((a, d) :: cs) ops').2 ++ [.data (some d)]) := by
  obtain ⟨s', hs', hrep⟩ := Run.trace_refines (fun s cs op h hop => step_refines h op hop) h hops
  refine ⟨⟨s', hs', hrep, hrep.wellFormed⟩, seqRun_fifo cs, ?_⟩
  rintro d a ops' rfl hbalanced
  exact seqRun_lifo cs hbalanced d a

instance (s : State D) (a : Nat) : Decidable (Fresh s a) := inferInstanceAs (Decidable (_ ∧ _))

instance (s : State D) (cs : List (Cell D)) : (op : Op D) → Decidable (op.Ok s cs)
  | .append .. | .prepend .. | .push .. | .enqueue .. =>
      inferInstanceAs (Decidable (Fresh _ _))
  | .insertBefore .. => inferInstanceAs (Decidable (Fresh _ _ ∧ (_ ∨ _ ∧ cs = [])))
  | .insertAfter .. => inferInstanceAs (Decidable (Fresh _ _ ∧ (_ ∨ _)))
  | .dequeue => inferInstanceAs (Decidable (cs ≠ []))
  | .remove _ | .free _ => inferInstanceAs (Decidable (_ ∈ _))
  | .pop | .empty | .atIndexNode _ | .atIndexData _ | .findData .. =>
      inferInstanceAs (Decidable True)

/-- A queue of two, a node put before its last one and one behind its first. -/
def someOps : List (Op Nat) :=
  [.enqueue 7 1, .append 8 2, .insertBefore 2 9 3, .insertAfter 1 10 4, .remove 3, .dequeue, .pop]

theorem list_refines_sequence_queue :
    Rep (avsListInit (D := Nat) fun _ => none) [] ∧
      ∃ s', Run.trace step (avsListInit (D := Nat) fun _ => none) someOps
        = some (s', [.list, .list, .list, .list, .node 3, .data (some 8), .data (some 7)]) ∧
          Rep s' [(4, 10)] := by
  have hrep := init_rep (D := Nat) fun _ => none
  have hops : Admissible (avsListInit (D := Nat) fun _ => none) [] someOps := by decide
  obtain ⟨⟨s', hs', hafter, -⟩, -⟩ := list_refines_sequence hrep hops
  exact ⟨hrep, s', hs', hafter⟩

end VersionSix.Avs
