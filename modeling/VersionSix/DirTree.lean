import VersionSix.PathTree
import Mathlib.Data.List.Nodup

/-!
# Directory trees

Directories as a file system stores them: a block may list the blocks of its
entries, and every block carries its own name. `Dirs.look` searches a listing
for a name, so a path resolves as in `PathTree`.

Four operations cover what is done to such a tree, each given by what it does
to the blocks that can be reached:

- `Relabels`: a block gets another name;
- `Moves`: a block is taken from one listing and put at the end of another,
  under another name;
- `Removes`: a block is taken from a listing;
- `Creates`: a new block is put at the end of a listing.

For each of them: what paths resolve to afterwards, what can still be reached,
and when the result is a tree again. A block that is listed twice has its name
in both places, so a new name is unique only if no entry next to it has the
name already; and a move loses nothing exactly if it does not lead below the
moved block (`Moves.keeps_iff`). The operations constrain the reachable blocks
alone: a file system may leave anything it likes in the others.
-/

namespace DirTree

open PathTree (resolve Move Unshared)

variable {B N : Type*} [DecidableEq N]

structure Dirs (B N : Type*) where
  root : B
  listing : B → Option (List B)
  name : B → N

/-- The first entry of `d` with the name `c`. -/
def Dirs.look (t : Dirs B N) (d : B) (c : N) : Option B :=
  (t.listing d).bind fun ids => ids.find? fun b => t.name b = c

/-- `b` is `a` or lies below it. -/
inductive Under (t : Dirs B N) (a : B) : B → Prop
  | refl : Under t a a
  | entry {d b : B} {ids : List B} (hd : Under t a d) (hids : t.listing d = some ids)
      (hb : b ∈ ids) : Under t a b

/-- `b` can be reached from the root. -/
abbrev Reach (t : Dirs B N) (b : B) : Prop := Under t t.root b

/-- The listings form a tree, and names are unique in each of them. -/
structure Tree (t : Dirs B N) : Prop where
  names : ∀ {d ids}, Reach t d → t.listing d = some ids → (ids.map t.name).Nodup
  parent : ∀ {d d' ids ids' b}, Reach t d → Reach t d' → t.listing d = some ids →
    t.listing d' = some ids' → b ∈ ids → b ∈ ids' → d = d'
  top : ∀ {d ids}, Reach t d → t.listing d = some ids → t.root ∉ ids

variable {t t' : Dirs B N}

/-! ## Looking up a name -/

theorem look_eq_none_of_file {d : B} (h : t.listing d = none) (c : N) : t.look d c = none := by
  unfold Dirs.look
  rw [h, Option.bind_none]

theorem look_of_nodup {d : B} {ids : List B} (hids : t.listing d = some ids)
    (hnames : (ids.map t.name).Nodup) {c : N} {b : B} :
    t.look d c = some b ↔ b ∈ ids ∧ t.name b = c := by
  unfold Dirs.look
  rw [hids, Option.bind_some]
  constructor
  · intro h
    exact ⟨List.mem_of_find?_eq_some h, by simpa using List.find?_some h⟩
  · rintro ⟨hb, hc⟩
    cases hfind : ids.find? fun b => t.name b = c with
    | none => exact absurd hc (by simpa using List.find?_eq_none.mp hfind b hb)
    | some b' =>
        have hc' : t.name b' = c := by simpa using List.find?_some hfind
        rw [List.inj_on_of_nodup_map hnames (List.mem_of_find?_eq_some hfind) hb
          (hc'.trans hc.symm)]

theorem look_eq_none_iff {d : B} {ids : List B} (hids : t.listing d = some ids) {c : N} :
    t.look d c = none ↔ ∀ b ∈ ids, t.name b ≠ c := by
  unfold Dirs.look
  rw [hids, Option.bind_some, List.find?_eq_none]
  simp

theorem look_mem {d b : B} {c : N} (h : t.look d c = some b) :
    ∃ ids, t.listing d = some ids ∧ b ∈ ids ∧ t.name b = c := by
  obtain ⟨ids, hids, hfind⟩ := Option.bind_eq_some_iff.mp h
  exact ⟨ids, hids, List.mem_of_find?_eq_some hfind, by simpa using List.find?_some hfind⟩

theorem Tree.look_iff (h : Tree t) {d b : B} (hd : Reach t d) {c : N} :
    t.look d c = some b ↔ ∃ ids, t.listing d = some ids ∧ b ∈ ids ∧ t.name b = c := by
  constructor
  · exact look_mem
  · rintro ⟨ids, hids, hb⟩
    exact (look_of_nodup hids (h.names hd hids)).mpr hb

/-! ## Paths and reachability -/

theorem under_of_resolve {a b : B} {p : List N} (h : resolve t.look a p = some b) :
    Under t a b := by
  induction p using List.reverseRecOn generalizing b with
  | nil =>
      obtain rfl := Option.some.inj h
      exact .refl
  | append_singleton p c ih =>
      obtain ⟨d, hd, hc⟩ := PathTree.resolve_concat_eq_some.mp h
      obtain ⟨ids, hids, hb, -⟩ := look_mem hc
      exact .entry (ih hd) hids hb

omit [DecidableEq N] in
theorem Under.trans {a b c : B} (h₁ : Under t a b) (h₂ : Under t b c) : Under t a c := by
  induction h₂ with
  | refl => exact h₁
  | entry _ hids hb ih => exact .entry ih hids hb

theorem Tree.resolve_of_under (h : Tree t) {a b : B} (ha : Reach t a) (hb : Under t a b) :
    ∃ p, resolve t.look a p = some b := by
  induction hb with
  | refl => exact ⟨[], rfl⟩
  | @entry d b ids hd hids hb ih =>
      obtain ⟨p, hp⟩ := ih
      refine ⟨p ++ [t.name b], PathTree.resolve_concat_eq_some.mpr ⟨d, hp, ?_⟩⟩
      exact (h.look_iff (ha.trans hd)).mpr ⟨ids, hids, hb, rfl⟩

theorem Tree.unshared (h : Tree t) : Unshared t.look t.root where
  parent hp hq hb hb' := by
    obtain ⟨ids, hids, hmem, rfl⟩ := look_mem hb
    obtain ⟨ids', hids', hmem', rfl⟩ := look_mem hb'
    exact ⟨h.parent (under_of_resolve hp) (under_of_resolve hq) hids hids' hmem hmem', rfl⟩
  root_top hp hb := by
    obtain ⟨ids, hids, hmem, -⟩ := look_mem hb
    exact h.top (under_of_resolve hp) hids hmem

/-! ## Another name -/

/-- The block `f` is called `c` now. -/
structure Relabels (t t' : Dirs B N) (f : B) (c : N) : Prop where
  root : t'.root = t.root
  listing : ∀ {d}, Reach t d → t'.listing d = t.listing d
  named : t'.name f = c
  name : ∀ {b}, Reach t b → b ≠ f → t'.name b = t.name b

omit [DecidableEq N] in
theorem Relabels.reach_iff {f : B} {c : N} (h : Relabels t t' f c) {b : B} :
    Reach t' b ↔ Reach t b := by
  constructor
  · intro hb
    induction hb with
    | refl =>
        rw [h.root]
        exact .refl
    | entry _ hids hb ih => exact .entry ih (by rw [← h.listing ih, hids]) hb
  · intro hb
    rw [Reach, h.root]
    induction hb with
    | refl => exact .refl
    | entry hd hids hb ih => exact .entry ih (by rw [h.listing hd, hids]) hb

omit [DecidableEq N] in
/-- Names stay unique when no other entry next to `f` has the new one. -/
theorem Relabels.tree {f src : B} {c : N} (h : Relabels t t' f c) (ht : Tree t)
    (hsrc : Reach t src) {ids : List B} (hids : t.listing src = some ids) (hf : f ∈ ids)
    (hfree : ∀ b ∈ ids, t.name b = c → b = f) : Tree t' where
  names {d ids'} hd hids' := by
    rw [h.reach_iff] at hd
    rw [h.listing hd] at hids'
    have hnames := ht.names hd hids'
    by_cases hsame : d = src
    · subst hsame
      obtain rfl := Option.some.inj (hids.symm.trans hids')
      refine List.Nodup.map_on (fun a ha b hb hab => ?_) (List.Nodup.of_map _ hnames)
      have hname : ∀ x ∈ ids, x ≠ f → t'.name x = t.name x :=
        fun x hx hne => h.name (.entry hd hids hx) hne
      by_cases haf : a = f <;> by_cases hbf : b = f
      · rw [haf, hbf]
      · rw [haf, h.named, hname b hb hbf] at hab
        exact absurd (hfree b hb hab.symm) hbf
      · rw [hbf, h.named, hname a ha haf] at hab
        exact absurd (hfree a ha hab) haf
      · rw [hname a ha haf, hname b hb hbf] at hab
        exact List.inj_on_of_nodup_map hnames ha hb hab
    · have hnot : f ∉ ids' := fun hf' => hsame (ht.parent hd hsrc hids' hids hf' hf)
      rw [List.map_congr_left fun b hb => h.name (.entry hd hids' hb) fun hbf => hnot (hbf ▸ hb)]
      exact hnames
  parent hd hd' hids hids' := by
    rw [h.reach_iff] at hd hd'
    rw [h.listing hd] at hids
    rw [h.listing hd'] at hids'
    exact ht.parent hd hd' hids hids'
  top hd hids := by
    rw [h.reach_iff] at hd
    rw [h.listing hd] at hids
    rw [h.root]
    exact ht.top hd hids

theorem Relabels.move {f src : B} {P : List N} {c c' : N} (h : Relabels t t' f c') (ht : Tree t)
    (hP : resolve t.look t.root P = some src) (hf : t.look src c = some f)
    (hfree : t.look src c' = none) : Move t.look t'.look t.root P c P c' := by
  have hsrc := under_of_resolve hP
  obtain ⟨ids, hids, hmem, hname⟩ := look_mem hf
  have hne : ∀ b ∈ ids, t.name b ≠ c' := (look_eq_none_iff hids).mp hfree
  have htree := h.tree ht hsrc hids hmem fun b hb hbc => absurd hbc (hne b hb)
  have hlook : ∀ {d e b}, Reach t d →
      (t'.look d e = some b ↔ ∃ ids, t.listing d = some ids ∧ b ∈ ids ∧ t'.name b = e) := by
    intro d e b hd
    rw [htree.look_iff (h.reach_iff.mpr hd), h.listing hd]
  have hcc' : c ≠ c' := fun heq => hne f hmem (hname.trans heq)
  refine PathTree.resolve_move ht.unshared hP hf hP hfree ?_ ((hlook hsrc).mpr
    ⟨ids, hids, hmem, h.named⟩) ?_ fun q d e hq hdc hdc' => ?_
  · intro hpre
    have := List.append_cancel_left (hpre.eq_of_length (by simp))
    exact hcc' (List.singleton_inj.mp this)
  · rw [Option.eq_none_iff_forall_ne_some]
    intro b hb
    obtain ⟨ids', hids', hb', hbc⟩ := (hlook hsrc).mp hb
    obtain rfl := Option.some.inj (hids.symm.trans hids')
    by_cases hbf : b = f
    · rw [hbf, h.named] at hbc
      exact hcc' hbc.symm
    · rw [h.name (.entry hsrc hids hb') hbf] at hbc
      exact hbf (List.inj_on_of_nodup_map (ht.names hsrc hids) hb' hmem (hbc.trans hname.symm))
  · have hd := under_of_resolve hq
    refine Option.ext fun b => ?_
    rw [hlook hd, ht.look_iff hd]
    refine exists_congr fun ids' => and_congr_right fun hids' => and_congr_right fun hb => ?_
    by_cases hbf : b = f
    · -- only the two edges to `f` differ
      have hds : d = src := ht.parent hd hsrc hids' hids hb (hbf ▸ hmem)
      rw [hbf, h.named, hname]
      exact ⟨fun he => absurd (by rw [hds, he]) hdc', fun he => absurd (by rw [hds, he]) hdc⟩
    · rw [h.name (.entry hd hids' hb) hbf]

/-! ## No change -/

/-- The same entries under the same names. -/
structure Same (t t' : Dirs B N) : Prop where
  root : t'.root = t.root
  listing : ∀ {d}, Reach t d → t'.listing d = t.listing d
  name : ∀ {b}, Reach t b → t'.name b = t.name b

omit [DecidableEq N] in
theorem Same.relabels {b : B} (h : Same t t') (hb : Reach t b) : Relabels t t' b (t.name b) where
  root := h.root
  listing := h.listing
  named := h.name hb
  name hb' _ := h.name hb'

omit [DecidableEq N] in
theorem Same.reach_iff {b : B} (h : Same t t') : Reach t' b ↔ Reach t b :=
  (h.relabels .refl).reach_iff

omit [DecidableEq N] in
theorem Same.tree (h : Same t t') (ht : Tree t) : Tree t' where
  names hd hids := by
    rw [h.reach_iff] at hd
    rw [h.listing hd] at hids
    rw [List.map_congr_left fun b hb => h.name (.entry hd hids hb)]
    exact ht.names hd hids
  parent hd hd' hids hids' := by
    rw [h.reach_iff] at hd hd'
    rw [h.listing hd] at hids
    rw [h.listing hd'] at hids'
    exact ht.parent hd hd' hids hids'
  top hd hids := by
    rw [h.reach_iff] at hd
    rw [h.listing hd] at hids
    rw [h.root]
    exact ht.top hd hids

theorem Same.resolve (h : Same t t') (p : List N) :
    PathTree.resolve t'.look t'.root p = PathTree.resolve t.look t.root p := by
  rw [h.root]
  refine PathTree.resolve_congr fun q d c _ hd => ?_
  have hd' := under_of_resolve hd
  unfold Dirs.look
  rw [h.listing hd']
  cases hl : t.listing d with
  | none => rfl
  | some l =>
      rw [Option.bind_some, Option.bind_some, ← List.head?_filter, ← List.head?_filter,
        List.filter_congr fun b hb => by rw [h.name (.entry hd' hl hb)]]

/-! ## Another directory -/

section Moves

variable [DecidableEq B]

/-- What is left of a listing when `f` is taken out; a listing without `f`
loses its last entry. -/
def unlinked (f : B) (ids : List B) : List B := if f ∈ ids then ids.erase f else ids.dropLast

/-- `f` is taken out of the listing of `src`, put at the end of the listing of
`dst`, and called `c`. -/
structure Moves (t t' : Dirs B N) (src dst f : B) (c : N) : Prop where
  root : t'.root = t.root
  source : t'.listing src = (t.listing src).map (unlinked f)
  target : t'.listing dst = (t.listing dst).map (· ++ [f])
  listing : ∀ {d}, Reach t d → d ≠ src → d ≠ dst → t'.listing d = t.listing d
  named : t'.name f = c
  name : ∀ {b}, Reach t b → b ≠ f → t'.name b = t.name b

omit [DecidableEq N] in
theorem unlinked_subset {f b : B} {ids : List B} (h : b ∈ unlinked f ids) : b ∈ ids := by
  unfold unlinked at h
  split at h
  · exact List.mem_of_mem_erase h
  · exact List.mem_of_mem_dropLast h

omit [DecidableEq N] in
theorem unlinked_sublist (f : B) (ids : List B) : (unlinked f ids).Sublist ids := by
  unfold unlinked
  split
  · exact List.erase_sublist
  · exact List.dropLast_sublist _

omit [DecidableEq N] in
/-- An entry of a listing afterwards is one from before, or the moved block. -/
theorem Moves.mem {src dst f d b : B} {c : N} {ids : List B} (h : Moves t t' src dst f c)
    (hd : Reach t d) (hids : t'.listing d = some ids) (hb : b ∈ ids) :
    (∃ ids₀, t.listing d = some ids₀ ∧ b ∈ ids₀) ∨ d = dst ∧ b = f := by
  by_cases hdst : d = dst
  · rw [hdst, h.target] at hids
    obtain ⟨ids₀, hids₀, rfl⟩ := Option.map_eq_some_iff.mp hids
    rcases List.mem_append.mp hb with hb | hb
    · exact .inl ⟨ids₀, by rw [hdst, hids₀], hb⟩
    · exact .inr ⟨hdst, List.mem_singleton.mp hb⟩
  by_cases hsrc : d = src
  · rw [hsrc, h.source] at hids
    obtain ⟨ids₀, hids₀, rfl⟩ := Option.map_eq_some_iff.mp hids
    exact .inl ⟨ids₀, by rw [hsrc, hids₀], unlinked_subset hb⟩
  · exact .inl ⟨ids, by rw [← h.listing hd hsrc hdst, hids], hb⟩

omit [DecidableEq N] in
theorem Moves.reach {src dst f b : B} {c : N} (h : Moves t t' src dst f c) (hf : Reach t f)
    (hb : Reach t' b) : Reach t b := by
  induction hb with
  | refl =>
      rw [h.root]
      exact .refl
  | entry _ hids hb ih =>
      rcases h.mem ih hids hb with ⟨ids₀, hids₀, hb₀⟩ | ⟨-, rfl⟩
      · exact .entry ih hids₀ hb₀
      · exact hf

omit [DecidableEq N] in
theorem Moves.not_mem_source {src dst f : B} {c : N} {ids : List B} (h : Moves t t' src dst f c)
    (ht : Tree t) (hsrc : Reach t src) (hids : t'.listing src = some ids) : f ∉ ids := by
  rw [h.source] at hids
  obtain ⟨ids₀, hids₀, rfl⟩ := Option.map_eq_some_iff.mp hids
  have hnodup := List.Nodup.of_map _ (ht.names hsrc hids₀)
  unfold unlinked
  split
  · exact hnodup.not_mem_erase
  · next hf => exact fun hmem => hf (List.mem_of_mem_dropLast hmem)

omit [DecidableEq N] in
theorem Moves.mem_of_ne {src dst f d b : B} {c : N} {ids l : List B} (h : Moves t t' src dst f c)
    (hids : t.listing src = some ids) (hf : f ∈ ids) (hd : Reach t d) (hl : t.listing d = some l)
    (hb : b ∈ l) (hbf : b ≠ f) : ∃ l', t'.listing d = some l' ∧ b ∈ l' := by
  by_cases hdst : d = dst
  · exact ⟨l ++ [f], by rw [hdst, h.target, ← hdst, hl, Option.map_some],
      List.mem_append_left _ hb⟩
  by_cases hsrc : d = src
  · obtain rfl := Option.some.inj (hids.symm.trans (hsrc ▸ hl))
    refine ⟨ids.erase f, ?_, (List.mem_erase_of_ne hbf).mpr hb⟩
    rw [hsrc, h.source, hids, Option.map_some, unlinked, if_pos hf]
  · exact ⟨l, by rw [h.listing hd hsrc hdst, hl], hb⟩

omit [DecidableEq N] in
theorem Moves.names {src dst f d : B} {c : N} {ids ids' : List B} (h : Moves t t' src dst f c)
    (ht : Tree t) (hne : src ≠ dst) (hsrc : Reach t src) (hids : t.listing src = some ids)
    (hf : f ∈ ids) (hdst : Reach t dst)
    (hfree : ∀ ids, t.listing dst = some ids → ∀ b ∈ ids, t.name b ≠ c) (hd : Reach t d)
    (hids' : t'.listing d = some ids') : (ids'.map t'.name).Nodup := by
  -- without the moved block the names are the old ones
  have hold : ∀ {d₀ : B} {ids₀ l : List B}, Reach t d₀ → t.listing d₀ = some ids₀ →
    l.Sublist ids₀ → f ∉ l →
      (l.map t'.name).Nodup := by
    intro d₀ ids₀ l hd₀ hids₀ hsub hnot
    rw [List.map_congr_left fun b hb =>
      h.name (.entry hd₀ hids₀ (hsub.subset hb)) fun hbf => hnot (hbf ▸ hb)]
    exact (ht.names hd₀ hids₀).sublist (hsub.map t.name)
  have hnot : ∀ {d₀ : B} {ids₀ : List B}, Reach t d₀ → d₀ ≠ src → t.listing d₀ = some ids₀ →
    f ∉ ids₀ :=
    fun hd₀ hsrc' hids₀ hf' => hsrc' (ht.parent hd₀ hsrc hids₀ hids hf' hf)
  by_cases hdst' : d = dst
  · rw [hdst', h.target] at hids'
    obtain ⟨ids₀, hids₀, rfl⟩ := Option.map_eq_some_iff.mp hids'
    have hnot₀ := hnot hdst hne.symm hids₀
    rw [List.map_append, List.map_singleton, h.named, ← List.concat_eq_append]
    refine List.Nodup.concat (fun hc => ?_) (hold hdst hids₀ (List.Sublist.refl _) hnot₀)
    obtain ⟨b, hb, hbc⟩ := List.mem_map.mp hc
    rw [h.name (.entry hdst hids₀ hb) fun hbf => hnot₀ (hbf ▸ hb)] at hbc
    exact hfree ids₀ hids₀ b hb hbc
  by_cases hsrc' : d = src
  · have hnot₀ := h.not_mem_source ht hsrc (hsrc' ▸ hids')
    rw [hsrc', h.source, hids] at hids'
    obtain rfl := Option.some.inj hids'
    exact hold hsrc hids (unlinked_sublist f ids) hnot₀
  · rw [h.listing hd hsrc' hdst'] at hids'
    exact hold hd hids' (List.Sublist.refl _) (hnot hd hsrc' hids')

omit [DecidableEq N] in
theorem Moves.tree {src dst f : B} {c : N} {ids : List B} (h : Moves t t' src dst f c)
    (ht : Tree t) (hne : src ≠ dst) (hsrc : Reach t src) (hids : t.listing src = some ids)
    (hf : f ∈ ids) (hdst : Reach t dst)
    (hfree : ∀ ids, t.listing dst = some ids → ∀ b ∈ ids, t.name b ≠ c) : Tree t' where
  names hd hids' :=
    h.names ht hne hsrc hids hf hdst hfree (h.reach (.entry hsrc hids hf) hd) hids'
  parent {d d' l l' b} hd hd' hl hl' hb hb' := by
    have hreach : Reach t f := .entry hsrc hids hf
    -- the old place of `f` is the source, and it is gone there
    have hgone : ∀ {d₀ : B} {l₀ l₁ : List B}, Reach t d₀ → t'.listing d₀ = some l₁ → f ∈ l₁ →
        t.listing d₀ = some l₀ → f ∉ l₀ := by
      intro d₀ l₀ l₁ hd₀ hl₁ hf₁ hl₀ hf₀
      have hd₀src := ht.parent hd₀ hsrc hl₀ hids hf₀ hf
      exact h.not_mem_source ht hsrc (hd₀src ▸ hl₁) hf₁
    have hd₀ := h.reach hreach hd
    have hd₁ := h.reach hreach hd'
    rcases h.mem hd₀ hl hb with ⟨l₀, hl₀, hb₀⟩ | ⟨hdst₀, hbf⟩ <;>
      rcases h.mem hd₁ hl' hb' with ⟨l₁, hl₁, hb₁⟩ | ⟨hdst₁, hbf'⟩
    · exact ht.parent hd₀ hd₁ hl₀ hl₁ hb₀ hb₁
    · exact absurd (hbf' ▸ hb₀) (hgone hd₀ hl (hbf' ▸ hb) hl₀)
    · exact absurd (hbf ▸ hb₁) (hgone hd₁ hl' (hbf ▸ hb') hl₁)
    · rw [hdst₀, hdst₁]
  top {d l} hd hl hmem := by
    rw [h.root] at hmem
    rcases h.mem (h.reach (.entry hsrc hids hf) hd) hl hmem with ⟨l₀, hl₀, hb₀⟩ | ⟨-, heq⟩
    · exact ht.top (h.reach (.entry hsrc hids hf) hd) hl₀ hb₀
    · exact ht.top hsrc hids (heq ▸ hf)

/-- Taking a block to a directory outside of it is a move. -/
theorem Moves.move {src dst f : B} {P Q : List N} {c c' : N} (h : Moves t t' src dst f c')
    (ht : Tree t) (hne : src ≠ dst) (hP : resolve t.look t.root P = some src)
    (hf : t.look src c = some f) (hQ : resolve t.look t.root Q = some dst) {l : List B}
    (hl : t.listing dst = some l) (hfree : t.look dst c' = none)
    (houtside : ¬ P ++ [c] <+: Q ++ [c']) : Move t.look t'.look t.root P c Q c' := by
  have hsrc := under_of_resolve hP
  have hdst := under_of_resolve hQ
  obtain ⟨ids, hids, hmem, hname⟩ := look_mem hf
  have hlook : ∀ {d e b l}, Reach t d → t'.listing d = some l →
      (t'.look d e = some b ↔ b ∈ l ∧ t'.name b = e) := fun hd hl' =>
    look_of_nodup hl' (h.names ht hne hsrc hids hmem hdst
      (fun ids₀ hids₀ => (look_eq_none_iff hids₀).mp hfree) hd hl')
  have htarget : t'.listing dst = some (l ++ [f]) := by rw [h.target, hl, Option.map_some]
  have hsource : t'.listing src = some (unlinked f ids) := by rw [h.source, hids, Option.map_some]
  refine PathTree.resolve_move ht.unshared hP hf hQ hfree houtside
    ((hlook hdst htarget).mpr ⟨by simp, h.named⟩) ?_ fun q d e hq hdc hdc' => ?_
  · rw [Option.eq_none_iff_forall_ne_some]
    intro b hb
    obtain ⟨hb', hbc⟩ := (hlook hsrc hsource).mp hb
    have hbf : b ≠ f := fun hbf => h.not_mem_source ht hsrc hsource (hbf ▸ hb')
    rw [h.name (.entry hsrc hids (unlinked_subset hb')) hbf] at hbc
    exact hbf (List.inj_on_of_nodup_map (ht.names hsrc hids) (unlinked_subset hb') hmem
      (hbc.trans hname.symm))
  · have hd := under_of_resolve hq
    cases hl' : t'.listing d with
    | none =>
        have hnone : t.listing d = none := by
          by_cases hdst' : d = dst
          · rw [hdst', htarget] at hl'
            cases hl'
          by_cases hsrc' : d = src
          · rw [hsrc', hsource] at hl'
            cases hl'
          · rw [← h.listing hd hsrc' hdst', hl']
        rw [look_eq_none_of_file hl', look_eq_none_of_file hnone]
    | some l' =>
        refine Option.ext fun b => ?_
        rw [hlook hd hl', ht.look_iff hd]
        by_cases hbf : b = f
        · -- only the two edges to `f` differ
          subst hbf
          constructor
          · rintro ⟨hb, rfl⟩
            rcases h.mem hd hl' hb with ⟨l₀, hl₀, hb₀⟩ | ⟨rfl, -⟩
            · have hds := ht.parent hd hsrc hl₀ hids hb₀ hmem
              exact absurd hb (h.not_mem_source ht hsrc (hds ▸ hl'))
            · exact absurd (by rw [h.named]) hdc'
          · rintro ⟨l₀, hl₀, hb₀, rfl⟩
            have hds := ht.parent hd hsrc hl₀ hids hb₀ hmem
            exact absurd (by rw [hds, hname]) hdc
        · constructor
          · rintro ⟨hb, hbe⟩
            obtain ⟨l₀, hl₀, hb₀⟩ := (h.mem hd hl' hb).resolve_right fun hboth => hbf hboth.2
            exact ⟨l₀, hl₀, hb₀, by rwa [← h.name (.entry hd hl₀ hb₀) hbf]⟩
          · rintro ⟨l₀, hl₀, hb₀, hbe⟩
            obtain ⟨l₁, hl₁, hb₁⟩ := h.mem_of_ne hids hmem hd hl₀ hb₀ hbf
            obtain rfl := Option.some.inj (hl'.symm.trans hl₁)
            exact ⟨hb₁, by rwa [h.name (.entry hd hl₀ hb₀) hbf]⟩

omit [DecidableEq N] in
/-- A move loses nothing exactly if it is to a directory that does not lie
below the moved block. -/
theorem Moves.keeps_iff {src dst f : B} {c : N} {ids : List B} (h : Moves t t' src dst f c)
    (ht : Tree t) (hsrc : Reach t src) (hids : t.listing src = some ids) (hf : f ∈ ids)
    (hdst : Reach t dst) :
    (∀ b, Reach t b → Reach t' b) ↔ (∃ l, t.listing dst = some l) ∧ ¬ Under t f dst := by
  have hreach : Reach t f := .entry hsrc hids hf
  constructor
  · intro hkeep
    by_contra hnot
    -- then nothing below `f` is reached any more
    have hlost : ∀ b, Reach t' b → ¬ Under t f b := by
      intro b hb
      induction hb with
      | refl =>
          rw [h.root]
          intro hunder
          cases hunder with
          | refl => exact ht.top hsrc hids hf
          | entry hd hl hb => exact ht.top (hreach.trans hd) hl hb
      | @entry d b l hd hl hb ih =>
          intro hunder
          have hd₀ := h.reach hreach hd
          rcases h.mem hd₀ hl hb with ⟨l₀, hl₀, hb₀⟩ | ⟨rfl, rfl⟩
          · cases hunder with
            | refl =>
                have hds := ht.parent hd₀ hsrc hl₀ hids hb₀ hf
                exact h.not_mem_source ht hsrc (hds ▸ hl) hb
            | entry hd' hl' hb' =>
                rw [ht.parent (hreach.trans hd') hd₀ hl' hl₀ hb' hb₀] at hd'
                exact ih hd'
          · refine hnot ⟨?_, ih⟩
            rw [h.target] at hl
            obtain ⟨l₀, hl₀, -⟩ := Option.map_eq_some_iff.mp hl
            exact ⟨l₀, hl₀⟩
    exact hlost f (hkeep f hreach) .refl
  · rintro ⟨⟨l, hl⟩, hout⟩ b hb
    have hother : ∀ {b}, Reach t b → ¬ Under t f b → Reach t' b := by
      intro b hb
      induction hb with
      | refl =>
          intro _
          rw [← h.root]
          exact .refl
      | @entry d b l hd hl hb ih =>
          intro hnot
          have hbf : b ≠ f := fun hbf => hnot (hbf ▸ .refl)
          obtain ⟨l', hl', hb'⟩ := h.mem_of_ne hids hf hd hl hb hbf
          exact .entry (ih fun hunder => hnot (.entry hunder hl hb)) hl' hb'
    have hf' : Reach t' f :=
      .entry (hother hdst hout) (by rw [h.target, hl, Option.map_some]) (by simp)
    by_cases hunder : Under t f b
    · induction hunder with
      | refl => exact hf'
      | @entry d b l hd hl hb' ih =>
          by_cases hbf : b = f
          · exact hbf ▸ hf'
          · obtain ⟨l', hl', hb''⟩ := h.mem_of_ne hids hf (hreach.trans hd) hl hb' hbf
            exact .entry (ih (hreach.trans hd)) hl' hb''
    · exact hother hb hunder

omit [DecidableEq N] in
/-- When the source does not list the block, its last entry is lost. -/
theorem Moves.keeps_iff_of_not_mem {src dst f : B} {c : N} (h : Moves t t' src dst f c)
    (ht : Tree t) (hsrc : Reach t src) (hf : Reach t f)
    (hnot : ∀ ids, t.listing src = some ids → f ∉ ids) :
    (∀ b, Reach t b → Reach t' b) ↔ ∀ ids, t.listing src = some ids → ids = [] := by
  constructor
  · intro hkeep ids hids
    by_contra hempty
    have hlast := List.getLast_mem hempty
    generalize hx : ids.getLast hempty = x at hlast
    have hxf : x ≠ f := fun hxf => hnot ids hids (hxf ▸ hlast)
    have hlost : ∀ b, Reach t' b → b ≠ x := by
      intro b hb
      induction hb with
      | refl =>
          rw [h.root]
          exact fun hroot => ht.top hsrc hids (hroot ▸ hlast)
      | @entry d b l hd hl hb _ =>
          rintro rfl
          have hd₀ := h.reach hf hd
          rcases h.mem hd₀ hl hb with ⟨l₀, hl₀, hb₀⟩ | ⟨-, hbf⟩
          · have hds := ht.parent hd₀ hsrc hl₀ hids hb₀ hlast
            rw [hds, h.source, hids, Option.map_some, unlinked, if_neg (hnot ids hids)] at hl
            obtain rfl := Option.some.inj hl
            have hnodup := List.Nodup.of_map _ (ht.names hsrc hids)
            rw [← List.dropLast_append_getLast hempty, hx] at hnodup
            exact (List.nodup_append.mp hnodup).2.2 b hb b (List.mem_singleton_self b) rfl
          · exact hxf hbf
    exact hlost x (hkeep x (.entry hsrc hids hlast)) rfl
  · intro hempty b hb
    induction hb with
    | refl =>
        rw [← h.root]
        exact .refl
    | @entry d b l hd hl hb ih =>
        by_cases hdst : d = dst
        · have hlist : t'.listing d = some (l ++ [f]) := by
            rw [hdst, h.target, ← hdst, hl, Option.map_some]
          exact .entry ih hlist (List.mem_append_left _ hb)
        by_cases hds : d = src
        · rw [hempty l (hds ▸ hl)] at hb
          exact absurd hb List.not_mem_nil
        · exact .entry ih (by rw [h.listing hd hds hdst, hl]) hb

/-- `f` is taken out of the listing of `src`. -/
structure Removes (t t' : Dirs B N) (src f : B) : Prop where
  root : t'.root = t.root
  source : t'.listing src = (t.listing src).map (unlinked f)
  listing : ∀ {d}, Reach t d → d ≠ src → t'.listing d = t.listing d
  name : ∀ {b}, Reach t b → t'.name b = t.name b

section Removes

variable {src f : B}

omit [DecidableEq N] in
theorem Removes.sublist {d : B} {l : List B} (h : Removes t t' src f) (hd : Reach t d)
    (hl : t'.listing d = some l) : ∃ l₀, t.listing d = some l₀ ∧ l.Sublist l₀ := by
  by_cases hds : d = src
  · rw [hds, h.source] at hl
    obtain ⟨l₀, hl₀, rfl⟩ := Option.map_eq_some_iff.mp hl
    exact ⟨l₀, by rw [hds, hl₀], unlinked_sublist f l₀⟩
  · rw [h.listing hd hds] at hl
    exact ⟨l, hl, .refl l⟩

omit [DecidableEq N] in
theorem Removes.reach {b : B} (h : Removes t t' src f) (hb : Reach t' b) : Reach t b := by
  induction hb with
  | refl =>
      rw [h.root]
      exact .refl
  | entry _ hids hb ih =>
      obtain ⟨l₀, hl₀, hsub⟩ := h.sublist ih hids
      exact .entry ih hl₀ (hsub.subset hb)

omit [DecidableEq N] in
theorem Removes.tree (h : Removes t t' src f) (ht : Tree t) : Tree t' where
  names {d l} hd hl := by
    have hd₀ := h.reach hd
    obtain ⟨l₀, hl₀, hsub⟩ := h.sublist hd₀ hl
    rw [List.map_congr_left fun b hb => h.name (.entry hd₀ hl₀ (hsub.subset hb))]
    exact (ht.names hd₀ hl₀).sublist (hsub.map t.name)
  parent hd hd' hl hl' hb hb' := by
    obtain ⟨l₀, hl₀, hsub⟩ := h.sublist (h.reach hd) hl
    obtain ⟨l₁, hl₁, hsub'⟩ := h.sublist (h.reach hd') hl'
    exact ht.parent (h.reach hd) (h.reach hd') hl₀ hl₁ (hsub.subset hb) (hsub'.subset hb')
  top hd hl hmem := by
    obtain ⟨l₀, hl₀, hsub⟩ := h.sublist (h.reach hd) hl
    rw [h.root] at hmem
    exact ht.top (h.reach hd) hl₀ (hsub.subset hmem)

/-- The path of the block and all below it lead nowhere, and no other path has
changed. -/
theorem Removes.resolve {P : List N} {c : N} (h : Removes t t' src f) (ht : Tree t)
    (hP : resolve t.look t.root P = some src) (hf : t.look src c = some f) (q : List N) :
    PathTree.resolve t'.look t'.root q =
      if P ++ [c] <+: q then none else PathTree.resolve t.look t.root q := by
  have hsrc := under_of_resolve hP
  obtain ⟨ids, hids, hmem, hname⟩ := look_mem hf
  have htree := h.tree ht
  have herase : t'.listing src = some (ids.erase f) := by
    rw [h.source, hids, Option.map_some, unlinked, if_pos hmem]
  have hnodup := List.Nodup.of_map _ (ht.names hsrc hids)
  have hreach : ∀ {d b : B} {l : List B}, Reach t d → t.listing d = some l → b ∈ l →
      t'.name b = t.name b := fun hd hl hb => h.name (.entry hd hl hb)
  rw [h.root]
  refine PathTree.resolve_prune ht.unshared hP ?_ (fun r d e hd hne => ?_) q
  · unfold Dirs.look
    rw [herase, Option.bind_some, List.find?_eq_none]
    intro b hb hbc
    have hb₀ := List.mem_of_mem_erase hb
    have hsame : b = f := by
      refine List.inj_on_of_nodup_map (ht.names hsrc hids) hb₀ hmem ?_
      rw [hname, ← hreach hsrc hids hb₀]
      simpa using hbc
    exact hnodup.not_mem_erase (hsame ▸ hb)
  · have hd' := under_of_resolve hd
    by_cases hds : d = src
    · subst hds
      have hnot : t.name f ≠ e := by
        rintro rfl
        exact hne (by rw [hname])
      unfold Dirs.look
      rw [herase, hids, Option.bind_some, Option.bind_some]
      have hold : (ids.erase f).find? (fun b => t'.name b = e) =
          (ids.erase f).find? fun b => t.name b = e := by
        rw [← List.head?_filter, ← List.head?_filter, List.filter_congr fun b hb => by
          rw [hreach hd' hids (List.mem_of_mem_erase hb)]]
      obtain ⟨l, r, -, hsplit, hrest⟩ := List.exists_erase_eq hmem
      rw [hold, hrest, hsplit, List.find?_append, List.find?_append, List.find?_cons_of_neg]
      simpa using hnot
    · unfold Dirs.look
      rw [h.listing hd' hds]
      cases hl : t.listing d with
      | none => rfl
      | some l =>
          rw [Option.bind_some, Option.bind_some, ← List.head?_filter, ← List.head?_filter,
            List.filter_congr fun b hb => by rw [hreach hd' hl hb]]

end Removes

end Moves

/-! ## A new entry -/

/-- The unreached block `n` is put at the end of the listing of `dst`, under
the name `c`. -/
structure Creates (t t' : Dirs B N) (dst n : B) (c : N) : Prop where
  root : t'.root = t.root
  target : t'.listing dst = (t.listing dst).map (· ++ [n])
  listing : ∀ {d}, Reach t d → d ≠ dst → t'.listing d = t.listing d
  named : t'.name n = c
  name : ∀ {b}, Reach t b → t'.name b = t.name b
  fresh : ¬ Reach t n

theorem Creates.look_eq {dst n d : B} {c e : N} (h : Creates t t' dst n c) (hd : Reach t d)
    (hne : (d, e) ≠ (dst, c)) : t'.look d e = t.look d e := by
  have hold : ∀ {l : List B}, t.listing d = some l →
      (l.find? fun b => t'.name b = e) = l.find? fun b => t.name b = e := fun hl => by
    rw [← List.head?_filter, ← List.head?_filter,
      List.filter_congr fun b hb => by rw [h.name (.entry hd hl hb)]]
  unfold Dirs.look
  by_cases hdst : d = dst
  · have hce : c ≠ e := fun hce => hne (by rw [hdst, hce])
    cases hl : t.listing d with
    | none => rw [hdst, h.target, ← hdst, hl, Option.map_none, Option.bind_none, Option.bind_none]
    | some l =>
        have hsingle : ([n].find? fun b => t'.name b = e) = none := by
          rw [List.find?_eq_none]
          intro b hb
          obtain rfl := List.mem_singleton.mp hb
          simpa [h.named] using hce
        rw [hdst, h.target, ← hdst, hl, Option.map_some, Option.bind_some, Option.bind_some,
          List.find?_append, hsingle, Option.or_none, hold hl]
  · rw [h.listing hd hdst]
    cases hl : t.listing d with
    | none => rfl
    | some l => exact hold hl

/-- Paths that do not go through the new entry resolve as before. -/
theorem Creates.kept {dst n : B} {Q q : List N} {c : N} (h : Creates t t' dst n c) (ht : Tree t)
    (hQ : resolve t.look t.root Q = some dst) (hq : ¬ Q ++ [c] <+: q) :
    resolve t'.look t'.root q = resolve t.look t.root q := by
  rw [h.root]
  refine PathTree.resolve_congr fun r d e hr hd => h.look_eq (under_of_resolve hd) fun heq => ?_
  obtain ⟨rfl, rfl⟩ := Prod.mk.inj heq
  rw [ht.unshared.path_unique hd hQ] at hr
  exact hq hr

theorem Creates.found {dst n : B} {Q : List N} {c : N} {l : List B} (h : Creates t t' dst n c)
    (ht : Tree t) (hQ : resolve t.look t.root Q = some dst) (hl : t.listing dst = some l)
    (hfree : t.look dst c = none) : resolve t'.look t'.root (Q ++ [c]) = some n := by
  have hQ' : resolve t'.look t'.root Q = some dst := by
    rw [h.kept ht hQ fun hpre => ?_, hQ]
    have := hpre.length_le
    simp only [List.length_append, List.length_singleton] at this
    omega
  refine PathTree.resolve_concat_eq_some.mpr ⟨dst, hQ', ?_⟩
  unfold Dirs.look
  have hnone : (l.find? fun b => t'.name b = c) = none := by
    rw [List.find?_eq_none]
    intro b hb
    rw [h.name (.entry (under_of_resolve hQ) hl hb)]
    simpa using (look_eq_none_iff hl).mp hfree b hb
  rw [h.target, hl, Option.map_some, Option.bind_some, List.find?_append, hnone, Option.none_or]
  simp [h.named]

omit [DecidableEq N] in
theorem Creates.mem {dst n d b : B} {c : N} {l : List B} (h : Creates t t' dst n c)
    (hd : Reach t d) (hl : t'.listing d = some l) (hb : b ∈ l) :
    (∃ l₀, t.listing d = some l₀ ∧ b ∈ l₀) ∨ d = dst ∧ b = n := by
  by_cases hdst : d = dst
  · rw [hdst, h.target] at hl
    obtain ⟨l₀, hl₀, rfl⟩ := Option.map_eq_some_iff.mp hl
    rcases List.mem_append.mp hb with hb | hb
    · exact .inl ⟨l₀, by rw [hdst, hl₀], hb⟩
    · exact .inr ⟨hdst, List.mem_singleton.mp hb⟩
  · exact .inl ⟨l, by rw [← h.listing hd hdst, hl], hb⟩

omit [DecidableEq N] in
/-- When the new block has no entries, it is all that comes in. -/
theorem Creates.reach {dst n b : B} {c : N} (h : Creates t t' dst n c)
    (hleaf : ∀ l, t'.listing n = some l → l = []) (hb : Reach t' b) :
    Reach t b ∨ b = n ∧ ∃ l, t.listing dst = some l := by
  induction hb with
  | refl =>
      rw [h.root]
      exact .inl .refl
  | @entry d b l _ hl hb ih =>
      rcases ih with hd | ⟨rfl, -⟩
      · rcases h.mem hd hl hb with ⟨l₀, hl₀, hb₀⟩ | ⟨rfl, rfl⟩
        · exact .inl (.entry hd hl₀ hb₀)
        · rw [h.target] at hl
          obtain ⟨l₀, hl₀, -⟩ := Option.map_eq_some_iff.mp hl
          exact .inr ⟨rfl, l₀, hl₀⟩
      · rw [hleaf l hl] at hb
        exact absurd hb List.not_mem_nil

omit [DecidableEq N] in
theorem Creates.tree {dst n : B} {c : N} (h : Creates t t' dst n c) (ht : Tree t)
    (hleaf : ∀ l, t'.listing n = some l → l = []) (hdst : Reach t dst)
    (hfree : ∀ l, t.listing dst = some l → ∀ b ∈ l, t.name b ≠ c) : Tree t' where
  names {d l} hd hl := by
    rcases h.reach hleaf hd with hd | ⟨rfl, -⟩
    · have hold : ∀ {l₀ : List B}, t.listing d = some l₀ → (l₀.map t'.name).Nodup := by
        intro l₀ hl₀
        rw [List.map_congr_left fun b hb => h.name (.entry hd hl₀ hb)]
        exact ht.names hd hl₀
      by_cases hds : d = dst
      · rw [hds, h.target] at hl
        obtain ⟨l₀, hl₀, rfl⟩ := Option.map_eq_some_iff.mp hl
        rw [List.map_append, List.map_singleton, h.named, ← List.concat_eq_append]
        refine List.Nodup.concat (fun hc => ?_) (hold (hds ▸ hl₀))
        obtain ⟨b, hb, hbc⟩ := List.mem_map.mp hc
        rw [h.name (.entry hdst hl₀ hb)] at hbc
        exact hfree l₀ hl₀ b hb hbc
      · exact hold (by rw [← h.listing hd hds, hl])
    · rw [hleaf l hl]
      exact List.nodup_nil
  parent {d d' l l' b} hd hd' hl hl' hb hb' := by
    have hnot : ∀ {d₀ l₀}, Reach t d₀ → t.listing d₀ = some l₀ → n ∉ l₀ :=
      fun hd₀ hl₀ hmem => h.fresh (.entry hd₀ hl₀ hmem)
    rcases h.reach hleaf hd with hd | ⟨rfl, -⟩
    · rcases h.reach hleaf hd' with hd' | ⟨rfl, -⟩
      · rcases h.mem hd hl hb with ⟨l₀, hl₀, hb₀⟩ | ⟨hds, hbn⟩ <;>
          rcases h.mem hd' hl' hb' with ⟨l₁, hl₁, hb₁⟩ | ⟨hds', hbn'⟩
        · exact ht.parent hd hd' hl₀ hl₁ hb₀ hb₁
        · exact absurd (hbn' ▸ hb₀) (hnot hd hl₀)
        · exact absurd (hbn ▸ hb₁) (hnot hd' hl₁)
        · rw [hds, hds']
      · rw [hleaf l' hl'] at hb'
        exact absurd hb' List.not_mem_nil
    · rw [hleaf l hl] at hb
      exact absurd hb List.not_mem_nil
  top {d l} hd hl hmem := by
    rw [h.root] at hmem
    rcases h.reach hleaf hd with hd | ⟨rfl, -⟩
    · rcases h.mem hd hl hmem with ⟨l₀, hl₀, hb₀⟩ | ⟨-, heq⟩
      · exact ht.top hd hl₀ hb₀
      · exact h.fresh (heq ▸ .refl)
    · rw [hleaf l hl] at hmem
      exact List.not_mem_nil hmem

end DirTree
