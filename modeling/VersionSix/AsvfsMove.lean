import VersionSix.AsvfsRename

/-!
# ASVFS: what a rename keeps and moves

A rename compares neither the two paths with each other nor the target with
what is there. It loses blocks when the target's parent is no directory or lies
inside what is moved, and when the source ends in a separator
(`rename_keeps_iff`). Where none of that is the case and the target is free, it
is a move (`rename_is_move`): the old path and everything below it resolve to
nothing, the new path and everything below it to what the old ones did, and all
other paths lead where they led.

Losing means losing: a block that was reached by some path is reached by none.
A move into the moved directory itself is the case to think of. The entry is
taken out first and then appended to a directory that nothing leads to any
more.

The small drive of this module is used as an example by several others.
-/

namespace VersionSix.Asvfs

open ByteStore DirTree PathText
open PathTree (resolve Move)

variable {s s' : Volume} {n : Nat}

/-! ## A small drive

The root is block 1 and lists the empty directory `/a`, block 2. -/

def smallDrive : Volume where
  header := bytesOf [(14, 16), (17, 8), (21, 1), (25, 3)]
  disk := bytesOf [
    -- the records of blocks 1, 2 and 3
    (157, 1), (161, 2), (253, 2), (257, 2), (258, 97), (349, 3),
    -- the two directory blocks
    (4096, 2), (4100, 2), (5124, 1), (8192, 2)]

theorem smallDrive_checked : Checked 8 smallDrive [1, 2] := by decide +kernel

theorem smallDrive_wellFormed : WellFormed 8 smallDrive := smallDrive_checked.wellFormed

theorem smallDrive_capacity : Capacity 97 smallDrive := by
  intro d ids hd hids
  have hsmall : ∀ d ∈ [1, 2], (entriesAt smallDrive d).length ≤ 97 := by decide +kernel
  rw [← entriesAt_of_listing hids]
  exact hsmall d (smallDrive_checked.reach hd)

/-! ## Renaming to another directory -/

/-- It returns if the directories have room and the name fits the record. -/
theorem renameAcross_returns (hs : WellFormed n s) (hcap : Capacity 97 s) {src dst f : Nat}
    {c c' path p : List UInt8} (hsrcReach : Reach (view s) src)
    (hsrcDir : ∃ ids, (view s).listing src = some ids) (hdstReach : Reach (view s) dst)
    (hdstDir : ∃ l, (view s).listing dst = some l) (hne : src ≠ dst) (hlen : c'.length < 91)
    (hparts : asvfsGetPathParts path = some (p, c))
    (hsrc : asvfsGetBlockIdFromPathname s p = some src) (hsrc0 : src ≠ 0)
    (hf : asvfsGetBlockIdFromPathname s path = some f) (hf0 : f ≠ 0) :
    ∃ s', renameAcross s path c c' dst f = some (s', 0) := by
  obtain ⟨ids, hids⟩ := hsrcDir
  obtain ⟨l, hl⟩ := hdstDir
  have hsrclen := nextIndex_le hcap hsrcReach hids
  have hdstlen := nextIndex_le hcap hdstReach hl
  obtain ⟨-, hsrcplaced⟩ := hs.placed src hsrcReach
  obtain ⟨-, hdstplaced⟩ := hs.placed dst hdstReach
  obtain ⟨data, hdata⟩ := appendIndex_isSome f (Nat.lt_of_le_of_lt hdstlen (by decide))
  rw [renameAcross, asvfsUnlink_eq hparts hsrc hsrc0 hf hf0,
    if_neg (Nat.not_lt.mpr (Nat.le_trans hsrclen (by decide)))]
  simp only [Option.bind_eq_bind, Option.bind_some, hdata,
    directoryBlock_writeBlock_ne hs.blockSize hsrcplaced hdstplaced (Ne.symm hne)]
  split
  · obtain ⟨s', hs'⟩ := writeName_returns (asvfsWriteBlock (asvfsWriteBlock s src
      directorySize (unlinkBlock f (directoryBlock s src))) dst directorySize data) f c'
      (show 5 + c'.length < 96 by omega)
    exact ⟨s', by rw [hs', Option.map_some]⟩
  · exact ⟨_, rfl⟩

/-! ## Nothing is lost -/

theorem not_mem_own_listing {d : Nat} {ids : List Nat} (h : Tree (view s)) (hd : Reach (view s) d)
    (hids : (view s).listing d = some ids) : d ∉ ids := by
  intro hmem
  obtain ⟨p, hp⟩ := h.resolve_of_under .refl hd
  have hlook : (view s).look d ((view s).name d) = some d :=
    (h.look_iff hd).mpr ⟨ids, hids, hmem, rfl⟩
  have hlong := PathTree.resolve_concat_eq_some.mpr ⟨d, hp, hlook⟩
  have hlen := congrArg List.length (h.unshared.path_unique hp hlong)
  rw [List.length_append, List.length_singleton] at hlen
  omega

/-- A rename that returns loses no block exactly if it does nothing, stays in
its directory, or moves into a directory that is neither what is moved nor
below it. A source that ends in a separator has an empty name and takes out the
last entry of the directory it names, so it may only name one without entries. -/
theorem rename_keeps_iff (h : WellFormed n s) {src dst : List UInt8} {r : Int}
    (hsrc : CString src) (hdst : CString dst) (hr : asvfsRename s src dst = some (s', r)) :
    (∀ b, Reach (view s) b → Reach (view s') b) ↔
      ∀ P Q f c c', Found s src dst P Q f c c' → P = Q ∨
        (c ≠ [] ∧ (∃ l, (view s).listing Q = some l) ∧ ¬ Under (view s) f Q) ∨
        (c = [] ∧ ∀ ids, (view s).listing P = some ids → ids = []) := by
  rcases h.rename_step hsrc hdst hr with ⟨rfl, -, hnot⟩ | ⟨-, P, Q, f, c, c', hfound, hstep⟩
  · exact iff_of_true (fun b hb => hb) fun P Q f c c' hfound => absurd hfound (hnot P Q f c c')
  have hall : ∀ p : Nat → Nat → Nat → List UInt8 → Prop,
      (∀ P Q f c c', Found s src dst P Q f c c' → p P Q f c) ↔ p P Q f c := by
    refine fun p => ⟨fun hp => hp P Q f c c' hfound, fun hp P' Q' f' d d' hfound' => ?_⟩
    obtain ⟨rfl, rfl, rfl, rfl, -⟩ := hfound.unique hfound'
    exact hp
  rw [hall fun P Q f c => P = Q ∨ (c ≠ [] ∧ (∃ l, (view s).listing Q = some l) ∧
    ¬ Under (view s) f Q) ∨ (c = [] ∧ ∀ ids, (view s).listing P = some ids → ids = [])]
  by_cases hPQ : P = Q
  · subst hPQ
    exact iff_of_true (fun b hb => (hstep.renamed.relabels h).reach_iff.mpr hb) (.inl rfl)
  have hmoves := hstep.renamed.moves hPQ h
  obtain ⟨p, hp, hP⟩ := hfound.source
  obtain ⟨hwords, -⟩ := pathParts_words hsrc hp
  obtain ⟨q, hq, hQ⟩ := hfound.target
  have hf := hfound.block
  rw [or_iff_right hPQ]
  by_cases hc : c = []
  · -- the source is its own parent
    rw [hwords, hc, lastName, if_pos rfl, List.append_nil, hP] at hf
    obtain rfl := Option.some.inj hf
    have hself : ∀ ids, (view s).listing P = some ids → P ∉ ids :=
      fun ids hids => not_mem_own_listing h.tree (under_of_resolve hP) hids
    rw [hmoves.keeps_iff_of_not_mem h.tree (under_of_resolve hP) (under_of_resolve hP) hself]
    simp only [hc, ne_eq, not_true_eq_false, false_and, true_and, false_or]
  · rw [hwords, lastName, if_neg hc, PathTree.resolve_concat, hP] at hf
    obtain ⟨ids, hids, hmem, -⟩ := look_mem hf
    rw [hmoves.keeps_iff h.tree (under_of_resolve hP) hids hmem (under_of_resolve hQ)]
    simp only [hc, ne_eq, not_false_eq_true, true_and, false_and, or_false]

theorem rename_keeps_iff_small :
    ∃ s', asvfsRename smallDrive [47, 97] [47, 98] = some (s', 0) ∧
      ((∀ b, Reach (view smallDrive) b → Reach (view s') b) ↔
        ∀ P Q f c c', Found smallDrive [47, 97] [47, 98] P Q f c c' → P = Q ∨
          (c ≠ [] ∧ (∃ l, (view smallDrive).listing Q = some l) ∧ ¬ Under (view smallDrive) f Q) ∨
          (c = [] ∧ ∀ ids, (view smallDrive).listing P = some ids → ids = [])) := by
  have hrun : (asvfsRename smallDrive [47, 97] [47, 98]).any (fun x => x.2 = 0) = true := by
    decide +kernel
  obtain ⟨⟨s', r⟩, hr, hzero⟩ := (Option.any_eq_true _ _).mp hrun
  obtain rfl : r = 0 := of_decide_eq_true hzero
  exact ⟨s', hr, rename_keeps_iff smallDrive_wellFormed (by decide) (by decide) hr⟩

/-- `/a` to `/a/b`: the directory lists itself, and nothing lists it any more. -/
theorem rename_into_itself_orphans :
    WellFormed 8 smallDrive ∧ Reach (view smallDrive) 2 ∧
      ∃ s', asvfsRename smallDrive [47, 97] [47, 97, 47, 98] = some (s', 0) ∧
        ¬ Reach (view s') 2 := by
  have hlisted : Reach (view smallDrive) 2 :=
    .entry .refl
      (show (view smallDrive).listing (view smallDrive).root = some [2] by decide +kernel)
      List.mem_cons_self
  have hrun : (asvfsRename smallDrive [47, 97] [47, 97, 47, 98]).any (fun x => x.2 = 0 ∧
      (view x.1).root = 1 ∧ (view x.1).listing 1 = some []) = true := by decide +kernel
  obtain ⟨⟨s', r⟩, hr, hafter⟩ := (Option.any_eq_true _ _).mp hrun
  obtain ⟨hzero, hroot, hempty⟩ := of_decide_eq_true hafter
  obtain rfl : r = 0 := hzero
  have honly : ∀ b, Reach (view s') b → b = 1 := by
    intro b hb
    induction hb with
    | refl => exact hroot
    | entry _ hids hb ih =>
        rw [ih, hempty] at hids
        obtain rfl := Option.some.inj hids
        exact absurd hb List.not_mem_nil
  exact ⟨smallDrive_wellFormed, hlisted, s', hr, fun h => absurd (honly 2 h) (by decide)⟩

/-! ## A move

`P ++ [c]` is renamed to the free name `c'` in the directory `Q`. -/

structure Movable (s : Volume) (P Q : List (List UInt8)) (c c' : List UInt8) (src dst f : Nat) :
    Prop where
  from_names : CanonicalNames (P ++ [c])
  to_names : CanonicalNames (Q ++ [c'])
  source : resolve (view s).look (view s).root P = some src
  block : (view s).look src c = some f
  target : resolve (view s).look (view s).root Q = some dst
  dir : ∃ l, (view s).listing dst = some l
  free : (view s).look dst c' = none
  outside : ¬ P ++ [c] <+: Q ++ [c']

section Moved

variable {P Q : List (List UInt8)} {c c' : List UInt8} {src dst f : Nat}

theorem Movable.renamable (h : Movable s P Q c c' src dst f) : Renamable s c c' src dst f where
  to_name := (CanonicalNames.append.mp h.to_names).2
  source := under_of_resolve h.source
  entry := look_mem h.block
  target := under_of_resolve h.target
  free _ hids b hb hbc := absurd hbc ((look_eq_none_iff hids).mp h.free b hb)

theorem Movable.move (h : Movable s P Q c c' src dst f) (hs : WellFormed n s)
    (hstep : RenameStep n s s' src dst f c c') :
    Move (view s).look (view s').look (view s).root P c Q c' := by
  obtain ⟨l, hl⟩ := h.dir
  have hname := h.renamable.view_name hs hstep
  by_cases hsame : src = dst
  · subst hsame
    have hPQ := hs.tree.unshared.path_unique h.source h.target
    subst hPQ
    have hrel := hstep.renamed.relabels hs
    rw [hname] at hrel
    exact hrel.move hs.tree h.source h.block h.free
  · have hmoves := hstep.renamed.moves hsame hs
    rw [hname] at hmoves
    exact hmoves.move hs.tree hsame h.source h.block h.target hl h.free h.outside

theorem Movable.capacity (h : Movable s P Q c c' src dst f) (hs : WellFormed n s) {k : Nat}
    (hcap : Capacity k s) (hstep : RenameStep n s s' src dst f c c') : Capacity (k + 1) s' := by
  intro d l hd hl
  have hsrc := under_of_resolve h.source
  obtain ⟨ids, hids, hmem, -⟩ := look_mem h.block
  by_cases hsame : src = dst
  · subst hsame
    have hrel := hstep.renamed.relabels hs
    have hd₀ := hrel.reach_iff.mp hd
    rw [hrel.listing hd₀] at hl
    exact Nat.le_succ_of_le (hcap d l hd₀ hl)
  · have hmoves := hstep.renamed.moves hsame hs
    have hd₀ := hmoves.reach (.entry hsrc hids hmem) hd
    by_cases hdst : d = dst
    · rw [hdst, hmoves.target] at hl
      obtain ⟨l₀, hl₀, rfl⟩ := Option.map_eq_some_iff.mp hl
      rw [List.length_append, List.length_singleton]
      exact Nat.succ_le_succ (hcap dst l₀ (hdst ▸ hd₀) hl₀)
    by_cases hds : d = src
    · rw [hds, hmoves.source] at hl
      obtain ⟨l₀, hl₀, rfl⟩ := Option.map_eq_some_iff.mp hl
      exact Nat.le_succ_of_le
        (Nat.le_trans (unlinked_sublist f l₀).length_le (hcap src l₀ (hds ▸ hd₀) hl₀))
    · rw [hmoves.listing hd₀ hds hdst] at hl
      exact Nat.le_succ_of_le (hcap d l hd₀ hl)

theorem Movable.across_returns (h : Movable s P Q c c' src dst f) (hs : WellFormed n s)
    (hcap : Capacity 97 s) (hne : src ≠ dst) {path p : List UInt8}
    (hparts : asvfsGetPathParts path = some (p, c))
    (hsrc : asvfsGetBlockIdFromPathname s p = some src) (hsrc0 : src ≠ 0)
    (hf : asvfsGetBlockIdFromPathname s path = some f) (hf0 : f ≠ 0) :
    ∃ s', renameAcross s path c c' dst f = some (s', 0) := by
  obtain ⟨ids, hids, -⟩ := look_mem h.block
  obtain ⟨-, hlen, -⟩ := h.to_names.2 c' (by simp)
  exact renameAcross_returns hs hcap (under_of_resolve h.source) ⟨ids, hids⟩
    (under_of_resolve h.target) h.dir hne (Nat.lt_trans hlen (by decide)) hparts hsrc hsrc0 hf hf0

theorem Movable.returns (h : Movable s P Q c c' src dst f) (hs : WellFormed n s)
    (hcap : Capacity 97 s) (hP : (render slash P).length < 1024)
    (hQ : (render slash Q).length < 1024) :
    ∃ s', asvfsRename s (render slash (P ++ [c])) (render slash (Q ++ [c'])) = some (s', 0) := by
  obtain ⟨-, hlen, -⟩ := h.to_names.2 c' (by simp)
  have hcap' : Capacity 98 s := fun d ids hd hids => Nat.le_succ_of_le (hcap d ids hd hids)
  have hpath : resolve (view s).look (view s).root (P ++ [c]) = some f :=
    PathTree.resolve_concat_eq_some.mpr ⟨src, h.source, h.block⟩
  have hsrc0 := hs.ne_zero (under_of_resolve h.source)
  have hdst0 := hs.ne_zero (under_of_resolve h.target)
  have hf0 := hs.ne_zero (under_of_resolve hpath)
  have hsrc := (hs.blockAt_eq_some hcap' (CanonicalNames.append.mp h.from_names).1 hsrc0).mpr
    h.source
  have hdst := (hs.blockAt_eq_some hcap' (CanonicalNames.append.mp h.to_names).1 hdst0).mpr h.target
  have hf := (hs.blockAt_eq_some hcap' h.from_names hf0).mpr hpath
  have hparts := pathParts_render h.from_names.1 h.from_names.fits
  have hparts' := pathParts_render h.to_names.1 h.to_names.fits
  rw [if_pos hP] at hparts
  rw [if_pos hQ] at hparts'
  rw [blockAt] at hsrc hdst hf
  rw [asvfsRename, hparts, hparts']
  simp only [Option.bind_eq_bind, Option.bind_some, hsrc, hdst, hf, if_neg hsrc0, if_neg hdst0,
    if_neg hf0]
  split
  · obtain ⟨s', hs'⟩ := writeName_returns s f c'
      (show 5 + c'.length < 96 from Nat.lt_of_lt_of_le (Nat.add_lt_add_left hlen 5) (by decide))
    exact ⟨s', by rw [hs', Option.map_some]⟩
  · next hne => exact h.across_returns hs hcap hne hparts hsrc hsrc0 hf hf0

theorem Movable.found (h : Movable s P Q c c' src dst f) {src' dst' f' : Nat} {d d' : List UInt8}
    (hfound : Found s (render slash (P ++ [c])) (render slash (Q ++ [c'])) src' dst' f' d d') :
    src' = src ∧ dst' = dst ∧ f' = f ∧ d = c ∧ d' = c' := by
  obtain ⟨p, hp, hsrc⟩ := hfound.source
  obtain ⟨q, hq, hdst⟩ := hfound.target
  have hf := hfound.block
  rw [words_render h.from_names.1,
    PathTree.resolve_concat_eq_some.mpr ⟨src, h.source, h.block⟩] at hf
  obtain ⟨hsrc', hd⟩ := pathParts_unique h.from_names h.source hp hsrc
  obtain ⟨hdst', hd'⟩ := pathParts_unique h.to_names h.target hq hdst
  exact ⟨hsrc', hdst', (Option.some.inj hf).symm, hd, hd'⟩

theorem Movable.step (h : Movable s P Q c c' src dst f) (hs : WellFormed n s)
    (hr : asvfsRename s (render slash (P ++ [c])) (render slash (Q ++ [c'])) = some (s', 0)) :
    RenameStep n s s' src dst f c c' := by
  rcases hs.rename_step h.from_names.cstring h.to_names.cstring hr with
    ⟨-, herr, -⟩ | ⟨-, P', Q', f', d, d', hfound, hstep⟩
  · exact absurd herr (by decide)
  · obtain ⟨rfl, rfl, rfl, rfl, rfl⟩ := h.found hfound
    exact hstep

end Moved

/-- A rename to a free name outside of what is renamed: what was at and below
the old path is at and below the new one, all else is where it was. -/
theorem rename_is_move (hs : WellFormed n s) (hcap : Capacity 97 s)
    {P Q : List (List UInt8)} {c c' : List UInt8} {f dst : Nat}
    (hfrom : CanonicalNames (P ++ [c])) (hto : CanonicalNames (Q ++ [c']))
    (hf : blockAt s (P ++ [c]) = some f) (hf0 : f ≠ 0) (hfree : blockAt s (Q ++ [c']) = some 0)
    (hdst : blockAt s Q = some dst) (hdst0 : dst ≠ 0)
    (hdir : Directory.type (directoryBlock s dst) = asvfsBlockTypeDirectory)
    (houtside : ¬ P ++ [c] <+: Q ++ [c']) :
    ((render slash P).length < 1024 → (render slash Q).length < 1024 →
      ∃ s', asvfsRename s (render slash (P ++ [c])) (render slash (Q ++ [c'])) = some (s', 0)) ∧
    ∀ s', asvfsRename s (render slash (P ++ [c])) (render slash (Q ++ [c'])) = some (s', 0) →
      blockAt s' (Q ++ [c']) = some f ∧
      (∀ r, CanonicalNames r → blockAt s' (P ++ [c] ++ r) = some 0) ∧
      (∀ r, CanonicalNames r → blockAt s' (Q ++ [c'] ++ r) = blockAt s (P ++ [c] ++ r)) ∧
      ∀ q, CanonicalNames q → ¬ P ++ [c] <+: q → ¬ Q ++ [c'] <+: q →
        blockAt s' q = blockAt s q := by
  have hcap' : Capacity 98 s := fun d ids hd hids => Nat.le_succ_of_le (hcap d ids hd hids)
  have hQ := (hs.blockAt_eq_some hcap' (CanonicalNames.append.mp hto).1 hdst0).mp hdst
  have hto' := (hs.blockAt_eq_zero hcap' hto).mp hfree
  rw [PathTree.resolve_concat, hQ, Option.bind_some] at hto'
  obtain ⟨src, hP, hblock⟩ := PathTree.resolve_concat_eq_some.mp
    ((hs.blockAt_eq_some hcap' hfrom hf0).mp hf)
  have hmov : Movable s P Q c c' src dst f :=
    ⟨hfrom, hto, hP, hblock, hQ, ⟨_, listing_eq_some.mpr ⟨hdir, rfl⟩⟩, hto', houtside⟩
  refine ⟨hmov.returns hs hcap, fun s' hr => ?_⟩
  have hstep := hmov.step hs hr
  have hmove := hmov.move hs hstep
  obtain ⟨hs', -⟩ := hmov.renamable.wellFormed hs hstep
  have hcap₁ : Capacity 98 s' := hmov.capacity hs hcap hstep
  have hroot : (view s').root = (view s).root := root_congr hstep.renamed.header
  have hbelow : ∀ {R : List (List UInt8)} {e : List UInt8} {r : List (List UInt8)},
      R ++ [e] ++ r = R ++ e :: r := by simp
  have hmoved : ∀ r, CanonicalNames r →
      blockAt s' (Q ++ [c'] ++ r) = blockAt s (P ++ [c] ++ r) := fun r hr => by
    rw [hs'.blockAt_eq hcap₁ (CanonicalNames.append.mpr ⟨hto, hr⟩),
      hs.blockAt_eq hcap' (CanonicalNames.append.mpr ⟨hfrom, hr⟩), hroot, hbelow, hbelow,
        hmove.moved]
  refine ⟨?_, fun r hr => ?_, hmoved, fun q hq hqP hqQ => ?_⟩
  · have hself := hmoved [] ⟨by simp [Names], by simp⟩
    rw [List.append_nil, List.append_nil, hf] at hself
    exact hself
  · rw [hs'.blockAt_eq_zero hcap₁ (CanonicalNames.append.mpr ⟨hfrom, hr⟩), hroot, hbelow,
      hmove.gone]
  · rw [hs'.blockAt_eq hcap₁ hq, hs.blockAt_eq hcap' hq, hroot, hmove.kept q hqP hqQ]

theorem rename_is_move_small :
    (render slash ([] : List (List UInt8))).length < 1024 ∧
    ((render slash ([] : List (List UInt8))).length < 1024 →
      (render slash ([] : List (List UInt8))).length < 1024 →
      ∃ s', asvfsRename smallDrive (render slash ([] ++ [[97]])) (render slash ([] ++ [[98]])) =
        some (s', 0)) ∧
    ∀ s', asvfsRename smallDrive (render slash ([] ++ [[97]])) (render slash ([] ++ [[98]])) =
        some (s', 0) →
      blockAt s' ([] ++ [[98]]) = some 2 ∧
      (∀ r, CanonicalNames r → blockAt s' ([] ++ [[97]] ++ r) = some 0) ∧
      (∀ r, CanonicalNames r →
        blockAt s' ([] ++ [[98]] ++ r) = blockAt smallDrive ([] ++ [[97]] ++ r)) ∧
      ∀ q, CanonicalNames q → ¬ [] ++ [[97]] <+: q → ¬ [] ++ [[98]] <+: q →
        blockAt s' q = blockAt smallDrive q :=
  ⟨by decide, rename_is_move smallDrive_wellFormed smallDrive_capacity
    (by unfold CanonicalNames Names; decide) (by unfold CanonicalNames Names; decide)
    (by decide +kernel) (by decide) (by decide +kernel)
    (show blockAt smallDrive [] = some 1 by decide +kernel) (by decide) (by decide +kernel)
    (by decide)⟩

end VersionSix.Asvfs
