import VersionSix.AsvfsMove
import VersionSix.AsvfsCompose

/-!
# ASVFS: unlink

`asvfs_unlink` finds the parent with `asvfs_get_path_parts` and the child with
`asvfs_get_block_id_from_pathname`. The two agree on what lies behind the last
separator only if there is something: the first wants a name there, the second
does not mind if there is none. So `/a/` is its own parent, and the directory
`/a` loses its last entry. Where the path ends in a name, or leads nowhere,
unlink does what it should (`unlink_exact_iff`).

What it should do is stated on directories, not on bytes: the target is taken
out of the directory that the path without its last name leads to, an error
leaves all directories as they were, and no other path is affected. The exact
condition is about the text of the path, for every well-formed drive.

Nothing is freed. The record of the file keeps its `in_use`, and the block is
never handed out again; the statement does not ask for either.
-/

namespace VersionSix.Asvfs

open ByteStore DirTree PathText
open PathTree (resolve)

variable {s s' : Volume} {n : Nat}

/-! ## The child of a path -/

def EndsInName (path : List UInt8) : Prop := ∃ x ∈ path.getLast?, x ≠ slash

instance (path : List UInt8) : Decidable (EndsInName path) :=
  inferInstanceAs (Decidable (∃ x ∈ path.getLast?, x ≠ slash))

/-- The text ends in a name, of which `name` is the beginning if there is no more. -/
def NameAtEnd (name rest : List UInt8) : Prop :=
  (rest = [] ∧ name ≠ []) ∨ EndsInName rest

theorem nameAtEnd_cons {name rest : List UInt8} {x : UInt8} :
    NameAtEnd name (x :: rest) ↔ NameAtEnd (if x = slash then [] else name ++ [x]) rest := by
  unfold NameAtEnd EndsInName
  rw [List.getLast?_cons]
  cases rest with
  | nil =>
      by_cases hx : x = slash
      · simp [hx]
      · simp [hx]
  | cons y rest => simp [List.getLast?_cons]

theorem partsLoop_child {rest parent name p c : List UInt8} (hrest : CString rest)
    (h : partsLoop (rest ++ [0]) parent name = some (p, c)) : c ≠ [] ↔ NameAtEnd name rest := by
  induction rest generalizing parent name with
  | nil =>
      rw [List.nil_append, partsLoop_end] at h
      have hnone : ¬ EndsInName [] := by decide
      rw [NameAtEnd, or_iff_left hnone, and_iff_right rfl]
      by_cases hname : name = []
      · rw [if_pos hname] at h
        obtain ⟨rfl, rfl⟩ := Prod.mk.inj (Option.some.inj h)
        rw [hname]
      · rw [if_neg hname] at h
        obtain ⟨rfl, rfl⟩ := Prod.mk.inj (Option.some.inj h)
        exact Iff.rfl
  | cons x rest ih =>
      have hnul : CString rest := fun hmem => hrest (List.mem_cons_of_mem _ hmem)
      rw [nameAtEnd_cons]
      rcases partsLoop_cons_cases hrest h with ⟨hx, -, h⟩ | ⟨hx, -, path, -, h⟩ | ⟨hx, -, h⟩
      · rw [if_pos hx]
        exact ih hnul h
      · rw [if_pos hx]
        exact ih hnul h
      · rw [if_neg hx]
        exact ih hnul h

/-- The child is empty exactly if the path does not end in a name. -/
theorem pathParts_child {path p c : List UInt8} (hpath : CString path)
    (h : asvfsGetPathParts path = some (p, c)) : c ≠ [] ↔ EndsInName path := by
  rw [partsLoop_child hpath h, NameAtEnd]
  simp only [ne_eq, not_true_eq_false, and_false, false_or]

theorem partsLoop_short {rest parent name : List UInt8} {r : List UInt8 × List UInt8}
    (hrest : CString rest) (hname : name.length < 256)
    (h : partsLoop (rest ++ [0]) parent name = some r) :
    ∀ w ∈ words slash name rest, w.length < 256 := by
  induction rest generalizing parent name with
  | nil =>
      intro w hw
      rw [words] at hw
      split_ifs at hw with hnil
      · cases hw
      · rwa [List.mem_singleton.mp hw]
  | cons x rest ih =>
      have hnul : CString rest := fun hmem => hrest (List.mem_cons_of_mem _ hmem)
      rw [words]
      rcases partsLoop_cons_cases hrest h with
        ⟨hx, hnil, h⟩ | ⟨hx, hnil, path, -, h⟩ | ⟨hx, hroom, h⟩
      · rw [if_pos hx, if_pos hnil]
        exact ih hnul (by decide) h
      · rw [if_pos hx, if_neg hnil]
        exact List.forall_mem_cons.mpr ⟨hname, ih hnul (by decide) h⟩
      · rw [if_neg hx]
        refine ih hnul ?_ h
        rw [List.length_append, List.length_singleton]
        omega

theorem pathParts_short {path : List UInt8} {r : List UInt8 × List UInt8} (hpath : CString path)
    (h : asvfsGetPathParts path = some r) : ∀ w ∈ words slash [] path, w.length < 256 :=
  partsLoop_short hpath (by decide) h

theorem parent_same {path p : List UInt8} (hroot : Header.rootDirectory s.header ≠ 0)
    (hpath : CString path) (h : asvfsGetPathParts path = some (p, [])) :
    asvfsGetBlockIdFromPathname s path = asvfsGetBlockIdFromPathname s p := by
  obtain ⟨hwords, hp⟩ := pathParts_words hpath h
  rw [lastName, if_pos rfl, List.append_nil] at hwords
  have hshort := pathParts_short hpath h
  have hleads := (pathname_words (s := s) hroot hpath hshort).1
  rw [hwords] at hleads hshort
  exact hleads.trans (pathname_words hroot hp hshort).1.symm

/-! ## What unlink does -/

/-- The entry of the directory `P` for the block `f` has been taken out, and
nothing else. -/
structure TakenOut (s s' : Volume) (P f : Nat) : Prop where
  parent : ∃ l r, (view s).listing P = some (l ++ f :: r) ∧ f ∉ l ∧ f ∉ r ∧
    (view s').listing P = some (l ++ r)
  others : ∀ d, d ≠ P → Reach (view s) d → (view s').listing d = (view s).listing d

/-- What is asked of an unlink that returns `res`: the block the path leads to
is taken out of the directory that the path without its last name leads to; an
error leaves all directories alone. -/
structure UnlinksExactly (s s' : Volume) (path : List UInt8) (res : Int) : Prop where
  success : res = asvfsErrorNone → ∃ ps c P f, words slash [] path = ps ++ [c] ∧
    resolve (view s).look (view s).root ps = some P ∧
    resolve (view s).look (view s).root (words slash [] path) = some f ∧ TakenOut s s' P f
  error : res ≠ asvfsErrorNone → ∀ d, (view s').listing d = (view s).listing d

/-- A call that has found parent and child. -/
structure Unlinks (s s' : Volume) (path c : List UInt8) (P f : Nat) : Prop where
  parts : ∃ p, asvfsGetPathParts path = some (p, c) ∧
    resolve (view s).look (view s).root (words slash [] p) = some P
  child : resolve (view s).look (view s).root (words slash [] path) = some f
  lookup : asvfsGetBlockIdFromPathname s path ≠ some 0
  indexed : Directory.nextIndex (directoryBlock s P) ≤ 256
  written : s' = asvfsWriteBlock s P directorySize (unlinkBlock f (directoryBlock s P))

theorem WellFormed.unlink_cases (h : WellFormed n s) {path : List UInt8} {res : Int}
    (hpath : CString path) (hr : asvfsUnlink s path = some (s', res)) :
    (s' = s ∧ res = asvfsErrorPathNotFound ∧
      (EndsInName path ∨ asvfsGetBlockIdFromPathname s path = some 0)) ∨
    res = asvfsErrorNone ∧ ∃ c P f, Unlinks s s' path c P f := by
  obtain ⟨⟨p, c⟩, hparts, hr⟩ := Option.bind_eq_some_iff.mp hr
  obtain ⟨P, hP, hr⟩ := Option.bind_eq_some_iff.mp hr
  dsimp only at hP hr
  obtain ⟨-, hp⟩ := pathParts_words hpath hparts
  by_cases hP0 : P = 0
  · rw [if_pos hP0] at hr
    obtain ⟨rfl, rfl⟩ := Prod.mk.inj (Option.some.inj hr)
    refine .inl ⟨rfl, rfl, ?_⟩
    by_cases hc : c = []
    · subst hc
      exact .inr ((parent_same h.root hpath hparts).trans (hP0 ▸ hP))
    · exact .inl ((pathParts_child hpath hparts).mp hc)
  · rw [if_neg hP0] at hr
    obtain ⟨f, hf, hr⟩ := Option.bind_eq_some_iff.mp hr
    split_ifs at hr with hf0 hindexed
    · obtain ⟨rfl, rfl⟩ := Prod.mk.inj (Option.some.inj hr)
      exact .inl ⟨rfl, rfl, .inr (hf0 ▸ hf)⟩
    · obtain ⟨rfl, rfl⟩ := Prod.mk.inj (Option.some.inj hr)
      refine .inr ⟨rfl, c, P, f, ⟨p, hparts, h.pathname_resolves hp hP hP0⟩,
        h.pathname_resolves hpath hf hf0, ?_, Nat.le_of_not_lt hindexed, rfl⟩
      rw [hf]
      exact fun h0 => hf0 (Option.some.inj h0)

section Unlinks

variable {path c : List UInt8} {P f : Nat}

theorem Unlinks.reach (h : Unlinks s s' path c P f) : Reach (view s) P := by
  obtain ⟨p, -, hP⟩ := h.parts
  exact under_of_resolve hP

theorem Unlinks.listing (h : Unlinks s s' path c P f) (hs : WellFormed n s) :
    (view s').listing P = ((view s).listing P).map (unlinked f) := by
  obtain ⟨-, hplaced⟩ := hs.placed P h.reach
  obtain ⟨htype, hnext, -⟩ := unlinkBlock_shifts f h.indexed
  have hindexed := h.indexed
  rw [h.written, listing_writeBlock hs.blockSize hplaced (by omega), htype,
    entries_unlinkBlock f h.indexed]
  simp only [view]
  split <;> rfl

theorem Unlinks.others (h : Unlinks s s' path c P f) (hs : WellFormed n s) {d : Nat} (hd : d ≠ P)
    (hreach : Reach (view s) d) : (view s').listing d = (view s).listing d := by
  rw [h.written]
  exact listing_congr (directoryBlock_writeBlock_ne hs.blockSize (hs.placed P h.reach).2
    (hs.placed d hreach).2 hd _)

/-- With a name as child, its block is an entry of the parent, and goes. -/
theorem Unlinks.takenOut (h : Unlinks s s' path c P f) (hs : WellFormed n s)
    (hpath : CString path) (hc : c ≠ []) : ∃ ps, words slash [] path = ps ++ [c] ∧
      resolve (view s).look (view s).root ps = some P ∧ TakenOut s s' P f := by
  obtain ⟨p, hparts, hP⟩ := h.parts
  obtain ⟨hwords, -⟩ := pathParts_words hpath hparts
  rw [lastName, if_neg hc] at hwords
  have hlook := h.child
  rw [hwords, PathTree.resolve_concat, hP, Option.bind_some] at hlook
  obtain ⟨ids, hids, hmem, -⟩ := look_mem hlook
  have hnodup : ids.Nodup := (hs.tree.names h.reach hids).of_map
  obtain ⟨l, r, hl, hsplit, herase⟩ := List.exists_erase_eq hmem
  have hr : f ∉ r := by
    rw [hsplit] at hnodup
    exact (List.nodup_cons.mp (List.nodup_append.mp hnodup).2.1).1
  refine ⟨_, hwords, hP, ⟨l, r, hsplit ▸ hids, hl, hr, ?_⟩, fun d hd hreach => ?_⟩
  · rw [h.listing hs, hids, Option.map_some, unlinked, if_pos hmem, herase]
  · exact h.others hs hd hreach

/-- Without one, the parent is the block itself, and the directory that lists
it is left alone. -/
theorem Unlinks.not_exact (h : Unlinks s s' path [] P f) (hs : WellFormed n s)
    (hpath : CString path) : ¬ UnlinksExactly s s' path asvfsErrorNone := by
  intro hexact
  obtain ⟨ps, c, P', f', hwords, hP', hf', hout⟩ := hexact.success rfl
  obtain ⟨p, hparts, hP⟩ := h.parts
  obtain ⟨hsame, -⟩ := pathParts_words hpath hparts
  rw [lastName, if_pos rfl, List.append_nil] at hsame
  have hself : P = f' := by
    rw [← hsame] at hP
    exact Option.some.inj (hP.symm.trans hf')
  obtain ⟨l, r, hbefore, -, -, hafter⟩ := hout.parent
  have hne : P' ≠ P := by
    rintro rfl
    have hmem : P' ∈ l ++ f' :: r := by
      rw [hself]
      exact List.mem_append_right l List.mem_cons_self
    exact not_mem_own_listing hs.tree h.reach hbefore hmem
  rw [h.others hs hne (under_of_resolve hP'), hbefore] at hafter
  have hlen := congrArg List.length (Option.some.inj hafter)
  rw [List.length_append, List.length_append, List.length_cons] at hlen
  omega

end Unlinks

/-- **Unlink.** A call that returns takes out exactly its target, or reports an
error and changes no directory, if and only if the path ends in a name or leads
nowhere. A path that ends in a separator leads to the directory before it, but
is cut into that directory and the empty name, and the directory loses an entry
of its own. -/
theorem unlink_exact_iff (h : WellFormed n s) {path : List UInt8} {res : Int}
    (hpath : CString path) (hr : asvfsUnlink s path = some (s', res)) :
    UnlinksExactly s s' path res ↔
      EndsInName path ∨ asvfsGetBlockIdFromPathname s path = some 0 := by
  rcases h.unlink_cases hpath hr with ⟨rfl, rfl, hcond⟩ | ⟨rfl, c, P, f, hstep⟩
  · refine iff_of_true ⟨fun hzero => ?_, fun _ d => rfl⟩ hcond
    exact absurd hzero (by decide)
  · obtain ⟨p, hparts, -⟩ := hstep.parts
    rw [or_iff_left hstep.lookup, ← pathParts_child hpath hparts]
    by_cases hc : c = []
    · subst hc
      exact iff_of_false (hstep.not_exact h hpath) (fun hne => hne rfl)
    · refine iff_of_true ⟨fun _ => ?_, fun hne => absurd rfl hne⟩ hc
      obtain ⟨ps, hwords, hP, hout⟩ := hstep.takenOut h hpath hc
      exact ⟨ps, c, P, f, hwords, hP, hstep.child, hout⟩

/-! ## A directory with a file

The root is block 1 and lists `/a`, block 2, which lists `/a/b`, block 3. -/

def nestedDrive : Volume where
  header := bytesOf [(14, 16), (17, 8), (21, 1), (25, 4)]
  disk := bytesOf [(157, 1), (161, 2), (253, 2), (257, 2), (258, 97), (349, 3), (353, 1), (354, 98),
    (4096, 2), (4100, 2), (5124, 1), (8192, 2), (8196, 3), (9220, 1)]

theorem nestedDrive_wellFormed : WellFormed 8 nestedDrive :=
  Checked.wellFormed (show Checked 8 nestedDrive [1, 2, 3] by decide +kernel)

theorem unlink_exact_iff_nested :
    ∃ s', asvfsUnlink nestedDrive [47, 97, 47, 98] = some (s', 0) ∧
      (UnlinksExactly nestedDrive s' [47, 97, 47, 98] 0 ↔ EndsInName [47, 97, 47, 98] ∨
        asvfsGetBlockIdFromPathname nestedDrive [47, 97, 47, 98] = some 0) := by
  have hrun : (asvfsUnlink nestedDrive [47, 97, 47, 98]).any (fun x => x.2 = 0) = true := by
    decide +kernel
  obtain ⟨⟨s', r⟩, hr, hzero⟩ := (Option.any_eq_true _ _).mp hrun
  obtain rfl : r = 0 := of_decide_eq_true hzero
  exact ⟨s', hr, unlink_exact_iff nestedDrive_wellFormed (by decide) hr⟩

/-- `/a/`: the call succeeds, `/a` stays in the root and has lost its file. -/
theorem unlink_loses_entry : WellFormed 8 nestedDrive ∧
    ∃ s', asvfsUnlink nestedDrive [47, 97, 47] = some (s', 0) ∧
      (view nestedDrive).listing 1 = some [2] ∧ (view s').listing 1 = some [2] ∧
      (view nestedDrive).listing 2 = some [3] ∧ (view s').listing 2 = some [] ∧
      ¬ UnlinksExactly nestedDrive s' [47, 97, 47] 0 := by
  have hrun : (asvfsUnlink nestedDrive [47, 97, 47]).any (fun x => x.2 = 0 ∧
      (view x.1).listing 1 = some [2] ∧ (view x.1).listing 2 = some []) = true := by decide +kernel
  obtain ⟨⟨s', r⟩, hr, hafter⟩ := (Option.any_eq_true _ _).mp hrun
  obtain ⟨hzero, hroot, hempty⟩ := of_decide_eq_true hafter
  obtain rfl : r = 0 := hzero
  have hbefore : (view nestedDrive).listing 2 = some [3] := by decide +kernel
  have hresolve : resolve (view nestedDrive).look (view nestedDrive).root
      (words slash [] [47, 97, 47]) = some 2 := by decide +kernel
  refine ⟨nestedDrive_wellFormed, s', hr, by decide +kernel, hroot, hbefore, hempty, ?_⟩
  rintro ⟨hexact, -⟩
  obtain ⟨ps, c, P, f, hwords, hP, hf, hout⟩ := hexact rfl
  obtain rfl : 2 = f := Option.some.inj (hresolve.symm.trans hf)
  obtain ⟨rfl, rfl⟩ : ps = [] ∧ c = [97] := by
    have hnames : words slash [] [47, 97, 47] = [] ++ [[97]] := by decide
    obtain ⟨hps, hc⟩ := List.append_inj' (hwords.symm.trans hnames) rfl
    exact ⟨hps, List.cons.inj hc |>.1⟩
  obtain rfl : 1 = P := Option.some.inj hP
  obtain ⟨l, r, hl, -, -, hl'⟩ := hout.parent
  have hlist : l ++ 2 :: r = l ++ r := by
    have hone : (view nestedDrive).listing 1 = some [2] := by decide +kernel
    exact Option.some.inj ((hl.symm.trans hone).trans (hroot.symm.trans hl'))
  have hlen := congrArg List.length hlist
  rw [List.length_append, List.length_append, List.length_cons] at hlen
  omega

end VersionSix.Asvfs
