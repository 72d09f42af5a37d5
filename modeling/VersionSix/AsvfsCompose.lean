import VersionSix.AsvfsTree
import VersionSix.AsvfsWrite

/-!
# ASVFS: paths compose

`asvfs_get_path_parts` and `asvfs_get_block_id_from_pathname` each go over the
characters of a path in a loop of their own. On a canonical path they agree,
name by name: the block of the path is that of the last name in the directory
of the rest (`paths_compose`), and `/` alone leads to the root. The drive may
look like anything; only the directories that are passed have to fit the
buffers, and their names to end.

`descend` is what the second loop does, name by name; it does so for every
text, however its names are separated (`pathname_words`). The proof goes over
the characters with the name read so far as the accumulator, and closes a name
at a separator and at the NUL by the same lemma (`pathLoop_close`).

No tree is mentioned here. A drive whose directories contain each other in a
circle resolves its paths just as well, and the statement holds for it.
-/

namespace VersionSix.Asvfs

open PathText
open PathTree (resolve)

variable {s : Volume}

/-! ## Name by name -/

/-- From one block to the next; 0 is where a lookup failed. -/
def descendTo (s : Volume) (d : Nat) (c : List UInt8) : Option Nat :=
  if d = 0 then some 0 else asvfsGetBlockMetaFromDir s d c

def descend (s : Volume) : Nat → List (List UInt8) → Option Nat := resolve (descendTo s)

def passed (s : Volume) : Nat → List (List UInt8) → List Nat
  | _, [] => []
  | d, c :: cs => d ::
      match asvfsGetBlockMetaFromDir s d c with
      | none => []
      | some b => if b ≠ 0 then passed s b cs else []

theorem descend_cons {d : Nat} (hd : d ≠ 0) (c : List UInt8) (cs : List (List UInt8)) :
    descend s d (c :: cs) = (asvfsGetBlockMetaFromDir s d c).bind fun b => descend s b cs := by
  rw [descend, PathTree.resolve_cons, descendTo, if_neg hd]

theorem descend_zero (cs : List (List UInt8)) : descend s 0 cs = some 0 := by
  induction cs with
  | nil => rfl
  | cons c cs ih =>
      rw [descend, PathTree.resolve_cons, descendTo, if_pos rfl, Option.bind_some]
      exact ih

theorem descend_concat (d : Nat) (cs : List (List UInt8)) (c : List UInt8) :
    descend s d (cs ++ [c]) = (descend s d cs).bind fun p =>
      if p = 0 then some 0 else asvfsGetBlockMetaFromDir s p c :=
  PathTree.resolve_concat ..

/-! ## Character by character -/

/-- A separator or the NUL behind the name `c`; `ws` are the names in the rest
`cs` of the path. -/
theorem pathLoop_close {x : UInt8} {cs c : List UInt8} {ws : List (List UInt8)} {d : Nat}
    (hx : x = slash ∨ x = 0) (hc : c ≠ []) (hd : d ≠ 0)
    (hrest : ∀ b, b ≠ 0 → pathLoop s cs b [] = descend s b ws ∧ walked s cs b [] = passed s b ws) :
    pathLoop s (x :: cs) d c = descend s d (c :: ws) ∧
      walked s (x :: cs) d c = passed s d (c :: ws) := by
  have hend : ¬ (x ≠ slash ∧ x ≠ 0) := by
    rintro ⟨hslash, hnul⟩
    exact hx.elim hslash hnul
  rw [pathLoop, walked, if_neg hend, if_neg hend, if_neg hc, if_neg hc, descend_cons hd, passed]
  cases asvfsGetBlockMetaFromDir s d c with
  | none => exact ⟨rfl, rfl⟩
  | some b =>
      by_cases hb : b = 0
      · simp only [hb, descend_zero, Option.bind_some, ne_eq, not_true_eq_false, if_false,
          and_self]
      · obtain ⟨hpath, hpassed⟩ := hrest b hb
        simp only [Option.bind_some, ne_eq, hb, not_false_eq_true, if_true, hpath, hpassed,
          and_self]

/-- The loop descends along the names of the text, if they fit the buffer. -/
theorem pathLoop_words {rest name : List UInt8} {d : Nat} (hd : d ≠ 0) (hrest : CString rest)
    (hwords : ∀ w ∈ words slash name rest, w.length < 256) :
    pathLoop s (rest ++ [0]) d name = descend s d (words slash name rest) ∧
      walked s (rest ++ [0]) d name = passed s d (words slash name rest) := by
  induction rest generalizing name d with
  | nil =>
      rw [List.nil_append, words]
      split_ifs with hname
      · subst hname
        exact ⟨rfl, rfl⟩
      · exact pathLoop_close (.inr rfl) hname hd fun b _ => ⟨rfl, rfl⟩
  | cons x rest ih =>
      rw [CString, List.mem_cons, not_or] at hrest
      rw [words] at hwords ⊢
      rw [List.cons_append]
      by_cases hx : x = slash
      · rw [if_pos hx] at hwords ⊢
        split_ifs at hwords ⊢ with hname
        · have hend : ¬ (x ≠ slash ∧ x ≠ 0) := fun h => h.1 hx
          rw [pathLoop, walked, if_neg hend, if_neg hend, if_pos hname, if_pos hname]
          exact ih hd hrest.2 hwords
        · rw [List.forall_mem_cons] at hwords
          exact pathLoop_close (.inl hx) hname hd fun b hb => ih hb hrest.2 hwords.2
      · rw [if_neg hx] at hwords ⊢
        have hchar : x ≠ slash ∧ x ≠ 0 := ⟨hx, Ne.symm hrest.1⟩
        obtain ⟨w, hw, hpre⟩ := exists_word_of_acc slash
          (List.append_ne_nil_of_right_ne_nil name (List.cons_ne_nil x [])) rest
        have hlen := hpre.length_le
        have hfits := hwords w hw
        rw [List.length_append, List.length_singleton] at hlen
        have hroom : name.length < 255 := by omega
        rw [pathLoop, walked, if_pos hchar, if_pos hchar, if_pos hroom, if_pos hroom]
        exact ih hd hrest.2 hwords

theorem pathname_words {p : List UInt8} (hroot : Header.rootDirectory s.header ≠ 0)
    (hp : CString p) (hwords : ∀ w ∈ words slash [] p, w.length < 256) :
    asvfsGetBlockIdFromPathname s p =
        descend s (Header.rootDirectory s.header) (words slash [] p) ∧
      directoriesOnPath s p = passed s (Header.rootDirectory s.header) (words slash [] p) := by
  unfold asvfsGetBlockIdFromPathname directoriesOnPath
  split_ifs with hslash
  · rw [hslash]
    exact ⟨rfl, rfl⟩
  · exact pathLoop_words hroot hp hwords

/-! ## The directories on the way -/

/-- As a directory, `d` has at most 97 entries, and their names end. -/
def Listable (s : Volume) (d : Nat) : Prop :=
  Directory.type (directoryBlock s d) = asvfsBlockTypeDirectory →
    Directory.nextIndex (directoryBlock s d) ≤ 97 ∧
      ∀ e ∈ Directory.entries (directoryBlock s d), (Meta.name (asvfsGetMetaData s e)).isSome

instance (s : Volume) (d : Nat) : Decidable (Listable s d) :=
  inferInstanceAs (Decidable (_ → _))

theorem dirEntries_returns {ids : List Nat}
    (h : ∀ e ∈ ids, (Meta.name (asvfsGetMetaData s e)).isSome) :
    ∃ es, dirEntries s ids = some es := by
  induction ids with
  | nil => exact ⟨[], rfl⟩
  | cons e ids ih =>
      obtain ⟨he, hrest⟩ := List.forall_mem_cons.mp h
      obtain ⟨name, hname⟩ := Option.isSome_iff_exists.mp he
      obtain ⟨es, hes⟩ := ih hrest
      simp [dirEntries, dirEntry_of_name hname, hes]

theorem Listable.lookup_returns {d : Nat} (h : Listable s d) (c : List UInt8) :
    ∃ b, asvfsGetBlockMetaFromDir s d c = some b := by
  unfold asvfsGetBlockMetaFromDir asvfsReaddir
  dsimp only
  split_ifs with htype hlarge
  · exact ⟨_, rfl⟩
  · obtain ⟨hlen, -⟩ := h (not_not.mp htype)
    omega
  · obtain ⟨es, hes⟩ := dirEntries_returns (h (not_not.mp htype)).2
    rw [hes]
    exact ⟨_, rfl⟩

theorem descend_returns {d : Nat} {cs : List (List UInt8)} (hd : d ≠ 0)
    (h : ∀ e ∈ passed s d cs, Listable s e) : ∃ b, descend s d cs = some b := by
  induction cs generalizing d with
  | nil => exact ⟨d, rfl⟩
  | cons c cs ih =>
      rw [passed, List.forall_mem_cons] at h
      obtain ⟨hdir, hrest⟩ := h
      obtain ⟨b, hb⟩ := hdir.lookup_returns c
      rw [descend_cons hd, hb, Option.bind_some]
      by_cases hb0 : b = 0
      · rw [hb0, descend_zero]
        exact ⟨0, rfl⟩
      · simp only [hb, ne_eq, hb0, not_false_eq_true, if_true] at hrest
        exact ih hb0 hrest

/-! ## Parent and child -/

/-- **Paths compose.** A canonical path is cut into the path of its names but
the last one, and that one; both fit their buffers with a NUL. Its block is
what is found under the last name in the directory of the parent; `/` leads to
the root. Together with the base case this gives the block of every canonical
path, name by name. -/
theorem paths_compose {ps : List (List UInt8)} {c : List UInt8}
    (hroot : Header.rootDirectory s.header ≠ 0) (hnames : Names slash (ps ++ [c]))
    (hstr : ∀ e ∈ ps ++ [c], CString e ∧ e.length < 256)
    (htotal : (render slash (ps ++ [c])).length < 1024)
    (hdirs : ∀ d ∈ directoriesOnPath s (render slash (ps ++ [c])), Listable s d) :
    asvfsGetPathParts (render slash (ps ++ [c])) = some (render slash ps, c) ∧
    (CString (render slash ps) ∧ (render slash ps).length < 1024) ∧
    (CString c ∧ c.length < 256) ∧
    asvfsGetBlockIdFromPathname s [slash] = some (Header.rootDirectory s.header) ∧
    ∃ parent b, asvfsGetBlockIdFromPathname s (render slash ps) = some parent ∧
      asvfsGetBlockIdFromPathname s (render slash (ps ++ [c])) = some b ∧
      (parent = 0 → b = 0) ∧
      (parent ≠ 0 → asvfsGetBlockMetaFromDir s parent c = some b) := by
  have hparentLen : (render slash ps).length < 1024 :=
    (length_render_le slash (List.prefix_append ps [c])).trans_lt htotal
  have hparts := pathParts_render hnames fun d hd =>
    ⟨(hstr d hd).1, Nat.le_of_lt_succ (hstr d hd).2⟩
  rw [if_pos hparentLen] at hparts
  have hpnul : CString (render slash ps) :=
    cstring_render fun e he => (hstr e (List.mem_append_left _ he)).1
  have hparent := (pathname_words (s := s) hroot hpnul (by
    rw [words_render hnames.parent]
    exact fun e he => (hstr e (List.mem_append_left _ he)).2)).1
  obtain ⟨hpath, hpassed⟩ := pathname_words (s := s) hroot
    (cstring_render fun e he => (hstr e he).1) (by
      rw [words_render hnames]
      exact fun e he => (hstr e he).2)
  rw [words_render hnames.parent] at hparent
  rw [words_render hnames] at hpath hpassed
  rw [hpassed] at hdirs
  obtain ⟨b, hb⟩ := descend_returns hroot hdirs
  have hcompose := hb
  rw [descend_concat] at hcompose
  obtain ⟨parent, hdescend, hlast⟩ := Option.bind_eq_some_iff.mp hcompose
  refine ⟨hparts, ⟨hpnul, hparentLen⟩,
    hstr c (List.mem_append_right _ (List.mem_singleton_self c)), if_pos rfl, parent, b,
    hparent.trans hdescend, hpath.trans hb, fun h0 => ?_, fun h0 => ?_⟩
  · rw [if_pos h0] at hlast
    exact (Option.some.inj hlast).symm
  · rw [if_neg h0] at hlast
    exact hlast

/-- `/a/b` on a drive with `/a` and `/b`: a path that is resolved up to the
file `/a`. -/
theorem paths_compose_twoFiles :
    asvfsGetPathParts (render slash ([[97]] ++ [[98]])) = some (render slash [[97]], [98]) ∧
    (CString (render slash [[97]]) ∧ (render slash [[97]]).length < 1024) ∧
    (CString [98] ∧ [98].length < 256) ∧
    asvfsGetBlockIdFromPathname twoFiles [slash] = some 1 ∧
    ∃ parent b, asvfsGetBlockIdFromPathname twoFiles (render slash [[97]]) = some parent ∧
      asvfsGetBlockIdFromPathname twoFiles (render slash ([[97]] ++ [[98]])) = some b ∧
      (parent = 0 → b = 0) ∧
      (parent ≠ 0 → asvfsGetBlockMetaFromDir twoFiles parent [98] = some b) :=
  paths_compose (by decide) (by unfold Names; decide) (by decide) (by decide) (by decide +kernel)

end VersionSix.Asvfs
