import VersionSix.AsvfsIndex
import VersionSix.AsvfsPath

/-!
# ASVFS: paths resolve in the tree

On a well-formed drive the lookups of `asvfs.c` are the lookups of `view`. They
return for every directory of at most 98 entries, as many as fit behind `.` and
`..` (`lookup_eq`); a lookup that returns agrees with the tree in any case
(`lookup_partial`). So the modules behind this one reason about paths in a
tree, and the two loops over characters do not come up again.

A lookup reads little: the directory blocks on the way, and the names in the
records of their entries (`listing_congr`). Two drives that agree on these give
the same block for the path (`WellFormed.pathLoop_keeps`), whatever else was
written in between. This is how a frame on the drive becomes one on the tree.

Canonical paths are the ones that the source documents: names other than `.`
and `..`, joined by single separators. `blockAt` is what such a path leads to,
and 0 where it leads nowhere, as in the source. Sample drives are checked by
running the last part.
-/

namespace VersionSix.Asvfs

open ByteStore DirTree PathText
open PathTree (resolve)

variable {s s' : Volume} {n : Nat}

/-! ## What the tree says about its blocks -/

theorem Listed.reach {b : Nat} (h : Listed s b) : Reach (view s) b := by
  obtain ⟨d, ids, hd, hids, hb⟩ := h
  exact .entry hd hids hb

theorem listing_eq_some {b : Nat} {ids : List Nat} :
    (view s).listing b = some ids ↔
      Directory.type (directoryBlock s b) = asvfsBlockTypeDirectory ∧
        Directory.entries (directoryBlock s b) = ids := by
  simp only [view, Option.ite_none_right_eq_some, Option.some.injEq]

theorem listing_eq_none {b : Nat} :
    (view s).listing b = none ↔
      Directory.type (directoryBlock s b) ≠ asvfsBlockTypeDirectory := by
  simp only [view, ite_eq_right_iff, reduceCtorEq, imp_false, ne_eq]

theorem nextIndex_le {k d : Nat} {ids : List Nat} (hcap : Capacity k s) (hd : Reach (view s) d)
    (hids : (view s).listing d = some ids) : Directory.nextIndex (directoryBlock s d) ≤ k := by
  rw [← length_entries, (listing_eq_some.mp hids).2]
  exact hcap d ids hd hids

/-- Block 0 is the header's: no block of the tree has that number. -/
theorem WellFormed.ne_zero (h : WellFormed n s) {b : Nat} (hb : Reach (view s) b) : b ≠ 0 := by
  rintro rfl
  have hbehind := (h.placed 0 hb).2.behind
  unfold headerSize at hbehind
  omega

/-! ## What a write does to the tree -/

theorem entries_read {b : Bytes} (h : Directory.nextIndex b ≤ 256) :
    Directory.entries (read b 0 directorySize) = Directory.entries b := by
  rw [Directory.entries, Directory.nextIndex_read]
  refine List.map_congr_left fun i hi => Directory.index_read b ?_
  exact Nat.lt_of_lt_of_le (List.mem_range.mp hi) h

/-- A listing is a matter of the directory block, a name of the record. -/
theorem listing_congr {b : Nat} (h : directoryBlock s' b = directoryBlock s b) :
    (view s').listing b = (view s).listing b := by
  simp only [view, h]

theorem name_congr {b : Nat} (h : asvfsGetMetaData s' b = asvfsGetMetaData s b) :
    (view s').name b = (view s).name b := by
  simp only [view, h]

theorem root_congr (h : s'.header = s.header) : (view s').root = (view s).root := by
  simp only [view, h]

theorem listing_writeBlock (hsize : Header.blockSize s.header = 4096) {b : Nat} (hb : Placed n b)
    {data : Bytes} (hnext : Directory.nextIndex data ≤ 256) :
    (view (asvfsWriteBlock s b directorySize data)).listing b =
      if Directory.type data = asvfsBlockTypeDirectory then some (Directory.entries data)
      else none := by
  simp only [view, directoryBlock_writeBlock_same hsize hb, Directory.type_read, entries_read hnext]

/-! ## Names -/

/-- What makes `b` a proper entry. -/
def ProperEntry (s : Volume) (b : Nat) : Prop :=
  Meta.id (asvfsGetMetaData s b) = b ∧ (Meta.name (asvfsGetMetaData s b)).isSome ∧
    (view s).name b ≠ [] ∧ (view s).name b ≠ dot ∧ (view s).name b ≠ dotDot

instance (s : Volume) (b : Nat) : Decidable (ProperEntry s b) :=
  inferInstanceAs (Decidable (_ ∧ _ ∧ _ ∧ _ ∧ _))

theorem properEntry_of_name {b : Nat} {name : List UInt8} (hid : Meta.id (asvfsGetMetaData s b) = b)
    (hname : Meta.name (asvfsGetMetaData s b) = some name)
    (hne : name ≠ [] ∧ name ≠ dot ∧ name ≠ dotDot) : ProperEntry s b := by
  refine ⟨hid, by rw [hname, Option.isSome_some], ?_⟩
  simpa only [view, hname, Option.getD_some] using hne

theorem WellFormed.properEntry (h : WellFormed n s) {b : Nat} (hb : Listed s b) :
    ProperEntry s b := by
  obtain ⟨name, hname, hne⟩ := h.name b hb
  exact properEntry_of_name (h.id b hb) hname hne

theorem ProperEntry.name {b : Nat} (h : ProperEntry s b) :
    ∃ name, Meta.name (asvfsGetMetaData s b) = some name ∧ name ≠ [] ∧ name ≠ dot ∧
      name ≠ dotDot := by
  obtain ⟨-, hsome, hne⟩ := h
  obtain ⟨name, hname⟩ := Option.isSome_iff_exists.mp hsome
  refine ⟨name, hname, ?_⟩
  simpa only [view, hname, Option.getD_some] using hne

/-- The entry of `b` as it is read. -/
def entryOf (s : Volume) (b : Nat) : DirEntry where
  name := (view s).name b
  type := if Meta.blockType (asvfsGetMetaData s b) = asvfsBlockTypeDirectory then
    asvfsBlockTypeDirectory else asvfsBlockTypeFile
  blockId := b

theorem ProperEntry.dirEntry {b : Nat} (h : ProperEntry s b) :
    dirEntry s b = some (entryOf s b) := by
  obtain ⟨name, hname, -⟩ := h.name
  simp only [dirEntry_of_name hname, entryOf, view, hname, Option.getD_some, h.1]

theorem dirEntries_eq {ids : List Nat} (hids : ∀ b ∈ ids, ProperEntry s b) :
    dirEntries s ids = some (ids.map (entryOf s)) := by
  induction ids with
  | nil => rfl
  | cons b ids ih =>
      rw [List.forall_mem_cons] at hids
      rw [Asvfs.dirEntries, hids.1.dirEntry, Option.bind_some, ih hids.2]
      rfl

theorem find_entryOf (ids : List Nat) (c : List UInt8) :
    ((ids.map (entryOf s)).find? fun e => e.name = c).map DirEntry.blockId =
      ids.find? fun b => (view s).name b = c := by
  rw [List.find?_map, Option.map_map]
  exact Option.map_id'

theorem lookup_of_file {d : Nat} (h : (view s).listing d = none) (c : List UInt8) :
    asvfsGetBlockMetaFromDir s d c = some 0 := by
  rw [asvfsGetBlockMetaFromDir, asvfsReaddir, if_pos (listing_eq_none.mp h)]
  rfl

theorem lookup_of_large {d : Nat} {ids : List Nat} (h : (view s).listing d = some ids)
    (hlen : 98 < ids.length) (c : List UInt8) : asvfsGetBlockMetaFromDir s d c = none := by
  obtain ⟨htype, rfl⟩ := listing_eq_some.mp h
  rw [length_entries] at hlen
  rw [asvfsGetBlockMetaFromDir, asvfsReaddir, if_neg (not_not.mpr htype), if_pos hlen]
  rfl

theorem lookup_of_entries {d : Nat} {ids : List Nat} (h : (view s).listing d = some ids)
    (hlen : ids.length ≤ 98) {c : List UInt8} (hdots : c ≠ dot ∧ c ≠ dotDot) :
    asvfsGetBlockMetaFromDir s d c = (dirEntries s ids).map fun es =>
      ((es.find? fun e => e.name = c).map DirEntry.blockId).getD 0 := by
  obtain ⟨htype, rfl⟩ := listing_eq_some.mp h
  have hsmall : ¬ Directory.nextIndex (directoryBlock s d) > 98 := by
    rw [← length_entries]
    exact Nat.not_lt.mpr hlen
  have hfirst : ∀ (e : DirEntry) (es : List DirEntry), e.name ≠ c →
      (e :: es).find? (fun e => e.name = c) = es.find? fun e => e.name = c :=
    fun e es he => List.find?_cons_of_neg (by simpa using he)
  rw [asvfsGetBlockMetaFromDir, asvfsReaddir, if_neg (not_not.mpr htype), if_neg hsmall,
    Option.map_map]
  congr 1
  funext es
  rw [Function.comp_apply, hfirst _ _ (Ne.symm hdots.1), hfirst _ _ (Ne.symm hdots.2)]

/-- A block the lookup of a name can go through: as a directory it has room in
the buffer, and its entries are proper ones. -/
def Readable (s : Volume) (d : Nat) : Prop :=
  ∀ ids, (view s).listing d = some ids → ids.length ≤ 98 ∧ ∀ b ∈ ids, ProperEntry s b ∧ b ≠ 0

theorem WellFormed.readable (h : WellFormed n s) {d : Nat} (hd : Reach (view s) d)
    (hlen : ∀ ids, (view s).listing d = some ids → ids.length ≤ 98) : Readable s d :=
  fun ids hids => ⟨hlen ids hids, fun _ hb =>
    ⟨h.properEntry ⟨d, ids, hd, hids, hb⟩, h.ne_zero (.entry hd hids hb)⟩⟩

/-- `.` and `..` stand in front of the entries with block 0, and no entry has
these names. -/
theorem Readable.lookup_eq {d : Nat} (h : Readable s d) (c : List UInt8) :
    asvfsGetBlockMetaFromDir s d c = some (((view s).look d c).getD 0) := by
  cases hids : (view s).listing d with
  | none => rw [lookup_of_file hids, look_eq_none_of_file hids, Option.getD_none]
  | some ids =>
      obtain ⟨hlen, hproper⟩ := h ids hids
      have hentries := dirEntries_eq fun b hb => (hproper b hb).1
      by_cases hdots : c = dot ∨ c = dotDot
      · obtain ⟨htype, rfl⟩ := listing_eq_some.mp hids
        have hsmall : ¬ Directory.nextIndex (directoryBlock s d) > 98 := by
          rw [← length_entries]
          exact Nat.not_lt.mpr hlen
        have hnone : (view s).look d c = none := by
          rw [look_eq_none_iff hids]
          intro b hb
          obtain ⟨-, -, -, hdot, hdotDot⟩ := (hproper b hb).1
          rcases hdots with rfl | rfl
          · exact hdot
          · exact hdotDot
        rw [hnone, asvfsGetBlockMetaFromDir, asvfsReaddir, if_neg (not_not.mpr htype),
          if_neg hsmall, hentries]
        rcases hdots with rfl | rfl <;> rfl
      · rw [lookup_of_entries hids hlen (not_or.mp hdots), hentries, Option.map_some, find_entryOf]
        simp only [Dirs.look, hids, Option.bind_some]

theorem Readable.ne_zero {d b : Nat} {c : List UInt8} (h : Readable s d)
    (hb : (view s).look d c = some b) : b ≠ 0 := by
  obtain ⟨ids, hids, hmem, -⟩ := look_mem hb
  exact ((h ids hids).2 b hmem).2

theorem WellFormed.lookup_partial (h : WellFormed n s) {d b : Nat} (hd : Reach (view s) d)
    {c : List UInt8} (hb : asvfsGetBlockMetaFromDir s d c = some b) :
    b = ((view s).look d c).getD 0 := by
  by_cases hlen : ∀ ids, (view s).listing d = some ids → ids.length ≤ 98
  · rw [(h.readable hd hlen).lookup_eq] at hb
    exact (Option.some.inj hb).symm
  · simp only [not_forall, Nat.not_le] at hlen
    obtain ⟨ids, hids, hlong⟩ := hlen
    rw [lookup_of_large hids hlong] at hb
    cases hb

/-! ## Paths -/

/-- The block of a path, 0 if there is none. -/
def blockOf (s : Volume) (ws : List (List UInt8)) : Nat :=
  (resolve (view s).look (view s).root ws).getD 0

theorem reach_look {d b : Nat} {c : List UInt8} (hd : Reach (view s) d)
    (hb : (view s).look d c = some b) : Reach (view s) b := by
  obtain ⟨ids, hids, hmem, -⟩ := look_mem hb
  exact .entry hd hids hmem

/-- A name is complete: the lookup, and the rest `cs` of the path from there. -/
theorem WellFormed.close_partial (h : WellFormed n s) {name cs : List UInt8}
    {ws : List (List UInt8)} {cur b : Nat} (hcur : Reach (view s) cur)
    (hrest : ∀ b', Reach (view s) b' → pathLoop s cs b' [] = some b →
      b = (resolve (view s).look b' ws).getD 0)
    (hb : ((asvfsGetBlockMetaFromDir s cur name).bind fun b' =>
      if b' ≠ 0 then pathLoop s cs b' [] else some 0) = some b) :
    b = (resolve (view s).look cur (name :: ws)).getD 0 := by
  obtain ⟨b', hb', hb⟩ := Option.bind_eq_some_iff.mp hb
  obtain rfl := h.lookup_partial hcur hb'
  rw [PathTree.resolve_cons]
  cases hlook : (view s).look cur name with
  | none =>
      simp only [hlook, Option.getD_none, ne_eq, not_true_eq_false, if_false,
        Option.some.injEq] at hb
      exact hb.symm
  | some b' =>
      have hreach := reach_look hcur hlook
      simp only [hlook, Option.getD_some, if_pos (h.ne_zero hreach)] at hb
      exact hrest b' hreach hb

theorem WellFormed.pathLoop_partial (h : WellFormed n s) {rest name : List UInt8} {cur b : Nat}
    (hrest : CString rest) (hcur : Reach (view s) cur)
    (hb : pathLoop s (rest ++ [0]) cur name = some b) :
    b = (resolve (view s).look cur (words slash name rest)).getD 0 := by
  induction rest generalizing cur name with
  | nil =>
      rw [List.nil_append, pathLoop, if_neg (by simp)] at hb
      rw [words]
      split at hb
      · next hname =>
        rw [if_pos hname]
        exact (Option.some.inj hb).symm
      · next hname =>
        rw [if_neg hname]
        refine h.close_partial hcur (fun b' _ hb' => ?_) hb
        rw [pathLoop] at hb'
        exact (Option.some.inj hb').symm
  | cons c rest ih =>
      rw [CString, List.mem_cons, not_or] at hrest
      rw [List.cons_append, pathLoop] at hb
      rw [words]
      by_cases hc : c = slash
      · rw [if_neg fun hne => hne.1 hc] at hb
        rw [if_pos hc]
        split at hb
        · next hname =>
          rw [if_pos hname]
          exact ih hrest.2 hcur hb
        · next hname =>
          rw [if_neg hname]
          exact h.close_partial hcur (fun b' hb' => ih hrest.2 hb') hb
      · rw [if_pos ⟨hc, Ne.symm hrest.1⟩] at hb
        rw [if_neg hc]
        split at hb
        · exact ih hrest.2 hcur hb
        · cases hb

theorem WellFormed.pathname_partial (h : WellFormed n s) {p : List UInt8} {b : Nat}
    (hp : CString p) (hb : asvfsGetBlockIdFromPathname s p = some b) :
    b = blockOf s (words slash [] p) := by
  unfold asvfsGetBlockIdFromPathname at hb
  split at hb
  · next hroot =>
    rw [hroot]
    exact (Option.some.inj hb).symm
  · exact h.pathLoop_partial hp .refl hb

theorem WellFormed.pathname_cases (h : WellFormed n s) {p : List UInt8} {b : Nat}
    (hp : CString p) (hb : asvfsGetBlockIdFromPathname s p = some b) :
    b = 0 ∧ resolve (view s).look (view s).root (words slash [] p) = none ∨
      b ≠ 0 ∧ resolve (view s).look (view s).root (words slash [] p) = some b := by
  have hres := h.pathname_partial hp hb
  unfold blockOf at hres
  cases hr : resolve (view s).look (view s).root (words slash [] p) with
  | none =>
      rw [hr] at hres
      exact .inl ⟨hres, rfl⟩
  | some b' =>
      rw [hr, Option.getD_some] at hres
      rw [hres]
      exact .inr ⟨h.ne_zero (under_of_resolve hr), rfl⟩

theorem WellFormed.pathname_resolves (h : WellFormed n s) {p : List UInt8} {b : Nat}
    (hp : CString p) (hb : asvfsGetBlockIdFromPathname s p = some b) (hb0 : b ≠ 0) :
    resolve (view s).look (view s).root (words slash [] p) = some b := by
  rcases h.pathname_cases hp hb with ⟨h0, -⟩ | ⟨-, hr⟩
  · exact absurd h0 hb0
  · exact hr

/-- What a lookup found is found on every drive on which the directories of this
one have the same names. -/
theorem WellFormed.pathLoop_keeps (h : WellFormed n s)
    (hlook : ∀ d b c, Reach (view s) d → (view s).look d c = some b →
      asvfsGetBlockMetaFromDir s' d c = some b) {cs name : List UInt8} {cur b : Nat}
    (hcur : Reach (view s) cur) (hb : pathLoop s cs cur name = some b) (hb0 : b ≠ 0) :
    pathLoop s' cs cur name = some b := by
  induction cs generalizing cur name with
  | nil => exact hb
  | cons c cs ih =>
      rw [pathLoop] at hb ⊢
      split at hb
      · next hc =>
        obtain ⟨hlen, hb⟩ := Option.ite_none_right_eq_some.mp hb
        rw [if_pos hc, if_pos hlen]
        exact ih hcur hb
      · next hc =>
        rw [if_neg hc]
        split at hb
        · next hname =>
          rw [if_pos hname]
          exact ih hcur hb
        · next hname =>
          obtain ⟨b', hb', hb⟩ := Option.bind_eq_some_iff.mp hb
          obtain rfl := h.lookup_partial hcur hb'
          rw [if_neg hname]
          cases hfound : (view s).look cur name with
          | none =>
              rw [hfound, Option.getD_none, if_neg (not_not.mpr rfl)] at hb
              exact absurd (Option.some.inj hb).symm hb0
          | some b' =>
              have hreach := reach_look hcur hfound
              rw [hfound, Option.getD_some, if_pos (h.ne_zero hreach)] at hb
              rw [hlook cur b' name hcur hfound, Option.bind_some, if_pos (h.ne_zero hreach)]
              exact ih hreach hb

theorem WellFormed.pathname_keeps (h : WellFormed n s) (hroot : (view s').root = (view s).root)
    (hlook : ∀ d b c, Reach (view s) d → (view s).look d c = some b →
      asvfsGetBlockMetaFromDir s' d c = some b) {p : List UInt8} {b : Nat}
    (hb : asvfsGetBlockIdFromPathname s p = some b) (hb0 : b ≠ 0) :
    asvfsGetBlockIdFromPathname s' p = some b := by
  have hroot' : Header.rootDirectory s'.header = Header.rootDirectory s.header := hroot
  unfold asvfsGetBlockIdFromPathname at hb ⊢
  rw [hroot']
  split at hb
  · next hp => rwa [if_pos hp]
  · next hp =>
    rw [if_neg hp]
    exact h.pathLoop_keeps hlook .refl hb hb0

/-- The lookup of a path returns if the blocks it goes through can be read and
the names fit the buffer. -/
theorem pathLoop_eq {rest name : List UInt8} {cur : Nat} (hrest : CString rest)
    (hwords : ∀ w ∈ words slash name rest, w.length ≤ 255)
    (hread : ∀ ws w d, ws ++ [w] <+: words slash name rest →
      resolve (view s).look cur ws = some d → Readable s d) :
    pathLoop s (rest ++ [0]) cur name =
      some ((resolve (view s).look cur (words slash name rest)).getD 0) := by
  -- a name is complete: the lookup, and the rest `cs` of the path from there
  have hclose : ∀ {cur : Nat} {name cs : List UInt8} {ws : List (List UInt8)},
      (∀ us w d, us ++ [w] <+: name :: ws → resolve (view s).look cur us = some d → Readable s d) →
      (∀ b, (∀ us w d, us ++ [w] <+: ws → resolve (view s).look b us = some d → Readable s d) →
        pathLoop s cs b [] = some ((resolve (view s).look b ws).getD 0)) →
      ((asvfsGetBlockMetaFromDir s cur name).bind fun b =>
        if b ≠ 0 then pathLoop s cs b [] else some 0) =
          some ((resolve (view s).look cur (name :: ws)).getD 0) := by
    intro cur name cs ws hread hcs
    have hcur := hread [] name cur (List.prefix_iff_eq_take.mpr rfl) rfl
    rw [hcur.lookup_eq, Option.bind_some, PathTree.resolve_cons]
    cases hlook : (view s).look cur name with
    | none => rfl
    | some b =>
        rw [Option.getD_some, if_pos (hcur.ne_zero hlook), Option.bind_some]
        refine hcs b fun us w d hus hd =>
          hread (name :: us) w d (List.cons_prefix_cons.mpr ⟨rfl, hus⟩) ?_
        rw [PathTree.resolve_cons, hlook, Option.bind_some, hd]
  induction rest generalizing cur name with
  | nil =>
      rw [List.nil_append, pathLoop, if_neg (by simp)]
      rw [words] at hread ⊢
      split
      · rfl
      · next hname =>
        rw [if_neg hname] at hread
        refine hclose hread fun b _ => ?_
        rw [pathLoop]
        rfl
  | cons c rest ih =>
      rw [CString, List.mem_cons, not_or] at hrest
      rw [words] at hwords hread ⊢
      rw [List.cons_append, pathLoop]
      by_cases hc : c = slash
      · rw [if_pos hc] at hwords hread ⊢
        rw [if_neg fun hne => hne.1 hc]
        split
        · next hname =>
          rw [if_pos hname] at hwords hread
          exact ih hrest.2 hwords hread
        · next hname =>
          rw [if_neg hname] at hwords hread
          rw [List.forall_mem_cons] at hwords
          exact hclose hread fun b hb => ih hrest.2 hwords.2 hb
      · rw [if_neg hc] at hwords hread ⊢
        rw [if_pos ⟨hc, Ne.symm hrest.1⟩]
        obtain ⟨w, hw, hpre⟩ := exists_word_of_acc slash
          (List.append_ne_nil_of_right_ne_nil name (List.cons_ne_nil c [])) rest
        have hlen := hpre.length_le
        have hfits := hwords w hw
        rw [List.length_append, List.length_singleton] at hlen
        rw [if_pos (by omega)]
        exact ih hrest.2 hwords hread

theorem pathname_eq {p : List UInt8} (hp : CString p)
    (hwords : ∀ w ∈ words slash [] p, w.length ≤ 255)
    (hread : ∀ ws w d, ws ++ [w] <+: words slash [] p →
      resolve (view s).look (view s).root ws = some d → Readable s d) :
    asvfsGetBlockIdFromPathname s p = some (blockOf s (words slash [] p)) := by
  unfold asvfsGetBlockIdFromPathname
  split
  · next hroot =>
    rw [hroot]
    rfl
  · exact pathLoop_eq hp hwords hread

/-! ## Canonical paths -/

def CanonicalNames (cs : List (List UInt8)) : Prop :=
  Names slash cs ∧ ∀ c ∈ cs, CString c ∧ c.length < asvfsMaxNameSize ∧ c ≠ dot ∧ c ≠ dotDot

/-- What a canonical path resolves to, 0 if it does not. -/
def blockAt (s : Volume) (cs : List (List UInt8)) : Option Nat :=
  asvfsGetBlockIdFromPathname s (render slash cs)

theorem CanonicalNames.append {ps qs : List (List UInt8)} :
    CanonicalNames (ps ++ qs) ↔ CanonicalNames ps ∧ CanonicalNames qs := by
  simp only [CanonicalNames, Names, List.forall_mem_append]
  exact and_and_and_comm

theorem cstring_render {cs : List (List UInt8)} (h : ∀ c ∈ cs, CString c) :
    CString (render slash cs) := by
  induction cs using List.reverseRecOn with
  | nil => decide
  | append_singleton cs c ih =>
      have hcs := ih fun d hd => h d (List.mem_append_left _ hd)
      rw [render_concat, CString, List.mem_append, not_or]
      refine ⟨?_, h c (by simp)⟩
      split
      · decide
      · rw [List.mem_append, not_or]
        exact ⟨hcs, by decide⟩

theorem CanonicalNames.cstring {cs : List (List UInt8)} (h : CanonicalNames cs) :
    CString (render slash cs) := cstring_render fun c hc => (h.2 c hc).1

theorem CanonicalNames.fits {cs : List (List UInt8)} (h : CanonicalNames cs) :
    ∀ c ∈ cs, CString c ∧ c.length ≤ 255 := by
  intro c hc
  obtain ⟨hnul, hlen, -⟩ := h.2 c hc
  exact ⟨hnul, Nat.le_trans (Nat.le_of_lt hlen) (by decide)⟩

theorem pathParts_canonical {R : List (List UInt8)} {c c' p : List UInt8}
    (hnames : CanonicalNames (R ++ [c]))
    (hparts : asvfsGetPathParts (render slash (R ++ [c])) = some (p, c')) :
    words slash [] p = R ∧ c' = c := by
  rw [pathParts_render hnames.1 hnames.fits] at hparts
  obtain ⟨-, hparts⟩ := Option.ite_none_right_eq_some.mp hparts
  obtain ⟨rfl, rfl⟩ := Prod.mk.inj (Option.some.inj hparts)
  exact ⟨words_render (CanonicalNames.append.mp hnames).1.1, rfl⟩

theorem pathParts_unique {R : List (List UInt8)} {c c' p : List UInt8} {b b' : Nat}
    (hnames : CanonicalNames (R ++ [c])) (hR : resolve (view s).look (view s).root R = some b)
    (hparts : asvfsGetPathParts (render slash (R ++ [c])) = some (p, c'))
    (hp : resolve (view s).look (view s).root (words slash [] p) = some b') : b' = b ∧ c' = c := by
  obtain ⟨hwords, hc⟩ := pathParts_canonical hnames hparts
  rw [hwords, hR] at hp
  exact ⟨(Option.some.inj hp).symm, hc⟩

theorem WellFormed.resolve_of_zero (h : WellFormed n s) {cs : List (List UInt8)}
    (hcs : CanonicalNames cs) (hb : blockAt s cs = some 0) :
    resolve (view s).look (view s).root cs = none := by
  rcases h.pathname_cases hcs.cstring hb with ⟨-, hnone⟩ | ⟨h0, -⟩
  · rwa [words_render hcs.1] at hnone
  · exact absurd rfl h0

theorem blockAt_of_readable {cs : List (List UInt8)} (hcs : CanonicalNames cs)
    (hread : ∀ ws w d, ws ++ [w] <+: cs → resolve (view s).look (view s).root ws = some d →
      Readable s d) :
    blockAt s cs = some ((resolve (view s).look (view s).root cs).getD 0) := by
  have hwords := words_render hcs.1
  rw [blockAt, pathname_eq hcs.cstring (by rw [hwords]; exact fun c hc => (hcs.fits c hc).2)
    (by rw [hwords]; exact hread), blockOf, hwords]

theorem WellFormed.blockAt_eq (h : WellFormed n s) (hcap : Capacity 98 s) {cs : List (List UInt8)}
    (hcs : CanonicalNames cs) :
    blockAt s cs = some ((resolve (view s).look (view s).root cs).getD 0) := by
  refine blockAt_of_readable hcs fun ws w d _ hd => ?_
  have hreach := under_of_resolve hd
  exact h.readable hreach fun ids => hcap d ids hreach

theorem WellFormed.blockAt_eq_some (h : WellFormed n s) (hcap : Capacity 98 s)
    {cs : List (List UInt8)} (hcs : CanonicalNames cs) {b : Nat} (hb : b ≠ 0) :
    blockAt s cs = some b ↔ resolve (view s).look (view s).root cs = some b := by
  rw [h.blockAt_eq hcap hcs, Option.some.injEq]
  cases hr : resolve (view s).look (view s).root cs with
  | none => exact iff_of_false (Ne.symm hb) (by simp)
  | some b' => rw [Option.getD_some, Option.some.injEq]

theorem WellFormed.blockAt_eq_zero (h : WellFormed n s) (hcap : Capacity 98 s)
    {cs : List (List UInt8)} (hcs : CanonicalNames cs) :
    blockAt s cs = some 0 ↔ resolve (view s).look (view s).root cs = none := by
  rw [h.blockAt_eq hcap hcs, Option.some.injEq]
  cases hr : resolve (view s).look (view s).root cs with
  | none => simp
  | some b' => exact iff_of_false (h.ne_zero (under_of_resolve hr)) (by simp)

/-! ## Checking a drive

A finite set of blocks that holds the root and every entry of its blocks. -/

def entriesAt (s : Volume) (d : Nat) : List Nat := ((view s).listing d).getD []

def Checked (n : Nat) (s : Volume) (bs : List Nat) : Prop :=
  (Header.blockSize s.header = asvfsDefaultBlockSize ∧ Header.rootDirectory s.header ≠ 0 ∧
    Header.rootDirectory s.header ∈ bs) ∧
  (∀ b ∈ bs, b < n ∧ b < 2 ^ 20 ∧ headerSize + metaSize * n ≤ 4096 * b) ∧
  (∀ d ∈ bs, ((entriesAt s d).map (view s).name).Nodup ∧
    Header.rootDirectory s.header ∉ entriesAt s d ∧
    ∀ b ∈ entriesAt s d, b ∈ bs ∧ ProperEntry s b) ∧
  ∀ d ∈ bs, ∀ d' ∈ bs, ∀ b ∈ entriesAt s d, b ∈ entriesAt s d' → d = d'

instance (n : Nat) (s : Volume) (bs : List Nat) : Decidable (Checked n s bs) :=
  inferInstanceAs (Decidable (_ ∧ _ ∧ _ ∧ _))

theorem entriesAt_of_listing {d : Nat} {ids : List Nat} (h : (view s).listing d = some ids) :
    entriesAt s d = ids := by
  rw [entriesAt, h, Option.getD_some]

theorem Checked.reach {bs : List Nat} (h : Checked n s bs) {b : Nat} (hb : Reach (view s) b) :
    b ∈ bs := by
  obtain ⟨⟨-, -, hroot⟩, -, hentries, -⟩ := h
  induction hb with
  | refl => exact hroot
  | entry _ hids hmem ih => exact ((hentries _ ih).2.2 _ (entriesAt_of_listing hids ▸ hmem)).1

theorem Checked.wellFormed {bs : List Nat} (h : Checked n s bs) : WellFormed n s := by
  have hreach : ∀ {b}, Reach (view s) b → b ∈ bs := h.reach
  obtain ⟨⟨hsize, hroot, -⟩, hplaced, hentries, hparent⟩ := h
  have hlisted : ∀ {b}, Listed s b → ProperEntry s b := by
    rintro b ⟨d, ids, hd, hids, hmem⟩
    exact ((hentries d (hreach hd)).2.2 b (entriesAt_of_listing hids ▸ hmem)).2
  refine ⟨hsize, hroot,
    ⟨fun {d ids} hd hids => ?_, fun {d d' ids ids' b} hd hd' hids hids' hb hb' => ?_,
      fun {d ids} hd hids => ?_⟩,
    fun b hb => ?_, fun b hb => (hlisted hb).1, fun b hb => (hlisted hb).name⟩
  · rw [← entriesAt_of_listing hids]
    exact (hentries d (hreach hd)).1
  · exact hparent d (hreach hd) d' (hreach hd') b (entriesAt_of_listing hids ▸ hb)
      (entriesAt_of_listing hids' ▸ hb')
  · rw [← entriesAt_of_listing hids]
    exact (hentries d (hreach hd)).2.1
  · obtain ⟨hn, haddr, hbehind⟩ := hplaced b (hreach hb)
    exact ⟨hn, haddr, hbehind⟩

end VersionSix.Asvfs
