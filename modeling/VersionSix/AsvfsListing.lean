import VersionSix.AsvfsMove
import VersionSix.AsvfsCompose
import VersionSix.AvsRefines

/-!
# ASVFS: listing a directory

A directory goes through three structures on its way to a caller: the index on
the drive has 256 places, `asvfs_dir_t_entries` has 100, with `.` and `..` in
front and the number of entries in an `int8_t`, and a `vfs_dir` walks along a
list with a 16-bit cursor. `asvfs_readdir` is written out here with its array;
where it stays inside of it, it has the entries `asvfsReaddir` gives
(`readdir_eq`).

`lists_iff` says for which directories nothing is lost on the way: those of at
most 98 entries whose names tell them apart. With 99 the array is overrun
(`wide_directory_overruns`), since the loop compares its index with the number
of entries on the drive and not with the places in front of it.

The list is built by `avs_list_append` on nodes that `kmalloc` hands out, which
is all that is asked of it (`Allocates`). A caller reads until `vfs_readdir`
returns NULL, and gets every entry once and in order (`readUntilNull_eq`).
-/

namespace VersionSix.Asvfs

open ByteStore
open Linked (Nodes Cell)
open Avs (avsListAppend avsListInit avsListAtIndexNode Rep)

variable {s : Volume} {d : Nat}

/-! ## Functions -/

/-- An `int8_t`. -/
def int8 (x : Nat) : Int := Int.bmod x (2 ^ 8)

structure DirTEntries where
  size : Int
  dirEntry : Nat → DirEntry

/-- The places of `dir_entry`. -/
def dirEntryPlaces : Nat := 100

/-- After `memset`. -/
def DirTEntries.zero : DirTEntries := ⟨0, fun _ => ⟨[], 0, 0⟩⟩

/-- An entry is written; outside of the array it is an overrun. -/
def DirTEntries.set (t : DirTEntries) (i : Nat) (e : DirEntry) : Option DirTEntries :=
  if i < dirEntryPlaces then some { t with dirEntry := Function.update t.dirEntry i e } else none

def DirTEntries.first (t : DirTEntries) (k : Nat) : List DirEntry := (List.range k).map t.dirEntry

/-- The entries that a loop up to `size` goes over. -/
def DirTEntries.list (t : DirTEntries) : List DirEntry := t.first t.size.toNat

def dotEntries : List DirEntry := [⟨dot, asvfsInodeTypeDir, 0⟩, ⟨dotDot, asvfsInodeTypeDir, 0⟩]

/-- `.` and `..` are in place, and `size` is set. -/
def DirTEntries.start (nextIndex : Nat) : DirTEntries where
  size := int8 (nextIndex + 2)
  dirEntry i := (dotEntries[i]?).getD ⟨[], 0, 0⟩

/-- The loop over the index, at `i`. -/
def readdirLoop (s : Volume) : List Nat → Nat → DirTEntries → Option DirTEntries
  | [], _, t => some t
  | id :: ids, i, t =>
      (dirEntry s id).bind fun e => (t.set (i + 2) e).bind (readdirLoop s ids (i + 1))

/-- `asvfs_readdir`: what it leaves in its result structure. -/
def readdirInto (s : Volume) (blockId : Nat) : Option DirTEntries :=
  let block := directoryBlock s blockId
  if Directory.type block ≠ asvfsBlockTypeDirectory then some .zero
  else readdirLoop s (Directory.entries block) 0 (.start (Directory.nextIndex block))

structure VfsDirent where
  ino : Nat
  type : Nat
  name : List UInt8

structure VfsDir where
  count : Nat
  next : Nat
  dirList : Avs.State VfsDirent

def direntOf (e : DirEntry) : VfsDirent := ⟨e.blockId, e.type, e.name⟩

/-- The loop of `asvfs_get_dir_list_glue`; the node for entry `i` is allocated
at `alloc i`. -/
def appendLoop (ents : DirTEntries) (alloc : Nat → Nat) (heap : Nodes VfsDirent) (k : Nat) :
    Option (Avs.State VfsDirent) :=
  (List.range k).foldlM (fun l i => avsListAppend l (direntOf (ents.dirEntry i)) (alloc i))
    (avsListInit heap)

/-- It fills in `count` and `dir_list`, and always returns `VFS_ERROR_NONE`. -/
def asvfsGetDirListGlue (s : Volume) (pathname : List UInt8) (heap : Nodes VfsDirent)
    (alloc : Nat → Nat) : Option (Nat × Avs.State VfsDirent) := do
  let blockId ← asvfsGetBlockIdFromPathname s pathname
  let ents ← readdirInto s blockId
  let dirList ← appendLoop ents alloc heap ents.size.toNat
  some ((ents.size % 2 ^ 16).toNat, dirList)

def enoent : Int := 2

/-- What `asvfs_getattr` returns. -/
def asvfsGetattr (s : Volume) (pathname : List UInt8) : Option Int :=
  (asvfsGetBlockIdFromPathname s pathname).map fun blockId =>
    if blockId = 0 then -enoent else asvfsErrorNone

/-- `none` inside of the call is NULL. -/
def vfsOpendir (s : Volume) (pathname : List UInt8) (heap : Nodes VfsDirent) (alloc : Nat → Nat) :
    Option (Option VfsDir) := do
  let getattrErr ← asvfsGetattr s pathname
  if getattrErr ≠ 0 then some none
  else
    let (count, dirList) ← asvfsGetDirListGlue s pathname heap alloc
    some (some ⟨count, 0, dirList⟩)

def vfsReaddir (dirp : VfsDir) : Option (VfsDir × Option VfsDirent) := do
  let n ← avsListAtIndexNode dirp.dirList dirp.next
  if n = 0 then some (dirp, none)
  else
    let node ← dirp.dirList.nodes n
    some ({ dirp with next := (dirp.next + 1) % 2 ^ 16 }, some node.data)

/-- `vfs_readdir` until it returns NULL, in at most `fuel` calls. -/
def readUntilNull : Nat → VfsDir → Option (List VfsDirent)
  | 0, _ => none
  | fuel + 1, dirp => (vfsReaddir dirp).bind fun (dirp, e) =>
      match e with
      | none => some []
      | some e => (readUntilNull fuel dirp).map (e :: ·)

/-! ## The array -/

theorem first_succ (t : DirTEntries) (k : Nat) : t.first (k + 1) = t.first k ++ [t.dirEntry k] := by
  rw [DirTEntries.first, DirTEntries.first, List.range_succ, List.map_append, List.map_singleton]

theorem first_set {t t' : DirTEntries} {i : Nat} {e : DirEntry} (h : t.set i e = some t') :
    t'.size = t.size ∧ t'.first (i + 1) = t.first i ++ [e] := by
  obtain ⟨-, ht'⟩ := Option.ite_none_right_eq_some.mp h
  obtain rfl := Option.some.inj ht'
  refine ⟨rfl, ?_⟩
  rw [first_succ]
  congr 1
  · refine List.map_congr_left fun j hj => Function.update_of_ne ?_ _ _
    exact Nat.ne_of_lt (List.mem_range.mp hj)
  · exact congrArg (fun e => [e]) (Function.update_self ..)

/-- As long as there are places, the entries are put behind each other. -/
theorem readdirLoop_eq {ids : List Nat} {es : List DirEntry} {i : Nat} {t : DirTEntries}
    (hplaces : i + ids.length ≤ 98) (hes : dirEntries s ids = some es) :
    ∃ t', readdirLoop s ids i t = some t' ∧ t'.size = t.size ∧
      t'.first (i + 2 + ids.length) = t.first (i + 2) ++ es := by
  induction ids generalizing es i t with
  | nil =>
      obtain rfl := Option.some.inj hes
      exact ⟨t, rfl, rfl, (List.append_nil _).symm⟩
  | cons id ids ih =>
      rw [List.length_cons] at hplaces ⊢
      obtain ⟨e, he, hrest⟩ := Option.bind_eq_some_iff.mp hes
      obtain ⟨es', hes', rfl⟩ := Option.map_eq_some_iff.mp hrest
      obtain ⟨t₁, ht₁⟩ : ∃ t₁, t.set (i + 2) e = some t₁ := by
        rw [DirTEntries.set, if_pos (by unfold dirEntryPlaces; omega)]
        exact ⟨_, rfl⟩
      obtain ⟨hsize, hfirst⟩ := first_set ht₁
      obtain ⟨t', ht', hsize', hfirst'⟩ := ih (i := i + 1) (t := t₁) (by omega) hes'
      refine ⟨t', ?_, hsize'.trans hsize, ?_⟩
      · rw [readdirLoop, he, Option.bind_some, ht₁, Option.bind_some, ht']
      · rw [show i + 2 + (ids.length + 1) = i + 1 + 2 + ids.length by omega, hfirst',
          show i + 1 + 2 = i + 2 + 1 by omega, hfirst, List.append_assoc, List.singleton_append]

theorem readdirLoop_none {ids : List Nat} {i : Nat} {t : DirTEntries}
    (h : dirEntries s ids = none ∨ i ≤ 98 ∧ 98 < i + ids.length) :
    readdirLoop s ids i t = none := by
  induction ids generalizing i t with
  | nil =>
      rcases h with h | ⟨hle, hlt⟩
      · cases h
      · exact absurd hlt (Nat.not_lt.mpr hle)
  | cons id ids ih =>
      rw [readdirLoop]
      rw [dirEntries, List.length_cons] at h
      cases he : dirEntry s id with
      | none => rfl
      | some e =>
          rw [he, Option.bind_some, Option.map_eq_none_iff] at h
          rw [Option.bind_some, DirTEntries.set]
          split_ifs with hplace
          · refine ih (h.imp_right fun hlarge => ?_)
            unfold dirEntryPlaces at hplace
            omega
          · rfl

theorem start_size (n : Nat) : (DirTEntries.start n).size = int8 (n + 2) := by
  rw [DirTEntries.start]

theorem start_first (n : Nat) : (DirTEntries.start n).first 2 = dotEntries := rfl

theorem int8_size {n : Nat} (h : n ≤ 98) : (int8 (n + 2)).toNat = n + 2 := by
  unfold int8
  rw [Int.bmod_eq_of_le (by omega) (by omega)]
  omega

/-- A directory of more entries than there are places overruns the array. -/
theorem readdirInto_large (htype : Directory.type (directoryBlock s d) = asvfsBlockTypeDirectory)
    (hlarge : 98 < Directory.nextIndex (directoryBlock s d)) : readdirInto s d = none := by
  rw [readdirInto, if_neg (not_not.mpr htype)]
  refine readdirLoop_none (.inr ⟨Nat.zero_le _, ?_⟩)
  rwa [Nat.zero_add, length_entries]

theorem readdirInto_small (htype : Directory.type (directoryBlock s d) = asvfsBlockTypeDirectory)
    (hsmall : Directory.nextIndex (directoryBlock s d) ≤ 98) {es : List DirEntry}
    (hes : dirEntries s (Directory.entries (directoryBlock s d)) = some es) :
    ∃ t, readdirInto s d = some t ∧
      t.size.toNat = Directory.nextIndex (directoryBlock s d) + 2 ∧ t.list = dotEntries ++ es := by
  have hlen := length_entries (directoryBlock s d)
  obtain ⟨t, ht, hsize, hfirst⟩ := readdirLoop_eq (i := 0)
    (t := .start (Directory.nextIndex (directoryBlock s d))) (by omega) hes
  have htotal : t.size.toNat = Directory.nextIndex (directoryBlock s d) + 2 := by
    rw [hsize, start_size, int8_size hsmall]
  refine ⟨t, ?_, htotal, ?_⟩
  · rw [readdirInto, if_neg (not_not.mpr htype)]
    exact ht
  · rw [hlen, start_first] at hfirst
    rw [DirTEntries.list, htotal, ← hfirst, Nat.zero_add, Nat.add_comm]

/-- The entries that the lookups go over are those of the array. -/
theorem readdir_eq (s : Volume) (d : Nat) :
    asvfsReaddir s d = (readdirInto s d).map DirTEntries.list := by
  unfold asvfsReaddir
  dsimp only
  split_ifs with htype hlarge
  · rw [readdirInto, if_pos htype]
    rfl
  · rw [readdirInto_large (not_not.mp htype) hlarge, Option.map_none]
  · cases hes : dirEntries s (Directory.entries (directoryBlock s d)) with
    | none =>
        rw [readdirInto, if_neg htype, readdirLoop_none (.inl hes)]
        rfl
    | some es =>
        obtain ⟨t, ht, -, hlist⟩ :=
          readdirInto_small (not_not.mp htype) (Nat.le_of_not_lt hlarge) hes
        rw [ht, Option.map_some, Option.map_some, hlist]
        rfl

/-! ## The list and the cursor -/

/-- What `kmalloc` promises: other nodes every time, that are not in use. -/
structure Allocates (heap : Nodes VfsDirent) (alloc : Nat → Nat) : Prop where
  different : Function.Injective alloc
  fresh : ∀ i, alloc i ≠ 0 ∧ heap (alloc i) = none

theorem append_untouched {D : Type} {l l' : Avs.State D} {x : D} {a b : Nat}
    (h : avsListAppend l x a = some l') (hb : b ≠ a) (hnone : l.nodes b = none) :
    l'.nodes b = none := by
  have hallocate : ∀ n, Avs.allocate l.nodes a n b = none := fun n => by
    rw [Avs.allocate_of_ne hb, hnone]
  unfold avsListAppend Avs.avsListInsertAfter at h
  rw [if_pos (.inl rfl)] at h
  split_ifs at h
  · obtain rfl := Option.some.inj h
    exact hallocate _
  · obtain ⟨m, hm, h⟩ := Option.bind_eq_some_iff.mp h
    obtain ⟨m', hm', h⟩ := Option.bind_eq_some_iff.mp h
    obtain rfl := Option.some.inj h
    obtain ⟨n, hn, rfl⟩ := Option.map_eq_some_iff.mp hm
    obtain ⟨n', hn', rfl⟩ := Option.map_eq_some_iff.mp hm'
    have hkept : Function.update (Avs.allocate l.nodes a ⟨x, 0, 0⟩) l.list.tail
        (some { n with next := a }) b = none := by
      rw [Function.update_of_ne, hallocate]
      rintro rfl
      rw [hallocate] at hn
      cases hn
    exact (Function.update_of_ne hb _ _).trans hkept

theorem appendLoop_rep {heap : Nodes VfsDirent} {alloc : Nat → Nat} (h : Allocates heap alloc)
    (ents : DirTEntries) (k : Nat) : ∃ l, appendLoop ents alloc heap k = some l ∧
      Rep l ((List.range k).map fun i => (alloc i, direntOf (ents.dirEntry i))) ∧
      ∀ i, k ≤ i → l.nodes (alloc i) = none := by
  induction k with
  | zero => exact ⟨avsListInit heap, rfl, Avs.init_rep heap, fun i _ => (h.fresh i).2⟩
  | succ k ih =>
      obtain ⟨l, hl, hrep, hfree⟩ := ih
      obtain ⟨l', hl', hrep'⟩ := Avs.append_spec hrep
        (a := alloc k) ⟨(h.fresh k).1, hfree k (Nat.le_refl k)⟩ (direntOf (ents.dirEntry k))
      refine ⟨l', ?_, ?_, fun i hi => ?_⟩
      · unfold appendLoop at hl ⊢
        rw [List.range_succ, List.foldlM_append, hl]
        simp [hl']
      · rw [List.range_succ, List.map_append, List.map_singleton]
        exact hrep'
      · have hne : alloc i ≠ alloc k := fun heq => absurd (h.different heq) (by omega)
        exact append_untouched hl' hne (hfree i (by omega))

theorem readdir_step {dirp : VfsDir} {cs : List (Cell VfsDirent)} (h : Rep dirp.dirList cs) :
    vfsReaddir dirp = some (match cs[dirp.next]? with
      | none => (dirp, none)
      | some c => ({ dirp with next := (dirp.next + 1) % 2 ^ 16 }, some c.2)) := by
  have hat : Avs.seqAt cs dirp.next = cs[dirp.next]? := by
    rw [Avs.seqAt, if_neg (by omega), Int.toNat_natCast]
  rw [vfsReaddir, Avs.atIndexNode_spec h, hat]
  cases hc : cs[dirp.next]? with
  | none => rfl
  | some c =>
      have hmem := List.mem_of_getElem? hc
      obtain ⟨l, r, rfl⟩ := List.append_of_mem hmem
      have hnull : Avs.addr (some c) ≠ 0 := h.chain.nonnull c hmem
      simp only [Option.bind_eq_bind, Option.bind_some, if_neg hnull]
      rw [show Avs.addr (some c) = c.1 from rfl, h.chain.seg.node]
      rfl

/-- Read to its end, the directory gives what is left from the cursor on. -/
theorem readUntilNull_eq {dirp : VfsDir} {cs : List (Cell VfsDirent)} {fuel : Nat}
    (h : Rep dirp.dirList cs) (hcursor : cs.length < 2 ^ 16) (hnext : dirp.next ≤ cs.length)
    (hfuel : cs.length < dirp.next + fuel) :
    readUntilNull fuel dirp = some ((cs.drop dirp.next).map Prod.snd) := by
  induction fuel generalizing dirp with
  | zero => omega
  | succ fuel ih =>
      rw [readUntilNull, readdir_step h, Option.bind_some]
      by_cases hlt : dirp.next < cs.length
      · rw [List.getElem?_eq_getElem hlt, List.drop_eq_getElem_cons hlt]
        have hmod : (dirp.next + 1) % 2 ^ 16 = dirp.next + 1 := Nat.mod_eq_of_lt (by omega)
        have hrest : readUntilNull fuel { dirp with next := dirp.next + 1 } =
            some ((cs.drop (dirp.next + 1)).map Prod.snd) :=
          ih h (by dsimp only; omega) (by dsimp only; omega)
        dsimp only
        rw [hmod, hrest]
        rfl
      · rw [List.getElem?_eq_none (Nat.le_of_not_lt hlt), List.drop_of_length_le
          (Nat.le_of_not_lt hlt)]
        rfl

/-- An opened directory gives the entries of the array, one after the other. -/
theorem opendir_reads {pathname : List UInt8} {heap : Nodes VfsDirent} {alloc : Nat → Nat}
    {t : DirTEntries} (hpath : asvfsGetBlockIdFromPathname s pathname = some d) (hd : d ≠ 0)
    (halloc : Allocates heap alloc) (ht : readdirInto s d = some t) (hsize : t.size.toNat ≤ 100) :
    ∃ dirp, vfsOpendir s pathname heap alloc = some (some dirp) ∧
      ∀ fuel, t.size.toNat < fuel → readUntilNull fuel dirp = some (t.list.map direntOf) := by
  obtain ⟨l, hl, hrep, -⟩ := appendLoop_rep halloc t t.size.toNat
  refine ⟨⟨(t.size % 2 ^ 16).toNat, 0, l⟩, ?_, fun fuel hfuel => ?_⟩
  · have hattr : asvfsGetattr s pathname = some 0 := by
      rw [asvfsGetattr, hpath, Option.map_some, if_neg hd]
      rfl
    simp only [vfsOpendir, hattr, asvfsGetDirListGlue, hpath, ht, hl, Option.bind_eq_bind,
      Option.bind_some, ne_eq, not_true_eq_false, if_false]
  · rw [readUntilNull_eq hrep (by rw [List.length_map, List.length_range]; omega)
      (Nat.zero_le _) (by rw [List.length_map, List.length_range]; omega)]
    rw [List.drop_zero, DirTEntries.list, DirTEntries.first, List.map_map, List.map_map]
    rfl

/-! ## Complete listings -/

/-- The name and the id in the record of an entry. -/
def recordName (s : Volume) (e : Nat) : Option (List UInt8) := Meta.name (asvfsGetMetaData s e)

def recordId (s : Volume) (e : Nat) : Nat := Meta.id (asvfsGetMetaData s e)

/-- Names tell the entries of the directory apart, from each other and from
`.` and `..` (which have id 0). -/
def NamesTell (s : Volume) (d : Nat) : Prop :=
  ∀ e ∈ Directory.entries (directoryBlock s d),
    (∀ e' ∈ Directory.entries (directoryBlock s d), recordName s e = recordName s e' →
      recordId s e = recordId s e') ∧
    (recordName s e = some dot ∨ recordName s e = some dotDot → recordId s e = 0)

instance (s : Volume) (d : Nat) : Decidable (NamesTell s d) :=
  inferInstanceAs (Decidable (∀ e ∈ _, _ ∧ _))

/-- The directory is listed completely: `asvfs_readdir` stays inside of its
result and reports `.`, `..` and the entries in order, every entry is found by
its name, and an opened directory gives all of them, once each. -/
structure ListsCompletely (s : Volume) (d : Nat) : Prop where
  readdir : ∃ t es, readdirInto s d = some t ∧
    dirEntries s (Directory.entries (directoryBlock s d)) = some es ∧ t.list = dotEntries ++ es
  lookup : ∀ e ∈ Directory.entries (directoryBlock s d), ∀ name, recordName s e = some name →
    asvfsGetBlockMetaFromDir s d name = some (recordId s e)
  opendir : ∀ {pathname heap alloc}, asvfsGetBlockIdFromPathname s pathname = some d → d ≠ 0 →
    Allocates heap alloc → ∃ dirp es, vfsOpendir s pathname heap alloc = some (some dirp) ∧
      dirEntries s (Directory.entries (directoryBlock s d)) = some es ∧
      ∀ fuel, es.length + 2 < fuel →
        readUntilNull fuel dirp = some ((dotEntries ++ es).map direntOf)

/-- The first entry of a name decides what is found under it. -/
theorem find_dirEntries {ids : List Nat} {es : List DirEntry} (hes : dirEntries s ids = some es)
    {c : List UInt8} {r : Nat} (hnames : ∀ e ∈ ids, (recordName s e).isSome)
    (hid : ∀ e ∈ ids, recordName s e = some c → recordId s e = r)
    (hmem : ∃ e ∈ ids, recordName s e = some c) :
    (es.find? fun e => e.name = c).map DirEntry.blockId = some r := by
  induction ids generalizing es with
  | nil => simp at hmem
  | cons e ids ih =>
      obtain ⟨x, hx, hrest⟩ := Option.bind_eq_some_iff.mp hes
      obtain ⟨es', hes', rfl⟩ := Option.map_eq_some_iff.mp hrest
      obtain ⟨hsome, hnames⟩ := List.forall_mem_cons.mp hnames
      obtain ⟨name, hname⟩ := Option.isSome_iff_exists.mp hsome
      obtain rfl := Option.some.inj (hx.symm.trans (dirEntry_of_name hname))
      obtain ⟨hself, hothers⟩ := List.forall_mem_cons.mp hid
      by_cases hc : name = c
      · subst hc
        rw [List.find?_cons_of_pos (by simp), Option.map_some]
        exact congrArg some (hself hname)
      · rw [List.find?_cons_of_neg (by simpa using hc)]
        refine ih hes' hnames hothers ?_
        obtain ⟨e', he', hc'⟩ := hmem
        rcases List.mem_cons.mp he' with rfl | hin
        · exact absurd (Option.some.inj (hname.symm.trans hc')) hc
        · exact ⟨e', hin, hc'⟩

section Lists

variable {es : List DirEntry}

/-- What a directory that is not too large answers to a name. -/
theorem lookup_small (htype : Directory.type (directoryBlock s d) = asvfsBlockTypeDirectory)
    (hsmall : Directory.nextIndex (directoryBlock s d) ≤ 98)
    (hes : dirEntries s (Directory.entries (directoryBlock s d)) = some es) (c : List UInt8) :
    asvfsGetBlockMetaFromDir s d c = some
      ((((dotEntries ++ es).find? fun e => e.name = c).map DirEntry.blockId).getD 0) := by
  obtain ⟨t, ht, -, hlist⟩ := readdirInto_small htype hsmall hes
  rw [asvfsGetBlockMetaFromDir, readdir_eq, ht, Option.map_some, Option.map_some, hlist]

theorem lookup_dots (htype : Directory.type (directoryBlock s d) = asvfsBlockTypeDirectory)
    (hsmall : Directory.nextIndex (directoryBlock s d) ≤ 98)
    (hes : dirEntries s (Directory.entries (directoryBlock s d)) = some es) {c : List UInt8}
    (hc : c = dot ∨ c = dotDot) : asvfsGetBlockMetaFromDir s d c = some 0 := by
  rw [lookup_small htype hsmall hes]
  rcases hc with rfl | rfl <;> rfl

theorem find_behind_dots {c : List UInt8} (hdot : c ≠ dot) (hdotDot : c ≠ dotDot) :
    (dotEntries ++ es).find? (fun e => e.name = c) = es.find? fun e => e.name = c := by
  have hskip : dotEntries.find? (fun e => e.name = c) = none := by
    rw [List.find?_eq_none]
    intro e he
    simp only [dotEntries, List.mem_cons, List.not_mem_nil, or_false] at he
    rcases he with rfl | rfl
    · simpa using Ne.symm hdot
    · simpa using Ne.symm hdotDot
  rw [List.find?_append, hskip, Option.none_or]

/-- **Listings.** A directory is listed completely if and only if it has at
most 98 entries and names tell them apart. The array that `asvfs_readdir` fills
has 100 places, two of which are for `.` and `..`; with two entries of one
name, the lookup of a name cannot lead to both. -/
theorem lists_iff (htype : Directory.type (directoryBlock s d) = asvfsBlockTypeDirectory)
    (hindex : Directory.nextIndex (directoryBlock s d) ≤ 256)
    (hnames : ∀ e ∈ Directory.entries (directoryBlock s d), (recordName s e).isSome) :
    ListsCompletely s d ↔ Directory.nextIndex (directoryBlock s d) ≤ 98 ∧ NamesTell s d := by
  obtain ⟨es, hes⟩ := dirEntries_returns hnames
  constructor
  · intro h
    have hsmall : Directory.nextIndex (directoryBlock s d) ≤ 98 := by
      by_contra hlarge
      obtain ⟨t, -, ht, -⟩ := h.readdir
      rw [readdirInto_large htype (Nat.lt_of_not_le hlarge)] at ht
      cases ht
    refine ⟨hsmall, fun e he => ?_⟩
    obtain ⟨name, hname⟩ := Option.isSome_iff_exists.mp (hnames e he)
    have hfound := h.lookup e he name hname
    refine ⟨fun e' he' hsame => ?_, fun hdots => ?_⟩
    · have hfound' := h.lookup e' he' name (hsame ▸ hname)
      exact Option.some.inj (hfound.symm.trans hfound')
    · rw [hname, Option.some.injEq, Option.some.injEq] at hdots
      exact Option.some.inj (hfound.symm.trans (lookup_dots htype hsmall hes hdots))
  · rintro ⟨hsmall, htell⟩
    obtain ⟨t, ht, hsize, hlist⟩ := readdirInto_small htype hsmall hes
    refine ⟨⟨t, es, ht, hes, hlist⟩, fun e he name hname => ?_, fun hpath hd halloc => ?_⟩
    · obtain ⟨hsame, hdots⟩ := htell e he
      by_cases hdot : name = dot ∨ name = dotDot
      · rw [lookup_dots htype hsmall hes hdot, hdots (by simpa only [hname, Option.some.injEq])]
      · rw [not_or] at hdot
        have hfind := find_dirEntries hes (c := name) (r := recordId s e) hnames
          (fun e' he' hname' => (hsame e' he' (hname.trans hname'.symm)).symm) ⟨e, he, hname⟩
        rw [lookup_small htype hsmall hes, find_behind_dots hdot.1 hdot.2, hfind, Option.getD_some]
    · obtain ⟨dirp, hopen, hread⟩ := opendir_reads hpath hd halloc ht (by omega)
      refine ⟨dirp, es, hopen, hes, fun fuel hfuel => ?_⟩
      rw [hread fuel ?_, hlist]
      have hlen := congrArg List.length hlist
      rw [DirTEntries.list, DirTEntries.first, List.length_map, List.length_range,
        List.length_append] at hlen
      have hdots : dotEntries.length = 2 := rfl
      omega

end Lists

theorem lists_iff_small : Directory.nextIndex (directoryBlock smallDrive 1) = 1 ∧
    (ListsCompletely smallDrive 1 ↔ Directory.nextIndex (directoryBlock smallDrive 1) ≤ 98 ∧
      NamesTell smallDrive 1) :=
  ⟨by decide +kernel, lists_iff (by decide +kernel) (by decide +kernel) (by decide +kernel)⟩

/-! ## A directory of 99 files

The root is block 3; it lists the blocks 4 to 102. The name of a file is one
byte. -/

/-- The byte `o` of the record of block `b`. -/
def wideRecord (b o : Nat) : UInt8 :=
  if o = 0 then UInt8.ofNat b
  else if o = 4 then (if b = 3 then 2 else 1)
  else if o = 5 then UInt8.ofNat (100 + b)
  else 0

/-- The byte `o` of the directory block. -/
def wideBlock (o : Nat) : UInt8 :=
  if o = 0 then 2
  else if o = 1028 then 99
  else if o % 4 = 0 ∧ o < 400 then UInt8.ofNat (4 + (o - 4) / 4)
  else 0

def wideDrive : Volume where
  header := bytesOf [(14, 16), (17, 104), (21, 3), (25, 103)]
  disk x :=
    if x < 61 then 0
    else if x < 12288 then wideRecord ((x - 61) / 96) ((x - 61) % 96)
    else if x < 16384 then wideBlock (x - 12288)
    else 0

theorem wide_record : ∀ e ∈ Directory.entries (directoryBlock wideDrive 3), e ≤ 102 ∧
    recordName wideDrive e = some [UInt8.ofNat (100 + e)] := by
  decide +kernel

theorem wide_names : NamesTell wideDrive 3 := by
  intro e he
  obtain ⟨hle, hname⟩ := wide_record e he
  refine ⟨fun e' he' hsame => ?_, fun hdots => ?_⟩
  · obtain ⟨hle', hname'⟩ := wide_record e' he'
    rw [hname, hname', Option.some.injEq, List.cons.injEq] at hsame
    have hnat := congrArg UInt8.toNat hsame.1
    simp only [UInt8.toNat_ofNat'] at hnat
    rw [show e = e' by omega]
  · simp only [hname, dot, dotDot, Option.some.injEq, List.cons.injEq, and_true, reduceCtorEq,
      and_false, or_false] at hdots
    have hnat := congrArg UInt8.toNat hdots
    simp only [UInt8.toNat_ofNat'] at hnat
    have hdot : (46 : UInt8).toNat = 46 := rfl
    omega

/-- `asvfs_readdir` writes a 101st entry. -/
theorem wide_directory_overruns :
    Directory.type (directoryBlock wideDrive 3) = asvfsBlockTypeDirectory ∧
    Directory.nextIndex (directoryBlock wideDrive 3) = 99 ∧ NamesTell wideDrive 3 ∧
    (∀ e ∈ Directory.entries (directoryBlock wideDrive 3), (recordName wideDrive e).isSome) ∧
    readdirInto wideDrive 3 = none ∧ ¬ ListsCompletely wideDrive 3 := by
  have htype : Directory.type (directoryBlock wideDrive 3) = asvfsBlockTypeDirectory := by
    decide +kernel
  have hcount : Directory.nextIndex (directoryBlock wideDrive 3) = 99 := by decide +kernel
  have hoverrun : readdirInto wideDrive 3 = none := readdirInto_large htype (by omega)
  refine ⟨htype, hcount, wide_names, fun e he => ?_, hoverrun, fun h => ?_⟩
  · rw [(wide_record e he).2, Option.isSome_some]
  · obtain ⟨t, -, ht, -⟩ := h.readdir
    rw [hoverrun] at ht
    cases ht

end VersionSix.Asvfs
