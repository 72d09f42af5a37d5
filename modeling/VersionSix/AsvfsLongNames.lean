import VersionSix.AsvfsCreate
import VersionSix.AsvfsUnlink

/-!
# ASVFS: long names

The path splitter takes names of up to 255 characters, a record has 50 bytes
for one, and so has a directory entry in memory. `asvfs_mknod`, `asvfs_mkdir`
and `asvfs_rename` copy the name into the record with `strcpy`, so a longer one
runs on into `file_size` and what follows. `asvfs_readdir` copies it out again
with `strcpy`, over the same bytes and then over `type` and `block_id` of the
entry.

A name that does not end in its 50 bytes is harmless only if the bytes it runs
over in the record hold the rest of it already, its NUL included, and the id in
the entry does not cut it off (`RoomFor`): the NUL of a name of 50 characters is
the low byte of `file_size`. `names_safe_iff` says that a call is safe if it is
rejected, or if there is room for the name and the entry is the first of that
name.
-/

namespace VersionSix.Asvfs

open ByteStore DirTree PathText
open PathTree (resolve)

variable {s s' : Volume} {n : Nat}

/-! ## Paths the splitter takes -/

/-- The names of a canonical path that fit the buffers of the splitter. -/
structure SplitNames (cs : List (List UInt8)) : Prop where
  names : Names slash cs
  each : ∀ c ∈ cs, CString c ∧ c.length ≤ 255 ∧ c ≠ dot ∧ c ≠ dotDot

theorem SplitNames.parent {ps : List (List UInt8)} {c : List UInt8} (h : SplitNames (ps ++ [c])) :
    SplitNames ps :=
  ⟨h.names.parent, fun d hd => h.each d (List.mem_append_left _ hd)⟩

theorem SplitNames.last {ps : List (List UInt8)} {c : List UInt8} (h : SplitNames (ps ++ [c])) :
    c ≠ [] ∧ CString c ∧ c ≠ dot ∧ c ≠ dotDot := by
  obtain ⟨hne, -⟩ := h.names c (by simp)
  obtain ⟨hnul, -, hdots⟩ := h.each c (by simp)
  exact ⟨hne, hnul, hdots⟩

theorem SplitNames.cstring {cs : List (List UInt8)} (h : SplitNames cs) :
    CString (render slash cs) := cstring_render fun c hc => (h.each c hc).1

theorem SplitNames.parts {ps : List (List UInt8)} {c : List UInt8} (h : SplitNames (ps ++ [c]))
    (hlen : (render slash ps).length < 1024) :
    asvfsGetPathParts (render slash (ps ++ [c])) = some (render slash ps, c) := by
  rw [pathParts_render h.names fun d hd => ⟨(h.each d hd).1, (h.each d hd).2.1⟩, if_pos hlen]

theorem SplitNames.lookup {cs : List (List UInt8)} (h : SplitNames cs) (hs : WellFormed n s)
    (hcap : Capacity 98 s) :
    blockAt s cs = some ((resolve (view s).look (view s).root cs).getD 0) := by
  have hwords := words_render h.names
  rw [blockAt, pathname_eq h.cstring (by rw [hwords]; exact fun c hc => (h.each c hc).2.1) ?_,
    blockOf, hwords]
  intro ws w d _ hd
  have hreach := under_of_resolve hd
  exact hs.readable hreach fun ids => hcap d ids hreach

theorem SplitNames.resolves {cs : List (List UInt8)} (h : SplitNames cs) (hs : WellFormed n s)
    {b : Nat} (hb : blockAt s cs = some b) (hb0 : b ≠ 0) :
    resolve (view s).look (view s).root cs = some b := by
  have hres := hs.pathname_resolves h.cstring hb hb0
  rwa [words_render h.names] at hres

/-- A canonical path: names other than `.` and `..`, of any length. -/
structure PlainPath (cs : List (List UInt8)) : Prop where
  names : Names slash cs
  each : ∀ c ∈ cs, CString c ∧ c ≠ dot ∧ c ≠ dotDot

/-- The names fit `name`, and the path of the parent fits `parent_dir`. -/
def Fits (ps : List (List UInt8)) (c : List UInt8) : Prop :=
  (∀ d ∈ ps ++ [c], d.length ≤ 255) ∧ (render slash ps).length < 1024

theorem PlainPath.split {cs : List (List UInt8)} (h : PlainPath cs)
    (hfits : ∀ d ∈ cs, d.length ≤ 255) : SplitNames cs where
  names := h.names
  each c hc := ⟨(h.each c hc).1, hfits c hc, (h.each c hc).2⟩

theorem PlainPath.parts_isSome {ps : List (List UInt8)} {c : List UInt8}
    (h : PlainPath (ps ++ [c])) :
    (asvfsGetPathParts (render slash (ps ++ [c]))).isSome ↔ Fits ps c := by
  constructor
  · intro hsome
    obtain ⟨r, hr⟩ := Option.isSome_iff_exists.mp hsome
    have hshort : ∀ d ∈ ps ++ [c], d.length ≤ 255 := by
      have hwords := pathParts_short (cstring_render fun d hd => (h.each d hd).1) hr
      rw [words_render h.names] at hwords
      exact fun d hd => Nat.le_of_lt_succ (hwords d hd)
    refine ⟨hshort, ?_⟩
    rw [pathParts_render h.names fun d hd => ⟨(h.each d hd).1, hshort d hd⟩] at hr
    exact (Option.ite_none_right_eq_some.mp hr).1
  · rintro ⟨hshort, hlen⟩
    rw [(h.split hshort).parts hlen]
    rfl

theorem PlainPath.parts_none {ps : List (List UInt8)} {c : List UInt8}
    (h : PlainPath (ps ++ [c])) (hfits : ¬ Fits ps c) :
    asvfsGetPathParts (render slash (ps ++ [c])) = none := by
  rw [← Option.not_isSome_iff_eq_none, h.parts_isSome]
  exact hfits

/-! ## Safe calls -/

/-- The record of `f` is what it should be: behind the name it is `base`, and
the name is found in the directory `d`. -/
structure StoredSafely (base : Bytes) (s' : Volume) (d f : Nat) (c : List UInt8) : Prop where
  kept : ∀ i, 55 ≤ i → i < metaSize → asvfsGetMetaData s' f i = base i
  found : asvfsGetBlockMetaFromDir s' d c = some (Meta.id (asvfsGetMetaData s' f))

/-- A call is rejected and leaves the drive alone, or it stores the name safely. -/
def Safe (s : Volume) (call : Option (Volume × Int)) (base : Bytes) (d f : Nat)
    (c : List UInt8) : Prop :=
  ∃ s' r, call = some (s', r) ∧ ((r ≠ 0 ∧ s' = s) ∨ (r = 0 ∧ StoredSafely base s' d f c))

/-- The record of a new block with the fields that a creation sets behind the
name. -/
def newBase (m : Bytes) (mode : Int) : Bytes :=
  Meta.setPermissions (Meta.setInUse m 1) (mode % 2 ^ 16).toNat

theorem Safe.rejected {call : Option (Volume × Int)} {base : Bytes} {d f : Nat} {c : List UInt8}
    {r : Int} (h : call = some (s, r)) (hr : r ≠ 0) : Safe s call base d f c :=
  ⟨s, r, h, .inl ⟨hr, rfl⟩⟩

/-! ## The name in the record and in the entry -/

/-- There is room for the name `c` in the record `m` of block `f`: behind the 50
bytes the record holds the rest of the name and its NUL, and the entry of the
block shows all of it. -/
structure RoomFor (m : Bytes) (f : Nat) (c : List UInt8) : Prop where
  record : ∀ i, asvfsMaxNameSize ≤ i → i ≤ c.length → m (5 + i) = c.getD i 0
  entry : entryName c f = c

theorem roomFor_of_short {m : Bytes} {f : Nat} {c : List UInt8}
    (h : c.length < asvfsMaxNameSize) : RoomFor m f c where
  record i hi hlen := absurd hi (by omega)
  entry := if_pos (Nat.le_succ_of_le h.le)

/-- The NUL of a name of 50 characters is the low byte of `file_size`. -/
theorem roomFor_fifty {m : Bytes} {f : Nat} {c : List UInt8}
    (h : c.length = asvfsMaxNameSize) : RoomFor m f c ↔ Meta.fileSize m % 256 = 0 := by
  have hlow : Meta.fileSize m % 256 = (m 55).toNat := by
    have hbyte := (m 55).toNat_lt
    simp only [Meta.fileSize, le]
    omega
  have hrest : c.getD asvfsMaxNameSize 0 = 0 := by
    rw [List.getD_eq_getElem?_getD, List.getElem?_eq_none h.le, Option.getD_none]
  rw [hlow, ← UInt8.toNat_zero, UInt8.toNat_inj]
  refine ⟨fun hroom => (hroom.record _ le_rfl h.ge).trans hrest, fun hzero => ⟨?_, ?_⟩⟩
  · intro i hi hlen
    obtain rfl : i = asvfsMaxNameSize := by omega
    exact hzero.trans hrest.symm
  · exact if_pos (by omega)

theorem length_entryName_le {run c : List UInt8} {f : Nat} (h : entryName run f = c) :
    c.length ≤ 56 := by
  rw [← h]
  unfold entryName asvfsMaxNameSize
  split_ifs
  · omega
  · have hid := (List.takeWhile_sublist (· ≠ (0 : UInt8))
      (l := (List.range 4).map fun i => UInt8.ofNat (f / 256 ^ i))).length_le
    rw [List.length_map, List.length_range] at hid
    rw [List.length_append, List.length_take]
    omega

/-- The name that the entry of a record shows. -/
def shownName (m : Bytes) (f : Nat) : Option (List UInt8) :=
  (Meta.nameString m).map (entryName · f)

/-- An entry shows the name that was stored if its id does not cut it off. -/
theorem shownName_iff {m : Bytes} {f : Nat} {c : List UInt8}
    (h : c.length ≤ 56 → Meta.nameString m = some c) :
    shownName m f = some c ↔ entryName c f = c := by
  constructor
  · intro hshown
    obtain ⟨run, hrun, hname⟩ := Option.map_eq_some_iff.mp hshown
    obtain rfl := Option.some.inj (hrun.symm.trans (h (length_entryName_le hname)))
    exact hname
  · intro hname
    rw [shownName, h (length_entryName_le hname), Option.map_some, hname]

theorem nameString_putStr {m : Bytes} {c : List UInt8} (hc : CString c) (hlen : c.length ≤ 56) :
    Meta.nameString (putStr m 5 c) = some c :=
  cstr_putStr (fun _ hch h0 => hc (h0 ▸ hch)) (by unfold metaSize; omega)

theorem nameString_read (m : Bytes) : Meta.nameString (read m 0 metaSize) = Meta.nameString m :=
  cstr_read (by decide)

/-- The copy of the name leaves alone what is behind the field if it finds the
rest of the name there. -/
theorem putStr_kept_iff {m : Bytes} {c : List UInt8} :
    (∀ i, 55 ≤ i → putStr m 5 c i = m i) ↔
      ∀ i, asvfsMaxNameSize ≤ i → i ≤ c.length → m (5 + i) = c.getD i 0 := by
  have hbyte : ∀ i ≤ c.length, putStr m 5 c (5 + i) = c.getD i 0 := by
    intro i hi
    unfold putStr
    rcases Nat.lt_or_eq_of_le hi with hlt | rfl
    · rw [if_pos (by omega), Nat.add_sub_cancel_left]
    · rw [if_neg (by omega), if_pos rfl, List.getD_eq_getElem?_getD, List.getElem?_eq_none le_rfl,
        Option.getD_none]
  constructor
  · intro hkept i hi hlen
    rw [← hbyte i hlen, hkept (5 + i) (by unfold asvfsMaxNameSize at hi; omega)]
  · intro hrest i hi
    obtain ⟨j, rfl⟩ := Nat.exists_eq_add_of_le (show 5 ≤ i by omega)
    by_cases hj : j ≤ c.length
    · rw [hbyte j hj, hrest j (by unfold asvfsMaxNameSize; omega) hj]
    · exact putStr_out (.inr (by omega))

section NewMeta

variable {m m' : Bytes} {c : List UInt8} {blockType : Nat} {mode : Int}

theorem nameString_newMeta (h : newMeta m c blockType mode = some m') (hc : CString c)
    (hlen : c.length ≤ 56) : Meta.nameString m' = some c := by
  have hfront : cstr 57 m' 5 = some c := by
    rw [newMeta_eq h]
    unfold Meta.setPermissions Meta.setBlockType
    rw [cstr_setLe (by decide), cstr_setLe (by decide)]
    exact cstr_putStr (fun _ hch h0 => hc (h0 ▸ hch)) (by omega)
  exact cstr_of_length hfront (by unfold metaSize; omega)

/-- What a creation keeps behind the name, for names that end in front of
`in_use`. -/
theorem newMeta_kept_iff (h : newMeta m c blockType mode = some m') (hlen : c.length ≤ 56) :
    (∀ i, 55 ≤ i → i < metaSize → m' i = newBase m mode i) ↔
      ∀ i, asvfsMaxNameSize ≤ i → i ≤ c.length → m (5 + i) = c.getD i 0 := by
  have hfar : ∀ i, 62 ≤ i → putStr (Meta.setInUse m 1) 5 c i = Meta.setInUse m 1 i :=
    fun i hi => putStr_out (.inr (by omega))
  have hnew : ∀ i, 55 ≤ i → (m' i = newBase m mode i ↔
      putStr (Meta.setInUse m 1) 5 c i = Meta.setInUse m 1 i) := by
    intro i hi
    rw [newMeta_eq h]
    unfold newBase Meta.setPermissions Meta.setBlockType
    by_cases hperm : i < 68
    · rw [setLe_out (.inl hperm), setLe_out (.inr (by omega)), setLe_out (.inl hperm)]
    · refine iff_of_true ?_ (hfar i (by omega))
      have hrest : setLe 1 (putStr (Meta.setInUse m 1) 5 c) 4 blockType i =
          Meta.setInUse m 1 i :=
        (setLe_out (.inr (by omega))).trans (hfar i (by omega))
      unfold setLe at hrest ⊢
      rw [hrest]
  have hrest : (∀ i, 55 ≤ i → i < metaSize → m' i = newBase m mode i) ↔
      ∀ i, 55 ≤ i → putStr (Meta.setInUse m 1) 5 c i = Meta.setInUse m 1 i := by
    refine ⟨fun hkept i hi => ?_, fun hkept i hi _ => (hnew i hi).mpr (hkept i hi)⟩
    by_cases hnear : i < 62
    · exact (hnew i hi).mp (hkept i hi (by unfold metaSize; omega))
    · exact hfar i (by omega)
  rw [hrest, putStr_kept_iff]
  refine forall₃_congr fun i _ hi => ?_
  unfold Meta.setInUse
  rw [setLe_out (.inl (by omega))]

end NewMeta

/-! ## What a lookup finds -/

theorem dirEntries_append (s : Volume) (l l' : List Nat) :
    dirEntries s (l ++ l') =
      (dirEntries s l).bind fun es => (dirEntries s l').map (es ++ ·) := by
  induction l with
  | nil => simp [dirEntries]
  | cons e l ih =>
      rw [List.cons_append, dirEntries, dirEntries, ih]
      cases dirEntry s e with
      | none => rfl
      | some x =>
          cases dirEntries s l with
          | none => rfl
          | some es => cases dirEntries s l' <;> rfl

/-- A block is found under a name if its entry shows it, as the first one. -/
theorem lookup_stored {d f : Nat} {c : List UInt8} {pre post : List Nat}
    (hids : (view s).listing d = some (pre ++ f :: post)) (hlen : (pre ++ f :: post).length ≤ 98)
    (hold : ∀ b ∈ pre ++ post, ProperEntry s b ∧ b ≠ f)
    (hid : Meta.id (asvfsGetMetaData s f) = f) (hf : f ≠ 0) (hdots : c ≠ dot ∧ c ≠ dotDot) :
    asvfsGetBlockMetaFromDir s d c = some f ↔
      shownName (asvfsGetMetaData s f) f = some c ∧ ∀ b ∈ pre, (view s).name b ≠ c := by
  have hpre := dirEntries_eq fun b hb => (hold b (List.mem_append_left _ hb)).1
  have hpost := dirEntries_eq fun b hb => (hold b (List.mem_append_right _ hb)).1
  rw [lookup_of_entries hids hlen hdots, dirEntries_append, hpre, Option.bind_some, dirEntries,
    dirEntry, hid, shownName, hpost]
  cases Meta.nameString (asvfsGetMetaData s f) with
  | none => simp
  | some run =>
      simp only [Option.map_some, Option.bind_some, Option.some.injEq, List.find?_append,
        Option.map_or, find_entryOf]
      cases hfirst : pre.find? fun b => (view s).name b = c with
      | some b =>
          have hmem := List.mem_of_find?_eq_some hfirst
          refine iff_of_false (fun heq => ?_) fun h => h.2 b hmem (by
            simpa using List.find?_some hfirst)
          rw [Option.some_or, Option.getD_some] at heq
          exact (hold b (List.mem_append_left _ hmem)).2 heq
      | none =>
          rw [List.find?_eq_none] at hfirst
          have hfree : ∀ b ∈ pre, (view s).name b ≠ c := fun b hb => by simpa using hfirst b hb
          rw [Option.none_or, and_iff_left hfree]
          by_cases hname : entryName run f = c
          · rw [List.find?_cons_of_pos (by simpa using hname)]
            exact iff_of_true rfl hname
          · rw [List.find?_cons_of_neg (by simpa using hname), find_entryOf]
            refine iff_of_false (fun heq => ?_) hname
            cases hlast : post.find? fun b => (view s).name b = c with
            | none =>
                rw [hlast, Option.getD_none] at heq
                exact hf heq.symm
            | some b =>
                rw [hlast, Option.getD_some] at heq
                exact (hold b (List.mem_append_right _ (List.mem_of_find?_eq_some hlast))).2 heq

/-! ## Creations -/

theorem addNode_run {path p c : List UInt8} {P blockType : Nat} {mode : Int}
    {newBlock : Option Bytes} (hparts : asvfsGetPathParts path = some (p, c))
    (hP : asvfsGetBlockIdFromPathname s p = some P) (hP0 : P ≠ 0)
    (hdir : Meta.blockType (asvfsGetMetaData s P) = asvfsBlockTypeDirectory) :
    asvfsAddNode s path mode blockType newBlock =
      (appendIndex (directoryBlock s P) (Header.nextFree s.header)).bind fun data =>
        (newMeta (asvfsGetMetaData s (Header.nextFree s.header)) c blockType mode).map fun m =>
          (writeNew { s with header := Header.setNextFree s.header (Header.nextFree s.header + 1) }
            P (Header.nextFree s.header) data newBlock m, asvfsErrorNone) := by
  simp only [asvfsAddNode, hparts, hP, Option.bind_eq_bind, Option.bind_some, if_neg hP0, hdir,
    ne_eq, not_true_eq_false, if_false]
  congr 1
  funext data
  exact Option.map_eq_bind.symm

theorem getMeta_writeNew {p f : Nat} {data m : Bytes} {newBlock : Option Bytes}
    (hf : metaOffset f < 2 ^ 32) :
    asvfsGetMetaData (writeNew s p f data newBlock m) f = read m 0 metaSize := by
  unfold writeNew
  dsimp only
  rw [getMeta_writeHeader, getMeta_writeMeta_same hf]

section Create

variable {ps : List (List UInt8)} {c : List UInt8} {P blockType : Nat} {mode : Int}
  {newBlock : Option Bytes}

/-- What a creation that succeeded left: the record, and the block at the end
of the listing. -/
theorem addNode_stored (hs : WellFormed n s) (hroom : Room n s) (hpath : SplitNames (ps ++ [c]))
    (hlen : (render slash ps).length < 1024) (hP : blockAt s ps = some P) (hP0 : P ≠ 0)
    (hdir : Meta.blockType (asvfsGetMetaData s P) = asvfsBlockTypeDirectory) {r : Int}
    (hr : asvfsAddNode s (render slash (ps ++ [c])) mode blockType newBlock = some (s', r)) :
    r = 0 ∧ Created n s s' P (Header.nextFree s.header) c newBlock ∧
      ∃ m, newMeta (asvfsGetMetaData s (Header.nextFree s.header)) c blockType mode = some m ∧
        asvfsGetMetaData s' (Header.nextFree s.header) = read m 0 metaSize := by
  have hreach : Reach (view s) P := under_of_resolve (hpath.parent.resolves hs hP hP0)
  have hplaced := hroom.placed hs
  rw [addNode_run (hpath.parts hlen) hP hP0 hdir] at hr
  obtain ⟨data, hdata, hr⟩ := Option.bind_eq_some_iff.mp hr
  obtain ⟨m, hm, hr⟩ := Option.map_eq_some_iff.mp hr
  obtain ⟨rfl, rfl⟩ := Prod.mk.inj hr
  exact ⟨rfl, writeNew_created hs.blockSize rfl hroom.below hplaced (hs.placed P hreach).2
      (Nat.ne_of_lt (hroom.reach_lt hreach)) hdata hm, m, hm,
    getMeta_writeNew (hplaced.metaOffset_lt hroom.below)⟩

/-- What the entry shows and the entries there were decide what a lookup finds
after a creation. -/
theorem created_lookup_iff (hs : WellFormed n s) (hcap : Capacity 97 s) (hroom : Room n s)
    (hid : Meta.id (asvfsGetMetaData s (Header.nextFree s.header)) = Header.nextFree s.header)
    (hdots : c ≠ dot ∧ c ≠ dotDot) (hreach : Reach (view s) P)
    (hcreated : Created n s s' P (Header.nextFree s.header) c newBlock) {l : List Nat}
    (hl : (view s).listing P = some l) :
    asvfsGetBlockMetaFromDir s' P c = some (Header.nextFree s.header) ↔
      shownName (asvfsGetMetaData s' (Header.nextFree s.header)) (Header.nextFree s.header) =
          some c ∧
        ∀ b ∈ l, (view s).name b ≠ c := by
  have hlisted : ∀ b ∈ l, Listed s b := fun b hb => ⟨P, l, hreach, hl, hb⟩
  have hlt : ∀ b ∈ l, b < Header.nextFree s.header := fun b hb => hroom.listed b (hlisted b hb)
  have hrecord : ∀ b ∈ l, asvfsGetMetaData s' b = asvfsGetMetaData s b := fun b hb =>
    hcreated.record b (Nat.ne_of_lt (hlt b hb)) ((hlt b hb).trans hroom.below)
  have hlisting : (view s').listing P = some (l ++ Header.nextFree s.header :: []) := by
    rw [hcreated.target, hl, Option.map_some]
  have hlen : (l ++ Header.nextFree s.header :: []).length ≤ 98 := by
    have hold : l.length ≤ 97 := hcap P l hreach hl
    rw [List.length_append, List.length_singleton]
    omega
  rw [lookup_stored hlisting hlen (fun b hb => ?_) (hcreated.id.trans hid)
    (Nat.ne_of_gt (Nat.zero_lt_of_lt hroom.root)) hdots]
  · exact and_congr_right fun _ => forall₂_congr fun b hb => by rw [name_congr (hrecord b hb)]
  · rw [List.append_nil] at hb
    exact ⟨(properEntry_congr (hrecord b hb)).mpr (hs.properEntry (hlisted b hb)),
      Nat.ne_of_lt (hlt b hb)⟩

/-- If a lookup finds the new block, it is in a directory. -/
theorem created_directory (hf0 : Header.nextFree s.header ≠ 0)
    (hcreated : Created n s s' P (Header.nextFree s.header) c newBlock)
    (hlook : asvfsGetBlockMetaFromDir s' P c = some (Header.nextFree s.header)) :
    Directory.type (directoryBlock s P) = asvfsBlockTypeDirectory := by
  by_contra htype
  have hfile : (view s').listing P = none := by
    rw [hcreated.target, listing_eq_none.mpr htype, Option.map_none]
  rw [lookup_of_file hfile] at hlook
  exact hf0 (Option.some.inj hlook).symm

/-- A creation is safe if it is rejected, or in a directory without an entry of
the name, if the record of the new block has room for it. -/
theorem create_safe_iff (hs : WellFormed n s) (hcap : Capacity 97 s) (hroom : Room n s)
    (hid : Meta.id (asvfsGetMetaData s (Header.nextFree s.header)) = Header.nextFree s.header)
    (hpath : SplitNames (ps ++ [c])) (hlen : (render slash ps).length < 1024)
    (hP : blockAt s ps = some P) (mode : Int) (blockType : Nat) (newBlock : Option Bytes) :
    Safe s (asvfsAddNode s (render slash (ps ++ [c])) mode blockType newBlock)
        (newBase (asvfsGetMetaData s (Header.nextFree s.header)) mode) P
        (Header.nextFree s.header) c ↔
      P = 0 ∨ Meta.blockType (asvfsGetMetaData s P) ≠ asvfsBlockTypeDirectory ∨
        (Directory.type (directoryBlock s P) = asvfsBlockTypeDirectory ∧
          RoomFor (asvfsGetMetaData s (Header.nextFree s.header)) (Header.nextFree s.header) c ∧
          ∀ b ∈ Directory.entries (directoryBlock s P), (view s).name b ≠ c) := by
  have hparts := hpath.parts hlen
  have hlookup : asvfsGetBlockIdFromPathname s (render slash ps) = some P := hP
  by_cases hP0 : P = 0
  · refine iff_of_true (Safe.rejected (r := asvfsErrorPathNotFound) ?_ (by decide)) (.inl hP0)
    simp only [asvfsAddNode, hparts, hlookup, Option.bind_eq_bind, Option.bind_some, if_pos hP0]
  by_cases hdir : Meta.blockType (asvfsGetMetaData s P) = asvfsBlockTypeDirectory
  swap
  · refine iff_of_true (Safe.rejected (r := asvfsErrorNotADirectory) ?_ (by decide))
      (.inr (.inl hdir))
    simp only [asvfsAddNode, hparts, hlookup, Option.bind_eq_bind, Option.bind_some, if_neg hP0,
      ne_eq, hdir, not_false_eq_true, if_true]
  rw [or_iff_right hP0, or_iff_right (not_not.mpr hdir)]
  have hreach : Reach (view s) P := under_of_resolve (hpath.parent.resolves hs hP hP0)
  have hf0 : Header.nextFree s.header ≠ 0 := Nat.ne_of_gt (Nat.zero_lt_of_lt hroom.root)
  obtain ⟨-, hnul, hdots⟩ := hpath.last
  constructor
  · rintro ⟨s', r, hr, hcase⟩
    obtain ⟨rfl, hcreated, m, hm, hrecord⟩ := addNode_stored hs hroom hpath hlen hP hP0 hdir hr
    obtain ⟨-, hkept, hlook⟩ := hcase.resolve_left fun h => h.1 rfl
    rw [hcreated.id, hid] at hlook
    have htype := created_directory hf0 hcreated hlook
    obtain ⟨hshown, hfree⟩ := (created_lookup_iff hs hcap hroom hid hdots hreach hcreated
      (listing_eq_some.mpr ⟨htype, rfl⟩)).mp hlook
    rw [hrecord, shownName, nameString_read] at hshown
    have hentry := (shownName_iff (nameString_newMeta hm hnul)).mp hshown
    refine ⟨htype, ⟨?_, hentry⟩, hfree⟩
    refine (newMeta_kept_iff hm (length_entryName_le hentry)).mp fun i hi hsize => ?_
    rw [← hkept i hi hsize, hrecord, read_eq hsize, Nat.zero_add]
  · rintro ⟨htype, ⟨hrest, hentry⟩, hfree⟩
    have hshort := length_entryName_le hentry
    have hl := listing_eq_some.mpr ⟨htype, rfl⟩
    obtain ⟨data, hdata⟩ := appendIndex_isSome (Header.nextFree s.header)
      (Nat.lt_of_le_of_lt (nextIndex_le hcap hreach hl) (by decide))
    obtain ⟨m₀, hm₀⟩ := newMeta_returns (asvfsGetMetaData s (Header.nextFree s.header)) blockType
      mode (show 5 + c.length < 96 by omega)
    obtain ⟨s', hr⟩ : ∃ s', asvfsAddNode s (render slash (ps ++ [c])) mode blockType newBlock =
        some (s', 0) := by
      rw [addNode_run hparts hlookup hP0 hdir, hdata, Option.bind_some, hm₀]
      exact ⟨_, rfl⟩
    obtain ⟨-, hcreated, m, hm, hrecord⟩ := addNode_stored hs hroom hpath hlen hP hP0 hdir hr
    refine ⟨s', 0, hr, .inr ⟨rfl, fun i hi hsize => ?_, ?_⟩⟩
    · rw [hrecord, read_eq hsize, Nat.zero_add]
      exact (newMeta_kept_iff hm hshort).mpr hrest i hi hsize
    · rw [hcreated.id, hid, created_lookup_iff hs hcap hroom hid hdots hreach hcreated hl, hrecord,
        shownName, nameString_read]
      exact ⟨(shownName_iff (nameString_newMeta hm hnul)).mpr hentry, hfree⟩

end Create

/-! ## Renames -/

/-- The entries in front of `f` in the directory `P`, once it is moved there
from `Q`. -/
def inFront (s : Volume) (Q P f : Nat) : List Nat :=
  if Q = P then (Directory.entries (directoryBlock s P)).takeWhile (· ≠ f)
  else Directory.entries (directoryBlock s P)

section Rename

variable {qs ps : List (List UInt8)} {e c : List UInt8} {Q P f : Nat}

theorem rename_run (hfrom : SplitNames (qs ++ [e])) (hto : SplitNames (ps ++ [c]))
    (hfromLen : (render slash qs).length < 1024) (htoLen : (render slash ps).length < 1024)
    (hQ : blockAt s qs = some Q) (hP : blockAt s ps = some P)
    (hf : blockAt s (qs ++ [e]) = some f) :
    asvfsRename s (render slash (qs ++ [e])) (render slash (ps ++ [c])) =
      if Q = 0 ∨ P = 0 ∨ f = 0 then some (s, asvfsErrorPathNotFound)
      else if Q = P then (writeName s f c).map (·, 0)
      else renameAcross s (render slash (qs ++ [e])) e c P f := by
  have hlookQ : asvfsGetBlockIdFromPathname s (render slash qs) = some Q := hQ
  have hlookP : asvfsGetBlockIdFromPathname s (render slash ps) = some P := hP
  have hlookf : asvfsGetBlockIdFromPathname s (render slash (qs ++ [e])) = some f := hf
  simp only [asvfsRename, hfrom.parts hfromLen, hto.parts htoLen, hlookQ, hlookP, hlookf,
    Option.bind_eq_bind, Option.bind_some]
  by_cases hQ0 : Q = 0
  · rw [if_pos hQ0, if_pos (.inl hQ0)]
  rw [if_neg hQ0]
  by_cases hP0 : P = 0
  · rw [if_pos hP0, if_pos (.inr (.inl hP0))]
  rw [if_neg hP0]
  by_cases hf0 : f = 0
  · rw [if_pos hf0, if_pos (.inr (.inr hf0))]
  have hfound : ¬ (Q = 0 ∨ P = 0 ∨ f = 0) := by
    rintro (h | h | h)
    · exact hQ0 h
    · exact hP0 h
    · exact hf0 h
  rw [if_neg hf0, if_neg hfound]

/-- The record of `f` got the name `c`, or kept it. -/
def Named (s s' : Volume) (f : Nat) (e c : List UInt8) : Prop :=
  (5 + c.length < metaSize ∧
    asvfsGetMetaData s' f = read (putStr (asvfsGetMetaData s f) 5 c) 0 metaSize) ∨
  (e = c ∧ asvfsGetMetaData s' f = asvfsGetMetaData s f)

theorem named_writeName {s₁ : Volume} (hplace : metaOffset f < 2 ^ 32)
    (hrecord : asvfsGetMetaData s₁ f = asvfsGetMetaData s f) (h : writeName s₁ f c = some s') :
    Named s s' f e c := by
  obtain ⟨hlen, rfl⟩ := writeName_eq h
  refine .inl ⟨hlen, ?_⟩
  rw [getMeta_writeMeta_same hplace, hrecord]

theorem rename_stored (hs : WellFormed n s) (hfrom : SplitNames (qs ++ [e]))
    (hto : SplitNames (ps ++ [c])) (hfromLen : (render slash qs).length < 1024)
    (htoLen : (render slash ps).length < 1024) (hQ : blockAt s qs = some Q)
    (hP : blockAt s ps = some P) (hf : blockAt s (qs ++ [e]) = some f)
    (hfound : ¬ (Q = 0 ∨ P = 0 ∨ f = 0)) {r : Int}
    (hr : asvfsRename s (render slash (qs ++ [e])) (render slash (ps ++ [c])) = some (s', r)) :
    r = 0 ∧ Renamed n s s' Q P f ∧ Named s s' f e c := by
  rw [rename_run hfrom hto hfromLen htoLen hQ hP hf, if_neg hfound] at hr
  rw [not_or, not_or] at hfound
  obtain ⟨hQ0, hP0, hf0⟩ := hfound
  obtain ⟨hfn, hfplaced⟩ := hs.placed f (under_of_resolve (hfrom.resolves hs hf hf0))
  have hplace := hfplaced.metaOffset_lt hfn
  by_cases hsame : Q = P
  · subst hsame
    rw [if_pos rfl] at hr
    obtain ⟨s'', hname, heq⟩ := Option.map_eq_some_iff.mp hr
    obtain ⟨rfl, rfl⟩ := Prod.mk.inj heq
    exact ⟨rfl, writeName_renamed hfn hplace hname, named_writeName hplace rfl hname⟩
  · rw [if_neg hsame] at hr
    obtain ⟨hr0, hren, hname, hkeeps⟩ := hs.renameAcross_step hfrom.cstring
      (hfrom.parts hfromLen) hQ hQ0 hf hf0
      (under_of_resolve (hto.parent.resolves hs hP hP0)) hsame hr
    refine ⟨hr0, hren, ?_⟩
    by_cases hec : e = c
    · exact .inr ⟨hec, hkeeps hec⟩
    · obtain ⟨s₁, hrecord, hwrite⟩ := hname hec
      exact named_writeName hplace hrecord hwrite

/-- A rename that has found everything. -/
structure RenameFinds (s : Volume) (Q P f : Nat) (e : List UInt8) : Prop where
  source : Reach (view s) Q
  entry : ∃ ids, (view s).listing Q = some ids ∧ f ∈ ids ∧ (view s).name f = e
  target : Reach (view s) P

theorem renameFinds (hs : WellFormed n s) (hfrom : SplitNames (qs ++ [e]))
    (hto : SplitNames (ps ++ [c])) (hQ : blockAt s qs = some Q) (hP : blockAt s ps = some P)
    (hf : blockAt s (qs ++ [e]) = some f) (hfound : ¬ (Q = 0 ∨ P = 0 ∨ f = 0)) :
    RenameFinds s Q P f e := by
  rw [not_or, not_or] at hfound
  obtain ⟨hQ0, hP0, hf0⟩ := hfound
  have hQres := hfrom.parent.resolves hs hQ hQ0
  have hlook := hfrom.resolves hs hf hf0
  rw [PathTree.resolve_concat, hQres, Option.bind_some] at hlook
  exact ⟨under_of_resolve hQres, look_mem hlook,
    under_of_resolve (hto.parent.resolves hs hP hP0)⟩

theorem RenameFinds.listed (h : RenameFinds s Q P f e) : Listed s f := by
  obtain ⟨ids, hids, hmem, -⟩ := h.entry
  exact ⟨Q, ids, h.source, hids, hmem⟩

theorem RenameFinds.listing (h : RenameFinds s Q P f e) (hs : WellFormed n s)
    (hren : Renamed n s s' Q P f)
    (htype : Directory.type (directoryBlock s P) = asvfsBlockTypeDirectory) :
    ∃ post, (view s').listing P = some (inFront s Q P f ++ f :: post) ∧ f ∉ inFront s Q P f ∧
      ∀ b ∈ inFront s Q P f ++ post, b ∈ Directory.entries (directoryBlock s P) ∧ b ≠ f := by
  obtain ⟨ids, hids, hmem, -⟩ := h.entry
  have hl := listing_eq_some.mpr ⟨htype, rfl⟩
  unfold inFront
  by_cases hsame : Q = P
  · subst hsame
    obtain rfl := Option.some.inj (hl.symm.trans hids)
    obtain ⟨pre, post, hnot, hsplit, -⟩ := List.exists_erase_eq hmem
    have hnodup : (Directory.entries (directoryBlock s Q)).Nodup :=
      (hs.tree.names h.source hids).of_map
    rw [hsplit] at hnodup
    have hpost : f ∉ post := (List.nodup_cons.mp (List.nodup_append.mp hnodup).2.1).1
    have hfront : (Directory.entries (directoryBlock s Q)).takeWhile (· ≠ f) = pre := by
      rw [hsplit, List.takeWhile_append_of_pos fun b hb => by
        simpa using fun hbf : b = f => hnot (hbf ▸ hb)]
      simp
    rw [if_pos rfl, hfront]
    refine ⟨post, ?_, hnot, fun b hb => ⟨?_, ?_⟩⟩
    · rw [listing_congr (hren.block Q (hs.placed Q h.source).2 (.inl rfl)), hids, hsplit]
    · rw [hsplit, List.mem_append, List.mem_cons]
      rcases List.mem_append.mp hb with hb | hb
      · exact .inl hb
      · exact .inr (.inr hb)
    · rintro rfl
      rcases List.mem_append.mp hb with hb | hb
      · exact hnot hb
      · exact hpost hb
  · have hnot : f ∉ Directory.entries (directoryBlock s P) := fun hin =>
      hsame (hs.tree.parent h.source h.target hids hl hmem hin)
    rw [if_neg hsame]
    refine ⟨[], ?_, hnot, fun b hb => ?_⟩
    · rw [hren.target hsame, hl, Option.map_some]
    · rw [List.append_nil] at hb
      exact ⟨hb, fun hbf => hnot (hbf ▸ hb)⟩

/-- The entry of a block shows its new name if the id does not cut this off. -/
theorem Named.shown_iff (h : Named s s' f e c) (hs : WellFormed n s) (hlisted : Listed s f)
    (he : (view s).name f = e) (hc : CString c) :
    shownName (asvfsGetMetaData s' f) f = some c ↔ entryName c f = c := by
  refine shownName_iff fun hlen => ?_
  rcases h with ⟨-, hrecord⟩ | ⟨rfl, hrecord⟩
  · rw [hrecord, nameString_read, nameString_putStr hc hlen]
  · obtain ⟨name, hname, -⟩ := hs.name f hlisted
    have hview : (view s).name f = name := by simp only [view, hname, Option.getD_some]
    rw [hrecord, ← he, hview]
    exact cstr_of_length hname (Nat.lt_trans (cstr_length hname) (by decide))

theorem Named.kept_iff (h : Named s s' f e c) (hs : WellFormed n s) (hlisted : Listed s f)
    (he : (view s).name f = e) (hlen : c.length ≤ 56) :
    (∀ i, 55 ≤ i → i < metaSize → asvfsGetMetaData s' f i = asvfsGetMetaData s f i) ↔
      ∀ i, asvfsMaxNameSize ≤ i → i ≤ c.length → asvfsGetMetaData s f (5 + i) = c.getD i 0 := by
  rcases h with ⟨-, hrecord⟩ | ⟨rfl, hrecord⟩
  · rw [← putStr_kept_iff, hrecord]
    refine forall₂_congr fun i _ => ?_
    by_cases hsize : i < metaSize
    · rw [read_eq hsize, Nat.zero_add]
      exact ⟨fun hkept => hkept hsize, fun hkept _ => hkept⟩
    · refine iff_of_true (fun hi => absurd hi hsize) (putStr_out (.inr ?_))
      unfold metaSize at hsize
      omega
  · obtain ⟨name, hname, -⟩ := hs.name f hlisted
    have hview : (view s).name f = name := by simp only [view, hname, Option.getD_some]
    have hshort : name.length < asvfsMaxNameSize := cstr_length hname
    refine iff_of_true (fun i _ _ => by rw [hrecord]) fun i hi hle => ?_
    rw [← he, hview] at hle
    exact absurd hi (by omega)

theorem RenameFinds.id_eq (h : RenameFinds s Q P f e) (hs : WellFormed n s)
    (hren : Renamed n s s' Q P f) : Meta.id (asvfsGetMetaData s' f) = f :=
  (hren.id (hs.placed f h.listed.reach).1).trans (hs.id f h.listed)

theorem RenameFinds.length_le (h : RenameFinds s Q P f e) (hs : WellFormed n s)
    (hcap : Capacity 97 s) (hren : Renamed n s s' Q P f)
    (htype : Directory.type (directoryBlock s P) = asvfsBlockTypeDirectory) {ids : List Nat}
    (hids : (view s').listing P = some ids) : ids.length ≤ 98 := by
  have hl := listing_eq_some.mpr ⟨htype, rfl⟩
  have hlen := hcap P _ h.target hl
  by_cases hsame : Q = P
  · subst hsame
    rw [listing_congr (hren.block Q (hs.placed Q h.source).2 (.inl rfl)), hl] at hids
    rw [← Option.some.inj hids]
    omega
  · rw [hren.target hsame, hl, Option.map_some] at hids
    rw [← Option.some.inj hids, List.length_append, List.length_singleton]
    omega

/-- What the entry shows and the entries in front decide what a lookup finds
after a rename. -/
theorem RenameFinds.lookup_iff (h : RenameFinds s Q P f e) (hs : WellFormed n s)
    (hcap : Capacity 97 s) (hren : Renamed n s s' Q P f)
    (htype : Directory.type (directoryBlock s P) = asvfsBlockTypeDirectory)
    (hdots : c ≠ dot ∧ c ≠ dotDot) :
    asvfsGetBlockMetaFromDir s' P c = some f ↔
      shownName (asvfsGetMetaData s' f) f = some c ∧
        ∀ b ∈ inFront s Q P f, (view s).name b ≠ c := by
  obtain ⟨post, hlisting, -, hold⟩ := h.listing hs hren htype
  have hl := listing_eq_some.mpr ⟨htype, rfl⟩
  have hlisted : ∀ b ∈ inFront s Q P f ++ post, Listed s b := fun b hb =>
    ⟨P, _, h.target, hl, (hold b hb).1⟩
  have hrecord : ∀ b ∈ inFront s Q P f ++ post, asvfsGetMetaData s' b = asvfsGetMetaData s b :=
    fun b hb => hren.record b (hold b hb).2 (hs.placed b (hlisted b hb).reach).1
  rw [lookup_stored hlisting (h.length_le hs hcap hren htype hlisting)
    (fun b hb => ⟨(properEntry_congr (hrecord b hb)).mpr (hs.properEntry (hlisted b hb)),
      (hold b hb).2⟩) (h.id_eq hs hren) (hs.ne_zero h.listed.reach) hdots]
  exact and_congr_right fun _ => forall₂_congr fun b hb => by
    rw [name_congr (hrecord b (List.mem_append_left _ hb))]

/-- If a lookup finds the block afterwards, it was moved to a directory. -/
theorem RenameFinds.directory (h : RenameFinds s Q P f e) (hs : WellFormed n s)
    (hren : Renamed n s s' Q P f) (hlook : asvfsGetBlockMetaFromDir s' P c = some f) :
    Directory.type (directoryBlock s P) = asvfsBlockTypeDirectory := by
  obtain ⟨ids, hids, -⟩ := h.entry
  by_contra htype
  have hnone := listing_eq_none.mpr htype
  have hsame : Q ≠ P := by
    rintro rfl
    rw [hids] at hnone
    cases hnone
  have hfile : (view s').listing P = none := by
    rw [hren.target hsame, hnone, Option.map_none]
  rw [lookup_of_file hfile] at hlook
  exact hs.ne_zero h.listed.reach (Option.some.inj hlook).symm

/-- A rename is safe if it is rejected, or if the record has room for the new name
and no entry in front has it. -/
theorem rename_safe_iff (hs : WellFormed n s) (hcap : Capacity 97 s)
    (hfrom : SplitNames (qs ++ [e])) (hto : SplitNames (ps ++ [c]))
    (hfromLen : (render slash qs).length < 1024) (htoLen : (render slash ps).length < 1024)
    (hQ : blockAt s qs = some Q) (hP : blockAt s ps = some P)
    (hf : blockAt s (qs ++ [e]) = some f) :
    Safe s (asvfsRename s (render slash (qs ++ [e])) (render slash (ps ++ [c])))
        (asvfsGetMetaData s f) P f c ↔
      (Q = 0 ∨ P = 0 ∨ f = 0) ∨
        (Directory.type (directoryBlock s P) = asvfsBlockTypeDirectory ∧
          RoomFor (asvfsGetMetaData s f) f c ∧ ∀ b ∈ inFront s Q P f, (view s).name b ≠ c) := by
  have hrun := rename_run hfrom hto hfromLen htoLen hQ hP hf
  by_cases hfound : Q = 0 ∨ P = 0 ∨ f = 0
  · rw [if_pos hfound] at hrun
    exact iff_of_true (Safe.rejected hrun (by decide)) (.inl hfound)
  rw [if_neg hfound] at hrun
  rw [or_iff_right hfound]
  have hfinds := renameFinds hs hfrom hto hQ hP hf hfound
  obtain ⟨ids, hids, hmem, hfe⟩ := hfinds.entry
  obtain ⟨-, hnul, hdots⟩ := hto.last
  have hlisted := hfinds.listed
  have hf0 := hs.ne_zero hlisted.reach
  constructor
  · rintro ⟨s', r, hr, hcase⟩
    obtain ⟨rfl, hren, hnamed⟩ :=
      rename_stored hs hfrom hto hfromLen htoLen hQ hP hf hfound hr
    obtain ⟨-, hkept, hlook⟩ := hcase.resolve_left fun h => h.1 rfl
    rw [hfinds.id_eq hs hren] at hlook
    have htype := hfinds.directory hs hren hlook
    obtain ⟨hshown, hfree⟩ := (hfinds.lookup_iff hs hcap hren htype hdots).mp hlook
    have hentry := (hnamed.shown_iff hs hlisted hfe hnul).mp hshown
    exact ⟨htype, ⟨(hnamed.kept_iff hs hlisted hfe (length_entryName_le hentry)).mp hkept, hentry⟩,
      hfree⟩
  · rintro ⟨htype, ⟨hrest, hentry⟩, hfree⟩
    have hshort := length_entryName_le hentry
    obtain ⟨s', hr⟩ : ∃ s', asvfsRename s (render slash (qs ++ [e])) (render slash (ps ++ [c])) =
        some (s', 0) := by
      rw [hrun]
      by_cases hsame : Q = P
      · obtain ⟨s', hs'⟩ := writeName_returns s f c (show 5 + c.length < 96 by omega)
        rw [if_pos hsame, hs']
        exact ⟨s', rfl⟩
      · rw [if_neg hsame]
        rw [not_or] at hfound
        exact renameAcross_returns hs hcap hfinds.source ⟨ids, hids⟩ hfinds.target
          ⟨_, listing_eq_some.mpr ⟨htype, rfl⟩⟩ hsame (by omega) (hfrom.parts hfromLen) hQ
          hfound.1 hf hf0
    obtain ⟨-, hren, hnamed⟩ := rename_stored hs hfrom hto hfromLen htoLen hQ hP hf hfound hr
    refine ⟨s', 0, hr, .inr ⟨rfl, (hnamed.kept_iff hs hlisted hfe hshort).mpr hrest, ?_⟩⟩
    rw [hfinds.id_eq hs hren, hfinds.lookup_iff hs hcap hren htype hdots]
    exact ⟨(hnamed.shown_iff hs hlisted hfe hnul).mpr hentry, hfree⟩

end Rename

/-! ## The three calls -/

theorem not_safe_none {base : Bytes} {d f : Nat} {c : List UInt8} :
    ¬ Safe s none base d f c := by
  rintro ⟨s', r, h, -⟩
  cases h

/-- **Names.** When the calls are safe, for every canonical path: the path fits
its buffers, and the call is rejected or the stored entry is found again under
the name that was asked for, before any other. A long name runs over the fields
behind it in the record; whether it is found then depends on what those fields
get. -/
theorem names_safe_iff (hs : WellFormed n s) (hcap : Capacity 97 s) {ps : List (List UInt8)}
    {c : List UInt8} (hpath : PlainPath (ps ++ [c])) :
    (¬ Fits ps c → ∀ base d f mode stack src,
      ¬ Safe s (asvfsMknod s (render slash (ps ++ [c])) mode) base d f c ∧
      ¬ Safe s (asvfsMkdir s stack (render slash (ps ++ [c])) mode) base d f c ∧
      ¬ Safe s (asvfsRename s src (render slash (ps ++ [c]))) base d f c) ∧
    (Fits ps c → ∃ P, blockAt s ps = some P ∧
      (Room n s →
        Meta.id (asvfsGetMetaData s (Header.nextFree s.header)) = Header.nextFree s.header →
        ∀ mode stack,
          (Safe s (asvfsMknod s (render slash (ps ++ [c])) mode)
              (newBase (asvfsGetMetaData s (Header.nextFree s.header)) mode) P
              (Header.nextFree s.header) c ↔
            P = 0 ∨ Meta.blockType (asvfsGetMetaData s P) ≠ asvfsBlockTypeDirectory ∨
              (Directory.type (directoryBlock s P) = asvfsBlockTypeDirectory ∧
                RoomFor (asvfsGetMetaData s (Header.nextFree s.header))
                  (Header.nextFree s.header) c ∧
                ∀ b ∈ Directory.entries (directoryBlock s P), (view s).name b ≠ c)) ∧
          (Safe s (asvfsMkdir s stack (render slash (ps ++ [c])) mode)
              (newBase (asvfsGetMetaData s (Header.nextFree s.header)) mode) P
              (Header.nextFree s.header) c ↔
            P = 0 ∨ Meta.blockType (asvfsGetMetaData s P) ≠ asvfsBlockTypeDirectory ∨
              (Directory.type (directoryBlock s P) = asvfsBlockTypeDirectory ∧
                RoomFor (asvfsGetMetaData s (Header.nextFree s.header))
                  (Header.nextFree s.header) c ∧
                ∀ b ∈ Directory.entries (directoryBlock s P), (view s).name b ≠ c))) ∧
      ∀ qs e, PlainPath (qs ++ [e]) →
        (¬ Fits qs e → ∀ base d f, ¬ Safe s (asvfsRename s (render slash (qs ++ [e]))
          (render slash (ps ++ [c]))) base d f c) ∧
        (Fits qs e → ∃ Q f, blockAt s qs = some Q ∧ blockAt s (qs ++ [e]) = some f ∧
          (Safe s (asvfsRename s (render slash (qs ++ [e])) (render slash (ps ++ [c])))
              (asvfsGetMetaData s f) P f c ↔
            (Q = 0 ∨ P = 0 ∨ f = 0) ∨
              (Directory.type (directoryBlock s P) = asvfsBlockTypeDirectory ∧
                RoomFor (asvfsGetMetaData s f) f c ∧
                ∀ b ∈ inFront s Q P f, (view s).name b ≠ c)))) := by
  have hcap' : Capacity 98 s := fun d ids hd hids => Nat.le_succ_of_le (hcap d ids hd hids)
  refine ⟨fun hfits base d f mode stack src => ?_, fun hfits => ?_⟩
  · have hparts := hpath.parts_none hfits
    have hnode : ∀ blockType newBlock,
        asvfsAddNode s (render slash (ps ++ [c])) mode blockType newBlock = none := by
      intro blockType newBlock
      rw [asvfsAddNode, hparts]
      rfl
    have hrename : asvfsRename s src (render slash (ps ++ [c])) = none := by
      rw [asvfsRename, hparts]
      cases asvfsGetPathParts src <;> rfl
    rw [asvfsMknod, asvfsMkdir, hnode, hnode, hrename]
    exact ⟨not_safe_none, not_safe_none, not_safe_none⟩
  · have hsplit := hpath.split hfits.1
    have hP := hsplit.parent.lookup hs hcap'
    refine ⟨_, hP, fun hroom hid mode stack => ⟨?_, ?_⟩, fun qs e hfrom => ⟨?_, fun hffits => ?_⟩⟩
    · exact create_safe_iff hs hcap hroom hid hsplit hfits.2 hP mode _ _
    · exact create_safe_iff hs hcap hroom hid hsplit hfits.2 hP mode _ _
    · intro hffits base d f
      rw [asvfsRename, hfrom.parts_none hffits]
      exact not_safe_none
    · have hfromSplit := hfrom.split hffits.1
      have hQ := hfromSplit.parent.lookup hs hcap'
      have hf := hfromSplit.lookup hs hcap'
      exact ⟨_, _, hQ, hf, rename_safe_iff hs hcap hfromSplit hsplit hffits.2 hfits.2 hQ hP hf⟩

/-- The file `/b`, and one with a name of 50 characters, whose NUL is the low byte
of the size 0. -/
theorem names_safe_iff_small :
    Safe smallDrive (asvfsMknod smallDrive (render slash ([] ++ [[98]])) 420)
        (newBase (asvfsGetMetaData smallDrive 3) 420) 1 3 [98] ∧
      Safe smallDrive (asvfsMknod smallDrive (render slash ([] ++ [List.replicate 50 120])) 420)
        (newBase (asvfsGetMetaData smallDrive 3) 420) 1 3 (List.replicate 50 120) := by
  have hroot : blockAt smallDrive [] = some 1 := by decide +kernel
  have hdir : Directory.type (directoryBlock smallDrive 1) = asvfsBlockTypeDirectory := by
    decide +kernel
  have hroom : Room 8 smallDrive :=
    ⟨by decide, by decide, by decide, smallDrive_sound.listed⟩
  constructor
  · have hpath : PlainPath ([] ++ [[98]]) := ⟨by unfold Names; decide, by unfold CString; decide⟩
    obtain ⟨P, hP, hcreate, -⟩ :=
      (names_safe_iff smallDrive_wellFormed smallDrive_capacity hpath).2 (by unfold Fits; decide)
    obtain rfl : 1 = P := Option.some.inj (hroot.symm.trans hP)
    exact (hcreate hroom (by decide +kernel) 420 (bytesOf [])).1.mpr
      (.inr (.inr ⟨hdir, roomFor_of_short (by decide), by decide +kernel⟩))
  · have hpath : PlainPath ([] ++ [List.replicate 50 120]) :=
      ⟨by unfold Names; decide, by unfold CString; decide⟩
    obtain ⟨P, hP, hcreate, -⟩ :=
      (names_safe_iff smallDrive_wellFormed smallDrive_capacity hpath).2 (by unfold Fits; decide)
    obtain rfl : 1 = P := Option.some.inj (hroot.symm.trans hP)
    exact (hcreate hroom (by decide +kernel) 420 (bytesOf [])).1.mpr
      (.inr (.inr ⟨hdir, (roomFor_fifty (by decide)).mpr (by decide +kernel), by decide +kernel⟩))

/-- The splitter takes a name of 60 characters: the file is made, and its size is
what the name ran over. In its entry the name is cut off by the id, so a lookup
does not find it. -/
theorem long_name_overruns : PlainPath ([] ++ [List.replicate 60 120]) ∧
    (∃ s', asvfsMknod smallDrive (render slash ([] ++ [List.replicate 60 120])) 420 =
        some (s', 0) ∧
      Meta.fileSize (asvfsGetMetaData s' 3) = 0x78787878 ∧
      asvfsGetBlockMetaFromDir s' 1 (List.replicate 60 120) = some 0) ∧
    ¬ Safe smallDrive (asvfsMknod smallDrive (render slash ([] ++ [List.replicate 60 120])) 420)
      (newBase (asvfsGetMetaData smallDrive 3) 420) 1 3 (List.replicate 60 120) := by
  refine ⟨⟨by unfold Names; decide, by unfold CString; decide⟩, ?_⟩
  have hrun : (asvfsMknod smallDrive (render slash ([] ++ [List.replicate 60 120])) 420).any
      (fun x => x.2 = 0 ∧ Meta.fileSize (asvfsGetMetaData x.1 3) = 0x78787878 ∧
        asvfsGetBlockMetaFromDir x.1 1 (List.replicate 60 120) = some 0 ∧
        Meta.id (asvfsGetMetaData x.1 3) = 3) = true := by
    decide +kernel
  obtain ⟨⟨s', r⟩, hr, hx⟩ := (Option.any_eq_true _ _).mp hrun
  obtain ⟨rfl, hsize, hlookup, hid⟩ := of_decide_eq_true hx
  refine ⟨⟨s', hr, hsize, hlookup⟩, ?_⟩
  rintro ⟨s'', r, hr', ⟨hr0, -⟩ | ⟨-, hstored⟩⟩
  · obtain ⟨-, rfl⟩ := Prod.mk.inj (Option.some.inj (hr.symm.trans hr'))
    exact hr0 rfl
  · obtain ⟨rfl, -⟩ := Prod.mk.inj (Option.some.inj (hr.symm.trans hr'))
    have hfound := hstored.found
    rw [hlookup, hid] at hfound
    cases hfound

end VersionSix.Asvfs
