import VersionSix.AsvfsDisk
import VersionSix.DirTree
import VersionSix.PathText

/-!
# ASVFS: names and paths

`asvfs_readdir`, the lookup of a name in a directory, the lookup of a path, and
the cut of a path into parent and child. A C string is the list of its bytes
before the NUL. What overruns a buffer does not return: a directory with more
entries than `dir_entry` has places, a name of more than 255 characters, a
parent that does not fit `parent_dir`.

An entry is filled in an order that matters for long names: `type` is written,
then the name is copied with `strcpy` out of the record, over `type` and
padding if it does not end in its 50 bytes, and `block_id` is written over
that. `entryName` is what is left to be read.

`view` is the directory tree the drive stands for. A block is a directory if
its type word says so: that is what the lookup goes by, not the metadata.
`WellFormed` asks that this tree is one, with different names in each
directory, and that what it reaches lies on the drive.
-/

namespace VersionSix.Asvfs

open ByteStore DirTree PathText
open PathTree (resolve)

abbrev slash : UInt8 := 47

def dot : List UInt8 := [46]
def dotDot : List UInt8 := [46, 46]

def asvfsInodeTypeDir : Nat := 2

/-! ## Directories -/

structure DirEntry where
  name : List UInt8
  type : Nat
  blockId : Nat

/-- The name as it is read from an entry. `name` has 50 bytes there, then come
`type`, a byte of padding and `block_id`, which is written after the name: of a
name that is longer it replaces what stands at 52. The string ends at the zero
byte of an id below 2^24. -/
def entryName (name : List UInt8) (blockId : Nat) : List UInt8 :=
  if name.length ≤ asvfsMaxNameSize + 1 then name
  else name.take (asvfsMaxNameSize + 2) ++
    ((List.range 4).map fun i => UInt8.ofNat (blockId / 256 ^ i)).takeWhile (· ≠ 0)

/-- The entry for one index of a directory. `type` is written before the name,
so a name of 50 characters or more replaces it with its NUL or a character. -/
def dirEntry (s : Volume) (id : Nat) : Option DirEntry :=
  let m := asvfsGetMetaData s id
  (Meta.nameString m).map fun name =>
    { name := entryName name (Meta.id m)
      type := if asvfsMaxNameSize ≤ name.length then (name.getD asvfsMaxNameSize 0).toNat
        else if Meta.blockType m = asvfsBlockTypeDirectory then asvfsBlockTypeDirectory
        else asvfsBlockTypeFile
      blockId := Meta.id m }

/-- A name that ends in its field is listed as it is. -/
theorem dirEntry_of_name {s : Volume} {id : Nat} {name : List UInt8}
    (h : Meta.name (asvfsGetMetaData s id) = some name) :
    dirEntry s id = some
      { name := name
        type := if Meta.blockType (asvfsGetMetaData s id) = asvfsBlockTypeDirectory then
          asvfsBlockTypeDirectory else asvfsBlockTypeFile
        blockId := Meta.id (asvfsGetMetaData s id) } := by
  have hlen : name.length < asvfsMaxNameSize := cstr_length h
  have hstring : Meta.nameString (asvfsGetMetaData s id) = some name :=
    cstr_of_length h (Nat.lt_of_lt_of_le hlen (by decide))
  simp only [dirEntry, hstring, Option.map_some, entryName, if_pos (Nat.le_succ_of_le hlen.le),
    if_neg (Nat.not_le.mpr hlen)]

/-- The loop of `asvfs_readdir` over the index. -/
def dirEntries (s : Volume) : List Nat → Option (List DirEntry)
  | [] => some []
  | id :: ids => (dirEntry s id).bind fun e => (dirEntries s ids).map (e :: ·)

/-- `dir_entry` has room for 100, `.` and `..` included. -/
def asvfsReaddir (s : Volume) (blockId : Nat) : Option (List DirEntry) :=
  let block := directoryBlock s blockId
  if Directory.type block ≠ asvfsBlockTypeDirectory then some []
  else if Directory.nextIndex block > 98 then none
  else (dirEntries s (Directory.entries block)).map fun es =>
    ⟨dot, asvfsInodeTypeDir, 0⟩ :: ⟨dotDot, asvfsInodeTypeDir, 0⟩ :: es

/-- Returns 0 for a name that is not there. -/
def asvfsGetBlockMetaFromDir (s : Volume) (dirBlockId : Nat) (dirEntryName : List UInt8) :
    Option Nat :=
  (asvfsReaddir s dirBlockId).map fun es =>
    ((es.find? fun e => e.name = dirEntryName).map DirEntry.blockId).getD 0

/-! ## Paths -/

/-- The loop of `asvfs_get_block_id_from_pathname` over the characters of the
path and its NUL. `name` holds 255 characters and a NUL. -/
def pathLoop (s : Volume) : List UInt8 → Nat → List UInt8 → Option Nat
  | [], currentDirBlockId, _ => some currentDirBlockId
  | c :: cs, currentDirBlockId, name =>
      if c ≠ slash ∧ c ≠ 0 then
        if name.length < 255 then pathLoop s cs currentDirBlockId (name ++ [c]) else none
      else if name = [] then pathLoop s cs currentDirBlockId []
      else (asvfsGetBlockMetaFromDir s currentDirBlockId name).bind fun b =>
        if b ≠ 0 then pathLoop s cs b [] else some 0

def asvfsGetBlockIdFromPathname (s : Volume) (pathname : List UInt8) : Option Nat :=
  if pathname = [slash] then some (Header.rootDirectory s.header)
  else pathLoop s (pathname ++ [0]) (Header.rootDirectory s.header) []

/-- `strcat` of a separator, if there has to be one, and a name;
`parent_dir` holds 1023 characters and a NUL. -/
def appendName (parentDir name : List UInt8) : Option (List UInt8) :=
  let path := (if parentDir = [slash] then parentDir else parentDir ++ [slash]) ++ name
  if path.length < 1024 then some path else none

/-- The loop of `asvfs_get_path_parts`. Only the NUL has nothing behind it. -/
def partsLoop : List UInt8 → (parentDir name : List UInt8) → Option (List UInt8 × List UInt8)
  | [], parentDir, _ => some (parentDir, [])
  | c :: cs, parentDir, name =>
      if c = slash ∨ c = 0 then
        -- `parent_dir[0] = '/'`
        if name = [] then partsLoop cs (slash :: parentDir.tail) []
        else if cs = [] then some (parentDir, name)
        else (appendName parentDir name).bind fun parentDir => partsLoop cs parentDir []
      else if name.length < 255 then partsLoop cs parentDir (name ++ [c])
      else none

def asvfsGetPathParts (pathname : List UInt8) : Option (List UInt8 × List UInt8) :=
  partsLoop (pathname ++ [0]) [] []

/-! ## Parent and child -/

abbrev CString (p : List UInt8) : Prop := (0 : UInt8) ∉ p

/-- The child as the last name of the path, if there is one behind the last
separator. -/
def lastName (child : List UInt8) : List (List UInt8) := if child = [] then [] else [child]

theorem partsLoop_name {c rest parent acc : List UInt8} (hsep : slash ∉ c) (hnul : CString c)
    (hlen : acc.length + c.length ≤ 255) :
    partsLoop (c ++ rest) parent acc = partsLoop rest parent (acc ++ c) := by
  induction c generalizing acc with
  | nil => rw [List.nil_append, List.append_nil]
  | cons x c ih =>
      rw [CString, List.mem_cons, not_or] at hnul
      rw [List.mem_cons, not_or] at hsep
      rw [List.length_cons] at hlen
      have hx : ¬ (x = slash ∨ x = 0) := not_or.mpr ⟨Ne.symm hsep.1, Ne.symm hnul.1⟩
      rw [List.cons_append, partsLoop, if_neg hx, if_pos (by omega),
        ih hsep.2 hnul.2 (by rw [List.length_append, List.length_singleton]; omega),
        List.append_assoc, List.singleton_append]

theorem appendName_render {ps : List (List UInt8)} (hps : Names slash ps) (c : List UInt8) :
    appendName (render slash ps) c =
      if (render slash (ps ++ [c])).length < 1024 then some (render slash (ps ++ [c]))
      else none := by
  have hcond : (if render slash ps = [slash] then render slash ps else render slash ps ++ [slash]) =
      if ps = [] then [slash] else render slash ps ++ [slash] := by
    by_cases hnil : ps = []
    · rw [if_pos hnil, hnil]
      rfl
    · rw [if_neg hnil, if_neg fun h => hnil ((render_eq_sep_iff hps).mp h)]
  rw [appendName, hcond, ← render_concat]

/-- The loop at the end of the name `c`, with the names `ps` before it and `cs`
behind it. -/
theorem partsLoop_joined {ps cs : List (List UInt8)} {c : List UInt8}
    (hnames : Names slash (ps ++ c :: cs)) (hstr : ∀ d ∈ cs, CString d ∧ d.length ≤ 255)
    (hps : (render slash ps).length < 1024) :
    partsLoop (joined slash cs ++ [0]) (render slash ps) c =
      if (render slash (ps ++ c :: cs).dropLast).length < 1024 then
        some (render slash (ps ++ c :: cs).dropLast, (ps ++ c :: cs).getLast (by simp))
      else none := by
  have hc : c ≠ [] := (hnames c (by simp)).1
  induction cs generalizing ps c with
  | nil => simp [joined, partsLoop, hc, hps]
  | cons d ds ih =>
      have hd := hnames d (by simp)
      obtain ⟨hd0, hdlen⟩ := hstr d List.mem_cons_self
      have hsplit : ps ++ c :: d :: ds = ps ++ [c] ++ d :: ds := by simp
      have hfirst : Names slash ps := hnames.parent
      have hrest : joined slash ds ++ [0] ≠ [] := by simp
      have hnext : partsLoop (joined slash (d :: ds) ++ [0]) (render slash ps) c =
          (appendName (render slash ps) c).bind fun p =>
            partsLoop (joined slash ds ++ [0]) p d := by
        have hname : ∀ p, partsLoop (d ++ (joined slash ds ++ [0])) p [] =
            partsLoop (joined slash ds ++ [0]) p d := fun p => by
          rw [partsLoop_name hd.2 hd0 (by simpa using hdlen), List.nil_append]
        have htext : d ++ (joined slash ds ++ [0]) ≠ [] :=
          List.append_ne_nil_of_right_ne_nil d hrest
        rw [joined, List.append_assoc, List.cons_append, partsLoop, if_pos (.inl rfl), if_neg hc,
          if_neg htext]
        simp only [hname]
      rw [hnext, appendName_render hfirst]
      simp only [hsplit]
      split
      · next hshort =>
        exact ih (hsplit ▸ hnames) (fun e he => hstr e (List.mem_cons_of_mem d he)) hshort hd.1
      · next hlong =>
        have hparent : ps ++ [c] <+: (ps ++ [c] ++ d :: ds).dropLast := by
          rw [List.dropLast_append_of_ne_nil (List.cons_ne_nil d ds)]
          exact List.prefix_append _ _
        have hlen := length_render_le slash hparent
        rw [Option.bind_none, if_neg (by omega)]

theorem pathParts_render {ps : List (List UInt8)} {c : List UInt8}
    (hnames : Names slash (ps ++ [c])) (hstr : ∀ d ∈ ps ++ [c], CString d ∧ d.length ≤ 255) :
    asvfsGetPathParts (render slash (ps ++ [c])) =
      if (render slash ps).length < 1024 then some (render slash ps, c) else none := by
  have hstart : ∀ (d : List UInt8) (ds : List (List UInt8)), ps ++ [c] = d :: ds →
      asvfsGetPathParts (render slash (d :: ds)) =
        partsLoop (joined slash ds ++ [0]) [slash] d := by
    intro d ds hcut
    have hd := hnames d (hcut ▸ List.mem_cons_self)
    obtain ⟨hd0, hdlen⟩ := hstr d (hcut ▸ List.mem_cons_self)
    rw [asvfsGetPathParts, render_cons, List.cons_append, List.cons_append, partsLoop,
      if_pos (.inl rfl), if_pos rfl, List.append_assoc,
      partsLoop_name hd.2 hd0 (by simpa using hdlen)]
    rfl
  obtain ⟨d, ds, hcut⟩ := List.exists_cons_of_ne_nil
    (List.append_ne_nil_of_right_ne_nil ps (List.cons_ne_nil c []))
  have hloop := @partsLoop_joined [] ds d (hcut ▸ hnames)
    (fun e he => hstr e (hcut ▸ List.mem_cons_of_mem d he)) (by decide)
  simp only [List.nil_append, ← hcut, List.dropLast_concat, List.getLast_concat] at hloop
  rw [hcut, hstart d ds hcut]
  exact hloop

/-- What `parent_dir` holds: nothing yet, or an absolute path. -/
def Absolute (p : List UInt8) : Prop := p = [] ∨ ∃ t, p = slash :: t

theorem appendName_words {parent name p : List UInt8} (h : appendName parent name = some p)
    (habs : Absolute parent) (hsep : slash ∉ name) (hne : name ≠ []) :
    words slash [] p = words slash [] parent ++ [name] ∧ Absolute p := by
  obtain ⟨-, hp⟩ := Option.ite_none_right_eq_some.mp h
  obtain rfl := Option.some.inj hp
  have hname : words slash [] name = [name] := by
    rw [words_name hsep, List.nil_append, if_neg hne]
  split
  · next hroot =>
    rw [hroot]
    exact ⟨hname, .inr ⟨name, rfl⟩⟩
  · rw [List.append_assoc, List.singleton_append]
    refine ⟨by rw [words_append_sep, hname], ?_⟩
    rcases habs with rfl | ⟨t, rfl⟩
    · exact .inr ⟨name, rfl⟩
    · exact .inr ⟨t ++ slash :: name, rfl⟩

theorem appendName_cstring {parent name p : List UInt8} (h : appendName parent name = some p)
    (hparent : CString parent) (hname : CString name) : CString p := by
  obtain ⟨-, hp⟩ := Option.ite_none_right_eq_some.mp h
  obtain rfl := Option.some.inj hp
  rw [CString, List.mem_append, not_or]
  refine ⟨?_, hname⟩
  split
  · exact hparent
  · rw [List.mem_append, not_or]
    exact ⟨hparent, by decide⟩

theorem partsLoop_end (parent name : List UInt8) :
    partsLoop [0] parent name =
      some (if name = [] then (slash :: parent.tail, []) else (parent, name)) := by
  rw [partsLoop, if_pos (.inr rfl)]
  split <;> rfl

theorem partsLoop_cons_cases {x : UInt8} {rest parent name : List UInt8}
    {r : List UInt8 × List UInt8} (hrest : CString (x :: rest))
    (h : partsLoop (x :: rest ++ [0]) parent name = some r) :
    (x = slash ∧ name = [] ∧ partsLoop (rest ++ [0]) (slash :: parent.tail) [] = some r) ∨
      (x = slash ∧ name ≠ [] ∧ ∃ path, appendName parent name = some path ∧
        partsLoop (rest ++ [0]) path [] = some r) ∨
      (x ≠ slash ∧ name.length < 255 ∧ partsLoop (rest ++ [0]) parent (name ++ [x]) = some r) := by
  rw [CString, List.mem_cons, not_or] at hrest
  have hmore : rest ++ [0] ≠ [] := List.append_ne_nil_of_right_ne_nil _ (List.cons_ne_nil _ _)
  rw [List.cons_append, partsLoop, if_neg hmore] at h
  by_cases hx : x = slash
  · rw [if_pos (.inl hx)] at h
    split at h
    · next hnil => exact .inl ⟨hx, hnil, h⟩
    · next hnil => exact .inr (.inl ⟨hx, hnil, Option.bind_eq_some_iff.mp h⟩)
  · rw [if_neg (not_or.mpr ⟨hx, Ne.symm hrest.1⟩)] at h
    obtain ⟨hroom, h⟩ := Option.ite_none_right_eq_some.mp h
    exact .inr (.inr ⟨hx, hroom, h⟩)

/-- Whatever the path looks like, its names are those of the parent and the
child. -/
theorem partsLoop_words {rest parent name p c : List UInt8} (hrest : CString rest)
    (habs : Absolute parent) (hparent : CString parent) (hsep : slash ∉ name)
    (hname : CString name) (h : partsLoop (rest ++ [0]) parent name = some (p, c)) :
    words slash [] parent ++ words slash name rest = words slash [] p ++ lastName c ∧
      CString p := by
  -- `parent_dir[0] = '/'` changes nothing in an absolute path
  have hroot : ∀ {parent : List UInt8}, Absolute parent → CString parent →
      Absolute (slash :: parent.tail) ∧ CString (slash :: parent.tail) ∧
        words slash [] (slash :: parent.tail) = words slash [] parent := by
    rintro parent (rfl | ⟨t, rfl⟩) hnul
    · exact ⟨.inr ⟨[], rfl⟩, by decide, rfl⟩
    · exact ⟨.inr ⟨t, rfl⟩, hnul, rfl⟩
  induction rest generalizing parent name with
  | nil =>
      rw [List.nil_append, partsLoop_end] at h
      rw [words]
      split at h
      · next hnil =>
        obtain ⟨rfl, rfl⟩ := Prod.mk.inj (Option.some.inj h)
        obtain ⟨-, hnul, hwords⟩ := hroot habs hparent
        rw [if_pos hnil, hwords]
        exact ⟨rfl, hnul⟩
      · next hnil =>
        obtain ⟨rfl, rfl⟩ := Prod.mk.inj (Option.some.inj h)
        rw [if_neg hnil, lastName, if_neg hnil]
        exact ⟨rfl, hparent⟩
  | cons x rest ih =>
      have hnul : (0 : UInt8) ≠ x ∧ CString rest := by
        rwa [CString, List.mem_cons, not_or] at hrest
      rw [words]
      rcases partsLoop_cons_cases hrest h with
        ⟨hx, hnil, h⟩ | ⟨hx, hnil, path, happend, h⟩ | ⟨hx, -, h⟩
      · obtain ⟨habs', hroot', hwords⟩ := hroot habs hparent
        rw [if_pos hx, if_pos hnil, ← hwords]
        exact ih hnul.2 habs' hroot' List.not_mem_nil List.not_mem_nil h
      · obtain ⟨hwords, habs'⟩ := appendName_words happend habs hsep hnil
        rw [if_pos hx, if_neg hnil, ← List.singleton_append, ← List.append_assoc, ← hwords]
        exact ih hnul.2 habs' (appendName_cstring happend hparent hname) List.not_mem_nil
          List.not_mem_nil h
      · rw [if_neg hx]
        refine ih hnul.2 habs hparent ?_ ?_ h
        · simpa [hsep] using Ne.symm hx
        · simpa [CString] using ⟨hname, hnul.1⟩

theorem pathParts_words {path p c : List UInt8} (hpath : CString path)
    (h : asvfsGetPathParts path = some (p, c)) :
    words slash [] path = words slash [] p ++ lastName c ∧ CString p :=
  partsLoop_words hpath (.inl rfl) List.not_mem_nil List.not_mem_nil List.not_mem_nil h

/-! ## The tree -/

def view (s : Volume) : Dirs Nat (List UInt8) where
  root := Header.rootDirectory s.header
  listing b :=
    if Directory.type (directoryBlock s b) = asvfsBlockTypeDirectory then
      some (Directory.entries (directoryBlock s b)) else none
  name b := (Meta.name (asvfsGetMetaData s b)).getD []

/-- `b` is an entry of some directory in the tree. -/
def Listed (s : Volume) (b : Nat) : Prop :=
  ∃ d ids, Reach (view s) d ∧ (view s).listing d = some ids ∧ b ∈ ids

/-- No directory of the tree has more than `k` entries. -/
def Capacity (k : Nat) (s : Volume) : Prop :=
  ∀ d ids, Reach (view s) d → (view s).listing d = some ids → ids.length ≤ k

/-- A well-formed drive with `n` metadata records. -/
structure WellFormed (n : Nat) (s : Volume) : Prop where
  blockSize : Header.blockSize s.header = asvfsDefaultBlockSize
  root : Header.rootDirectory s.header ≠ 0
  tree : Tree (view s)
  placed : ∀ b, Reach (view s) b → b < n ∧ Placed n b
  id : ∀ b, Listed s b → Meta.id (asvfsGetMetaData s b) = b
  name : ∀ b, Listed s b → ∃ name, Meta.name (asvfsGetMetaData s b) = some name ∧
    name ≠ [] ∧ name ≠ dot ∧ name ≠ dotDot

end VersionSix.Asvfs
