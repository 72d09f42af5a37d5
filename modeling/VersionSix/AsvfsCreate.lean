import VersionSix.AsvfsMove

/-!
# ASVFS: creating files and directories

`asvfs_mknod` and `asvfs_mkdir` are one piece of code twice, but for the block
type and for the directory block that only `asvfs_mkdir` writes. Neither asks
whether the name is there already, whether a block is free, or what that block
held before.

What a creation that returns did is `addNode_step`: nothing, or `Created`. A
new file has no block of its own: it gets the next free one with the content it
has, and if that was a directory once, the tree goes on below the new file. So
the exact result (`create_exact`) needs three things of the drive: the next
free block is one of its own, it is behind everything in use, and for
`asvfs_mknod` it holds no directory. `create_spoils` shows on three drives what
happens without each of them.

What is left on the stack in the new directory block is a parameter; nothing
that is read depends on it.
-/

namespace VersionSix.Asvfs

open ByteStore DirTree PathText
open PathTree (resolve)

variable {s s' : Volume} {n : Nat}

/-! ## Functions -/

/-- The record of the new block: `in_use`, `name`, `block_type`, `permissions`. -/
def newMeta (m : Bytes) (name : List UInt8) (blockType : Nat) (mode : Int) : Option Bytes :=
  (Meta.strcpyName (Meta.setInUse m 1) name).map fun m =>
    Meta.setPermissions (Meta.setBlockType m blockType) (mode % 2 ^ 16).toNat

/-- The block of a new directory. A new file has none: its block is left as it
is. -/
def writeNewBlock (s : Volume) (newBlockId : Nat) : Option Bytes → Volume
  | some block => asvfsWriteBlock s newBlockId directorySize block
  | none => s

/-- "Write everything to disk" -/
def writeNew (s : Volume) (parentBlockId newBlockId : Nat) (parentBlock : Bytes)
    (newBlock : Option Bytes) (m : Bytes) : Volume :=
  let s := asvfsWriteBlock s parentBlockId directorySize parentBlock
  let s := writeNewBlock s newBlockId newBlock
  let s := asvfsWriteMetaData s newBlockId m
  asvfsWriteHeader s s.header

/-- The body of `asvfs_mknod` and of `asvfs_mkdir`. -/
def asvfsAddNode (s : Volume) (pathname : List UInt8) (mode : Int) (blockType : Nat)
    (newBlock : Option Bytes) : Option (Volume × Int) := do
  let (parentDir, name) ← asvfsGetPathParts pathname
  let parentBlockId ← asvfsGetBlockIdFromPathname s parentDir
  if parentBlockId = 0 then some (s, asvfsErrorPathNotFound)
  else if Meta.blockType (asvfsGetMetaData s parentBlockId) ≠ asvfsBlockTypeDirectory then
    some (s, asvfsErrorNotADirectory)
  else
    let newBlockId := Header.nextFree s.header
    let s := { s with header := Header.setNextFree s.header (newBlockId + 1) }
    let parentBlock ← appendIndex (directoryBlock s parentBlockId) newBlockId
    let m ← newMeta (asvfsGetMetaData s newBlockId) name blockType mode
    some (writeNew s parentBlockId newBlockId parentBlock newBlock m, asvfsErrorNone)

def asvfsMknod (s : Volume) (pathname : List UInt8) (mode : Int) : Option (Volume × Int) :=
  asvfsAddNode s pathname mode asvfsBlockTypeFile none

def asvfsCreate (s : Volume) (pathname : List UInt8) (mode : Int) : Option (Volume × Int) :=
  asvfsMknod s pathname mode

/-- `new_dir_block` as it is set up; the rest of it is what was on the stack. -/
def newDirBlock (stack : Bytes) : Bytes :=
  Directory.setType (Directory.setNextIndex stack 0) asvfsBlockTypeDirectory

def asvfsMkdir (s : Volume) (stack : Bytes) (pathname : List UInt8) (mode : Int) :
    Option (Volume × Int) :=
  asvfsAddNode s pathname mode asvfsBlockTypeDirectory (some (newDirBlock stack))

/-! ## The new record -/

theorem newMeta_eq {m m' : Bytes} {name : List UInt8} {blockType : Nat} {mode : Int}
    (h : newMeta m name blockType mode = some m') :
    m' = Meta.setPermissions (Meta.setBlockType (putStr (Meta.setInUse m 1) 5 name) blockType)
      (mode % 2 ^ 16).toNat := by
  obtain ⟨m₁, hm₁, rfl⟩ := Option.map_eq_some_iff.mp h
  obtain ⟨-, hm₁⟩ := Option.ite_none_right_eq_some.mp hm₁
  rw [← Option.some.inj hm₁]

theorem newMeta_returns (m : Bytes) {name : List UInt8} (blockType : Nat) (mode : Int)
    (h : 5 + name.length < metaSize) : ∃ m', newMeta m name blockType mode = some m' := by
  rw [newMeta, Meta.strcpyName, if_pos h]
  exact ⟨_, rfl⟩

theorem id_newMeta {m m' : Bytes} {name : List UInt8} {blockType : Nat} {mode : Int}
    (h : newMeta m name blockType mode = some m') : Meta.id m' = Meta.id m := by
  rw [newMeta_eq h]
  unfold Meta.id Meta.setPermissions Meta.setBlockType Meta.setInUse
  rw [le_setLe_disjoint (by decide), le_setLe_disjoint (by decide), le_putStr (.inl (by decide)),
    le_setLe_disjoint (by decide)]

theorem name_newMeta {m m' : Bytes} {name : List UInt8} {blockType : Nat} {mode : Int}
    (h : newMeta m name blockType mode = some m') (hname : CString name)
    (hlen : name.length < asvfsMaxNameSize) : Meta.name m' = some name := by
  rw [newMeta_eq h]
  unfold Meta.name Meta.setPermissions Meta.setBlockType
  rw [cstr_setLe (by decide), cstr_setLe (by decide)]
  exact cstr_putStr (fun c hc h0 => hname (h0 ▸ hc)) hlen

theorem type_newDirBlock (stack : Bytes) :
    Directory.type (newDirBlock stack) = asvfsBlockTypeDirectory := by
  unfold newDirBlock Directory.type Directory.setType
  rw [le_setLe_same]
  rfl

theorem nextIndex_newDirBlock (stack : Bytes) : Directory.nextIndex (newDirBlock stack) = 0 := by
  unfold newDirBlock Directory.nextIndex Directory.setType Directory.setNextIndex
  rw [le_setLe_disjoint (by decide), le_setLe_same]
  rfl

theorem entries_newDirBlock (stack : Bytes) : Directory.entries (newDirBlock stack) = [] := by
  rw [Directory.entries, nextIndex_newDirBlock]
  rfl

/-! ## What a creation does -/

/-- The next free block is one of the drive's, and behind everything that is in
use. -/
structure Room (n : Nat) (s : Volume) : Prop where
  below : Header.nextFree s.header < n
  address : Header.nextFree s.header < 2 ^ 20
  root : Header.rootDirectory s.header < Header.nextFree s.header
  listed : ∀ b, Listed s b → b < Header.nextFree s.header

/-- The block `f` is put at the end of the directory `dst`, under the name `c`. -/
structure Created (n : Nat) (s s' : Volume) (dst f : Nat) (c : List UInt8)
    (newBlock : Option Bytes) : Prop where
  free : f = Header.nextFree s.header
  header : s'.header = Header.setNextFree s.header (f + 1)
  record : ∀ b, b ≠ f → b < n → asvfsGetMetaData s' b = asvfsGetMetaData s b
  id : Meta.id (asvfsGetMetaData s' f) = Meta.id (asvfsGetMetaData s f)
  named : CString c → c.length < asvfsMaxNameSize → Meta.name (asvfsGetMetaData s' f) = some c
  block : ∀ d, Placed n d → d ≠ dst → (d = f → newBlock = none) →
    directoryBlock s' d = directoryBlock s d
  made : ∀ block, newBlock = some block → directoryBlock s' f = read block 0 directorySize
  target : (view s').listing dst = ((view s).listing dst).map (· ++ [f])

section NewBlock

variable {f : Nat} {newBlock : Option Bytes}

@[simp] theorem writeNewBlock_header (s : Volume) (f : Nat) (newBlock : Option Bytes) :
    (writeNewBlock s f newBlock).header = s.header := by
  cases newBlock with
  | none => rfl
  | some block => exact writeBlock_header ..

theorem getMeta_writeNewBlock (hsize : Header.blockSize s.header = 4096) {i : Nat} (hi : i < n)
    (hf : Placed n f) :
    asvfsGetMetaData (writeNewBlock s f newBlock) i = asvfsGetMetaData s i := by
  cases newBlock with
  | none => rfl
  | some block => exact getMeta_writeBlock hsize hi hf _ block

theorem directoryBlock_writeNewBlock (hsize : Header.blockSize s.header = 4096) (hf : Placed n f)
    {d : Nat} (hd : Placed n d) (hne : d = f → newBlock = none) :
    directoryBlock (writeNewBlock s f newBlock) d = directoryBlock s d := by
  cases newBlock with
  | none => rfl
  | some block =>
      refine directoryBlock_writeBlock_ne hsize hf hd (fun hdf => ?_) block
      cases hne hdf

end NewBlock

theorem writeNew_created {dst f : Nat} {c : List UInt8} {blockType : Nat} {mode : Int}
    {data m : Bytes} {newBlock : Option Bytes} (hsize : Header.blockSize s.header = 4096)
    (hf : f = Header.nextFree s.header) (hfn : f < n) (hf' : Placed n f) (hdst : Placed n dst)
    (hne : dst ≠ f) (hdata : appendIndex (directoryBlock s dst) f = some data)
    (hm : newMeta (asvfsGetMetaData s f) c blockType mode = some m) :
    Created n s (writeNew { s with header := Header.setNextFree s.header (f + 1) } dst f data
      newBlock m)
      dst f c newBlock := by
  have hsize₀ : Header.blockSize (Header.setNextFree s.header (f + 1)) = 4096 := by
    rw [blockSize_setNextFree, hsize]
  have hlarge : f < 2 ^ 32 := Nat.lt_trans hf'.address (by decide)
  obtain ⟨htype, hnext, hents⟩ := appendIndex_spec hlarge hdata
  obtain ⟨s₀, hs₀⟩ : ∃ s₀ : Volume, { s with header := Header.setNextFree s.header (f + 1) } = s₀ :=
    ⟨_, rfl⟩
  have hheader₀ : s₀.header = Header.setNextFree s.header (f + 1) := by rw [← hs₀]
  have hmeta₀ : ∀ b, asvfsGetMetaData s₀ b = asvfsGetMetaData s b := fun b => by rw [← hs₀]; rfl
  have hblock₀ : ∀ b, directoryBlock s₀ b = directoryBlock s b := fun b => by rw [← hs₀]; rfl
  obtain ⟨s₁, hs₁⟩ : ∃ s₁, asvfsWriteBlock s₀ dst directorySize data = s₁ := ⟨_, rfl⟩
  have hheader₁ : s₁.header = s₀.header := by rw [← hs₁, writeBlock_header]
  rw [← hheader₀] at hsize₀
  have hsize₁ : Header.blockSize s₁.header = 4096 := by rw [hheader₁, hsize₀]
  obtain ⟨s₂, hs₂⟩ : ∃ s₂, writeNewBlock s₁ f newBlock = s₂ := ⟨_, rfl⟩
  have hwrite : writeNew s₀ dst f data newBlock m =
      asvfsWriteHeader (asvfsWriteMetaData s₂ f m) s₂.header := by
    simp only [writeNew, hs₁, hs₂, writeMeta_header]
  have hmeta : asvfsGetMetaData (writeNew s₀ dst f data newBlock m) f = read m 0 metaSize := by
    rw [hwrite, getMeta_writeHeader, getMeta_writeMeta_same (hf'.metaOffset_lt hfn)]
  have hblock : ∀ d, Placed n d → directoryBlock (writeNew s₀ dst f data newBlock m) d =
      directoryBlock s₂ d := fun d hd => by
    rw [hwrite, directoryBlock_writeHeader hd, directoryBlock_writeMeta hfn hd]
  rw [hs₀]
  refine ⟨hf, ?_, fun b hb hbn => ?_, ?_, fun hstr hlen => ?_, fun d hd hdst' hdf => ?_,
    fun block hblock' => ?_, ?_⟩
  · rw [hwrite, writeHeader_header, writeMeta_header, ← hs₂, writeNewBlock_header, hheader₁,
      hheader₀]
  · rw [hwrite, getMeta_writeHeader, getMeta_writeMeta_ne (hf'.metaOffset_lt hfn) hb, ← hs₂,
      getMeta_writeNewBlock hsize₁ hbn hf', ← hs₁, getMeta_writeBlock hsize₀ hbn hdst, hmeta₀]
  · rw [hmeta, Meta.id_read, id_newMeta hm]
  · rw [hmeta, Meta.name_read, name_newMeta hm hstr hlen]
  · rw [hblock d hd, ← hs₂, directoryBlock_writeNewBlock hsize₁ hf' hd hdf, ← hs₁,
      directoryBlock_writeBlock_ne hsize₀ hdst hd hdst', hblock₀]
  · rw [hblock f hf', ← hs₂, hblock', writeNewBlock,
      directoryBlock_writeBlock_same hsize₁ hf']
  · have htarget : directoryBlock s₂ dst = directoryBlock s₁ dst := by
      rw [← hs₂]
      exact directoryBlock_writeNewBlock hsize₁ hf' hdst fun h => absurd h hne
    rw [listing_congr ((hblock dst hdst).trans htarget), ← hs₁,
      listing_writeBlock hsize₀ hdst hnext, htype, hents]
    simp only [view]
    split <;> rfl

theorem Room.placed (h : Room n s) (hs : WellFormed n s) : Placed n (Header.nextFree s.header) where
  address := h.address
  behind := by
    have hroot := (hs.placed _ .refl).2.behind
    have hbehind := h.root
    simp only [view] at hroot
    omega

theorem Room.reach_lt (h : Room n s) {b : Nat} (hb : Reach (view s) b) :
    b < Header.nextFree s.header := by
  cases hb with
  | refl => exact h.root
  | entry hd hids hb => exact h.listed b ⟨_, _, hd, hids, hb⟩

/-- A creation that returns changed nothing and says so, or it created the
block. -/
theorem WellFormed.addNode_step (h : WellFormed n s) (hroom : Room n s) {path : List UInt8}
    {mode : Int} {blockType : Nat} {newBlock : Option Bytes} {r : Int} (hpath : CString path)
    (hr : asvfsAddNode s path mode blockType newBlock = some (s', r)) :
    (s' = s ∧ r ≠ 0) ∨ r = 0 ∧ ∃ p c dst, asvfsGetPathParts path = some (p, c) ∧
      resolve (view s).look (view s).root (words slash [] p) = some dst ∧
      Created n s s' dst (Header.nextFree s.header) c newBlock := by
  obtain ⟨⟨p, c⟩, hp, hr⟩ := Option.bind_eq_some_iff.mp hr
  obtain ⟨dst, hdst, hr⟩ := Option.bind_eq_some_iff.mp hr
  split at hr
  · obtain ⟨rfl, rfl⟩ := Prod.mk.inj (Option.some.inj hr)
    exact .inl ⟨rfl, by decide⟩
  · next hdst0 =>
    have hres := h.pathname_resolves (pathParts_words hpath hp).2 hdst hdst0
    have hreach := under_of_resolve hres
    obtain ⟨-, hplaced⟩ := h.placed dst hreach
    split at hr
    · obtain ⟨rfl, rfl⟩ := Prod.mk.inj (Option.some.inj hr)
      exact .inl ⟨rfl, by decide⟩
    · obtain ⟨data, hdata, hr⟩ := Option.bind_eq_some_iff.mp hr
      obtain ⟨m, hm, hr⟩ := Option.bind_eq_some_iff.mp hr
      obtain ⟨rfl, rfl⟩ := Prod.mk.inj (Option.some.inj hr)
      exact .inr ⟨rfl, p, c, dst, hp, hres, writeNew_created h.blockSize rfl hroom.below
        (hroom.placed h) hplaced (Nat.ne_of_lt (hroom.reach_lt hreach)) hdata hm⟩

/-! ## What it does to the tree -/

section Created

variable {dst f : Nat} {c : List UInt8} {newBlock : Option Bytes}

theorem Created.creates (h : Created n s s' dst f c newBlock) (hs : WellFormed n s)
    (hroom : Room n s) : Creates (view s) (view s') dst f ((view s').name f) where
  root := by
    simp only [view, h.header, rootDirectory_setNextFree]
  target := h.target
  listing hd hne := listing_congr (h.block _ (hs.placed _ hd).2 hne fun hdf =>
    absurd (hdf ▸ hroom.reach_lt hd) (by rw [h.free]; exact Nat.lt_irrefl _))
  named := rfl
  name hb := name_congr (h.record _ (fun hbf =>
    absurd (hbf ▸ hroom.reach_lt hb) (by rw [h.free]; exact Nat.lt_irrefl _)) (hs.placed _ hb).1)
  fresh hf := absurd (hroom.reach_lt hf) (by rw [h.free]; exact Nat.lt_irrefl _)

theorem properEntry_congr {b : Nat} (h : asvfsGetMetaData s' b = asvfsGetMetaData s b) :
    ProperEntry s' b ↔ ProperEntry s b := by
  simp only [ProperEntry, view, h]

/-- The new entry is a proper one if its record has the right number. -/
theorem Created.properEntry (h : Created n s s' dst f c newBlock) (hcs : CanonicalNames [c])
    (hid : Meta.id (asvfsGetMetaData s f) = f) : ProperEntry s' f ∧ (view s').name f = c := by
  obtain ⟨hne, -⟩ := hcs.1 c (List.mem_singleton_self c)
  obtain ⟨hstr, hlen, hdots⟩ := hcs.2 c (List.mem_singleton_self c)
  have hnamed := h.named hstr hlen
  exact ⟨properEntry_of_name (h.id.trans hid) hnamed ⟨hne, hdots⟩,
    by simp only [view, hnamed, Option.getD_some]⟩

theorem Created.file_listing (h : Created n s s' dst f c none) (hf : Placed n f) (hne : f ≠ dst)
    (htype : Directory.type (directoryBlock s f) ≠ asvfsBlockTypeDirectory) :
    (view s').listing f = none := by
  rw [listing_congr (h.block f hf hne fun _ => rfl)]
  exact listing_eq_none.mpr htype

theorem Created.dir_listing {stack : Bytes}
    (h : Created n s s' dst f c (some (newDirBlock stack))) :
    (view s').listing f = some [] := by
  refine listing_eq_some.mpr ?_
  rw [h.made _ rfl, Directory.type_read, type_newDirBlock,
    entries_read (by rw [nextIndex_newDirBlock]; exact Nat.zero_le _), entries_newDirBlock]
  exact ⟨rfl, rfl⟩

theorem Created.readable (h : Created n s s' dst f c newBlock) (hs : WellFormed n s)
    (hroom : Room n s) (hcap : Capacity 97 s) (hcs : CanonicalNames [c])
    (hid : Meta.id (asvfsGetMetaData s f) = f) {d : Nat} (hd : Reach (view s) d) :
    Readable s' d := by
  have hcreates := h.creates hs hroom
  have hf0 : f ≠ 0 := by
    have hroot := hroom.root
    rw [h.free]
    omega
  have hold : ∀ {l : List Nat}, (view s).listing d = some l →
      ∀ b ∈ l, ProperEntry s' b ∧ b ≠ 0 := by
    intro l hl b hb
    have hlisted : Listed s b := ⟨d, l, hd, hl, hb⟩
    have hbf : b ≠ f := fun hbf => hcreates.fresh (hbf ▸ hlisted.reach)
    exact ⟨(properEntry_congr (h.record b hbf (hs.placed b hlisted.reach).1)).mpr
      (hs.properEntry hlisted), hs.ne_zero hlisted.reach⟩
  intro ids hids
  by_cases hdst : d = dst
  · rw [hdst, hcreates.target] at hids
    obtain ⟨l, hl, rfl⟩ := Option.map_eq_some_iff.mp hids
    have hlen := hcap d l hd (hdst ▸ hl)
    rw [List.length_append, List.length_singleton, List.forall_mem_append,
      List.forall_mem_singleton]
    exact ⟨by omega, hold (hdst ▸ hl), (h.properEntry hcs hid).1, hf0⟩
  · rw [hcreates.listing hd hdst] at hids
    exact ⟨Nat.le_succ_of_le (hcap d ids hd hids), hold hids⟩

theorem Created.found (h : Created n s s' dst f c newBlock) (hs : WellFormed n s)
    (hroom : Room n s) (hcap : Capacity 97 s) {Q : List (List UInt8)}
    (hnames : CanonicalNames (Q ++ [c])) (hid : Meta.id (asvfsGetMetaData s f) = f)
    (hQ : resolve (view s).look (view s).root Q = some dst)
    (hdir : ∃ l, (view s).listing dst = some l) (hfree : (view s).look dst c = none) :
    blockAt s' (Q ++ [c]) = some f := by
  have hcs := (CanonicalNames.append.mp hnames).2
  have hcreates := h.creates hs hroom
  rw [(h.properEntry hcs hid).2] at hcreates
  obtain ⟨l, hl⟩ := hdir
  rw [blockAt_of_readable hnames fun ws w d hpre hd => ?_, hcreates.found hs.tree hQ hl hfree,
    Option.getD_some]
  -- the path up to the new entry is an old one
  have hnot : ¬ Q ++ [c] <+: ws := fun hlong => by
    have hlen := hpre.length_le
    have hlen' := hlong.length_le
    rw [List.length_append, List.length_singleton] at hlen
    omega
  rw [hcreates.kept hs.tree hQ hnot] at hd
  exact h.readable hs hroom hcap hcs hid (under_of_resolve hd)

theorem Created.kept (h : Created n s s' dst f c newBlock) (hs : WellFormed n s)
    (hroom : Room n s) (hcap : Capacity 97 s) (hcs : CanonicalNames [c])
    (hid : Meta.id (asvfsGetMetaData s f) = f) (hfree : (view s).look dst c = none)
    {p : List UInt8} {b : Nat} (hb : asvfsGetBlockIdFromPathname s p = some b) (hb0 : b ≠ 0) :
    asvfsGetBlockIdFromPathname s' p = some b := by
  have hcreates := h.creates hs hroom
  rw [(h.properEntry hcs hid).2] at hcreates
  refine hs.pathname_keeps hcreates.root (fun d b e hd hlook => ?_) hb hb0
  have hne : (d, e) ≠ (dst, c) := fun heq => by
    obtain ⟨rfl, rfl⟩ := Prod.mk.inj heq
    rw [hfree] at hlook
    cases hlook
  rw [(h.readable hs hroom hcap hcs hid hd).lookup_eq, hcreates.look_eq hd hne, hlook,
    Option.getD_some]

/-- What is listed afterwards was listed before, or is the new block. -/
theorem Created.listed (h : Created n s s' dst f c newBlock) (hs : WellFormed n s)
    (hroom : Room n s) (hleaf : ∀ l, (view s').listing f = some l → l = []) {b : Nat}
    (hb : Listed s' b) : Listed s b ∨ b = f := by
  have hcreates := h.creates hs hroom
  obtain ⟨d, ids, hd, hids, hmem⟩ := hb
  rcases hcreates.reach hleaf hd with hd | ⟨rfl, -⟩
  · rcases hcreates.mem hd hids hmem with ⟨l, hl, hmem⟩ | ⟨-, hbf⟩
    · exact .inl ⟨d, l, hd, hl, hmem⟩
    · exact .inr hbf
  · rw [hleaf ids hids] at hmem
    exact absurd hmem List.not_mem_nil

theorem Created.wellFormed (h : Created n s s' dst f c newBlock) (hs : WellFormed n s)
    (hroom : Room n s) (hcs : CanonicalNames [c]) (hid : Meta.id (asvfsGetMetaData s f) = f)
    (hdst : Reach (view s) dst) (hfree : (view s).look dst c = none)
    (hleaf : ∀ l, (view s').listing f = some l → l = []) : WellFormed n s' := by
  have hcreates := h.creates hs hroom
  have hproper := h.properEntry hcs hid
  have hlisted : ∀ b, Listed s' b → ProperEntry s' b := fun b hb => by
    rcases h.listed hs hroom hleaf hb with hb | rfl
    · have hbf : b ≠ f := fun hbf => hcreates.fresh (hbf ▸ hb.reach)
      exact (properEntry_congr (h.record b hbf (hs.placed b hb.reach).1)).mpr (hs.properEntry hb)
    · exact hproper.1
  refine ⟨?_, ?_, ?_, fun b hb => ?_, fun b hb => (hlisted b hb).1, fun b hb => (hlisted b hb).name⟩
  · rw [h.header, blockSize_setNextFree, hs.blockSize]
  · rw [h.header, rootDirectory_setNextFree]
    exact hs.root
  · refine hcreates.tree hs.tree hleaf hdst fun l hl => ?_
    rw [hproper.2]
    exact (look_eq_none_iff hl).mp hfree
  · rcases hcreates.reach hleaf hb with hb | ⟨rfl, -⟩
    · exact hs.placed b hb
    · rw [h.free]
      exact ⟨hroom.below, hroom.placed hs⟩

end Created

/-! ## A new path -/

/-- A well-formed drive with all that is in use in front of `next_free`, and at
most `k` entries in a directory. -/
structure Sound (k : Nat) (s : Volume) : Prop where
  wellFormed : WellFormed (Header.blockCount s.header) s
  capacity : Capacity k s
  count : Header.nextFree s.header ≤ Header.blockCount s.header
  root : Header.rootDirectory s.header < Header.nextFree s.header
  listed : ∀ b, Listed s b → b < Header.nextFree s.header

/-- `path` is new and leads to the block that was the next free one. -/
structure NewPath (s s' : Volume) (path : List (List UInt8)) : Prop where
  found : blockAt s' path = some (Header.nextFree s.header)
  next : Header.nextFree s'.header = Header.nextFree s.header + 1
  kept : ∀ p b, asvfsGetBlockIdFromPathname s p = some b → b ≠ 0 →
    asvfsGetBlockIdFromPathname s' p = some b

section NewPath

variable {dst f : Nat} {c : List UInt8} {newBlock : Option Bytes}

theorem Created.nextFree (h : Created n s s' dst f c newBlock) (hroom : Room n s) :
    Header.nextFree s'.header = f + 1 := by
  have haddr := hroom.address
  rw [h.header]
  refine nextFree_setNextFree ?_
  rw [h.free]
  omega

theorem Created.blockCount (h : Created n s s' dst f c newBlock) :
    Header.blockCount s'.header = Header.blockCount s.header := by
  rw [h.header, blockCount_setNextFree]

theorem Created.sound (h : Created (Header.blockCount s.header) s s' dst f c newBlock)
    (hs : Sound 97 s) (hroom : Room (Header.blockCount s.header) s) (hcs : CanonicalNames [c])
    (hid : Meta.id (asvfsGetMetaData s f) = f) (hdst : Reach (view s) dst)
    (hfree : (view s).look dst c = none)
    (hleaf : ∀ l, (view s').listing f = some l → l = []) : Sound 98 s' := by
  have hnext := h.nextFree hroom
  have hcount := h.blockCount
  have hbelow := hroom.below
  have hroot := hs.root
  rw [← h.free] at hbelow hroot
  refine ⟨?_, fun d l hd hl => ?_, ?_, ?_, fun b hb => ?_⟩
  · rw [hcount]
    exact h.wellFormed hs.wellFormed hroom hcs hid hdst hfree hleaf
  · rcases (h.creates hs.wellFormed hroom).reach hleaf hd with hd | ⟨rfl, -⟩
    · exact (h.readable hs.wellFormed hroom hs.capacity hcs hid hd l hl).1
    · rw [hleaf l hl]
      exact Nat.zero_le _
  · rw [hnext, hcount]
    exact hbelow
  · rw [hnext, h.header, rootDirectory_setNextFree]
    exact Nat.lt_succ_of_lt hroot
  · rw [hnext]
    rcases h.listed hs.wellFormed hroom hleaf hb with hb | rfl
    · exact Nat.lt_succ_of_lt (h.free ▸ hs.listed b hb)
    · exact Nat.lt_succ_self b

theorem Created.newPath (h : Created n s s' dst f c newBlock) (hs : WellFormed n s)
    (hroom : Room n s) (hcap : Capacity 97 s) {Q : List (List UInt8)}
    (hnames : CanonicalNames (Q ++ [c])) (hid : Meta.id (asvfsGetMetaData s f) = f)
    (hQ : resolve (view s).look (view s).root Q = some dst)
    (hdir : ∃ l, (view s).listing dst = some l) (hfree : (view s).look dst c = none) :
    NewPath s s' (Q ++ [c]) where
  found := h.free ▸ h.found hs hroom hcap hnames hid hQ hdir hfree
  next := h.free ▸ h.nextFree hroom
  kept _ _ hb hb0 := h.kept hs hroom hcap (CanonicalNames.append.mp hnames).2 hid hfree hb hb0

theorem addNode_returns (hs : WellFormed n s) (hcap : Capacity 97 s) {Q : List (List UInt8)}
    (hnames : CanonicalNames (Q ++ [c])) (hQlen : (render slash Q).length < 1024)
    (hQ : resolve (view s).look (view s).root Q = some dst)
    (hdir : ∃ l, (view s).listing dst = some l)
    (hrecord : Meta.blockType (asvfsGetMetaData s dst) = asvfsBlockTypeDirectory) (mode : Int)
    (blockType : Nat) :
    ∃ s', asvfsAddNode s (render slash (Q ++ [c])) mode blockType newBlock = some (s', 0) := by
  have hcap' : Capacity 98 s := fun d ids hd hids => Nat.le_succ_of_le (hcap d ids hd hids)
  have hdst0 := hs.ne_zero (under_of_resolve hQ)
  have hdst := (hs.blockAt_eq_some hcap' (CanonicalNames.append.mp hnames).1 hdst0).mpr hQ
  obtain ⟨l, hl⟩ := hdir
  obtain ⟨data, hdata⟩ := appendIndex_isSome (Header.nextFree s.header)
    (Nat.lt_of_le_of_lt (nextIndex_le hcap (under_of_resolve hQ) hl) (by decide))
  obtain ⟨-, hlen, -⟩ := hnames.2 c (by simp)
  obtain ⟨m, hm⟩ := newMeta_returns (asvfsGetMetaData s (Header.nextFree s.header)) blockType mode
    (show 5 + c.length < 96 from Nat.lt_of_lt_of_le (Nat.add_lt_add_left hlen 5) (by decide))
  have hparts := pathParts_render hnames.1 hnames.fits
  rw [if_pos hQlen] at hparts
  rw [blockAt] at hdst
  refine ⟨writeNew { s with header := Header.setNextFree s.header (Header.nextFree s.header + 1) }
    dst (Header.nextFree s.header) data newBlock m, ?_⟩
  simp only [asvfsAddNode, hparts, hdst, Option.bind_eq_bind, Option.bind_some, if_neg hdst0,
    hrecord,
    ne_eq, not_true_eq_false, if_false]
  exact Option.bind_eq_some_iff.mpr ⟨data, hdata, Option.bind_eq_some_iff.mpr ⟨m, hm, rfl⟩⟩

/-- A creation under a free name in a directory, when it says that it succeeded. -/
theorem Sound.addNode_created (hs : Sound 97 s) (hroom : Room (Header.blockCount s.header) s)
    {Q : List (List UInt8)} (hnames : CanonicalNames (Q ++ [c]))
    (hQ : resolve (view s).look (view s).root Q = some dst) {mode : Int} {blockType : Nat}
    (hr : asvfsAddNode s (render slash (Q ++ [c])) mode blockType newBlock = some (s', 0)) :
    Created (Header.blockCount s.header) s s' dst (Header.nextFree s.header) c newBlock := by
  rcases hs.wellFormed.addNode_step hroom hnames.cstring hr with
    ⟨-, herr⟩ | ⟨-, p, c', dst', hp, hdst', hcreated⟩
  · exact absurd rfl herr
  · obtain ⟨rfl, rfl⟩ := pathParts_unique hnames hQ hp hdst'
    exact hcreated

end NewPath

/-- A fresh name in a directory: the new path leads to the block that was the
next free one, the old paths lead where they led, and the drive is well formed.
A new file shows what its block held before, so for `asvfs_mknod` the latter
asks that this was no directory. -/
theorem create_exact (hs : Sound 97 s)
    (hbelow : Header.nextFree s.header < Header.blockCount s.header)
    (haddr : Header.nextFree s.header < 2 ^ 20)
    (hid : Meta.id (asvfsGetMetaData s (Header.nextFree s.header)) = Header.nextFree s.header)
    {Q : List (List UInt8)} {c : List UInt8} {dst : Nat} (hnames : CanonicalNames (Q ++ [c]))
    (hfree : blockAt s (Q ++ [c]) = some 0) (hdst : blockAt s Q = some dst) (hdst0 : dst ≠ 0)
    (hdir : Directory.type (directoryBlock s dst) = asvfsBlockTypeDirectory)
    (mode : Int) (stack : Bytes) :
    ((render slash Q).length < 1024 →
      Meta.blockType (asvfsGetMetaData s dst) = asvfsBlockTypeDirectory →
      (∃ s', asvfsMknod s (render slash (Q ++ [c])) mode = some (s', 0)) ∧
        ∃ s', asvfsMkdir s stack (render slash (Q ++ [c])) mode = some (s', 0)) ∧
    (∀ s', asvfsMknod s (render slash (Q ++ [c])) mode = some (s', 0) →
      NewPath s s' (Q ++ [c]) ∧
      (Directory.type (directoryBlock s (Header.nextFree s.header)) ≠ asvfsBlockTypeDirectory →
        Sound 98 s')) ∧
    ∀ s', asvfsMkdir s stack (render slash (Q ++ [c])) mode = some (s', 0) →
      NewPath s s' (Q ++ [c]) ∧
      (view s').listing (Header.nextFree s.header) = some [] ∧ Sound 98 s' := by
  have hcap' : Capacity 98 s := fun d ids hd hids => Nat.le_succ_of_le (hs.capacity d ids hd hids)
  have hroom : Room (Header.blockCount s.header) s := ⟨hbelow, haddr, hs.root, hs.listed⟩
  have hcs := (CanonicalNames.append.mp hnames).2
  have hQ := (hs.wellFormed.blockAt_eq_some hcap' (CanonicalNames.append.mp hnames).1 hdst0).mp hdst
  have hnone := (hs.wellFormed.blockAt_eq_zero hcap' hnames).mp hfree
  rw [PathTree.resolve_concat, hQ, Option.bind_some] at hnone
  have hlisting : ∃ l, (view s).listing dst = some l := ⟨_, listing_eq_some.mpr ⟨hdir, rfl⟩⟩
  have hreach := under_of_resolve hQ
  have hplaced := hroom.placed hs.wellFormed
  refine ⟨fun hQlen hrecord => ⟨?_, ?_⟩, fun s' hr => ?_, fun s' hr => ?_⟩
  · exact addNode_returns hs.wellFormed hs.capacity hnames hQlen hQ hlisting hrecord mode _
  · exact addNode_returns hs.wellFormed hs.capacity hnames hQlen hQ hlisting hrecord mode _
  · have hcreated := hs.addNode_created hroom hnames hQ hr
    refine ⟨hcreated.newPath hs.wellFormed hroom hs.capacity hnames hid hQ hlisting hnone,
      fun htype => hcreated.sound hs hroom hcs hid hreach hnone fun l hl => ?_⟩
    rw [hcreated.file_listing hplaced (Nat.ne_of_gt (hroom.reach_lt hreach)) htype] at hl
    cases hl
  · have hcreated := hs.addNode_created hroom hnames hQ hr
    have hempty := hcreated.dir_listing
    refine ⟨hcreated.newPath hs.wellFormed hroom hs.capacity hnames hid hQ hlisting hnone, hempty,
      hcreated.sound hs hroom hcs hid hreach hnone fun l hl => ?_⟩
    rw [hempty] at hl
    exact (Option.some.inj hl).symm

/-- What has to be checked of a drive on top of `Checked`. -/
theorem Checked.sound {k : Nat} {bs : List Nat} (h : Checked (Header.blockCount s.header) s bs)
    (hentries : ∀ d ∈ bs, (entriesAt s d).length ≤ k ∧
      ∀ b ∈ entriesAt s d, b < Header.nextFree s.header)
    (hcount : Header.nextFree s.header ≤ Header.blockCount s.header)
    (hroot : Header.rootDirectory s.header < Header.nextFree s.header) : Sound k s where
  wellFormed := h.wellFormed
  capacity d ids hd hids := entriesAt_of_listing hids ▸ (hentries d (h.reach hd)).1
  count := hcount
  root := hroot
  listed b hb := by
    obtain ⟨d, ids, hd, hids, hmem⟩ := hb
    exact (hentries d (h.reach hd)).2 b (entriesAt_of_listing hids ▸ hmem)

theorem smallDrive_sound : Sound 97 smallDrive :=
  smallDrive_checked.sound (by decide +kernel) (by decide) (by decide)

theorem create_exact_small :
    ((render slash ([] : List (List UInt8))).length < 1024 →
      Meta.blockType (asvfsGetMetaData smallDrive 1) = asvfsBlockTypeDirectory →
      (∃ s', asvfsMknod smallDrive (render slash ([] ++ [[98]])) 420 = some (s', 0)) ∧
        ∃ s', asvfsMkdir smallDrive (bytesOf []) (render slash ([] ++ [[98]])) 420 = some (s', 0)) ∧
    (∀ s', asvfsMknod smallDrive (render slash ([] ++ [[98]])) 420 = some (s', 0) →
      NewPath smallDrive s' ([] ++ [[98]]) ∧
      (Directory.type (directoryBlock smallDrive (Header.nextFree smallDrive.header)) ≠
        asvfsBlockTypeDirectory → Sound 98 s')) ∧
    ∀ s', asvfsMkdir smallDrive (bytesOf []) (render slash ([] ++ [[98]])) 420 = some (s', 0) →
      NewPath smallDrive s' ([] ++ [[98]]) ∧
      (view s').listing (Header.nextFree smallDrive.header) = some [] ∧ Sound 98 s' :=
  create_exact smallDrive_sound (by decide) (by decide) (by decide +kernel)
    (by unfold CanonicalNames Names; decide) (by decide +kernel)
    (show blockAt smallDrive [] = some 1 by decide +kernel) (by decide) (by decide +kernel) 420
    (bytesOf [])

def fullDrive : Volume :=
  { smallDrive with header := bytesOf [(14, 16), (17, 4), (21, 1), (25, 3)] }

/-- The small drive with what was once a directory in its next free block. -/
def staleDrive : Volume where
  header := smallDrive.header
  disk := write smallDrive.disk 12288 directorySize (bytesOf [(0, 2), (4, 7), (1028, 1)])

/-- The small drive with its root behind the next free block. -/
def highRootDrive : Volume where
  header := bytesOf [(14, 16), (17, 8), (21, 3), (25, 3)]
  disk := setLe 1 (write smallDrive.disk 12288 directorySize (bytesOf [(0, 2), (4, 2), (1028, 1)]))
    353 2

/-- A drive with a next free block and nothing listed behind it. -/
def Ready (s : Volume) : Prop :=
  WellFormed (Header.blockCount s.header) s ∧ Capacity 97 s ∧
    Header.nextFree s.header < Header.blockCount s.header ∧
    (∀ b, Listed s b → b < Header.nextFree s.header) ∧
    Meta.id (asvfsGetMetaData s (Header.nextFree s.header)) = Header.nextFree s.header

theorem Checked.ready {bs : List Nat} (h : Checked (Header.blockCount s.header) s bs)
    (hentries : ∀ d ∈ bs, (entriesAt s d).length ≤ 97 ∧
      ∀ b ∈ entriesAt s d, b < Header.nextFree s.header)
    (hbelow : Header.nextFree s.header < Header.blockCount s.header)
    (hid : Meta.id (asvfsGetMetaData s (Header.nextFree s.header)) = Header.nextFree s.header) :
    Ready s := by
  refine ⟨h.wellFormed, fun d ids hd hids => ?_, hbelow, ?_, hid⟩
  · exact entriesAt_of_listing hids ▸ (hentries d (h.reach hd)).1
  · rintro b ⟨d, ids, hd, hids, hmem⟩
    exact (hentries d (h.reach hd)).2 b (entriesAt_of_listing hids ▸ hmem)

/-- `/b`: after the last block none is free; a new file may be a directory,
with entries behind `next_free`; a directory may be written over the root. -/
theorem create_spoils :
    (Ready fullDrive ∧ blockAt fullDrive [[98]] = some 0 ∧
      ∃ s', asvfsMkdir fullDrive (bytesOf []) (render slash [[98]]) 420 = some (s', 0) ∧
        ¬ Ready s') ∧
    (Ready staleDrive ∧ blockAt staleDrive [[98]] = some 0 ∧
      ∃ s', asvfsMknod staleDrive (render slash [[98]]) 420 = some (s', 0) ∧
        ∃ b, Listed s' b ∧ ¬ b < Header.nextFree s'.header) ∧
    Ready highRootDrive ∧ blockAt highRootDrive [[98]] = some 0 ∧
      ∃ s', asvfsMkdir highRootDrive (bytesOf []) (render slash [[98]]) 420 = some (s', 0) ∧
        blockAt s' [[98]] = some 0 := by
  have hfull : Checked 4 fullDrive [1, 2] := by decide +kernel
  have hstale : Checked 8 staleDrive [1, 2] := by decide +kernel
  have hhigh : Checked 8 highRootDrive [3, 2] := by decide +kernel
  have hfullRun : (asvfsMkdir fullDrive (bytesOf []) (render slash [[98]]) 420).any (fun x =>
      x.2 = 0 ∧ ¬ Header.nextFree x.1.header < Header.blockCount x.1.header) = true := by
    decide +kernel
  have hstaleRun : (asvfsMknod staleDrive (render slash [[98]]) 420).any (fun x => x.2 = 0 ∧
      Header.nextFree x.1.header = 4 ∧ (view x.1).root = 1 ∧ (view x.1).listing 1 = some [2, 3] ∧
      (view x.1).listing 3 = some [7]) = true := by decide +kernel
  have hhighRun : (asvfsMkdir highRootDrive (bytesOf []) (render slash [[98]]) 420).any (fun x =>
      x.2 = 0 ∧ blockAt x.1 [[98]] = some 0) = true := by decide +kernel
  refine ⟨⟨hfull.ready (by decide +kernel) (by decide) (by decide +kernel), by decide +kernel, ?_⟩,
    ⟨hstale.ready (by decide +kernel) (by decide) (by decide +kernel), by decide +kernel, ?_⟩,
    hhigh.ready (by decide +kernel) (by decide) (by decide +kernel), by decide +kernel, ?_⟩
  · obtain ⟨⟨s', r⟩, hr, hafter⟩ := (Option.any_eq_true _ _).mp hfullRun
    obtain ⟨hzero, hnext⟩ := of_decide_eq_true hafter
    obtain rfl : r = 0 := hzero
    exact ⟨s', hr, fun h => hnext h.2.2.1⟩
  · obtain ⟨⟨s', r⟩, hr, hafter⟩ := (Option.any_eq_true _ _).mp hstaleRun
    obtain ⟨hzero, hnext, hroot, htop, hstray⟩ := of_decide_eq_true hafter
    obtain rfl : r = 0 := hzero
    have hreach : Reach (view s') 3 := by
      refine .entry (d := 1) ?_ htop (by decide)
      exact hroot ▸ .refl
    exact ⟨s', hr, 7, ⟨3, [7], hreach, hstray, List.mem_singleton_self 7⟩, by rw [hnext]; decide⟩
  · obtain ⟨⟨s', r⟩, hr, hafter⟩ := (Option.any_eq_true _ _).mp hhighRun
    obtain ⟨hzero, hnone⟩ := of_decide_eq_true hafter
    obtain rfl : r = 0 := hzero
    exact ⟨s', hr, hnone⟩

end VersionSix.Asvfs
