import VersionSix.AsvfsTree

/-!
# ASVFS: rename

`asvfs_unlink` and `asvfs_rename`. A rename within a directory writes another
name into the metadata record. One to another directory unlinks the entry,
appends its block to the other directory, and then changes the name if it is a
new one. The two parents are read into two buffers before anything is written,
and the answer of `asvfs_unlink` is not looked at.

What a rename that returns did to the tree is `rename_step`: nothing, a new
label (`Relabels`) or a move (`Moves`). It is proved once, for every
well-formed drive and all pairs of paths; no later proof unfolds the function.
The step says nothing about the result being a tree: a name may come up twice
afterwards, or a directory may hang below itself.

When it is one is a question for `DirTree`, and `Renamed.wellFormed` carries
the answer back to the drive.
-/

namespace VersionSix.Asvfs

open ByteStore DirTree PathText
open PathTree (resolve)

variable {s s' : Volume} {n : Nat}

/-! ## Functions -/

def asvfsUnlink (s : Volume) (pathname : List UInt8) : Option (Volume × Int) := do
  let (parentDir, _) ← asvfsGetPathParts pathname
  let parentBlockId ← asvfsGetBlockIdFromPathname s parentDir
  if parentBlockId = 0 then some (s, asvfsErrorPathNotFound)
  else
    let parentBlock := directoryBlock s parentBlockId
    let childBlockId ← asvfsGetBlockIdFromPathname s pathname
    if childBlockId = 0 then some (s, asvfsErrorPathNotFound)
    else if Directory.nextIndex parentBlock > 256 then none
    else some (asvfsWriteBlock s parentBlockId directorySize (unlinkBlock childBlockId parentBlock),
      asvfsErrorNone)

/-- Another name in the metadata record of `id`. -/
def writeName (s : Volume) (id : Nat) (name : List UInt8) : Option Volume :=
  (Meta.strcpyName (asvfsGetMetaData s id) name).map (asvfsWriteMetaData s id)

/-- The move to the directory `toPathBlockId`. What `asvfs_unlink` returns is
not looked at. -/
def renameAcross (s : Volume) (src fromChildName toChildName : List UInt8)
    (toPathBlockId fromPathnameBlockId : Nat) : Option (Volume × Int) := do
  let (s, _) ← asvfsUnlink s src
  let newParentDir ← appendIndex (directoryBlock s toPathBlockId) fromPathnameBlockId
  let s := asvfsWriteBlock s toPathBlockId directorySize newParentDir
  if fromChildName ≠ toChildName then
    (writeName s fromPathnameBlockId toChildName).map (·, 0)
  else some (s, 0)

def asvfsRename (s : Volume) (src dst : List UInt8) : Option (Volume × Int) := do
  let (fromParentName, fromChildName) ← asvfsGetPathParts src
  let (toParentName, toChildName) ← asvfsGetPathParts dst
  let fromPathBlockId ← asvfsGetBlockIdFromPathname s fromParentName
  if fromPathBlockId = 0 then some (s, asvfsErrorPathNotFound)
  else
    let toPathBlockId ← asvfsGetBlockIdFromPathname s toParentName
    if toPathBlockId = 0 then some (s, asvfsErrorPathNotFound)
    else
      let fromPathnameBlockId ← asvfsGetBlockIdFromPathname s src
      if fromPathnameBlockId = 0 then some (s, asvfsErrorPathNotFound)
      else if fromPathBlockId = toPathBlockId then
        (writeName s fromPathnameBlockId toChildName).map (·, 0)
      else renameAcross s src fromChildName toChildName toPathBlockId fromPathnameBlockId

/-! ## A name -/

section WriteName

variable {f : Nat} {name : List UInt8}

theorem writeName_eq (h : writeName s f name = some s') :
    5 + name.length < metaSize ∧
      s' = asvfsWriteMetaData s f (putStr (asvfsGetMetaData s f) 5 name) := by
  obtain ⟨m, hm, rfl⟩ := Option.map_eq_some_iff.mp h
  obtain ⟨hlen, hm'⟩ := Option.ite_none_right_eq_some.mp hm
  exact ⟨hlen, by rw [← Option.some.inj hm']⟩

theorem writeName_returns (s : Volume) (f : Nat) (name : List UInt8)
    (h : 5 + name.length < metaSize) :
    ∃ s', writeName s f name = some s' := by
  rw [writeName, Meta.strcpyName, if_pos h]
  exact ⟨_, rfl⟩

theorem writeName_head (hplace : metaOffset f < 2 ^ 32) (h : writeName s f name = some s') {i : Nat}
    (hi : i < 5) : asvfsGetMetaData s' f i = asvfsGetMetaData s f i := by
  obtain ⟨-, rfl⟩ := writeName_eq h
  rw [getMeta_writeMeta_same hplace, read_eq (show i < metaSize by unfold metaSize; omega),
    Nat.zero_add, putStr_out (.inl hi)]

theorem writeName_name (hplace : metaOffset f < 2 ^ 32) (h : writeName s f name = some s')
    (hname : CString name) (hlen : name.length < asvfsMaxNameSize) :
    Meta.name (asvfsGetMetaData s' f) = some name := by
  obtain ⟨-, rfl⟩ := writeName_eq h
  rw [getMeta_writeMeta_same hplace, Meta.name_read, Meta.name]
  exact cstr_putStr (fun c hc h0 => hname (h0 ▸ hc)) hlen

end WriteName

/-! ## What a rename does -/

/-- The block `f` is taken from the directory `src` to the directory `dst`; what
was not read or written for that is unchanged. -/
structure Renamed (n : Nat) (s s' : Volume) (src dst f : Nat) : Prop where
  header : s'.header = s.header
  record : ∀ b, b ≠ f → b < n → asvfsGetMetaData s' b = asvfsGetMetaData s b
  head : ∀ i < 5, asvfsGetMetaData s' f i = asvfsGetMetaData s f i
  block : ∀ d, Placed n d → src = dst ∨ d ≠ src ∧ d ≠ dst → directoryBlock s' d = directoryBlock s d
  source : src ≠ dst → (view s').listing src = ((view s).listing src).map (unlinked f)
  target : src ≠ dst → (view s').listing dst = ((view s).listing dst).map (· ++ [f])

theorem writeName_renamed {f d : Nat} {name : List UInt8} (hf : f < n)
    (hplace : metaOffset f < 2 ^ 32) (h : writeName s f name = some s') : Renamed n s s' d d f where
  header := by
    obtain ⟨-, rfl⟩ := writeName_eq h
    exact writeMeta_header ..
  record b hb _ := by
    obtain ⟨-, rfl⟩ := writeName_eq h
    exact getMeta_writeMeta_ne hplace hb _
  head i hi := writeName_head hplace h hi
  block d hd _ := by
    obtain ⟨-, rfl⟩ := writeName_eq h
    exact directoryBlock_writeMeta hf hd _
  source hne := absurd rfl hne
  target hne := absurd rfl hne

theorem Renamed.writeName {src dst f : Nat} {name : List UInt8} {s₁ : Volume}
    (h₁ : Renamed n s s₁ src dst f) (hf : f < n) (hsrc : Placed n src) (hdst : Placed n dst)
    (h : writeName s₁ f name = some s') : Renamed n s s' src dst f := by
  have hlater := writeName_renamed (d := src) hf (hsrc.metaOffset_lt hf) h
  refine ⟨hlater.header.trans h₁.header,
    fun b hb hn => (hlater.record b hb hn).trans (h₁.record b hb hn),
    fun i hi => (hlater.head i hi).trans (h₁.head i hi),
    fun d hd hcase => (hlater.block d hd (.inl rfl)).trans (h₁.block d hd hcase),
    fun hne => ?_, fun hne => ?_⟩
  · rw [listing_congr (hlater.block src hsrc (.inl rfl)), h₁.source hne]
  · rw [listing_congr (hlater.block dst hdst (.inl rfl)), h₁.target hne]

theorem renamed_blocks {src dst f : Nat} {data : Bytes}
    (hsize : Header.blockSize s.header = 4096) (hne : src ≠ dst) (hf : f < n) (hf' : Placed n f)
    (hsrc : Placed n src) (hdst : Placed n dst)
    (hlen : Directory.nextIndex (directoryBlock s src) ≤ 256)
    (hdata : appendIndex (directoryBlock s dst) f = some data) :
    Renamed n s (asvfsWriteBlock (asvfsWriteBlock s src directorySize
      (unlinkBlock f (directoryBlock s src))) dst directorySize data) src dst f := by
  obtain ⟨htype, hnext, -⟩ := unlinkBlock_shifts f hlen
  have hlarge : f < 2 ^ 32 := Nat.lt_trans hf'.address (by decide)
  obtain ⟨htype', hnext', hents'⟩ := appendIndex_spec hlarge hdata
  have hsize' : Header.blockSize (asvfsWriteBlock s src directorySize
      (unlinkBlock f (directoryBlock s src))).header = 4096 := by rw [writeBlock_header, hsize]
  have hrecord : ∀ b < n, asvfsGetMetaData (asvfsWriteBlock (asvfsWriteBlock s src directorySize
      (unlinkBlock f (directoryBlock s src))) dst directorySize data) b = asvfsGetMetaData s b :=
    fun b hb => by rw [getMeta_writeBlock hsize' hb hdst, getMeta_writeBlock hsize hb hsrc]
  refine ⟨by simp only [writeBlock_header], fun b _ hb => hrecord b hb,
    fun i _ => by rw [hrecord f hf], fun d hd hcase => ?_, fun _ => ?_, fun _ => ?_⟩
  · obtain ⟨hds, hdd⟩ := hcase.resolve_left hne
    rw [directoryBlock_writeBlock_ne hsize' hdst hd hdd,
      directoryBlock_writeBlock_ne hsize hsrc hd hds]
  · rw [listing_congr (directoryBlock_writeBlock_ne hsize' hdst hsrc hne _),
      listing_writeBlock hsize hsrc (by rw [hnext]; omega), htype, entries_unlinkBlock f hlen]
    simp only [view]
    split <;> rfl
  · rw [listing_writeBlock hsize' hdst hnext', htype', hents']
    simp only [view]
    split <;> rfl

theorem asvfsUnlink_eq {path p c : List UInt8} {src f : Nat}
    (hparts : asvfsGetPathParts path = some (p, c))
    (hsrc : asvfsGetBlockIdFromPathname s p = some src) (hsrc0 : src ≠ 0)
    (hf : asvfsGetBlockIdFromPathname s path = some f) (hf0 : f ≠ 0) :
    asvfsUnlink s path =
      if Directory.nextIndex (directoryBlock s src) > 256 then none
      else
        some (asvfsWriteBlock s src directorySize (unlinkBlock f (directoryBlock s src)), 0) := by
  simp only [asvfsUnlink, hparts, hsrc, hf, Option.bind_eq_bind, Option.bind_some, if_neg hsrc0,
    if_neg hf0]
  rfl

/-- What a rename looks up: the block `f` to be renamed, and the blocks of the
two parents. -/
structure Found (s : Volume) (src dst : List UInt8) (P Q f : Nat) (c c' : List UInt8) : Prop where
  source : ∃ p, asvfsGetPathParts src = some (p, c) ∧
    resolve (view s).look (view s).root (words slash [] p) = some P
  target : ∃ q, asvfsGetPathParts dst = some (q, c') ∧
    resolve (view s).look (view s).root (words slash [] q) = some Q
  block : resolve (view s).look (view s).root (words slash [] src) = some f

/-- What a rename that has found everything did. -/
structure RenameStep (n : Nat) (s s' : Volume) (P Q f : Nat) (c c' : List UInt8) : Prop where
  renamed : Renamed n s s' P Q f
  name : P = Q ∨ c ≠ c' → ∃ s₁, writeName s₁ f c' = some s'
  keeps : P ≠ Q → c = c' → asvfsGetMetaData s' f = asvfsGetMetaData s f

theorem WellFormed.renameAcross_step (h : WellFormed n s) {src p c c' : List UInt8}
    {P Q f : Nat} {r : Int} (hsrc : CString src) (hparts : asvfsGetPathParts src = some (p, c))
    (hP : asvfsGetBlockIdFromPathname s p = some P) (hP0 : P ≠ 0)
    (hf : asvfsGetBlockIdFromPathname s src = some f) (hf0 : f ≠ 0)
    (hQ : Reach (view s) Q) (hne : P ≠ Q)
    (hr : renameAcross s src c c' Q f = some (s', r)) :
    r = 0 ∧ Renamed n s s' P Q f ∧
      (c ≠ c' → ∃ s₁, asvfsGetMetaData s₁ f = asvfsGetMetaData s f ∧
        writeName s₁ f c' = some s') ∧
      (c = c' → asvfsGetMetaData s' f = asvfsGetMetaData s f) := by
  obtain ⟨-, hpnul⟩ := pathParts_words hsrc hparts
  obtain ⟨-, hPplaced⟩ := h.placed P (under_of_resolve (h.pathname_resolves hpnul hP hP0))
  obtain ⟨hfn, hfplaced⟩ := h.placed f (under_of_resolve (h.pathname_resolves hsrc hf hf0))
  obtain ⟨-, hQplaced⟩ := h.placed Q hQ
  have hblock : ∀ data, directoryBlock (asvfsWriteBlock s P directorySize data) Q =
      directoryBlock s Q :=
    directoryBlock_writeBlock_ne h.blockSize hPplaced hQplaced (Ne.symm hne)
  rw [renameAcross, asvfsUnlink_eq hparts hP hP0 hf hf0] at hr
  split at hr
  · cases hr
  · next hlen =>
    simp only [Option.bind_eq_bind, Option.bind_some, hblock] at hr
    obtain ⟨data, hdata, hr⟩ := Option.bind_eq_some_iff.mp hr
    have hblocks := renamed_blocks h.blockSize hne hfn hfplaced hPplaced hQplaced
      (Nat.le_of_not_lt hlen) hdata
    have hrecord : asvfsGetMetaData (asvfsWriteBlock (asvfsWriteBlock s P directorySize
        (unlinkBlock f (directoryBlock s P))) Q directorySize data) f = asvfsGetMetaData s f := by
      rw [getMeta_writeBlock (by rw [writeBlock_header, h.blockSize]; rfl) hfn hQplaced,
        getMeta_writeBlock h.blockSize hfn hPplaced]
    split at hr
    · next hcc =>
      obtain ⟨s'', hname, heq⟩ := Option.map_eq_some_iff.mp hr
      obtain ⟨rfl, rfl⟩ := Prod.mk.inj heq
      exact ⟨rfl, hblocks.writeName hfn hPplaced hQplaced hname, fun _ => ⟨_, hrecord, hname⟩,
        fun hc => absurd hc hcc⟩
    · next hcc =>
      obtain ⟨rfl, rfl⟩ := Prod.mk.inj (Option.some.inj hr)
      exact ⟨rfl, hblocks, fun hc => absurd hc hcc, fun _ => hrecord⟩

theorem Found.unique {src dst c c' d d' : List UInt8} {P Q f P' Q' f' : Nat}
    (h : Found s src dst P Q f c c') (h' : Found s src dst P' Q' f' d d') :
    P = P' ∧ Q = Q' ∧ f = f' ∧ c = d ∧ c' = d' := by
  obtain ⟨p, hp, hP⟩ := h.source
  obtain ⟨p', hp', hP'⟩ := h'.source
  obtain ⟨q, hq, hQ⟩ := h.target
  obtain ⟨q', hq', hQ'⟩ := h'.target
  obtain ⟨rfl, rfl⟩ := Prod.mk.inj (Option.some.inj (hp.symm.trans hp'))
  obtain ⟨rfl, rfl⟩ := Prod.mk.inj (Option.some.inj (hq.symm.trans hq'))
  exact ⟨Option.some.inj (hP.symm.trans hP'), Option.some.inj (hQ.symm.trans hQ'),
    Option.some.inj (h.block.symm.trans h'.block), rfl, rfl⟩

/-- A rename that returns has not found everything, changed nothing and says
so, or it is a step. -/
theorem WellFormed.rename_step (h : WellFormed n s) {src dst : List UInt8} {r : Int}
    (hsrc : CString src) (hdst : CString dst) (hr : asvfsRename s src dst = some (s', r)) :
    (s' = s ∧ r = asvfsErrorPathNotFound ∧ ∀ P Q f c c', ¬ Found s src dst P Q f c c') ∨
      r = 0 ∧ ∃ P Q f c c', Found s src dst P Q f c c' ∧ RenameStep n s s' P Q f c c' := by
  obtain ⟨⟨p, c⟩, hp, hr⟩ := Option.bind_eq_some_iff.mp hr
  obtain ⟨⟨q, c'⟩, hq, hr⟩ := Option.bind_eq_some_iff.mp hr
  obtain ⟨P, hP, hr⟩ := Option.bind_eq_some_iff.mp hr
  have hstop : ∀ {x : Option (Volume × Int)} {path : List UInt8} {b : Nat}, CString path →
      asvfsGetBlockIdFromPathname s path = some b →
      (if b = 0 then some (s, asvfsErrorPathNotFound) else x) = some (s', r) →
      (s' = s ∧ r = asvfsErrorPathNotFound ∧
          resolve (view s).look (view s).root (words slash [] path) = none) ∨
        b ≠ 0 ∧ resolve (view s).look (view s).root (words slash [] path) = some b ∧
          x = some (s', r) := by
    intro x path b hpath hb hx
    rcases h.pathname_cases hpath hb with ⟨rfl, hnone⟩ | ⟨hb0, hres⟩
    · obtain ⟨rfl, rfl⟩ := Prod.mk.inj (Option.some.inj hx)
      exact .inl ⟨rfl, rfl, hnone⟩
    · rw [if_neg hb0] at hx
      exact .inr ⟨hb0, hres, hx⟩
  rcases hstop (pathParts_words hsrc hp).2 hP hr with ⟨hs, hr, hnone⟩ | ⟨hP0, hPres, hr⟩
  · refine .inl ⟨hs, hr, fun P' Q f d d' hfound => ?_⟩
    obtain ⟨p', hp', hP'⟩ := hfound.source
    obtain ⟨rfl, -⟩ := Prod.mk.inj (Option.some.inj (hp.symm.trans hp'))
    rw [hnone] at hP'
    cases hP'
  obtain ⟨Q, hQ, hr⟩ := Option.bind_eq_some_iff.mp hr
  rcases hstop (pathParts_words hdst hq).2 hQ hr with ⟨hs, hr, hnone⟩ | ⟨-, hQres, hr⟩
  · refine .inl ⟨hs, hr, fun P' Q' f d d' hfound => ?_⟩
    obtain ⟨q', hq', hQ'⟩ := hfound.target
    obtain ⟨rfl, -⟩ := Prod.mk.inj (Option.some.inj (hq.symm.trans hq'))
    rw [hnone] at hQ'
    cases hQ'
  obtain ⟨f, hf, hr⟩ := Option.bind_eq_some_iff.mp hr
  rcases hstop hsrc hf hr with ⟨hs, hr, hnone⟩ | ⟨hf0, hfres, hr⟩
  · refine .inl ⟨hs, hr, fun P' Q' f d d' hfound => ?_⟩
    rw [hfound.block] at hnone
    cases hnone
  obtain ⟨hfn, hfplaced⟩ := h.placed f (under_of_resolve hfres)
  have hfound : Found s src dst P Q f c c' := ⟨⟨p, hp, hPres⟩, ⟨q, hq, hQres⟩, hfres⟩
  right
  split at hr
  · next hsame =>
    obtain ⟨s'', hname, heq⟩ := Option.map_eq_some_iff.mp hr
    obtain ⟨rfl, rfl⟩ := Prod.mk.inj heq
    subst hsame
    exact ⟨rfl, P, P, f, c, c', hfound, writeName_renamed hfn (hfplaced.metaOffset_lt hfn) hname,
      fun _ => ⟨s, hname⟩,
      fun hne => absurd rfl hne⟩
  · next hne =>
    obtain ⟨hr0, hren, hname, hkeeps⟩ := h.renameAcross_step hsrc hp hP hP0 hf hf0
      (under_of_resolve hQres) hne hr
    refine ⟨hr0, P, Q, f, c, c', hfound, hren, fun hcase => ?_, fun _ => hkeeps⟩
    obtain ⟨s₁, -, hwrite⟩ := hname (hcase.resolve_left hne)
    exact ⟨s₁, hwrite⟩

/-! ## What it does to the tree -/

theorem Renamed.relabels {f d : Nat} (h : Renamed n s s' d d f) (hs : WellFormed n s) :
    Relabels (view s) (view s') f ((view s').name f) where
  root := root_congr h.header
  listing hb := listing_congr (h.block _ (hs.placed _ hb).2 (.inl rfl))
  named := rfl
  name hb hne := name_congr (h.record _ hne (hs.placed _ hb).1)

theorem Renamed.moves {src dst f : Nat} (h : Renamed n s s' src dst f) (hne : src ≠ dst)
    (hs : WellFormed n s) : Moves (view s) (view s') src dst f ((view s').name f) where
  root := root_congr h.header
  source := h.source hne
  target := h.target hne
  listing hb hbs hbd := listing_congr (h.block _ (hs.placed _ hb).2 (.inr ⟨hbs, hbd⟩))
  named := rfl
  name hb hbf := name_congr (h.record _ hbf (hs.placed _ hb).1)

theorem Renamed.id {src dst f b : Nat} (h : Renamed n s s' src dst f) (hb : b < n) :
    Meta.id (asvfsGetMetaData s' b) = Meta.id (asvfsGetMetaData s b) := by
  by_cases hbf : b = f
  · rw [hbf]
    exact le_congr fun i hi => h.head _ (by omega)
  · rw [h.record b hbf hb]

/-- The drive is well formed afterwards if the tree is one and the new name may
stand in it. -/
theorem Renamed.wellFormed {src dst f : Nat} (h : Renamed n s s' src dst f) (hs : WellFormed n s)
    (htree : Tree (view s')) (hreach : ∀ b, Reach (view s') b → Reach (view s) b)
    (hlisted : ∀ b, Listed s' b → Listed s b)
    (hname : ∃ name, Meta.name (asvfsGetMetaData s' f) = some name ∧ name ≠ [] ∧ name ≠ dot ∧
      name ≠ dotDot) : WellFormed n s' where
  blockSize := by rw [h.header, hs.blockSize]
  root := by rw [h.header]; exact hs.root
  tree := htree
  placed b hb := hs.placed b (hreach b hb)
  id b hb := by
    have hb₀ := hlisted b hb
    rw [h.id (hs.placed b hb₀.reach).1, hs.id b hb₀]
  name b hb := by
    have hb₀ := hlisted b hb
    by_cases hbf : b = f
    · exact hbf ▸ hname
    · rw [h.record b hbf (hs.placed b hb₀.reach).1]
      exact hs.name b hb₀

/-! ## Renaming to a free name

The block `f`, called `c` in the directory `src`, is called `c'` in `dst`,
where no other entry has this name. -/

structure Renamable (s : Volume) (c c' : List UInt8) (src dst f : Nat) : Prop where
  to_name : CanonicalNames [c']
  source : Reach (view s) src
  entry : ∃ ids, (view s).listing src = some ids ∧ f ∈ ids ∧ (view s).name f = c
  target : Reach (view s) dst
  free : ∀ ids, (view s).listing dst = some ids → ∀ b ∈ ids, (view s).name b = c' → b = f

section Renamable

variable {c c' : List UInt8} {src dst f : Nat}

theorem Renamable.listed (h : Renamable s c c' src dst f) : Listed s f := by
  obtain ⟨ids, hids, hmem, -⟩ := h.entry
  exact ⟨src, ids, h.source, hids, hmem⟩

/-- The block is called `c'` afterwards, whether the name was written or stayed. -/
theorem Renamable.name (h : Renamable s c c' src dst f) (hs : WellFormed n s)
    (hstep : RenameStep n s s' src dst f c c') :
    Meta.name (asvfsGetMetaData s' f) = some c' := by
  obtain ⟨hnul, hlen, -⟩ := h.to_name.2 c' (List.mem_singleton_self c')
  by_cases hwrite : src = dst ∨ c ≠ c'
  · obtain ⟨s₁, hname⟩ := hstep.name hwrite
    obtain ⟨hf, hplaced⟩ := hs.placed f h.listed.reach
    exact writeName_name (hplaced.metaOffset_lt hf) hname hnul hlen
  · obtain ⟨hne, hcc⟩ := not_or.mp hwrite
    have hcc' : c = c' := not_not.mp hcc
    obtain ⟨name, hname, -⟩ := hs.name f h.listed
    obtain ⟨-, -, -, hview⟩ := h.entry
    rw [hstep.keeps hne hcc', hname, ← hcc', ← hview, view]
    simp only [hname, Option.getD_some]

theorem Renamable.view_name (h : Renamable s c c' src dst f) (hs : WellFormed n s)
    (hstep : RenameStep n s s' src dst f c c') : (view s').name f = c' := by
  simp only [view, h.name hs hstep, Option.getD_some]

theorem Renamable.free_name (h : Renamable s c c' src dst f) (hs : WellFormed n s)
    (hne : src ≠ dst) :
    ∀ ids, (view s).listing dst = some ids → ∀ b ∈ ids, (view s).name b ≠ c' := by
  intro l hl b hb hbc
  obtain ⟨ids, hids, hmem, -⟩ := h.entry
  obtain rfl := h.free l hl b hb hbc
  exact hne (hs.tree.parent h.source h.target hids hl hmem hb)

theorem Renamable.wellFormed (h : Renamable s c c' src dst f) (hs : WellFormed n s)
    (hstep : RenameStep n s s' src dst f c c') :
    WellFormed n s' ∧ (∀ b, Reach (view s') b → Reach (view s) b) ∧
      ∀ b, Listed s' b → Listed s b := by
  obtain ⟨ids, hids, hmem, -⟩ := h.entry
  obtain ⟨hne, -⟩ := h.to_name.1 c' (List.mem_singleton_self c')
  obtain ⟨-, -, hdot, hdots⟩ := h.to_name.2 c' (List.mem_singleton_self c')
  have hview := h.view_name hs hstep
  have hname := h.name hs hstep
  by_cases hsame : src = dst
  · subst hsame
    have hrel := hstep.renamed.relabels hs
    rw [hview] at hrel
    have htree := hrel.tree hs.tree h.source hids hmem (h.free ids hids)
    have hreach : ∀ b, Reach (view s') b → Reach (view s) b := fun b => hrel.reach_iff.mp
    have hlisted : ∀ b, Listed s' b → Listed s b := by
      rintro b ⟨d, l, hd, hl, hb⟩
      exact ⟨d, l, hreach d hd, by rw [← hrel.listing (hreach d hd), hl], hb⟩
    exact ⟨hstep.renamed.wellFormed hs htree hreach hlisted ⟨c', hname, hne, hdot, hdots⟩, hreach,
      hlisted⟩
  · have hmoves := hstep.renamed.moves hsame hs
    rw [hview] at hmoves
    have htree := hmoves.tree hs.tree hsame h.source hids hmem h.target (h.free_name hs hsame)
    have hreach : ∀ b, Reach (view s') b → Reach (view s) b :=
      fun b => hmoves.reach (.entry h.source hids hmem)
    have hlisted : ∀ b, Listed s' b → Listed s b := by
      rintro b ⟨d, l, hd, hl, hb⟩
      rcases hmoves.mem (hreach d hd) hl hb with ⟨l₀, hl₀, hb₀⟩ | ⟨-, rfl⟩
      · exact ⟨d, l₀, hreach d hd, hl₀, hb₀⟩
      · exact h.listed
    exact ⟨hstep.renamed.wellFormed hs htree hreach hlisted ⟨c', hname, hne, hdot, hdots⟩, hreach,
      hlisted⟩

end Renamable

end VersionSix.Asvfs
