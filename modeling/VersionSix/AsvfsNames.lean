import VersionSix.AsvfsCreate
import VersionSix.Run

/-!
# ASVFS: unique names

`asvfs_create`, `asvfs_mknod`, `asvfs_mkdir` and `asvfs_rename` do not ask
whether their target is there already: `ASVFS_ERROR_ALREADY_EXISTS` is returned
nowhere, and the second file of a name hides behind the first (`mknod_twice`).
Both have a block, both are listed, and the lookup finds the one that was made
first.

As long as every target is free when an operation starts, and there is a block
left for what it creates, names stay unique (`names_stay_unique`). The
condition is one on the state before each operation, with the paths of the
operation alone; a rename of a path to itself meets it, and so does a rename of
something that is not there.

The invariant of such runs is a formatted drive: well formed, with everything
in use in front of `next_free`, and behind it blocks whose records are numbered
and which are no directories. The formatting tool leaves such a drive, and each
operation keeps it (`Formatted`).
-/

namespace VersionSix.Asvfs

open ByteStore DirTree PathText
open PathTree (resolve)

variable {s s' : Volume} {n : Nat}

/-! ## Operations -/

/-- A canonical path with at least one name. -/
structure CanonicalPath where
  parent : List (List UInt8)
  name : List UInt8
  canonical : CanonicalNames (parent ++ [name])

def CanonicalPath.names (p : CanonicalPath) : List (List UInt8) := p.parent ++ [p.name]

def CanonicalPath.text (p : CanonicalPath) : List UInt8 := render slash p.names

inductive Op where
  | create (path : CanonicalPath) (mode : Int)
  | mknod (path : CanonicalPath) (mode : Int)
  | mkdir (path : CanonicalPath) (mode : Int) (stack : Bytes)
  | rename (src dst : CanonicalPath)

def Op.run (s : Volume) : Op → Option (Volume × Int)
  | .create path mode => asvfsCreate s path.text mode
  | .mknod path mode => asvfsMknod s path.text mode
  | .mkdir path mode stack => asvfsMkdir s stack path.text mode
  | .rename src dst => asvfsRename s src.text dst.text

def opStep (s : Volume) (op : Op) : Option Volume := (op.run s).map Prod.fst

/-- No directory lists two entries with the same name, and every entry is what
the lookup of its name returns. -/
def UniqueNames (s : Volume) : Prop :=
  ∀ d ids, Reach (view s) d → (view s).listing d = some ids →
    (ids.map (view s).name).Nodup ∧
      ∀ b ∈ ids, ∀ r, asvfsGetBlockMetaFromDir s d ((view s).name b) = some r → r = b

/-- The target of the operation is not there, or is the source of a rename; a
rename whose source is not there does nothing. What is created needs a block. -/
def Free (s : Volume) : Op → Prop
  | .create path _ | .mknod path _ | .mkdir path _ _ =>
      blockAt s path.names = some 0 ∧ Header.nextFree s.header < Header.blockCount s.header
  | .rename src dst =>
      blockAt s dst.names = some 0 ∨ dst.names = src.names ∨ blockAt s src.names = some 0

instance (s : Volume) : ∀ op, Decidable (Free s op)
  | .create .. | .mknod .. | .mkdir .. => inferInstanceAs (Decidable (_ ∧ _))
  | .rename .. => inferInstanceAs (Decidable (_ ∨ _ ∨ _))

/-! ## Formatted drives -/

/-- A well-formed drive with everything in use in front of `next_free`. The
blocks from there on have their records numbered and are no directories. -/
structure Formatted (s : Volume) : Prop where
  wellFormed : WellFormed (Header.blockCount s.header) s
  address : Header.blockCount s.header ≤ 2 ^ 20
  inUse : ∀ b, Reach (view s) b → b < Header.nextFree s.header
  free : ∀ b, Header.nextFree s.header ≤ b → b < Header.blockCount s.header →
    Meta.id (asvfsGetMetaData s b) = b ∧
      Directory.type (directoryBlock s b) ≠ asvfsBlockTypeDirectory

theorem Formatted.room (h : Formatted s)
    (hbelow : Header.nextFree s.header < Header.blockCount s.header) :
    Room (Header.blockCount s.header) s where
  below := hbelow
  address := Nat.lt_of_lt_of_le hbelow h.address
  root := h.inUse _ .refl
  listed b hb := h.inUse b hb.reach

theorem Formatted.placed (h : Formatted s) {b : Nat} (hb : Header.nextFree s.header ≤ b)
    (hbn : b < Header.blockCount s.header) : Placed (Header.blockCount s.header) b where
  address := Nat.lt_of_lt_of_le hbn h.address
  behind := by
    have hroot := (h.wellFormed.placed _ .refl).2.behind
    have hfront := h.inUse _ .refl
    omega

theorem WellFormed.uniqueNames (h : WellFormed n s) : UniqueNames s := by
  intro d ids hd hids
  have hnames := h.tree.names hd hids
  refine ⟨hnames, fun b hb r hr => ?_⟩
  rw [h.lookup_partial hd hr, (look_of_nodup hids hnames).mpr ⟨hb, rfl⟩, Option.getD_some]

/-! ## One operation -/

theorem CanonicalPath.cut {path : CanonicalPath} {p c : List UInt8} {d : Nat}
    (hparts : asvfsGetPathParts path.text = some (p, c))
    (hp : resolve (view s).look (view s).root (words slash [] p) = some d) :
    c = path.name ∧ resolve (view s).look (view s).root path.parent = some d := by
  obtain ⟨hwords, hc⟩ := pathParts_canonical path.canonical hparts
  exact ⟨hc, hwords ▸ hp⟩

theorem Formatted.addNode (hs : Formatted s) {path : CanonicalPath} {mode r : Int}
    {blockType : Nat} {newBlock : Option Bytes} (hfree : blockAt s path.names = some 0)
    (hbelow : Header.nextFree s.header < Header.blockCount s.header)
    (hblock : newBlock = none ∨ ∃ stack, newBlock = some (newDirBlock stack))
    (hr : asvfsAddNode s path.text mode blockType newBlock = some (s', r)) : Formatted s' := by
  have hroom := hs.room hbelow
  rcases hs.wellFormed.addNode_step hroom path.canonical.cstring hr with
    ⟨rfl, -⟩ | ⟨-, p, c, dst, hp, hdst, hcreated⟩
  · exact hs
  obtain ⟨rfl, hQ⟩ := CanonicalPath.cut hp hdst
  obtain ⟨f, hf⟩ : ∃ f, Header.nextFree s.header = f := ⟨_, rfl⟩
  have hreach := under_of_resolve hQ
  have hlt := hs.inUse dst hreach
  obtain ⟨hid, htype⟩ := hs.free _ (Nat.le_refl _) hbelow
  have hplaced := hs.placed (Nat.le_refl _) hbelow
  have hnone := hs.wellFormed.resolve_of_zero path.canonical hfree
  rw [PathTree.resolve_concat, hQ, Option.bind_some] at hnone
  have hnext := hcreated.nextFree hroom
  have hcount := hcreated.blockCount
  rw [hf] at hcreated hid htype hplaced hnext hlt
  have hleaf : ∀ l, (view s').listing f = some l → l = [] := by
    intro l hl
    rcases hblock with rfl | ⟨stack, rfl⟩
    · rw [hcreated.file_listing hplaced (Nat.ne_of_gt hlt) htype] at hl
      cases hl
    · rw [hcreated.dir_listing] at hl
      exact (Option.some.inj hl).symm
  have hcs := (CanonicalNames.append.mp path.canonical).2
  refine ⟨?_, by rw [hcount]; exact hs.address, fun b hb => ?_, fun b hb hbn => ?_⟩
  · rw [hcount]
    exact hcreated.wellFormed hs.wellFormed hroom hcs hid hreach hnone hleaf
  · rw [hnext]
    rcases (hcreated.creates hs.wellFormed hroom).reach hleaf hb with hb | ⟨rfl, -⟩
    · exact Nat.lt_succ_of_lt (hf ▸ hs.inUse b hb)
    · exact Nat.lt_succ_self b
  · -- the other free blocks are as they were
    rw [hnext] at hb
    rw [hcount] at hbn
    have hfb : Header.nextFree s.header ≤ b := hf ▸ Nat.le_of_succ_le hb
    rw [hcreated.record b (Nat.ne_of_gt hb) hbn, hcreated.block b (hs.placed hfb hbn)
      (Nat.ne_of_gt (Nat.lt_trans hlt hb)) fun hbf => absurd hbf (Nat.ne_of_gt hb)]
    exact hs.free b hfb hbn

theorem Formatted.renamable (hs : Formatted s) {src dst : CanonicalPath} {P Q f : Nat}
    {c c' : List UInt8} (hfree : Free s (.rename src dst))
    (hfound : Found s src.text dst.text P Q f c c') : Renamable s c c' P Q f := by
  obtain ⟨p, hp, hP⟩ := hfound.source
  obtain ⟨q, hq, hQ⟩ := hfound.target
  obtain ⟨rfl, hP⟩ := CanonicalPath.cut hp hP
  obtain ⟨rfl, hQ⟩ := CanonicalPath.cut hq hQ
  have hf := hfound.block
  rw [CanonicalPath.text, CanonicalPath.names, words_render src.canonical.1] at hf
  have hlook := hf
  rw [PathTree.resolve_concat, hP, Option.bind_some] at hlook
  obtain ⟨ids, hids, hmem, hname⟩ := look_mem hlook
  refine ⟨(CanonicalNames.append.mp dst.canonical).2, under_of_resolve hP,
    ⟨ids, hids, hmem, hname⟩, under_of_resolve hQ, fun l hl b hb hbc => ?_⟩
  rcases hfree with hzero | hsame | hzero
  · have hnone := hs.wellFormed.resolve_of_zero dst.canonical hzero
    rw [PathTree.resolve_concat, hQ, Option.bind_some] at hnone
    exact absurd hbc ((look_eq_none_iff hl).mp hnone b hb)
  · -- the entry itself has the name already
    obtain ⟨hparent, hlast⟩ := List.append_inj' hsame rfl
    rw [hparent, hP] at hQ
    obtain rfl := Option.some.inj hQ
    obtain rfl := Option.some.inj (hids.symm.trans hl)
    rw [List.singleton_inj.mp hlast] at hbc
    exact List.inj_on_of_nodup_map (hs.wellFormed.tree.names (under_of_resolve hP) hids) hb hmem
      (hbc.trans hname.symm)
  · rw [hs.wellFormed.resolve_of_zero src.canonical hzero] at hf
    cases hf

theorem Formatted.rename (hs : Formatted s) {src dst : CanonicalPath} {r : Int}
    (hfree : Free s (.rename src dst)) (hr : asvfsRename s src.text dst.text = some (s', r)) :
    Formatted s' := by
  rcases hs.wellFormed.rename_step src.canonical.cstring dst.canonical.cstring hr with
    ⟨rfl, -, -⟩ | ⟨-, P, Q, f, c, c', hfound, hstep⟩
  · exact hs
  have hren := hs.renamable hfree hfound
  obtain ⟨hwell, hreach, -⟩ := hren.wellFormed hs.wellFormed hstep
  have hheader := hstep.renamed.header
  refine ⟨?_, ?_, fun b hb => ?_, fun b hb hbn => ?_⟩
  · rw [hheader]
    exact hwell
  · rw [hheader]
    exact hs.address
  · rw [hheader]
    exact hs.inUse b (hreach b hb)
  · rw [hheader] at hb hbn
    have hne : ∀ {a}, Reach (view s) a → b ≠ a := fun ha =>
      Nat.ne_of_gt (Nat.lt_of_lt_of_le (hs.inUse _ ha) hb)
    rw [hstep.renamed.record b (hne hren.listed.reach) hbn,
      hstep.renamed.block b (hs.placed hb hbn) (.inr ⟨hne hren.source, hne hren.target⟩)]
    exact hs.free b hb hbn

/-! ## Runs -/

theorem Formatted.step {op : Op} (hs : Formatted s) (hfree : Free s op)
    (h : opStep s op = some s') : Formatted s' := by
  obtain ⟨⟨s₁, r⟩, hr, rfl⟩ := Option.map_eq_some_iff.mp h
  cases op with
  | create path mode => exact hs.addNode hfree.1 hfree.2 (.inl rfl) hr
  | mknod path mode => exact hs.addNode hfree.1 hfree.2 (.inl rfl) hr
  | mkdir path mode stack => exact hs.addNode hfree.1 hfree.2 (.inr ⟨stack, rfl⟩) hr
  | rename src dst => exact hs.rename hfree hr

/-- In every state of a run whose targets are free, names are unique. Free
means that nothing is found under the target when the operation starts, which a
lookup can tell; a rename may also have its own source for a target, or a
source that is not there. The invariant is that of a formatted drive. -/
theorem names_stay_unique (hs : Formatted s) {ops : List Op} (hfree : Run.Along opStep Free s ops)
    (h : Run.exec opStep s ops = some s') : UniqueNames s' := by
  have hformatted : Formatted s' :=
    Run.exec_invariant (fun _ _ _ hs hP hstep => hs.step hP hstep) hs hfree h
  exact hformatted.wellFormed.uniqueNames

/-- The small drive with the records of its free blocks numbered. -/
def formattedDrive : Volume where
  header := smallDrive.header
  disk := bytesOf [
    (157, 1), (161, 2), (253, 2), (257, 2), (258, 97), (349, 3), (445, 4), (541, 5), (637, 6),
    (733, 7),
    (4096, 2), (4100, 2), (5124, 1), (8192, 2)]

theorem formattedDrive_formatted : Formatted formattedDrive := by
  have hchecked : Checked 8 formattedDrive [1, 2] := by decide +kernel
  refine ⟨hchecked.wellFormed, by decide, fun b hb => ?_, fun b hb hbn => ?_⟩
  · have hall : ∀ b ∈ [1, 2], b < Header.nextFree formattedDrive.header := by decide
    exact hall b (hchecked.reach hb)
  · have hall : ∀ b < 8, 3 ≤ b → Meta.id (asvfsGetMetaData formattedDrive b) = b ∧
        Directory.type (directoryBlock formattedDrive b) ≠ asvfsBlockTypeDirectory := by
      decide +kernel
    exact hall b hbn hb

/-- `/b` -/
def pathB : CanonicalPath := ⟨[], [98], by unfold CanonicalNames Names; decide⟩

/-- `/a/c` -/
def pathAC : CanonicalPath := ⟨[[97]], [99], by unfold CanonicalNames Names; decide⟩

theorem names_stay_unique_formatted : ∃ s',
    Run.exec opStep formattedDrive [.mkdir pathB 493 (bytesOf []), .rename pathB pathAC,
      .create pathB 420] = some s' ∧ UniqueNames s' := by
  have hrun : (Run.exec opStep formattedDrive [.mkdir pathB 493 (bytesOf []), .rename pathB pathAC,
      .create pathB 420]).isSome = true := by decide +kernel
  obtain ⟨s', hs'⟩ := Option.isSome_iff_exists.mp hrun
  exact ⟨s', hs', names_stay_unique formattedDrive_formatted (by decide +kernel) hs'⟩

/-- `/b` made twice: both calls succeed, the root lists two blocks of that name,
and only the first is found. -/
theorem mknod_twice : Formatted formattedDrive ∧
    ∃ s₁ s₂, asvfsMknod formattedDrive pathB.text 420 = some (s₁, 0) ∧
      asvfsMknod s₁ pathB.text 420 = some (s₂, 0) ∧ ¬ UniqueNames s₂ := by
  have hrun : ((asvfsMknod formattedDrive pathB.text 420).bind fun x =>
      (asvfsMknod x.1 pathB.text 420).map fun y => (x, y)).any (fun z => z.1.2 = 0 ∧ z.2.2 = 0 ∧
        (view z.2.1).listing (view z.2.1).root = some [2, 3, 4] ∧
        (view z.2.1).name 3 = (view z.2.1).name 4) = true := by decide +kernel
  obtain ⟨⟨⟨s₁, r₁⟩, s₂, r₂⟩, hr, hafter⟩ := (Option.any_eq_true _ _).mp hrun
  obtain ⟨hzero₁, hzero₂, htop, hsame⟩ := of_decide_eq_true hafter
  obtain ⟨x, hx, hr⟩ := Option.bind_eq_some_iff.mp hr
  obtain ⟨y, hy, heq⟩ := Option.map_eq_some_iff.mp hr
  obtain ⟨rfl, rfl⟩ := Prod.mk.inj heq
  obtain rfl : r₁ = 0 := hzero₁
  obtain rfl : r₂ = 0 := hzero₂
  refine ⟨formattedDrive_formatted, s₁, s₂, hx, hy, fun hunique => ?_⟩
  obtain ⟨hnames, -⟩ := hunique _ _ .refl htop
  rw [List.map_cons, List.map_cons, List.map_singleton] at hnames
  simp [hsame] at hnames

end VersionSix.Asvfs
