import VersionSix.KernelSymbols
import VersionSix.Libraries

/-!
# The relocations of a library

`lib_load_relocation_tables` (`libraries.c`), on the image behind `lib_base`.
It takes every symbol of `.rela.dyn` from the library and every symbol of
`.rela.plt` from the kernel, by the symbols that `elf2_new_initalize_file` has
collected with 8 bits for their numbers. A slot for a symbol of the kernel in
the first table gets the begin of the library, and one for a symbol of the
library in the second is left alone.

`relocated_iff` says which slots come out right. A slot that is written wrong,
or not at all, may hold the right word by accident; the condition (`SlotsFit`)
says so in place of excluding it, and is exact that way.

The stores of both loops are pieces of memory, one for each slot, apart from
each other because the slots are (`Relocatable`). So what is in a slot in the
end is what its own entry put there (`slot_unique`).
-/

namespace VersionSix.Elf

open ByteStore (Bytes Piece Region le setLe)

/-! ## `elf.h`, `elf2.h` -/

structure Elf64Rela where
  rOffset : Nat
  rInfo : Nat
deriving DecidableEq

/-- `sizeof(Elf64_Rela)` -/
def relaSize : Nat := 24

def relaAt (data : Bytes) (off : Nat) : Elf64Rela where
  rOffset := le 8 data off
  rInfo := le 8 data (off + 8)

/-- `ELF64_R_SYM` and `ELF64_R_TYPE` -/
def Elf64Rela.sym (r : Elf64Rela) : Nat := r.rInfo / 2 ^ 32

def Elf64Rela.type (r : Elf64Rela) : Nat := r.rInfo % 2 ^ 32

def globDat : Nat := 6
def jumpSlot : Nat := 7

/-- `".rela.dyn"` -/
def relaDyn : List UInt8 := [46, 114, 101, 108, 97, 46, 100, 121, 110]

/-- `".rela.plt"` -/
def relaPlt : List UInt8 := [46, 114, 101, 108, 97, 46, 112, 108, 116]

/-! ## `libraries.c` -/

/-- The entries of a table; their number is an `int`. -/
def relaEntries (data : Bytes) (sh : Elf64Shdr) : List Elf64Rela :=
  (List.range (Int.bmod (sh.shSize / relaSize : Nat) (2 ^ 32)).toNat).map fun i =>
    relaAt data (sh.shOffset + relaSize * i)

/-- The first loop. `none` is an entry for a symbol that is not there. -/
def loadGlobDat (fElf : Elf2File) (libBase : Nat) (memory : Bytes) (r : Elf64Rela) :
    Option Bytes :=
  if r.type = globDat then
    fElf.dynsymEnts[r.sym]?.map fun e =>
      setLe 8 memory ((libBase + r.rOffset) % 2 ^ 64) (libBase + e.addr)
  else some memory

/-- The second loop, where it may be a name without an end as well. -/
def loadJumpSlot (f : File) (ksyms : List Symbol) (fElf : Elf2File) (libBase : Nat)
    (memory : Bytes) (r : Elf64Rela) : Option Bytes :=
  if r.type = jumpSlot then
    (fElf.dynsymEnts[r.sym]?.bind fun e => f.string e.name).map fun name =>
      let addr := elfLoaderGetKsymAddr ksyms name
      if addr = 0 then memory else setLe 8 memory ((libBase + r.rOffset) % 2 ^ 64) addr
  else some memory

/-- One of the two parts: a loop over the entries of a table, if the file has it. -/
def forEachRela (f : File) (fElf : Elf2File) (name : List UInt8)
    (load : Bytes → Elf64Rela → Option Bytes) (memory : Bytes) : Option Bytes :=
  match elf2NewGetSectionHeaderByName f.data fElf.strTblSectionNames name with
  | none => some memory
  | some sh => (relaEntries f.data sh).foldlM load memory

def libLoadRelocationTables (f : File) (ksyms : List Symbol) (fElf : Elf2File) (libBase : Nat)
    (memory : Bytes) : Option Bytes :=
  (forEachRela f fElf relaDyn (loadGlobDat fElf libBase) memory).bind
    (forEachRela f fElf relaPlt (loadJumpSlot f ksyms fElf libBase))

/-! ## What is to hold -/

inductive RelaTable where
  | dyn
  | plt
deriving DecidableEq

def RelaTable.name : RelaTable → List UInt8
  | dyn => relaDyn
  | plt => relaPlt

/-- The kind of slot that the loop over the table looks for. -/
def RelaTable.kind : RelaTable → Nat
  | dyn => globDat
  | plt => jumpSlot

def tableEntries (data : Bytes) (t : RelaTable) : List Elf64Rela :=
  match sectionNamed data t.name with
  | none => []
  | some sh => (List.range (sh.shSize / relaSize)).map fun i =>
      relaAt data (sh.shOffset + relaSize * i)

/-- The relocations of a file, with the tables they are in. -/
def relocations (data : Bytes) : List (RelaTable × Elf64Rela) :=
  (tableEntries data .dyn).map (.dyn, ·) ++ (tableEntries data .plt).map (.plt, ·)

def Elf64Rela.IsSlot (r : Elf64Rela) : Prop := r.type = globDat ∨ r.type = jumpSlot

/-- `s` is the dynamic symbol `i` of the file, with the name `name`. -/
def File.HasSymbol (f : File) (i : Nat) (name : List UInt8) (s : Elf64Sym) : Prop :=
  ∃ shDyn shDynStr, sectionNamed f.data dynsym = some shDyn ∧
    sectionNamed f.data dynstr = some shDynStr ∧ i < shDyn.shSize / symSize ∧
    dynamicSymbol f.data shDyn i = s ∧ f.string (shDynStr.shOffset + s.stName) = some name

/-- The slots of a library of `size` bytes: each for a symbol, and apart from each other. -/
structure Relocatable (f : File) (size : Nat) : Prop where
  table : ∀ (t : RelaTable) sh, sectionNamed f.data t.name = some sh →
    sh.shEntsize = relaSize ∧ sh.shOffset + sh.shSize ≤ f.size
  symbol : ∀ x ∈ relocations f.data, x.2.IsSlot → ∃ shDyn,
    sectionNamed f.data dynsym = some shDyn ∧ x.2.sym < shDyn.shSize / symSize
  inside : ∀ x ∈ relocations f.data, x.2.IsSlot → x.2.rOffset + 8 ≤ size
  apart : ∀ x ∈ relocations f.data, x.2.IsSlot → ∀ y ∈ relocations f.data, y.2.IsSlot → x ≠ y →
    Region.Apart ⟨x.2.rOffset, 8⟩ ⟨y.2.rOffset, 8⟩

/-- `v` is the address of the symbol at run time. A symbol that neither the library nor the
kernel defines has none. -/
structure RunTimeAddress (ksyms : List Symbol) (libBase : Nat) (s : Elf64Sym) (name : List UInt8)
    (v : Nat) : Prop where
  defined : s.stShndx ≠ 0 → v = (libBase + s.stValue) % 2 ^ 64
  kernel : s.stShndx = 0 → (∃ a, KernelHas ksyms name a) → KernelHas ksyms name v

/-- All slots hold the addresses of their symbols, and nothing else has changed. -/
structure Relocated (f : File) (ksyms : List Symbol) (libBase : Nat) (memory memory' : Bytes) :
    Prop where
  slot : ∀ x ∈ relocations f.data, x.2.IsSlot → ∀ name s, f.HasSymbol x.2.sym name s →
    RunTimeAddress ksyms libBase s name (le 8 memory' (libBase + x.2.rOffset))
  kept : ∀ a, (∀ x ∈ relocations f.data, x.2.IsSlot →
      ¬ (libBase + x.2.rOffset ≤ a ∧ a < libBase + x.2.rOffset + 8)) → memory' a = memory a

/-- What is in a slot of `.rela.plt`, by the name that the loop gets for it, is what the kernel
has, or else what was there. -/
def kernelOr (ksyms : List Symbol) (name : List UInt8) (word : Nat) : Nat :=
  if elfLoaderGetKsymAddr ksyms name = 0 then word else elfLoaderGetKsymAddr ksyms name

/-- The symbols of `.rela.dyn` are in the library and those of `.rela.plt` in the kernel, or the
words there happen to be right. The loops take the symbol that 8 bits find. -/
structure SlotsFit (f : File) (ksyms : List Symbol) (libBase : Nat) (memory : Bytes) : Prop where
  globDat_defined : ∀ r, (.dyn, r) ∈ relocations f.data → r.type = globDat →
    ∀ name s, f.HasSymbol r.sym name s → s.stShndx ≠ 0 →
    ∀ name' s', f.HasSymbol (r.sym % 2 ^ 8) name' s' → s'.stValue = s.stValue
  globDat_kernel : ∀ r, (.dyn, r) ∈ relocations f.data → r.type = globDat →
    ∀ name s, f.HasSymbol r.sym name s → s.stShndx = 0 → (∃ a, KernelHas ksyms name a) →
    ∀ name' s', f.HasSymbol (r.sym % 2 ^ 8) name' s' →
      KernelHas ksyms name ((libBase + s'.stValue) % 2 ^ 64)
  jumpSlot_defined : ∀ r, (.plt, r) ∈ relocations f.data → r.type = jumpSlot →
    ∀ name s, f.HasSymbol r.sym name s → s.stShndx ≠ 0 →
    ∀ name' s', f.HasSymbol (r.sym % 2 ^ 8) name' s' →
      kernelOr ksyms name' (le 8 memory (libBase + r.rOffset)) = (libBase + s.stValue) % 2 ^ 64
  jumpSlot_kernel : ∀ r, (.plt, r) ∈ relocations f.data → r.type = jumpSlot →
    ∀ name s, f.HasSymbol r.sym name s → s.stShndx = 0 → (∃ a, KernelHas ksyms name a) →
    ∀ name' s', f.HasSymbol (r.sym % 2 ^ 8) name' s' →
      KernelHas ksyms name (kernelOr ksyms name' (le 8 memory (libBase + r.rOffset)))
  /-- a slot in the table of the other kind is left alone -/
  other : ∀ x ∈ relocations f.data, x.2.IsSlot → x.2.type ≠ x.1.kind →
    ∀ name s, f.HasSymbol x.2.sym name s →
    RunTimeAddress ksyms libBase s name (le 8 memory (libBase + x.2.rOffset))

def RelaTablesFound (data : Bytes) : Prop :=
  ∀ t : RelaTable, elf2NewGetSectionHeaderByName data
    (elf2NewGetSectionHeaderByIndex data ((elfHeader data).eShstrndx + 1)).shOffset t.name =
    sectionNamed data t.name

theorem relaTablesFound_of_lt {data : Bytes} (h : (elfHeader data).eShstrndx < 255) :
    RelaTablesFound data :=
  fun t => byName_of_lt h t.name

/-! ## What the loops store -/

def storedWord (f : File) (ksyms : List Symbol) (fElf : Elf2File) (libBase : Nat) :
    RelaTable × Elf64Rela → Option Nat
  | (.dyn, r) =>
      if r.type = globDat then (fElf.dynsymEnts[r.sym]?).map fun e => libBase + e.addr else none
  | (.plt, r) =>
      if r.type = jumpSlot then
        ((fElf.dynsymEnts[r.sym]?).bind fun e => f.string e.name).bind fun name =>
          if elfLoaderGetKsymAddr ksyms name = 0 then none
          else some (elfLoaderGetKsymAddr ksyms name)
      else none

def slotPiece (f : File) (ksyms : List Symbol) (fElf : Elf2File) (libBase : Nat)
    (x : RelaTable × Elf64Rela) : Option Piece :=
  (storedWord f ksyms fElf libBase x).map (Piece.word 8 (libBase + x.2.rOffset))

def relocated (f : File) (ksyms : List Symbol) (fElf : Elf2File) (libBase : Nat)
    (memory : Bytes) : Bytes :=
  ((relocations f.data).filterMap (slotPiece f ksyms fElf libBase)).foldl ByteStore.place memory

variable {f : File} {ksyms : List Symbol} {fElf : Elf2File} {libBase size : Nat}

theorem isSlot_of_stored {x : RelaTable × Elf64Rela} {v : Nat}
    (h : storedWord f ksyms fElf libBase x = some v) : x.2.IsSlot := by
  obtain ⟨t, r⟩ := x
  cases t with
  | dyn =>
      rw [storedWord] at h
      split_ifs at h with htype
      exact .inl htype
  | plt =>
      rw [storedWord] at h
      split_ifs at h with htype
      exact .inr htype

theorem mem_relocations {data : Bytes} {t : RelaTable} {r : Elf64Rela} :
    (t, r) ∈ relocations data ↔ r ∈ tableEntries data t := by
  cases t <;> simp [relocations]

/-- The count of entries, an `int`, has no overflow for a section of the file. -/
theorem relaCount_eq {sh : Elf64Shdr} (hin : sh.shOffset + sh.shSize ≤ f.size) :
    (Int.bmod (sh.shSize / relaSize : Nat) (2 ^ 32)).toNat = sh.shSize / relaSize := by
  have hlt := f.size_lt
  rw [relaSize, Int.bmod_def]
  split <;> omega

theorem tableEntries_eq (hrel : Relocatable f size) {t : RelaTable} {sh : Elf64Shdr}
    (hsh : sectionNamed f.data t.name = some sh) :
    relaEntries f.data sh = tableEntries f.data t := by
  obtain ⟨-, hin⟩ := hrel.table t sh hsh
  rw [relaEntries, tableEntries, hsh, relaCount_eq hin]

variable (ksyms libBase) in
/-- The loop over a table, where its turns place the pieces of the slots. -/
theorem forEachRela_eq (hrel : Relocatable f size) (t : RelaTable)
    (hfound : elf2NewGetSectionHeaderByName f.data fElf.strTblSectionNames t.name =
      sectionNamed f.data t.name) {load : Bytes → Elf64Rela → Option Bytes}
    (hload : ∀ r ∈ tableEntries f.data t, ∀ memory, load memory r =
      some ((slotPiece f ksyms fElf libBase (t, r)).elim memory (ByteStore.place memory)))
    (memory : Bytes) :
    forEachRela f fElf t.name load memory = some
      (((tableEntries f.data t).filterMap fun r => slotPiece f ksyms fElf libBase (t, r)).foldl
        ByteStore.place memory) := by
  rw [forEachRela, hfound]
  cases hsh : sectionNamed f.data t.name with
  | none =>
      have hempty : tableEntries f.data t = [] := by rw [tableEntries, hsh]
      rw [hempty]
      rfl
  | some sh =>
      dsimp only
      rw [tableEntries_eq hrel hsh]
      exact ByteStore.foldlM_place hload memory

theorem File.HasSymbol.unique {i : Nat} {name name' : List UInt8} {s s' : Elf64Sym}
    (h : f.HasSymbol i name s) (h' : f.HasSymbol i name' s') : name = name' ∧ s = s' := by
  obtain ⟨shDyn, shDynStr, hdyn, hstr, -, rfl, hname⟩ := h
  obtain ⟨shDyn', shDynStr', hdyn', hstr', -, rfl, hname'⟩ := h'
  obtain rfl := Option.some.inj (hdyn.symm.trans hdyn')
  obtain rfl := Option.some.inj (hstr.symm.trans hstr')
  exact ⟨Option.some.inj (hname.symm.trans hname'), rfl⟩

/-- The symbol that the loops have for the number `j`. -/
structure EntryAt (f : File) (fElf : Elf2File) (j : Nat) (name : List UInt8) (s : Elf64Sym) :
    Prop where
  symbol : f.HasSymbol (j % 2 ^ 8) name s
  entry : ∃ e, fElf.dynsymEnts[j]? = some e ∧ e.addr = s.stValue ∧ f.string e.name = some name

section Loops

variable (hwf : WellFormed f) (hsections : SectionsFound f.data)
  (hinit : elf2NewInitalizeFile f.data = some fElf)
include hwf hsections hinit

theorem entryAt_of_lt {j : Nat} {shDyn : Elf64Shdr}
    (hdyn : sectionNamed f.data dynsym = some shDyn) (hj : j < shDyn.shSize / symSize) :
    ∃ name s, EntryAt f fElf j name s := by
  obtain ⟨shDynStr, hstr, hnames⟩ := hwf.names shDyn hdyn
  obtain ⟨fElf', hinit', -, -, hspec⟩ := elf2NewInitalizeFile_spec hwf hsections
  obtain rfl := Option.some.inj (hinit.symm.trans hinit')
  obtain ⟨-, hents, -⟩ := hspec shDyn shDynStr hdyn hstr
  have hlow : j % 2 ^ 8 < shDyn.shSize / symSize := Nat.lt_of_le_of_lt (Nat.mod_le ..) hj
  obtain ⟨name, hname⟩ := hnames _ hlow
  refine ⟨name, dynamicSymbol f.data shDyn (j % 2 ^ 8), ?_, ?_⟩
  · exact ⟨shDyn, shDynStr, hdyn, hstr, hlow, rfl, hname⟩
  · refine ⟨dynsymEntry f.data shDyn.shOffset shDynStr.shOffset j, ?_, rfl, hname⟩
    rw [hents, dynsymOf, List.getElem?_map, List.getElem?_range hj, Option.map_some]

variable (hrel : Relocatable f size) (hbase : libBase + size ≤ 2 ^ 64)
include hrel hbase

theorem loadGlobDat_eq {r : Elf64Rela} (hr : (.dyn, r) ∈ relocations f.data) (memory : Bytes) :
    loadGlobDat fElf libBase memory r = some
      ((slotPiece f ksyms fElf libBase (.dyn, r)).elim memory (ByteStore.place memory)) := by
  rw [loadGlobDat, slotPiece, storedWord]
  by_cases htype : r.type = globDat
  · obtain ⟨shDyn, hdyn, hlt⟩ := hrel.symbol _ hr (.inl htype)
    obtain ⟨name, s, -, e, he, -, -⟩ := entryAt_of_lt hwf hsections hinit hdyn hlt
    have hin : r.rOffset + 8 ≤ size := hrel.inside _ hr (.inl htype)
    rw [if_pos htype, if_pos htype, he, Option.map_some, Nat.mod_eq_of_lt (by omega),
      ByteStore.setLe_eq_place]
    rfl
  · rw [if_neg htype, if_neg htype]
    rfl

theorem loadJumpSlot_eq {r : Elf64Rela} (hr : (.plt, r) ∈ relocations f.data) (memory : Bytes) :
    loadJumpSlot f ksyms fElf libBase memory r = some
      ((slotPiece f ksyms fElf libBase (.plt, r)).elim memory (ByteStore.place memory)) := by
  rw [loadJumpSlot, slotPiece, storedWord]
  by_cases htype : r.type = jumpSlot
  · obtain ⟨shDyn, hdyn, hlt⟩ := hrel.symbol _ hr (.inr htype)
    obtain ⟨name, s, -, e, he, -, hname⟩ := entryAt_of_lt hwf hsections hinit hdyn hlt
    have hin : r.rOffset + 8 ≤ size := hrel.inside _ hr (.inr htype)
    rw [if_pos htype, if_pos htype, he, Option.bind_some, hname, Option.map_some,
      Option.bind_some, Nat.mod_eq_of_lt (by omega)]
    dsimp only
    by_cases hnull : elfLoaderGetKsymAddr ksyms name = 0
    · rw [if_pos hnull, if_pos hnull]
      rfl
    · rw [if_neg hnull, if_neg hnull, ByteStore.setLe_eq_place]
      rfl
  · rw [if_neg htype, if_neg htype]
    rfl

theorem libLoadRelocationTables_eq (htables : RelaTablesFound f.data) (memory : Bytes) :
    libLoadRelocationTables f ksyms fElf libBase memory =
      some (relocated f ksyms fElf libBase memory) := by
  obtain ⟨hnames, -⟩ := elf2NewInitalizeFile_headers hinit
  have hdyn := forEachRela_eq ksyms libBase hrel .dyn
    (hnames ▸ htables .dyn) fun r hr =>
      loadGlobDat_eq hwf hsections hinit hrel hbase (mem_relocations.mpr hr)
  have hplt := forEachRela_eq ksyms libBase hrel .plt
    (hnames ▸ htables .plt) fun r hr =>
      loadJumpSlot_eq hwf hsections hinit hrel hbase (mem_relocations.mpr hr)
  have hboth := hdyn memory
  rw [RelaTable.name] at hboth
  rw [libLoadRelocationTables, hboth, Option.bind_some]
  refine (hplt _).trans ?_
  rw [relocated, relocations, List.filterMap_append, List.foldl_append, List.filterMap_map,
    List.filterMap_map]
  rfl

end Loops

/-! ## The slots -/

theorem slotPiece_some {x : RelaTable × Elf64Rela} {p : Piece}
    (h : slotPiece f ksyms fElf libBase x = some p) :
    ∃ v, storedWord f ksyms fElf libBase x = some v ∧ p = .word 8 (libBase + x.2.rOffset) v := by
  obtain ⟨v, hv, rfl⟩ := Option.map_eq_some_iff.mp h
  exact ⟨v, hv, rfl⟩

theorem outside_after {memory : Bytes} {a : Nat}
    (ha : ∀ x ∈ relocations f.data, x.2.IsSlot →
      ¬ (libBase + x.2.rOffset ≤ a ∧ a < libBase + x.2.rOffset + 8)) :
    relocated f ksyms fElf libBase memory a = memory a := by
  refine ByteStore.placeAll_other memory fun p hp hcovers => ?_
  obtain ⟨x, hx, hxp⟩ := List.mem_filterMap.mp hp
  obtain ⟨v, hv, rfl⟩ := slotPiece_some hxp
  exact ha x hx (isSlot_of_stored hv) hcovers

section Slots

variable (hrel : Relocatable f size) {x : RelaTable × Elf64Rela} (hx : x ∈ relocations f.data)
  (hxs : x.2.IsSlot)
include hrel hx hxs

/-- The only piece with an address of a slot is that of the slot. -/
theorem slot_unique {y : RelaTable × Elf64Rela} (hy : y ∈ relocations f.data) {p : Piece}
    (hp : slotPiece f ksyms fElf libBase y = some p) {a : Nat} (hpa : p.Covers a)
    (hlow : libBase + x.2.rOffset ≤ a) (hhigh : a < libBase + x.2.rOffset + 8) : x = y := by
  obtain ⟨v, hv, rfl⟩ := slotPiece_some hp
  obtain ⟨hple, hplt⟩ := hpa
  by_contra hne
  have hapart := hrel.apart x hx hxs y hy (isSlot_of_stored hv) hne
  simp only [Region.Apart, Piece.word] at hapart hple hplt
  omega

omit hxs in
theorem slot_stored {v : Nat} (hv : storedWord f ksyms fElf libBase x = some v) (memory : Bytes) :
    le 8 (relocated f ksyms fElf libBase memory) (libBase + x.2.rOffset) = v % 2 ^ 64 := by
  have hp : slotPiece f ksyms fElf libBase x = some (.word 8 (libBase + x.2.rOffset) v) := by
    rw [slotPiece, hv, Option.map_some]
  refine ByteStore.le_placeAll_word memory (fun p hp q hq a hpa hqa => ?_)
    (List.mem_filterMap.mpr ⟨x, hx, hp⟩)
  obtain ⟨y, hy, hyp⟩ := List.mem_filterMap.mp hp
  obtain ⟨z, hz, hzq⟩ := List.mem_filterMap.mp hq
  obtain ⟨w, hw, rfl⟩ := slotPiece_some hyp
  obtain rfl := slot_unique hrel hy (isSlot_of_stored hw) hz hzq hqa hpa.1 hpa.2
  obtain rfl := Option.some.inj (hyp.symm.trans hzq)
  rfl

theorem slot_left (hv : storedWord f ksyms fElf libBase x = none) (memory : Bytes) :
    le 8 (relocated f ksyms fElf libBase memory) (libBase + x.2.rOffset) =
      le 8 memory (libBase + x.2.rOffset) := by
  refine ByteStore.le_placeAll_other memory fun p hp i hi hcovers => ?_
  obtain ⟨y, hy, hyp⟩ := List.mem_filterMap.mp hp
  obtain rfl := slot_unique hrel hx hxs hy hyp hcovers (Nat.le_add_right ..)
    (Nat.add_lt_add_left hi _)
  obtain ⟨v, hv', -⟩ := slotPiece_some hyp
  rw [hv] at hv'
  cases hv'

end Slots

theorem elfLoaderGetKsymAddr_lt (ksyms : List Symbol) (name : List UInt8) :
    elfLoaderGetKsymAddr ksyms name < 2 ^ 64 := by
  unfold elfLoaderGetKsymAddr
  split
  · decide
  · exact UInt64.toNat_lt _

theorem globDat_after (hrel : Relocatable f size) {r : Elf64Rela}
    (hr : (.dyn, r) ∈ relocations f.data) (htype : r.type = globDat) {name : List UInt8}
    {s : Elf64Sym} (hentry : EntryAt f fElf r.sym name s) (memory : Bytes) :
    le 8 (relocated f ksyms fElf libBase memory) (libBase + r.rOffset) =
      (libBase + s.stValue) % 2 ^ 64 := by
  obtain ⟨e, he, haddr, -⟩ := hentry.entry
  refine slot_stored hrel hr ?_ memory
  rw [storedWord, if_pos htype, he, Option.map_some, haddr]

theorem jumpSlot_after (hrel : Relocatable f size) {r : Elf64Rela}
    (hr : (.plt, r) ∈ relocations f.data) (htype : r.type = jumpSlot) {name : List UInt8}
    {s : Elf64Sym} (hentry : EntryAt f fElf r.sym name s) (memory : Bytes) :
    le 8 (relocated f ksyms fElf libBase memory) (libBase + r.rOffset) =
      kernelOr ksyms name (le 8 memory (libBase + r.rOffset)) := by
  obtain ⟨e, he, -, hname⟩ := hentry.entry
  have hstored : storedWord f ksyms fElf libBase (.plt, r) =
      if elfLoaderGetKsymAddr ksyms name = 0 then none
      else some (elfLoaderGetKsymAddr ksyms name) := by
    rw [storedWord, if_pos htype, he, Option.bind_some, hname, Option.bind_some]
  rw [kernelOr]
  by_cases hnull : elfLoaderGetKsymAddr ksyms name = 0
  · rw [if_pos hnull] at hstored ⊢
    exact slot_left hrel hr (.inr htype) hstored memory
  · rw [if_neg hnull] at hstored ⊢
    refine (slot_stored hrel hr hstored memory).trans ?_
    exact Nat.mod_eq_of_lt (elfLoaderGetKsymAddr_lt ksyms name)

theorem other_after (hrel : Relocatable f size) {x : RelaTable × Elf64Rela}
    (hx : x ∈ relocations f.data) (hxs : x.2.IsSlot) (hkind : x.2.type ≠ x.1.kind)
    (memory : Bytes) :
    le 8 (relocated f ksyms fElf libBase memory) (libBase + x.2.rOffset) =
      le 8 memory (libBase + x.2.rOffset) := by
  refine slot_left hrel hx hxs ?_ memory
  obtain ⟨t, r⟩ := x
  cases t with
  | dyn => exact if_neg hkind
  | plt => exact if_neg hkind

section Fits

variable (hrel : Relocatable f size)
  (hentry : ∀ x ∈ relocations f.data, x.2.IsSlot → ∃ name s, EntryAt f fElf x.2.sym name s)
include hrel hentry

theorem slotsFit_of_relocated {memory : Bytes}
    (h : Relocated f ksyms libBase memory (relocated f ksyms fElf libBase memory)) :
    SlotsFit f ksyms libBase memory := by
  have hword : ∀ {i : Nat} {name : List UInt8} {s : Elf64Sym}, f.HasSymbol i name s →
      s.stValue < 2 ^ 64 := by
    rintro i name s ⟨shDyn, -, -, -, -, rfl, -⟩
    exact ByteStore.le_lt 8 _ _
  have hdyn : ∀ r, (.dyn, r) ∈ relocations f.data → r.type = globDat →
      ∀ name s, f.HasSymbol r.sym name s → ∀ name' s', f.HasSymbol (r.sym % 2 ^ 8) name' s' →
      RunTimeAddress ksyms libBase s name ((libBase + s'.stValue) % 2 ^ 64) := by
    intro r hr htype name s hs name' s' hs'
    obtain ⟨name', s', hat⟩ := hentry _ hr (.inl htype)
    obtain ⟨-, rfl⟩ := hat.symbol.unique hs'
    have hslot := h.slot _ hr (.inl htype) name s hs
    rw [globDat_after hrel hr htype hat memory] at hslot
    exact hslot
  have hplt : ∀ r, (.plt, r) ∈ relocations f.data → r.type = jumpSlot →
      ∀ name s, f.HasSymbol r.sym name s → ∀ name' s', f.HasSymbol (r.sym % 2 ^ 8) name' s' →
      RunTimeAddress ksyms libBase s name
        (kernelOr ksyms name' (le 8 memory (libBase + r.rOffset))) := by
    intro r hr htype name s hs name' s' hs'
    obtain ⟨name', s', hat⟩ := hentry _ hr (.inr htype)
    obtain ⟨rfl, -⟩ := hat.symbol.unique hs'
    have hslot := h.slot _ hr (.inr htype) name s hs
    rw [jumpSlot_after hrel hr htype hat memory] at hslot
    exact hslot
  refine ⟨?_, ?_, ?_, ?_, ?_⟩
  · intro r hr htype name s hs hdefined name' s' hs'
    have hvalue := (hdyn r hr htype name s hs name' s' hs').defined hdefined
    have hlt := hword hs
    have hlt' := hword hs'
    omega
  · intro r hr htype name s hs hundefined hhas name' s' hs'
    exact (hdyn r hr htype name s hs name' s' hs').kernel hundefined hhas
  · intro r hr htype name s hs hdefined name' s' hs'
    exact (hplt r hr htype name s hs name' s' hs').defined hdefined
  · intro r hr htype name s hs hundefined hhas name' s' hs'
    exact (hplt r hr htype name s hs name' s' hs').kernel hundefined hhas
  · intro x hx hxs hkind name s hs
    have hslot := h.slot x hx hxs name s hs
    rw [other_after hrel hx hxs hkind memory] at hslot
    exact hslot

theorem SlotsFit.slot {memory : Bytes} (hfit : SlotsFit f ksyms libBase memory)
    {x : RelaTable × Elf64Rela} (hx : x ∈ relocations f.data) (hxs : x.2.IsSlot)
    {name : List UInt8} {s : Elf64Sym} (hs : f.HasSymbol x.2.sym name s) :
    RunTimeAddress ksyms libBase s name
      (le 8 (relocated f ksyms fElf libBase memory) (libBase + x.2.rOffset)) := by
  by_cases hkind : x.2.type = x.1.kind
  · obtain ⟨name', s', hat⟩ := hentry x hx hxs
    obtain ⟨t, r⟩ := x
    cases t with
    | dyn =>
        rw [globDat_after hrel hx hkind hat memory]
        refine ⟨fun hdefined => ?_, fun hundefined hhas => ?_⟩
        · rw [hfit.globDat_defined r hx hkind name s hs hdefined name' s' hat.symbol]
        · exact hfit.globDat_kernel r hx hkind name s hs hundefined hhas name' s' hat.symbol
    | plt =>
        rw [jumpSlot_after hrel hx hkind hat memory]
        refine ⟨fun hdefined => ?_, fun hundefined hhas => ?_⟩
        · exact hfit.jumpSlot_defined r hx hkind name s hs hdefined name' s' hat.symbol
        · exact hfit.jumpSlot_kernel r hx hkind name s hs hundefined hhas name' s' hat.symbol
  · rw [other_after hrel hx hxs hkind memory]
    exact hfit.other x hx hxs hkind name s hs

end Fits

/-- All slots come out right when the words fit, and only then: each slot of
`.rela.dyn` is for a symbol of the library and each of `.rela.plt` for one of
the kernel, or the word that is stored instead, or that was there, happens to
be the address. What is in memory beside the slots is always left alone. -/
theorem relocated_iff (f : File) (ksyms : List Symbol) (fElf : Elf2File) (libBase size : Nat)
    (memory : Bytes) (hwf : WellFormed f) (hrel : Relocatable f size)
    (hbase : libBase + size ≤ 2 ^ 64) (hinit : elf2NewInitalizeFile f.data = some fElf)
    (hsections : SectionsFound f.data) (htables : RelaTablesFound f.data) :
    (∃ memory', libLoadRelocationTables f ksyms fElf libBase memory = some memory' ∧
        Relocated f ksyms libBase memory memory') ↔ SlotsFit f ksyms libBase memory := by
  rw [libLoadRelocationTables_eq hwf hsections hinit hrel hbase htables memory]
  have hentry : ∀ x ∈ relocations f.data, x.2.IsSlot → ∃ name s, EntryAt f fElf x.2.sym name s := by
    intro x hx hxs
    obtain ⟨shDyn, hdyn, hlt⟩ := hrel.symbol x hx hxs
    exact entryAt_of_lt hwf hsections hinit hdyn hlt
  constructor
  · rintro ⟨memory', hmemory, hrelocated⟩
    obtain rfl := Option.some.inj hmemory
    exact slotsFit_of_relocated hrel hentry hrelocated
  · intro hfit
    exact ⟨_, rfl, fun x hx hxs name s hs => hfit.slot hrel hentry hx hxs hs,
      fun a ha => outside_after ha⟩

/-! ## A file with one name -/

/-- A file with the null symbol and one other. -/
structure TwoSymbols (f : File) (shDyn shDynStr : Elf64Shdr) (name : List UInt8) (s : Elf64Sym) :
    Prop where
  dynsym : sectionNamed f.data dynsym = some shDyn
  dynstr : sectionNamed f.data dynstr = some shDynStr
  entsize : shDyn.shEntsize = symSize
  count : shDyn.shSize = 2 * symSize
  inside : shDyn.shOffset + shDyn.shSize ≤ f.size
  null : dynamicSymbol f.data shDyn 0 = ⟨0, 0, 0, 0, 0⟩
  symbol : dynamicSymbol f.data shDyn 1 = s
  noName : f.string shDynStr.shOffset = some []
  name : f.string (shDynStr.shOffset + s.stName) = some name

section TwoSymbols

variable {shDyn shDynStr : Elf64Shdr} {name : List UInt8} {s : Elf64Sym}
  (h : TwoSymbols f shDyn shDynStr name s)
include h

theorem TwoSymbols.lt_iff {i : Nat} : i < shDyn.shSize / symSize ↔ i = 0 ∨ i = 1 := by
  rw [h.count, Nat.mul_div_cancel _ (by decide)]
  omega

theorem TwoSymbols.hasSymbol : f.HasSymbol 1 name s :=
  ⟨shDyn, shDynStr, h.dynsym, h.dynstr, h.lt_iff.mpr (.inr rfl), h.symbol, h.name⟩

theorem TwoSymbols.hasNull : f.HasSymbol 0 [] ⟨0, 0, 0, 0, 0⟩ :=
  ⟨shDyn, shDynStr, h.dynsym, h.dynstr, h.lt_iff.mpr (.inl rfl), h.null, h.noName⟩

theorem TwoSymbols.hasSymbol_cases {i : Nat} {name' : List UInt8} {s' : Elf64Sym}
    (hs : f.HasSymbol i name' s') :
    i = 0 ∧ name' = [] ∧ s' = ⟨0, 0, 0, 0, 0⟩ ∨ i = 1 ∧ name' = name ∧ s' = s := by
  have hi : i < shDyn.shSize / symSize := by
    obtain ⟨shDyn', -, hdyn', -, hi, -⟩ := hs
    obtain rfl := Option.some.inj (h.dynsym.symm.trans hdyn')
    exact hi
  rcases h.lt_iff.mp hi with rfl | rfl
  · exact .inl ⟨rfl, hs.unique h.hasNull⟩
  · exact .inr ⟨rfl, hs.unique h.hasSymbol⟩

theorem TwoSymbols.wellFormed : WellFormed f := by
  refine ⟨fun shDyn' hdyn => ?_, fun shDyn' hdyn => ?_⟩
  · obtain rfl := Option.some.inj (h.dynsym.symm.trans hdyn)
    exact ⟨h.entsize, h.inside⟩
  · obtain rfl := Option.some.inj (h.dynsym.symm.trans hdyn)
    refine ⟨shDynStr, h.dynstr, fun i hi => ?_⟩
    rcases h.lt_iff.mp hi with rfl | rfl
    · rw [h.null]
      exact ⟨[], h.noName⟩
    · rw [h.symbol]
      exact ⟨name, h.name⟩

end TwoSymbols

/-! ## One slot -/

/-- A library with the symbol `f` and a relocation `GLOB_DAT` for it. -/
def slotFile (shndx value : Nat) : File where
  data :=
    [(8, 32, 64), (8, 40, 128), (2, 54, 56), (2, 56, 1), (2, 58, 64), (2, 60, 4), (4, 64, 1),
      (8, 104, 4096), (8, 152, 384), (4, 192, 1), (8, 216, 424), (8, 224, 48), (8, 248, 24),
      (4, 256, 9), (8, 280, 420), (8, 288, 3), (4, 320, 17), (8, 344, 480), (8, 352, 24),
      (8, 376, 24), (8, 385, 0x6D79736E79642E), (8, 393, 0x7274736E79642E),
      (8, 401, 0x79642E616C65722E), (2, 409, 110), (1, 421, 102), (4, 448, 1), (2, 454, shndx),
      (8, 456, value), (8, 480, 16), (8, 488, 2 ^ 32 + 6)].foldl
      (fun data field => setLe field.1 data field.2.1 field.2.2) fun _ => 0
  size := 504
  size_lt := by decide

/-- What such a file is to have. -/
structure OneSlot (shndx value : Nat) : Prop where
  symbols : TwoSymbols (slotFile shndx value) ⟨1, 0, 0, 424, 48, 0, 24⟩ ⟨9, 0, 0, 420, 3, 0, 0⟩
    [102] ⟨1, 0, shndx, value, 0⟩
  relaDyn : sectionNamed (slotFile shndx value).data relaDyn = some ⟨17, 0, 0, 480, 24, 0, 24⟩
  relaPlt : sectionNamed (slotFile shndx value).data relaPlt = none
  relocation : relaAt (slotFile shndx value).data 480 = ⟨16, 2 ^ 32 + 6⟩

section OneSlot

variable {shndx value : Nat} (h : OneSlot shndx value)
include h

theorem slotFile_relocations :
    relocations (slotFile shndx value).data = [(.dyn, ⟨16, 2 ^ 32 + 6⟩)] := by
  have hdyn : tableEntries (slotFile shndx value).data .dyn = [⟨16, 2 ^ 32 + 6⟩] := by
    rw [← h.relocation, tableEntries, RelaTable.name, h.relaDyn]
    rfl
  have hplt : tableEntries (slotFile shndx value).data .plt = [] := by
    rw [tableEntries, RelaTable.name, h.relaPlt]
  rw [relocations, hdyn, hplt]
  rfl

theorem slotFile_relocatable : Relocatable (slotFile shndx value) 4096 := by
  refine ⟨fun t sh hsh => ?_, fun x hx _ => ?_, fun x hx _ => ?_, fun x hx _ y hy _ hne => ?_⟩
  · cases t with
    | dyn =>
        obtain rfl := Option.some.inj (h.relaDyn.symm.trans hsh)
        exact ⟨rfl, Nat.le_refl 504⟩
    | plt => cases h.relaPlt.symm.trans hsh
  · rw [slotFile_relocations h, List.mem_singleton] at hx
    subst hx
    exact ⟨_, h.symbols.dynsym, h.symbols.lt_iff.mpr (.inr rfl)⟩
  · rw [slotFile_relocations h, List.mem_singleton] at hx
    subst hx
    decide
  · rw [slotFile_relocations h, List.mem_singleton] at hx hy
    exact absurd (hx.trans hy.symm) hne

end OneSlot

theorem oneSlot_defined : OneSlot 1 32 :=
  ⟨⟨rfl, rfl, rfl, rfl, by decide, rfl, rfl, rfl, rfl⟩, rfl, rfl, rfl⟩

theorem oneSlot_undefined : OneSlot 0 0 :=
  ⟨⟨rfl, rfl, rfl, rfl, by decide, rfl, rfl, rfl, rfl⟩, rfl, rfl, rfl⟩

/-- What `elf2_new_initalize_file` makes of it. -/
def slotElf (shndx value : Nat)
    (h : (elf2NewInitalizeFile (slotFile shndx value).data).isSome) : Elf2File :=
  (elf2NewInitalizeFile (slotFile shndx value).data).get h

theorem relocated_iff_defined :
    ∃ memory', libLoadRelocationTables (slotFile 1 32) [] (slotElf 1 32 rfl) 0x10000 (fun _ => 0) =
        some memory' ∧ Relocated (slotFile 1 32) [] 0x10000 (fun _ => 0) memory' := by
  have hlt : (elfHeader (slotFile 1 32).data).eShstrndx < 255 := by decide
  refine (relocated_iff (slotFile 1 32) [] (slotElf 1 32 rfl) 0x10000 4096 (fun _ => 0)
    (oneSlot_defined.symbols.wellFormed) (slotFile_relocatable oneSlot_defined) (by decide)
    (Option.some_get _).symm (sectionsFound_of_lt hlt) (relaTablesFound_of_lt hlt)).mpr ?_
  have honly : ∀ x ∈ relocations (slotFile 1 32).data, x = (.dyn, ⟨16, 2 ^ 32 + 6⟩) := by
    intro x hx
    rw [slotFile_relocations oneSlot_defined] at hx
    exact List.mem_singleton.mp hx
  refine ⟨?_, ?_, ?_, ?_, ?_⟩
  · intro r hr _ name s hs _ name' s' hs'
    cases honly _ hr
    rw [(hs.unique oneSlot_defined.symbols.hasSymbol).2,
      (hs'.unique oneSlot_defined.symbols.hasSymbol).2]
  · intro r hr _ name s hs hundefined
    cases honly _ hr
    rw [(hs.unique oneSlot_defined.symbols.hasSymbol).2] at hundefined
    cases hundefined
  · intro r hr
    cases honly _ hr
  · intro r hr
    cases honly _ hr
  · intro x hx _ hkind
    rw [honly x hx] at hkind
    exact absurd rfl hkind

/-- For a symbol of the kernel the slot points to the begin of the library. -/
theorem kernel_symbol_not_linked :
    WellFormed (slotFile 0 0) ∧ Relocatable (slotFile 0 0) 4096 ∧
      (libLoadRelocationTables (slotFile 0 0) [⟨[102], 0x2000⟩] (slotElf 0 0 rfl) 0x10000
        fun _ => 0).map (le 8 · 0x10010) = some 0x10000 ∧
      ¬ ∃ memory', libLoadRelocationTables (slotFile 0 0) [⟨[102], 0x2000⟩] (slotElf 0 0 rfl)
          0x10000 (fun _ => 0) = some memory' ∧
        Relocated (slotFile 0 0) [⟨[102], 0x2000⟩] 0x10000 (fun _ => 0) memory' := by
  have hslot : (libLoadRelocationTables (slotFile 0 0) [⟨[102], 0x2000⟩] (slotElf 0 0 rfl) 0x10000
      fun _ => 0).map (le 8 · 0x10010) = some 0x10000 := rfl
  refine ⟨oneSlot_undefined.symbols.wellFormed, slotFile_relocatable oneSlot_undefined, hslot, ?_⟩
  rintro ⟨memory', hmemory, hrelocated⟩
  rw [hmemory, Option.map_some, Option.some.injEq] at hslot
  have hmem : (.dyn, ⟨16, 2 ^ 32 + 6⟩) ∈ relocations (slotFile 0 0).data := by
    rw [slotFile_relocations oneSlot_undefined]
    exact List.mem_cons_self
  have haddr := (hrelocated.slot _ hmem (.inl rfl) [102] ⟨1, 0, 0, 0, 0⟩
    oneSlot_undefined.symbols.hasSymbol).kernel rfl
    ⟨0x2000, by decide, _, List.mem_cons_self, rfl, rfl⟩
  obtain ⟨-, s, hs, -, heq⟩ := haddr
  rw [List.mem_singleton] at hs
  subst hs
  have hslot' : le 8 memory' (0x10000 + 16) = 0x10000 := hslot
  rw [hslot'] at heq
  exact absurd heq (by decide)

end VersionSix.Elf
