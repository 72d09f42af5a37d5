import VersionSix.ElfNames
import VersionSix.LibRelocations

/-!
# Lazy linking

`elf_loader_dynamic_linker` (`elf_loader.c`) gets the number of a slot, with 8
bits, and looks for its name in the kernel, in the dynamic symbols of the
program and in the libraries. It takes 0 for "not found" on the way, so a
symbol with the value 0 is passed over. The names are in two tables that the
end of `elf_loader_load_binary` makes of the file, with limited room in an
entry.

`slots_link_iff` says for which programs every slot leads to its symbol. The
first thing to know is what the tables hold (`HoldsDynSyms`): the names and
values of the symbols that 16 bits count, if every name has room. Then the
linker is a function of the three lists it searches, and `Leads` says where a
name goes.

A name that has no room is copied over the field behind it. That is not
modelled any further: the load fails there (`copyName`), which is a convention
and named as one in `LinkFits`.
-/

namespace VersionSix.Elf

open ByteStore (Bytes setLe)

/-- `".got.plt"` -/
def gotPlt : List UInt8 := [46, 103, 111, 116, 46, 112, 108, 116]

/-! ## The tables -/

/-- How long a name in a `symbol_index` gets before it reaches `value`, and before it reaches
`offset`. Nothing else is between, and a relocation has no `value`. -/
def dynNameRoom : Nat := 262
def relaNameRoom : Nat := 270

/-- `strcpy` to the name; `none` goes over a field that is in use. -/
def copyName (room : Nat) (name : List UInt8) : Option (List UInt8) :=
  if name.length < room then some name else none

/-- `symbol_index`, for a dynamic symbol. -/
structure DynSymIndex where
  name : List UInt8
  value : Nat
  size : Nat

/-- `symbol_index`, for a relocation. -/
structure RelaSymIndex where
  elfIndex : Nat
  name : List UInt8
  info : Nat
  offset : Nat

structure LinkTables where
  relaSymIndex : List RelaSymIndex
  dynSymIndex : List DynSymIndex

/-- A table of `n` entries, filled from the first one on. -/
def fillTable {α : Type} (entry : Nat → Option α) : Nat → Option (List α)
  | 0 => some []
  | n + 1 => (fillTable entry n).bind fun table => (entry n).map fun e => table ++ [e]

def elfGetSymbolNameFromSymbolIndex (f : File) (elf : ElfFile) (index : Nat) :
    Option (List UInt8) :=
  (elfGetSectionHeaderByName f.data elf dynsym).bind fun sectDynsym =>
    (elfGetSectionHeaderByName f.data elf dynstr).bind fun sectDynstr =>
      f.string (sectDynstr.shOffset +
        (symbolAt f.data (sectDynsym.shOffset + symSize * index)).stName)

def dynSymEntry (f : File) (sectDynsym sectDynstr : Elf64Shdr) (i : Nat) : Option DynSymIndex :=
  let sym := symbolAt f.data (sectDynsym.shOffset + symSize * i)
  ((f.string (sectDynstr.shOffset + sym.stName)).bind (copyName dynNameRoom)).map fun name =>
    { name := name
      value := sym.stValue
      size := sym.stSize }

def relaSymEntry (f : File) (elf : ElfFile) (relPlt : Elf64Shdr) (relNum : Nat) :
    Option RelaSymIndex :=
  let elfRel := relaAt f.data (relPlt.shOffset + relNum * relPlt.shEntsize)
  ((elfGetSymbolNameFromSymbolIndex f elf elfRel.sym).bind (copyName relaNameRoom)).map
    fun name =>
      { elfIndex := relNum % 2 ^ 16
        name := name
        info := elfRel.rInfo
        offset := elfRel.rOffset }

/-- `elf_loader_load_binary` from `.rela.plt` on, without the two words of the GOT. `none` is a
`NULL` pointer that is followed, a division by 0, a name that is too long, or the shutdown
without a GOT. -/
def loadLinkTables (f : File) (elf : ElfFile) : Option LinkTables :=
  match elfGetSectionHeaderByName f.data elf relaPlt with
  | none => some { relaSymIndex := [], dynSymIndex := [] }
  | some relPlt => do
      let sectDynsym ← elfGetSectionHeaderByName f.data elf dynsym
      let sectDynstr ← elfGetSectionHeaderByName f.data elf dynstr
      if sectDynsym.shEntsize = 0 then none
      else
        let numDynSyms := sectDynsym.shSize / sectDynsym.shEntsize % 2 ^ 16
        let dynSymIndex ← fillTable (dynSymEntry f sectDynsym sectDynstr) numDynSyms
        let _ ← elfGetSectionHeaderByName f.data elf gotPlt
        let numOfRelPltEntries := (Int.bmod (relPlt.shSize / relaSize : Nat) (2 ^ 32)).toNat
        let relaSymIndex ← fillTable (relaSymEntry f elf relPlt) numOfRelPltEntries
        some { relaSymIndex := relaSymIndex, dynSymIndex := dynSymIndex }

/-! ## The linker -/

/-- `elf_loader_dynamic_linker`; `none` is an entry that is not there, or the end of
`lib_dynamic_linker` without a value. -/
def elfLoaderDynamicLinker (ksyms : List Symbol) (registry : List LibShared) (t : LinkTables)
    (gotIndex : Nat) : Option Nat :=
  (t.relaSymIndex[gotIndex % 2 ^ 8]?).bind fun (r : RelaSymIndex) =>
    let functionAddr := ((symbolNamed ksyms r.name).map fun sym => sym.addr.toNat).getD 0
    let functionAddr :=
      if functionAddr = 0 then
        ((t.dynSymIndex.find? fun e => r.name = e.name).map DynSymIndex.value).getD 0
      else functionAddr
    if functionAddr = 0 then libDynamicLinker registry r.name else some functionAddr

/-! ## What is to hold -/

/-- Relocation `k` of `.rela.plt` names `name`. -/
def File.RelocationNames (f : File) (k : Nat) (name : List UInt8) : Prop :=
  ∃ sh, sectionNamed f.data relaPlt = some sh ∧ k < sh.shSize / relaSize ∧
    ∃ s, f.HasSymbol (relaAt f.data (sh.shOffset + relaSize * k)).sym name s

/-- `a` is the address for the name: that of the kernel, else that of the program, else what the
libraries have, else `NULL`. -/
structure LinksTo (f : File) (ksyms : List Symbol) (registry : List LibShared)
    (name : List UInt8) (a : Nat) : Prop where
  kernel : (∃ b, KernelHas ksyms name b) → KernelHas ksyms name a
  program : (¬ ∃ b, KernelHas ksyms name b) → (∃ i s, f.Defines i name s) →
    ∃ i s, f.Defines i name s ∧ s.stValue = a
  library : (¬ ∃ b, KernelHas ksyms name b) → (¬ ∃ i s, f.Defines i name s) →
    libDynamicLinker registry name = some a ∨ libDynamicLinker registry name = none ∧ a = 0

/-- Every slot leads to the address for its name. -/
def SlotsLink (f : File) (ksyms : List Symbol) (registry : List LibShared) : Prop :=
  ∃ elf t, elfFileInitalize f.data = some elf ∧ loadLinkTables f elf = some t ∧
    ∀ k name, f.RelocationNames k name →
      ∃ a, elfLoaderDynamicLinker ksyms registry t k = some a ∧ LinksTo f ksyms registry name a

/-- A program with its relocations in the file, each for a symbol, and a GOT. -/
structure Linkable (f : File) : Prop where
  table : ∀ sh, sectionNamed f.data relaPlt = some sh →
    sh.shEntsize = relaSize ∧ sh.shOffset + sh.shSize ≤ f.size
  sections : ∀ sh, sectionNamed f.data relaPlt = some sh →
    (∃ shDyn, sectionNamed f.data dynsym = some shDyn) ∧
      ∃ shGot, sectionNamed f.data gotPlt = some shGot
  symbol : ∀ sh, sectionNamed f.data relaPlt = some sh → ∀ k < sh.shSize / relaSize,
    ∀ shDyn, sectionNamed f.data dynsym = some shDyn →
      (relaAt f.data (sh.shOffset + relaSize * k)).sym < shDyn.shSize / symSize

/-- The first dynamic symbol with the name, of those that 16 bits count. -/
def File.FirstSymbol (f : File) (name : List UInt8) (s : Elf64Sym) : Prop :=
  ∃ shDyn, sectionNamed f.data dynsym = some shDyn ∧
    ∃ i < shDyn.shSize / symSize % 2 ^ 16, f.HasSymbol i name s ∧
      ∀ j < i, ∀ s', ¬ f.HasSymbol j name s'

/-- Where a name leads: to the kernel, unless it is at 0 there; else to the first symbol of the
program with the name, unless that has the value 0; else to what the libraries have. -/
inductive Leads (f : File) (ksyms : List Symbol) (registry : List LibShared)
    (name : List UInt8) : Nat → Prop
  | kernel {a : Nat} : elfLoaderGetKsymAddr ksyms name = a → a ≠ 0 → Leads f ksyms registry name a
  | program {s : Elf64Sym} : elfLoaderGetKsymAddr ksyms name = 0 → f.FirstSymbol name s →
      s.stValue ≠ 0 → Leads f ksyms registry name s.stValue
  | library {a : Nat} : elfLoaderGetKsymAddr ksyms name = 0 →
      (∀ s, f.FirstSymbol name s → s.stValue = 0) → libDynamicLinker registry name = some a →
      Leads f ksyms registry name a

/-- All names have room, and the name of every slot leads to its address. Of the number of a
slot only 8 bits count.

That a name without room makes the load fail is a convention: `strcpy` goes over the end of
`name` there, and the field behind it is written afterwards, so that the entry keeps another
name. A slot that does not use the entry would not notice. -/
structure LinkFits (f : File) (ksyms : List Symbol) (registry : List LibShared) : Prop where
  dynNames : (∃ sh, sectionNamed f.data relaPlt = some sh) →
    ∀ shDyn, sectionNamed f.data dynsym = some shDyn →
      ∀ i < shDyn.shSize / symSize % 2 ^ 16, ∀ name s, f.HasSymbol i name s →
        name.length < dynNameRoom
  relaNames : ∀ k name, f.RelocationNames k name → name.length < relaNameRoom
  slots : ∀ k name, f.RelocationNames k name → ∀ name', f.RelocationNames (k % 2 ^ 8) name' →
    ∃ a, Leads f ksyms registry name' a ∧ LinksTo f ksyms registry name a

def LinkSectionsFound (data : Bytes) (elf : ElfFile) : Prop :=
  ∀ name ∈ [relaPlt, dynsym, dynstr, gotPlt],
    elfGetSectionHeaderByName data elf name = sectionNamed data name

theorem linkSectionsFound_of_lt {data : Bytes} {elf : ElfFile}
    (hinit : elfFileInitalize data = some elf) (h : (elfHeader data).eShstrndx < 255) :
    LinkSectionsFound data elf := by
  obtain ⟨symtab, -, rfl⟩ := Option.map_eq_some_iff.mp hinit
  exact fun name _ => byName_of_lt h name

/-! ## Filling a table -/

theorem fillTable_eq_some {α : Type} {entry : Nat → Option α} {n : Nat} {table : List α} :
    fillTable entry n = some table ↔ table.length = n ∧ ∀ i < n, entry i = table[i]? := by
  induction n generalizing table with
  | zero =>
      rw [fillTable, Option.some.injEq]
      constructor
      · rintro rfl
        exact ⟨rfl, fun i hi => absurd hi (Nat.not_lt_zero i)⟩
      · rintro ⟨hlen, -⟩
        exact (List.length_eq_zero_iff.mp hlen).symm
  | succ n ih =>
      rw [fillTable]
      constructor
      · intro h
        obtain ⟨init, hinit, h⟩ := Option.bind_eq_some_iff.mp h
        obtain ⟨e, he, rfl⟩ := Option.map_eq_some_iff.mp h
        obtain ⟨hlen, hentries⟩ := ih.mp hinit
        refine ⟨by rw [List.length_append, hlen, List.length_singleton], fun i hi => ?_⟩
        rcases Nat.lt_or_eq_of_le (Nat.le_of_lt_succ hi) with hlt | rfl
        · rw [List.getElem?_append_left (hlen ▸ hlt), hentries i hlt]
        · rw [List.getElem?_append_right (hlen ▸ le_rfl), hlen, Nat.sub_self, he]
          rfl
      · rintro ⟨hlen, hentries⟩
        have hlt : n < table.length := hlen ▸ Nat.lt_succ_self n
        have hinit : fillTable entry n = some (table.take n) := by
          refine ih.mpr ⟨?_, fun i hi => ?_⟩
          · rw [List.length_take, Nat.min_eq_left hlt.le]
          · rw [List.getElem?_take_of_lt hi, hentries i (Nat.lt_succ_of_lt hi)]
        rw [hinit, Option.bind_some, hentries n (Nat.lt_succ_self n),
          List.getElem?_eq_getElem hlt, Option.map_some, List.take_append_getElem hlt,
          List.take_of_length_le hlen.le]

theorem fillTable_isSome {α : Type} {entry : Nat → Option α} {n : Nat}
    (h : ∀ i < n, ∃ e, entry i = some e) : ∃ table, fillTable entry n = some table := by
  induction n with
  | zero => exact ⟨[], rfl⟩
  | succ n ih =>
      obtain ⟨table, htable⟩ := ih fun i hi => h i (Nat.lt_succ_of_lt hi)
      obtain ⟨e, he⟩ := h n (Nat.lt_succ_self n)
      exact ⟨table ++ [e], by rw [fillTable, htable, he]; rfl⟩

/-! ## The names in the tables -/

theorem map_copyName_eq_some {α : Type} {room : Nat} {name : List UInt8} {g : List UInt8 → α}
    {e : α} : (copyName room name).map g = some e ↔ name.length < room ∧ e = g name := by
  unfold copyName
  split_ifs with hroom
  · simp [hroom, eq_comm]
  · simp [hroom]

variable {f : File} {elf : ElfFile} {ksyms : List Symbol} {registry : List LibShared}

theorem File.RelocationNames.unique {k : Nat} {name name' : List UInt8}
    (h : f.RelocationNames k name) (h' : f.RelocationNames k name') : name = name' := by
  obtain ⟨sh, hsh, -, s, hs⟩ := h
  obtain ⟨sh', hsh', -, s', hs'⟩ := h'
  obtain rfl := Option.some.inj (hsh.symm.trans hsh')
  exact (hs.unique hs').1

theorem File.RelocationNames.lt {k : Nat} {name : List UInt8} (h : f.RelocationNames k name)
    {sh : Elf64Shdr} (hsh : sectionNamed f.data relaPlt = some sh) : k < sh.shSize / relaSize := by
  obtain ⟨sh', hsh', hk, -⟩ := h
  obtain rfl := Option.some.inj (hsh.symm.trans hsh')
  exact hk

theorem File.FirstSymbol.unique {name : List UInt8} {s s' : Elf64Sym}
    (h : f.FirstSymbol name s) (h' : f.FirstSymbol name s') : s = s' := by
  obtain ⟨-, -, i, -, hs, hfirst⟩ := h
  obtain ⟨-, -, i', -, hs', hfirst'⟩ := h'
  rcases Nat.lt_trichotomy i i' with hlt | rfl | hlt
  · exact absurd hs (hfirst' i hlt s)
  · exact (hs.unique hs').2
  · exact absurd hs' (hfirst i' hlt s')

/-- A table with the names and values of the dynamic symbols that 16 bits count. -/
structure HoldsDynSyms (f : File) (table : List DynSymIndex) : Prop where
  count : ∃ shDyn, sectionNamed f.data dynsym = some shDyn ∧
    table.length = shDyn.shSize / symSize % 2 ^ 16
  entry : ∀ (i : Nat) e, table[i]? = some e → ∃ s, f.HasSymbol i e.name s ∧ e.value = s.stValue

theorem HoldsDynSyms.find_some {table : List DynSymIndex} (htable : HoldsDynSyms f table)
    {name : List UInt8} {e : DynSymIndex}
    (h : (table.find? fun e => name = e.name) = some e) :
    ∃ s, f.FirstSymbol name s ∧ e.value = s.stValue := by
  obtain ⟨shDyn, hdyn, hcount⟩ := htable.count
  obtain ⟨hname, i, hi, rfl, hbefore⟩ := List.find?_eq_some_iff_getElem.mp h
  have hname := of_decide_eq_true hname
  obtain ⟨s, hs, hvalue⟩ := htable.entry i _ (List.getElem?_eq_getElem hi)
  rw [← hname] at hs
  refine ⟨s, ⟨shDyn, hdyn, i, hcount ▸ hi, hs, fun j hj s' hs' => ?_⟩, hvalue⟩
  have hj' := hbefore j hj
  obtain ⟨t, ht, -⟩ := htable.entry j _ (List.getElem?_eq_getElem (hj.trans hi))
  rw [(hs'.unique ht).1] at hj'
  simp at hj'

theorem HoldsDynSyms.find_none {table : List DynSymIndex} (htable : HoldsDynSyms f table)
    {name : List UInt8} (h : (table.find? fun e => name = e.name) = none) (s : Elf64Sym) :
    ¬ f.FirstSymbol name s := by
  rintro ⟨shDyn, hdyn, i, hi, hs, -⟩
  obtain ⟨shDyn', hdyn', hcount⟩ := htable.count
  obtain rfl := Option.some.inj (hdyn.symm.trans hdyn')
  have hlt : i < table.length := hcount ▸ hi
  obtain ⟨t, ht, -⟩ := htable.entry i _ (List.getElem?_eq_getElem hlt)
  have hnone := List.find?_eq_none.mp h _ (List.getElem_mem hlt)
  rw [(hs.unique ht).1] at hnone
  simp at hnone

/-! ## Where the linker leads -/

theorem leads_kernel_iff {name : List UInt8} (hne : elfLoaderGetKsymAddr ksyms name ≠ 0)
    (a : Nat) : Leads f ksyms registry name a ↔ elfLoaderGetKsymAddr ksyms name = a := by
  constructor
  · intro h
    cases h with
    | kernel h _ => exact h
    | program hnull _ _ => exact absurd hnull hne
    | library hnull _ _ => exact absurd hnull hne
  · rintro rfl
    exact .kernel rfl hne

theorem leads_program_iff {name : List UInt8} (hnull : elfLoaderGetKsymAddr ksyms name = 0)
    {s : Elf64Sym} (hs : f.FirstSymbol name s) (hne : s.stValue ≠ 0) (a : Nat) :
    Leads f ksyms registry name a ↔ s.stValue = a := by
  constructor
  · intro h
    cases h with
    | kernel h hne' =>
        subst h
        exact absurd hnull hne'
    | program _ hs' _ => rw [hs'.unique hs]
    | library _ hzero _ => exact absurd (hzero s hs) hne
  · rintro rfl
    exact .program hnull hs hne

theorem leads_library_iff {name : List UInt8} (hnull : elfLoaderGetKsymAddr ksyms name = 0)
    (hzero : ∀ s, f.FirstSymbol name s → s.stValue = 0) (a : Nat) :
    Leads f ksyms registry name a ↔ libDynamicLinker registry name = some a := by
  constructor
  · intro h
    cases h with
    | kernel h hne =>
        subst h
        exact absurd hnull hne
    | program _ hs hne => exact absurd (hzero _ hs) hne
    | library _ _ h => exact h
  · exact fun h => .library hnull hzero h

theorem elfLoaderDynamicLinker_iff {t : LinkTables} (htable : HoldsDynSyms f t.dynSymIndex)
    {k : Nat} {r : RelaSymIndex} (hr : t.relaSymIndex[k % 2 ^ 8]? = some r) (a : Nat) :
    elfLoaderDynamicLinker ksyms registry t k = some a ↔ Leads f ksyms registry r.name a := by
  have hkernel : ((symbolNamed ksyms r.name).map fun sym => sym.addr.toNat).getD 0 =
      elfLoaderGetKsymAddr ksyms r.name := by
    unfold elfLoaderGetKsymAddr
    cases symbolNamed ksyms r.name <;> rfl
  unfold elfLoaderDynamicLinker
  rw [hr, Option.bind_some]
  dsimp only
  rw [hkernel]
  by_cases hnull : elfLoaderGetKsymAddr ksyms r.name = 0
  · rw [if_pos hnull]
    cases hfind : t.dynSymIndex.find? fun e => r.name = e.name with
    | none =>
        have hnone := htable.find_none hfind
        rw [Option.map_none, Option.getD_none, if_pos rfl]
        exact (leads_library_iff hnull (fun s hs => absurd hs (hnone s)) a).symm
    | some e =>
        obtain ⟨s, hs, hvalue⟩ := htable.find_some hfind
        rw [Option.map_some, Option.getD_some, hvalue]
        by_cases hzero : s.stValue = 0
        · rw [if_pos hzero]
          exact (leads_library_iff hnull (fun s' hs' => hs'.unique hs ▸ hzero) a).symm
        · rw [if_neg hzero, Option.some.injEq]
          exact (leads_program_iff hnull hs hzero a).symm
  · rw [if_neg hnull, if_neg hnull, Option.some.injEq]
    exact (leads_kernel_iff hnull a).symm

/-! ## What the loader makes -/

section Load

variable (hwf : WellFormed f) (hlink : Linkable f) (hfound : LinkSectionsFound f.data elf)
  {sh shDyn shDynStr : Elf64Shdr} (hsh : sectionNamed f.data relaPlt = some sh)
  (hdyn : sectionNamed f.data dynsym = some shDyn)
  (hstr : sectionNamed f.data dynstr = some shDynStr)

include hdyn hstr in
theorem dynSymEntry_iff {i : Nat} {name : List UInt8} {s : Elf64Sym} (hs : f.HasSymbol i name s)
    {e : DynSymIndex} : dynSymEntry f shDyn shDynStr i = some e ↔
      name.length < dynNameRoom ∧ e = ⟨name, s.stValue, s.stSize⟩ := by
  obtain ⟨shDyn', shDynStr', hdyn', hstr', -, rfl, hname⟩ := hs
  obtain rfl := Option.some.inj (hdyn.symm.trans hdyn')
  obtain rfl := Option.some.inj (hstr.symm.trans hstr')
  have hname : f.string (shDynStr.shOffset +
      (symbolAt f.data (shDyn.shOffset + symSize * i)).stName) = some name := hname
  rw [dynSymEntry, hname, Option.bind_some]
  exact map_copyName_eq_some

include hlink hfound hsh hdyn hstr in
theorem relaSymEntry_iff {k : Nat} {name : List UInt8} (hk : f.RelocationNames k name)
    {r : RelaSymIndex} : relaSymEntry f elf sh k = some r ↔ name.length < relaNameRoom ∧
      r = ⟨k % 2 ^ 16, name, (relaAt f.data (sh.shOffset + relaSize * k)).rInfo,
        (relaAt f.data (sh.shOffset + relaSize * k)).rOffset⟩ := by
  obtain ⟨sh', hsh', -, s, shDyn', shDynStr', hdyn', hstr', -, rfl, hname⟩ := hk
  obtain rfl := Option.some.inj (hsh.symm.trans hsh')
  obtain rfl := Option.some.inj (hdyn.symm.trans hdyn')
  obtain rfl := Option.some.inj (hstr.symm.trans hstr')
  have hsize := (hlink.table sh hsh).1
  have hlookup : elfGetSymbolNameFromSymbolIndex f elf
      (relaAt f.data (sh.shOffset + relaSize * k)).sym = some name := by
    rw [elfGetSymbolNameFromSymbolIndex, hfound dynsym (by simp), hdyn, Option.bind_some,
      hfound dynstr (by simp), hstr, Option.bind_some]
    exact hname
  rw [relaSymEntry, hsize, Nat.mul_comm k, hlookup, Option.bind_some]
  exact map_copyName_eq_some

include hwf hlink hfound hsh hdyn hstr in
theorem loadLinkTables_iff {t : LinkTables} : loadLinkTables f elf = some t ↔
    fillTable (dynSymEntry f shDyn shDynStr) (shDyn.shSize / symSize % 2 ^ 16) =
        some t.dynSymIndex ∧
      fillTable (relaSymEntry f elf sh) (sh.shSize / relaSize) = some t.relaSymIndex := by
  have hentsize := (hwf.table shDyn hdyn).1
  have hnonzero : ¬ symSize = 0 := by decide
  obtain ⟨shGot, hgot⟩ := (hlink.sections sh hsh).2
  have hcount := relaCount_eq (hlink.table sh hsh).2
  unfold loadLinkTables
  rw [hfound relaPlt (by simp), hsh]
  dsimp only
  rw [hfound dynsym (by simp), hdyn, hfound dynstr (by simp), hstr, hfound gotPlt (by simp), hgot,
    hcount]
  simp only [Option.bind_eq_bind, Option.bind_some, hentsize, if_neg hnonzero]
  cases hd : fillTable (dynSymEntry f shDyn shDynStr) (shDyn.shSize / symSize % 2 ^ 16) with
  | none => simp
  | some dynSymIndex =>
      cases hr : fillTable (relaSymEntry f elf sh) (sh.shSize / relaSize) with
      | none => simp
      | some relaSymIndex =>
          obtain ⟨rs, ds⟩ := t
          simp [and_comm]

include hwf hdyn hstr in
theorem exists_symbol {i : Nat} (hi : i < shDyn.shSize / symSize) :
    ∃ name s, f.HasSymbol i name s := by
  obtain ⟨shDynStr', hstr', hnames⟩ := hwf.names shDyn hdyn
  obtain rfl := Option.some.inj (hstr.symm.trans hstr')
  obtain ⟨name, hname⟩ := hnames i hi
  exact ⟨name, _, shDyn, shDynStr, hdyn, hstr, hi, rfl, hname⟩

include hwf hlink hsh hdyn hstr in
theorem exists_relocation {k : Nat} (hk : k < sh.shSize / relaSize) :
    ∃ name, f.RelocationNames k name := by
  obtain ⟨name, s, hs⟩ := exists_symbol hwf hdyn hstr (hlink.symbol sh hsh k hk shDyn hdyn)
  exact ⟨name, sh, hsh, hk, s, hs⟩

include hwf hdyn hstr in
theorem holdsDynSyms_of_fill {table : List DynSymIndex}
    (hfill : fillTable (dynSymEntry f shDyn shDynStr) (shDyn.shSize / symSize % 2 ^ 16) =
      some table) : HoldsDynSyms f table := by
  obtain ⟨hlen, hentries⟩ := fillTable_eq_some.mp hfill
  refine ⟨⟨shDyn, hdyn, hlen⟩, fun i e he => ?_⟩
  have hi : i < shDyn.shSize / symSize % 2 ^ 16 := hlen ▸ (List.getElem?_eq_some_iff.mp he).1
  obtain ⟨name, s, hs⟩ := exists_symbol hwf hdyn hstr (Nat.lt_of_lt_of_le hi (Nat.mod_le ..))
  obtain ⟨-, rfl⟩ := (dynSymEntry_iff hdyn hstr hs).mp ((hentries i hi).trans he)
  exact ⟨s, hs, rfl⟩

include hdyn hstr in
theorem dynName_of_fill {table : List DynSymIndex} {n : Nat}
    (hfill : fillTable (dynSymEntry f shDyn shDynStr) n = some table) {i : Nat} (hi : i < n)
    {name : List UInt8} {s : Elf64Sym} (hs : f.HasSymbol i name s) :
    name.length < dynNameRoom := by
  obtain ⟨hlen, hentries⟩ := fillTable_eq_some.mp hfill
  have hentry := hentries i hi
  rw [List.getElem?_eq_getElem (hlen ▸ hi)] at hentry
  exact ((dynSymEntry_iff hdyn hstr hs).mp hentry).1

include hlink hfound hsh hdyn hstr in
theorem relaEntry_of_fill {table : List RelaSymIndex}
    (hfill : fillTable (relaSymEntry f elf sh) (sh.shSize / relaSize) = some table) {k : Nat}
    {name : List UInt8} (hk : f.RelocationNames k name) :
    name.length < relaNameRoom ∧ ∃ r, table[k]? = some r ∧ r.name = name := by
  obtain ⟨hlen, hentries⟩ := fillTable_eq_some.mp hfill
  have hlt := hk.lt hsh
  have hentry := hentries k hlt
  rw [List.getElem?_eq_getElem (hlen ▸ hlt)] at hentry
  obtain ⟨hroom, hr⟩ := (relaSymEntry_iff hlink hfound hsh hdyn hstr hk).mp hentry
  exact ⟨hroom, _, List.getElem?_eq_getElem (hlen ▸ hlt), by rw [hr]⟩

include hwf hlink hfound hsh hdyn hstr in
theorem exists_linkTables (hfits : LinkFits f ksyms registry) :
    ∃ t, loadLinkTables f elf = some t := by
  have hdynTable : ∃ t, fillTable (dynSymEntry f shDyn shDynStr)
      (shDyn.shSize / symSize % 2 ^ 16) = some t := fillTable_isSome fun i hi => by
    obtain ⟨name, s, hs⟩ := exists_symbol hwf hdyn hstr (Nat.lt_of_lt_of_le hi (Nat.mod_le ..))
    exact ⟨_, (dynSymEntry_iff hdyn hstr hs).mpr
      ⟨hfits.dynNames ⟨sh, hsh⟩ shDyn hdyn i hi name s hs, rfl⟩⟩
  have hrelaTable : ∃ t, fillTable (relaSymEntry f elf sh) (sh.shSize / relaSize) = some t :=
      fillTable_isSome fun k hk => by
    obtain ⟨name, hname⟩ := exists_relocation hwf hlink hsh hdyn hstr hk
    exact ⟨_, (relaSymEntry_iff hlink hfound hsh hdyn hstr hname).mpr
      ⟨hfits.relaNames k name hname, rfl⟩⟩
  obtain ⟨dynSymIndex, hd⟩ := hdynTable
  obtain ⟨relaSymIndex, hr⟩ := hrelaTable
  exact ⟨⟨relaSymIndex, dynSymIndex⟩,
    (loadLinkTables_iff hwf hlink hfound hsh hdyn hstr).mpr ⟨hd, hr⟩⟩

end Load

/-- Every slot leads to its symbol when the names have room and lead there, and
not otherwise. The linker is asked for each slot of the program, with the 8
bits of its number that it gets; a name leads to the kernel, the program or the
libraries, in this order, and past any of them that has it at 0. -/
theorem slots_link_iff (f : File) (elf : ElfFile) (ksyms : List Symbol)
    (registry : List LibShared) (hinit : elfFileInitalize f.data = some elf) (hwf : WellFormed f)
    (hlink : Linkable f) (hfound : LinkSectionsFound f.data elf) :
    SlotsLink f ksyms registry ↔ LinkFits f ksyms registry := by
  cases hsh : sectionNamed f.data relaPlt with
  | none =>
      -- no slots: the tables are not made, and nothing is asked for
      have hnot : ∀ k name, ¬ f.RelocationNames k name := by
        rintro k name ⟨sh, hsh', -⟩
        cases hsh.symm.trans hsh'
      have hload : loadLinkTables f elf = some { relaSymIndex := [], dynSymIndex := [] } := by
        rw [loadLinkTables, hfound relaPlt (by simp), hsh]
      refine iff_of_true ⟨elf, _, hinit, hload, fun k name h => absurd h (hnot k name)⟩ ⟨?_, ?_, ?_⟩
      · rintro ⟨sh, hsh'⟩
        cases hsh.symm.trans hsh'
      · exact fun k name h => absurd h (hnot k name)
      · exact fun k name h => absurd h (hnot k name)
  | some sh =>
      obtain ⟨⟨shDyn, hdyn⟩, -⟩ := hlink.sections sh hsh
      obtain ⟨shDynStr, hstr, -⟩ := hwf.names shDyn hdyn
      constructor
      · rintro ⟨elf', t, hinit', hload, hslots⟩
        obtain rfl := Option.some.inj (hinit.symm.trans hinit')
        obtain ⟨hd, hr⟩ := (loadLinkTables_iff hwf hlink hfound hsh hdyn hstr).mp hload
        refine ⟨fun _ shDyn' hdyn' i hi name s hs => ?_, fun k name hk => ?_,
          fun k name hk name' hk' => ?_⟩
        · obtain rfl := Option.some.inj (hdyn.symm.trans hdyn')
          exact dynName_of_fill hdyn hstr hd hi hs
        · exact (relaEntry_of_fill hlink hfound hsh hdyn hstr hr hk).1
        · obtain ⟨a, hlinker, hlinks⟩ := hslots k name hk
          obtain ⟨-, r, hat, rfl⟩ := relaEntry_of_fill hlink hfound hsh hdyn hstr hr hk'
          have htable := holdsDynSyms_of_fill hwf hdyn hstr hd
          exact ⟨a, (elfLoaderDynamicLinker_iff htable hat a).mp hlinker, hlinks⟩
      · intro hfits
        obtain ⟨t, hload⟩ := exists_linkTables hwf hlink hfound hsh hdyn hstr hfits
        obtain ⟨hd, hr⟩ := (loadLinkTables_iff hwf hlink hfound hsh hdyn hstr).mp hload
        refine ⟨elf, t, hinit, hload, fun k name hk => ?_⟩
        have hlt : k % 2 ^ 8 < sh.shSize / relaSize :=
          Nat.lt_of_le_of_lt (Nat.mod_le ..) (hk.lt hsh)
        obtain ⟨name', hk'⟩ := exists_relocation hwf hlink hsh hdyn hstr hlt
        obtain ⟨a, hleads, hlinks⟩ := hfits.slots k name hk name' hk'
        obtain ⟨-, r, hat, rfl⟩ := relaEntry_of_fill hlink hfound hsh hdyn hstr hr hk'
        have htable := holdsDynSyms_of_fill hwf hdyn hstr hd
        exact ⟨a, (elfLoaderDynamicLinker_iff htable hat a).mpr hleads, hlinks⟩

/-! ## One slot -/

/-- A program with the symbol `f`, of the given value, and a slot for it. -/
def linkFile (value : Nat) : File where
  data :=
    [(8, 40, 64), (2, 58, 64), (2, 60, 7), (2, 62, 6), (4, 132, 2), (8, 152, 632), (4, 192, 1),
      (8, 216, 560), (8, 224, 48), (8, 248, 24), (4, 256, 9), (8, 280, 552), (8, 288, 3),
      (4, 320, 17), (8, 344, 608), (8, 352, 24), (8, 376, 24), (4, 384, 27), (8, 472, 512),
      (8, 513, 0x6D79736E79642E), (8, 521, 0x7274736E79642E), (8, 529, 0x6C702E616C65722E),
      (2, 537, 116), (8, 539, 0x746C702E746F672E), (1, 553, 102), (4, 584, 1), (8, 592, value),
      (8, 608, 0x404018), (8, 616, 2 ^ 32 + 7)].foldl
      (fun data field => setLe field.1 data field.2.1 field.2.2) fun _ => 0
  size := 632
  size_lt := by decide

/-- What such a file is to have. -/
structure OneLink (value : Nat) : Prop where
  symbols : TwoSymbols (linkFile value) ⟨1, 0, 0, 560, 48, 0, 24⟩ ⟨9, 0, 0, 552, 3, 0, 0⟩
    [102] ⟨1, 0, 0, value, 0⟩
  relaPlt : sectionNamed (linkFile value).data relaPlt = some ⟨17, 0, 0, 608, 24, 0, 24⟩
  gotPlt : sectionNamed (linkFile value).data gotPlt = some ⟨27, 0, 0, 0, 0, 0, 0⟩
  relocation : relaAt (linkFile value).data 608 = ⟨0x404018, 2 ^ 32 + 7⟩

section OneLink

variable {value : Nat} (h : OneLink value)
include h

theorem linkFile_relocation :
    relaAt (linkFile value).data (608 + relaSize * 0) = ⟨0x404018, 2 ^ 32 + 7⟩ :=
  h.relocation

theorem linkFile_linkable : Linkable (linkFile value) := by
  refine ⟨fun sh hsh => ?_, fun sh hsh => ?_, fun sh hsh k hk shDyn hdyn => ?_⟩
  · obtain rfl := Option.some.inj (h.relaPlt.symm.trans hsh)
    exact ⟨rfl, Nat.le_refl 632⟩
  · exact ⟨⟨_, h.symbols.dynsym⟩, ⟨_, h.gotPlt⟩⟩
  · obtain rfl := Option.some.inj (h.relaPlt.symm.trans hsh)
    obtain rfl := Option.some.inj (h.symbols.dynsym.symm.trans hdyn)
    obtain rfl : k = 0 := Nat.lt_one_iff.mp hk
    rw [linkFile_relocation h]
    exact h.symbols.lt_iff.mpr (.inr rfl)

theorem linkFile_names {k : Nat} {name : List UInt8}
    (hk : (linkFile value).RelocationNames k name) : k = 0 ∧ name = [102] := by
  obtain ⟨sh, hsh, hlt, s, hs⟩ := hk
  obtain rfl := Option.some.inj (h.relaPlt.symm.trans hsh)
  obtain rfl : k = 0 := Nat.lt_one_iff.mp hlt
  rw [linkFile_relocation h] at hs
  exact ⟨rfl, (hs.unique h.symbols.hasSymbol).1⟩

theorem linkFile_slot : (linkFile value).RelocationNames 0 [102] := by
  refine ⟨_, h.relaPlt, by decide, ⟨1, 0, 0, value, 0⟩, ?_⟩
  rw [linkFile_relocation h]
  exact h.symbols.hasSymbol

theorem linkFile_undefined (name : List UInt8) (i : Nat) (s : Elf64Sym) :
    ¬ (linkFile value).Defines i name s := by
  rintro ⟨shDyn, shDynStr, hdyn, hstr, hi, hs, hdefined, hname⟩
  rcases h.symbols.hasSymbol_cases ⟨shDyn, shDynStr, hdyn, hstr, hi, hs, hname⟩ with
    ⟨-, -, rfl⟩ | ⟨-, -, rfl⟩
  · exact hdefined rfl
  · exact hdefined rfl

end OneLink

theorem oneLink_plain : OneLink 0 :=
  ⟨⟨rfl, rfl, rfl, rfl, by decide, rfl, rfl, rfl, rfl⟩, rfl, rfl, rfl⟩

theorem oneLink_address : OneLink 0x401030 :=
  ⟨⟨rfl, rfl, rfl, rfl, by decide, rfl, rfl, rfl, rfl⟩, rfl, rfl, rfl⟩

def linkElf (value : Nat) (h : (elfFileInitalize (linkFile value).data).isSome) : ElfFile :=
  (elfFileInitalize (linkFile value).data).get h

theorem slots_link_iff_kernel : SlotsLink (linkFile 0) [⟨[102], 0x2000⟩] [] := by
  have hinit : elfFileInitalize (linkFile 0).data = some (linkElf 0 rfl) := (Option.some_get _).symm
  refine (slots_link_iff (linkFile 0) (linkElf 0 rfl) [⟨[102], 0x2000⟩] [] hinit
    oneLink_plain.symbols.wellFormed (linkFile_linkable oneLink_plain)
    (linkSectionsFound_of_lt hinit (by decide))).mpr ⟨?_, ?_, ?_⟩
  · intro _ shDyn _ i _ name s hs
    rcases oneLink_plain.symbols.hasSymbol_cases hs with ⟨-, rfl, -⟩ | ⟨-, rfl, -⟩
    · decide
    · decide
  · intro k name hk
    obtain ⟨-, rfl⟩ := linkFile_names oneLink_plain hk
    decide
  · intro k name hk name' hk'
    obtain ⟨-, rfl⟩ := linkFile_names oneLink_plain hk
    obtain ⟨-, rfl⟩ := linkFile_names oneLink_plain hk'
    have hkernel : KernelHas [⟨[102], 0x2000⟩] [102] 0x2000 :=
      ⟨by decide, _, List.mem_cons_self, rfl, rfl⟩
    exact ⟨0x2000, .kernel rfl (by decide), fun _ => hkernel,
      fun hnot => absurd ⟨_, hkernel⟩ hnot, fun hnot => absurd ⟨_, hkernel⟩ hnot⟩

/-- A library with `f` at 0x20010. -/
def oneLibrary : LibShared where
  fElf :=
    { strTblSectionNames := 0, hasProgramHeaders := true, programHeadersNumLoads := 0
      programHeaders := [], hasDynsym := true, dynsymEnts := [], numSymbols := 1 }
  libBase := 0x20000
  numSymbols := 1
  libSymbols := setLe 8 (setLe 1 (fun _ => 0) 0 102) libSymbolAddr 0x20010

/-- The address of the stub in the program is taken for that of the symbol. -/
theorem stub_linked_to_itself :
    WellFormed (linkFile 0x401030) ∧ Linkable (linkFile 0x401030) ∧
      libDynamicLinker [oneLibrary] [102] = some 0x20010 ∧
      ((elfFileInitalize (linkFile 0x401030).data).bind
        (loadLinkTables (linkFile 0x401030))).bind
          (elfLoaderDynamicLinker [] [oneLibrary] · 0) = some 0x401030 ∧
      ¬ SlotsLink (linkFile 0x401030) [] [oneLibrary] := by
  have hlibrary : libDynamicLinker [oneLibrary] [102] = some 0x20010 := rfl
  have hlinker : ((elfFileInitalize (linkFile 0x401030).data).bind
      (loadLinkTables (linkFile 0x401030))).bind
        (elfLoaderDynamicLinker [] [oneLibrary] · 0) = some 0x401030 := rfl
  refine ⟨oneLink_address.symbols.wellFormed, linkFile_linkable oneLink_address, hlibrary, hlinker,
    ?_⟩
  rintro ⟨elf, t, hinit, hload, hslots⟩
  obtain ⟨a, ha, hlinks⟩ := hslots 0 [102] (linkFile_slot oneLink_address)
  rw [hinit, Option.bind_some, hload, Option.bind_some, ha] at hlinker
  obtain rfl := Option.some.inj hlinker
  have hnone : ¬ ∃ b, KernelHas [] [102] b := by
    rintro ⟨b, -, s, hs, -⟩
    cases hs
  have hundefined : ¬ ∃ i s, (linkFile 0x401030).Defines i [102] s := by
    rintro ⟨i, s, hs⟩
    exact linkFile_undefined oneLink_address [102] i s hs
  rcases hlinks.library hnone hundefined with h | ⟨h, -⟩
  · rw [hlibrary] at h
    cases h
  · rw [hlibrary] at h
    cases h

end VersionSix.Elf
