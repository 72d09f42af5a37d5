import VersionSix.Elf2

/-!
# Shared libraries

`lib_register` and `lib_dynamic_linker` (`libraries.c`). A library goes into
the registry with a table of its defined symbols: 64 bytes each, the name first
and the address behind it. The search goes through the registry in order and
takes the first table that has the name.

`lib_load_program_headers` and `lib_load_relocation_tables` fill the image
behind `lib_base`, which the search for a name does not read; `lib_base` is
part of what a call gets.

A symbol behind the 256th is not stored, a name of 56 characters or more goes
over the address of its symbol, and for a name that no library has there is no
`return`. `symbols_resolve_iff` says when the search is right: the library that
alone has the name has it early enough, and the names of all libraries fit
their tables. What is stored is compared with what the file defines one library
at a time (`Searches`); the registry is a list of such libraries.
-/

namespace VersionSix.Elf

open ByteStore (Bytes cstr le setLe putStr cstr_congr cstr_putStr cstr_putStr_cut le_congr
  le_putStr le_setLe_same le_setLe_disjoint putStr_out setLe_out)

/-! ## `libraries.c` -/

/-- What a call of `lib_register` gets: the file, what `vfs_getattr` and `vfs_read` return,
the pages for the image, and the block for the symbols. -/
structure LibCall where
  file : File
  getattr : Int
  readErr : Int
  pages : Nat
  block : Bytes

structure LibShared where
  fElf : Elf2File
  libBase : Nat
  numSymbols : Nat
  libSymbols : Bytes

/-- `sizeof(lib_symbol)` -/
def libSymbolSize : Nat := 64

/-- Where `addr` is in a `lib_symbol`: `name` has 50 bytes, and 6 follow. -/
def libSymbolAddr : Nat := 56

/-- The loop of `lib_load_symbols` from `lib_sym_count` on, for a block of `n` symbols.
`none` is a name that goes on behind the block or the file. -/
def storeSymbols (file : File) (libBase n : Nat) : List Elf2Symbol → Nat → Bytes → Option Bytes
  | [], _, block => some block
  | e :: ents, libSymCount, block =>
      if e.shIndex = 0 then storeSymbols file libBase n ents libSymCount block
      else (file.string e.name).bind fun name =>
        if libSymbolSize * n ≤ libSymbolSize * libSymCount + name.length then none
        else storeSymbols file libBase n ents (libSymCount + 1)
          (putStr (setLe 8 block (libSymbolSize * libSymCount + libSymbolAddr) (libBase + e.addr))
            (libSymbolSize * libSymCount) name)

def libLoadSymbols (file : File) (lib : LibShared) : Option LibShared :=
  if lib.fElf.hasDynsym then
    (storeSymbols file lib.libBase lib.fElf.numSymbols lib.fElf.dynsymEnts 0 lib.libSymbols).map
      fun block => { lib with numSymbols := lib.fElf.numSymbols, libSymbols := block }
  else some lib

/-- The library that `lib_register` makes of a file. Without program headers
`lib_base` stays cleared. -/
def loadLibrary (c : LibCall) : Option LibShared :=
  (elf2NewInitalizeFile c.file.data).bind fun fElf =>
    libLoadSymbols c.file
      { fElf := fElf
        libBase := if fElf.hasProgramHeaders then c.pages else 0
        numSymbols := 0
        libSymbols := c.block }

def kerrUnknown : Int := -1

def libRegister (c : LibCall) (registry : List LibShared) : Option (Int × List LibShared) :=
  if c.getattr ≠ 0 then some (kerrUnknown, registry)
  else if c.readErr ≠ 0 then some (kerrUnknown, registry)
  else (loadLibrary c).map fun lib => (0, registry ++ [lib])

def registerAll : List LibCall → List LibShared → Option (List LibShared)
  | [], registry => some registry
  | c :: calls, registry =>
      (libRegister c registry).bind fun (_, registry) => registerAll calls registry

def libSymbolNamed (name : List UInt8) (lib : LibShared) : Option Nat :=
  ((List.range lib.numSymbols).find? fun j =>
    sameString name lib.libSymbols (libSymbolSize * j)).map fun j =>
      le 8 lib.libSymbols (libSymbolSize * j + libSymbolAddr)

/-- `lib_dynamic_linker`; `none` is its end, where it returns no value. -/
def libDynamicLinker (registry : List LibShared) (name : List UInt8) : Option Nat :=
  registry.findSome? (libSymbolNamed name)

/-! ## What is to hold -/

/-- The dynamic symbol `i`. -/
def dynamicSymbol (data : Bytes) (shDyn : Elf64Shdr) (i : Nat) : Elf64Sym :=
  symbolAt data (shDyn.shOffset + symSize * i)

/-- The symbols of a shared object lie in the file, and each has a name. -/
structure WellFormed (f : File) : Prop where
  table : ∀ shDyn, sectionNamed f.data dynsym = some shDyn →
    shDyn.shEntsize = symSize ∧ shDyn.shOffset + shDyn.shSize ≤ f.size
  names : ∀ shDyn, sectionNamed f.data dynsym = some shDyn →
    ∃ shDynStr, sectionNamed f.data dynstr = some shDynStr ∧
      ∀ i < shDyn.shSize / symSize, ∃ name,
        f.string (shDynStr.shOffset + (dynamicSymbol f.data shDyn i).stName) = some name

/-- `s` is the dynamic symbol `i` of the file and defines `name`. -/
def File.Defines (f : File) (i : Nat) (name : List UInt8) (s : Elf64Sym) : Prop :=
  ∃ shDyn shDynStr, sectionNamed f.data dynsym = some shDyn ∧
    sectionNamed f.data dynstr = some shDynStr ∧ i < shDyn.shSize / symSize ∧
    dynamicSymbol f.data shDyn i = s ∧ s.stShndx ≠ 0 ∧
    f.string (shDynStr.shOffset + s.stName) = some name

def loaded (calls : List LibCall) : List LibCall :=
  calls.filter fun c => c.getattr = 0 ∧ c.readErr = 0

def LibCall.libBase (c : LibCall) : Nat :=
  if 0 < (elfHeader c.file.data).ePhnum then c.pages else 0

/-- `c` is the only one of the libraries that defines `name`. -/
def OnlyIn (calls : List LibCall) (name : List UInt8) (c : LibCall) : Prop :=
  ∃ k : Nat, (loaded calls)[k]? = some c ∧ (∃ i s, c.file.Defines i name s) ∧
    ∀ (k' : Nat) (c' : LibCall), (loaded calls)[k']? = some c' →
      (∃ i s, c'.file.Defines i name s) → k' = k

/-- The search for `name` is right after the calls. -/
def Resolves (calls : List LibCall) (name : List UInt8) : Prop :=
  ∃ registry, registerAll calls [] = some registry ∧
    (∀ c, OnlyIn calls name c → ∃ i s, c.file.Defines i name s ∧
      libDynamicLinker registry name = some ((c.libBase + s.stValue) % 2 ^ 64)) ∧
    ((∀ c ∈ loaded calls, ∀ i s, ¬ c.file.Defines i name s) →
      libDynamicLinker registry name = some 0)

/-- The names and values of the symbols that get into the table of a library. -/
def storedSymbols (f : File) : List (List UInt8 × Nat) :=
  match sectionNamed f.data dynsym, sectionNamed f.data dynstr with
  | some shDyn, some shDynStr =>
      (((List.range (shDyn.shSize / symSize)).map fun i =>
        dynamicSymbol f.data shDyn (i % 2 ^ 8)).filter fun s => s.stShndx ≠ 0).filterMap fun s =>
          (f.string (shDynStr.shOffset + s.stName)).map fun name => (name, s.stValue)
  | _, _ => []

/-- No name is so long that it goes from its place over the end of the table. -/
def NamesFit (f : File) : Prop :=
  ∀ j d, (storedSymbols f)[j]? = some d →
    libSymbolSize * j + d.1.length < libSymbolSize * (storedSymbols f).length

/-! ## The table of a library -/

/-- The names and values of the entries with a section. -/
def named (file : File) (ents : List Elf2Symbol) : List (List UInt8 × Nat) :=
  (ents.filter fun e => e.shIndex ≠ 0).filterMap fun e =>
    (file.string e.name).map fun name => (name, e.addr)

def AllNamed (file : File) (ents : List Elf2Symbol) : Prop :=
  ∀ e ∈ ents, ∃ name, file.string e.name = some name

variable {file : File} {libBase n : Nat} {ents : List Elf2Symbol}

theorem AllNamed.tail {e : Elf2Symbol} (h : AllNamed file (e :: ents)) : AllNamed file ents :=
  fun e' he' => h e' (List.mem_cons_of_mem e he')

theorem named_cons_undefined {e : Elf2Symbol} (he : e.shIndex = 0) :
    named file (e :: ents) = named file ents := by
  rw [named, List.filter_cons_of_neg (by simpa using he)]
  rfl

theorem named_cons {e : Elf2Symbol} {name : List UInt8} (he : e.shIndex ≠ 0)
    (hname : file.string e.name = some name) :
    named file (e :: ents) = (name, e.addr) :: named file ents := by
  rw [named, List.filter_cons_of_pos (by simpa using he), List.filterMap_cons, hname]
  rfl

theorem length_named (h : AllNamed file ents) :
    (named file ents).length = ents.countP fun e => e.shIndex ≠ 0 := by
  induction ents with
  | nil => rfl
  | cons e ents ih =>
      by_cases he : e.shIndex = 0
      · rw [named_cons_undefined he, ih h.tail, List.countP_cons_of_neg (by simpa using he)]
      · obtain ⟨name, hname⟩ := h e List.mem_cons_self
        rw [named_cons he hname, List.length_cons, ih h.tail,
          List.countP_cons_of_pos (by simpa using he)]

/-- The block can take the symbols if and only if every name ends in it. -/
theorem storeSymbols_isSome (h : AllNamed file ents) (c : Nat) (block : Bytes) :
    (storeSymbols file libBase n ents c block).isSome ↔
      ∀ j d, (named file ents)[j]? = some d →
        libSymbolSize * (c + j) + d.1.length < libSymbolSize * n := by
  induction ents generalizing c block with
  | nil => simp [storeSymbols, named]
  | cons e ents ih =>
      rw [storeSymbols]
      by_cases he : e.shIndex = 0
      · rw [if_pos he, named_cons_undefined he]
        exact ih h.tail c block
      · obtain ⟨name, hname⟩ := h e List.mem_cons_self
        rw [if_neg he, named_cons he hname, hname, Option.bind_some]
        constructor
        · intro hsome j d hj
          split at hsome
          · cases hsome
          · next hroom =>
            cases j with
            | zero =>
                obtain rfl := Option.some.inj hj
                exact Nat.lt_of_not_le hroom
            | succ j =>
                have htail := (ih h.tail (c + 1) _).mp hsome j d hj
                rwa [Nat.add_right_comm, Nat.add_assoc] at htail
        · intro hfit
          have hroom := hfit 0 _ rfl
          rw [Nat.add_zero] at hroom
          rw [if_neg (Nat.not_le_of_lt hroom)]
          refine (ih h.tail (c + 1) _).mpr fun j d hj => ?_
          have htail := hfit (j + 1) d hj
          rwa [Nat.add_right_comm, Nat.add_assoc]

/-- The entry `j` of a table is found under the name of `d` and has its address. -/
structure Entry (libBase : Nat) (block : Bytes) (j : Nat) (d : List UInt8 × Nat) : Prop where
  name : ∀ s : List UInt8, s.length < libSymbolAddr →
    (sameString s block (libSymbolSize * j) = true ↔ d.1 = s)
  addr : d.1.length < libSymbolAddr →
    le 8 block (libSymbolSize * j + libSymbolAddr) = (libBase + d.2) % 2 ^ 64

theorem entry_stored {c : Nat} {block block' : Bytes} {name : List UInt8} {addr : Nat}
    (hname : ∀ ch ∈ name, ch ≠ 0)
    (hsame : ∀ a < libSymbolSize * (c + 1), block' a =
      putStr (setLe 8 block (libSymbolSize * c + libSymbolAddr) (libBase + addr))
        (libSymbolSize * c) name a) :
    Entry libBase block' c (name, addr) := by
  have hsize : libSymbolSize * (c + 1) = libSymbolSize * c + 64 := rfl
  refine ⟨fun s hs => ?_, fun hlt => ?_⟩
  · have hs : s.length < 56 := hs
    rw [sameString, cstr_congr fun i hi => hsame _ (by omega)]
    by_cases hlong : s.length + 1 ≤ name.length
    · rw [cstr_putStr_cut hname hlong]
      refine ⟨fun h => (by cases h), fun (h : name = s) => ?_⟩
      rw [h] at hlong
      omega
    · rw [cstr_putStr hname (by omega)]
      simp
  · have hlt : name.length < 56 := hlt
    have hword := le_congr (n := 8) fun i (hi : i < 8) =>
      hsame (libSymbolSize * c + libSymbolAddr + i) (by unfold libSymbolAddr; omega)
    rw [hword, le_putStr (.inr (by unfold libSymbolAddr; omega)), le_setLe_same]
    rfl

theorem string_ne_zero {n : Nat} {b : Bytes} {off : Nat} {s : List UInt8}
    (h : cstr n b off = some s) : ∀ c ∈ s, c ≠ 0 := by
  induction n generalizing off s with
  | zero => cases h
  | succ n ih =>
      rw [cstr] at h
      split at h
      · obtain rfl := Option.some.inj h
        exact fun c hc => absurd hc List.not_mem_nil
      · next hchar =>
        obtain ⟨s, hs, rfl⟩ := Option.map_eq_some_iff.mp h
        intro c hc
        rcases List.mem_cons.mp hc with rfl | hc
        · exact hchar
        · exact ih hs c hc

theorem storeSymbols_entries (h : AllNamed file ents) {c : Nat} {block block' : Bytes}
    (hb : storeSymbols file libBase n ents c block = some block') :
    (∀ a < libSymbolSize * c, block' a = block a) ∧
      ∀ j d, (named file ents)[j]? = some d → Entry libBase block' (c + j) d := by
  induction ents generalizing c block with
  | nil =>
      obtain rfl := Option.some.inj hb
      exact ⟨fun _ _ => rfl, fun j d hj => by simp [named] at hj⟩
  | cons e ents ih =>
      rw [storeSymbols] at hb
      by_cases he : e.shIndex = 0
      · rw [if_pos he] at hb
        rw [named_cons_undefined he]
        exact ih h.tail hb
      · obtain ⟨name, hname⟩ := h e List.mem_cons_self
        rw [if_neg he, hname, Option.bind_some] at hb
        split at hb
        · cases hb
        · obtain ⟨hbelow, hents⟩ := ih h.tail hb
          have hsize : libSymbolSize * (c + 1) = libSymbolSize * c + 64 := rfl
          rw [named_cons he hname]
          refine ⟨fun a ha => ?_, fun j d hj => ?_⟩
          · rw [hbelow a (by omega), putStr_out (.inl ha), setLe_out (.inl (by omega))]
          · cases j with
            | zero =>
                obtain rfl := Option.some.inj hj
                exact entry_stored (string_ne_zero hname) hbelow
            | succ j =>
                have htail := hents j d hj
                rwa [Nat.add_right_comm, Nat.add_assoc] at htail

/-- The search in one library finds the names of its table, with their addresses. -/
theorem libSymbolNamed_spec {lib : LibShared} {symbols : List (List UInt8 × Nat)}
    (hn : lib.numSymbols = symbols.length)
    (hents : ∀ j d, symbols[j]? = some d → Entry libBase lib.libSymbols j d)
    {name : List UInt8} (hname : name.length < libSymbolAddr) :
    (∀ a, libSymbolNamed name lib = some a →
      ∃ v, (name, v) ∈ symbols ∧ a = (libBase + v) % 2 ^ 64) ∧
    ∀ v, (name, v) ∈ symbols → ∃ a, libSymbolNamed name lib = some a := by
  refine ⟨fun a ha => ?_, fun v hv => ?_⟩
  · rw [libSymbolNamed, hn] at ha
    obtain ⟨j, hj, rfl⟩ := Option.map_eq_some_iff.mp ha
    have hlt : j < symbols.length := List.mem_range.mp (List.mem_of_find?_eq_some hj)
    obtain ⟨d, hd⟩ : ∃ d, symbols[j]? = some d := ⟨_, List.getElem?_eq_getElem hlt⟩
    have hsame : sameString name lib.libSymbols (libSymbolSize * j) = true := by
      simpa using List.find?_some hj
    obtain rfl := ((hents j d hd).name name hname).mp hsame
    exact ⟨d.2, List.mem_of_getElem? hd, (hents j d hd).addr hname⟩
  · obtain ⟨j, hj⟩ := List.mem_iff_getElem?.mp hv
    have hlt : j < symbols.length := (List.getElem?_eq_some_iff.mp hj).1
    have hfound : ((List.range lib.numSymbols).find? fun j =>
        sameString name lib.libSymbols (libSymbolSize * j)).isSome := by
      rw [List.find?_isSome]
      refine ⟨j, ?_, ((hents j _ hj).name name hname).mpr rfl⟩
      rw [hn]
      exact List.mem_range.mpr hlt
    obtain ⟨j', hj'⟩ := Option.isSome_iff_exists.mp hfound
    rw [libSymbolNamed, hj']
    exact ⟨_, rfl⟩

/-! ## What is read of a file -/

/-- The name table that the narrow index designates leads to the right sections. -/
def SectionsFound (data : Bytes) : Prop :=
  ∀ name ∈ [dynsym, dynstr], elf2NewGetSectionHeaderByName data
    (elf2NewGetSectionHeaderByIndex data ((elfHeader data).eShstrndx + 1)).shOffset name =
    sectionNamed data name

theorem byName_of_lt {data : Bytes} (h : (elfHeader data).eShstrndx < 255) (name : List UInt8) :
    elf2NewGetSectionHeaderByName data
      (elf2NewGetSectionHeaderByIndex data ((elfHeader data).eShstrndx + 1)).shOffset name =
      sectionNamed data name := by
  have htable : elf2NewGetSectionHeaderByIndex data ((elfHeader data).eShstrndx + 1) =
      sectionNames data := headerBefore_names data h
  rw [htable, elf2NewGetSectionHeaderByName, sectionNamed]

theorem sectionsFound_of_lt {data : Bytes} (h : (elfHeader data).eShstrndx < 255) :
    SectionsFound data :=
  fun name _ => byName_of_lt h name

theorem dynsymNumEnts_eq {f : File} {shDyn : Elf64Shdr} (hsize : shDyn.shEntsize = symSize)
    (hin : shDyn.shOffset + shDyn.shSize ≤ f.size) :
    dynsymNumEnts shDyn = (shDyn.shSize / symSize : Nat) := by
  have hlt := f.size_lt
  have hsym : symSize = 24 := rfl
  unfold dynsymNumEnts
  rw [hsize, hsym, Int.bmod_def]
  split <;> omega

/-- The symbols that the code takes from a file. -/
def dynsymOf (data : Bytes) (shDyn shDynStr : Elf64Shdr) : List Elf2Symbol :=
  (List.range (shDyn.shSize / symSize)).map (dynsymEntry data shDyn.shOffset shDynStr.shOffset)

theorem elf2NewInitalizeFile_spec {f : File} (hwf : WellFormed f)
    (hsections : SectionsFound f.data) :
    ∃ fElf, elf2NewInitalizeFile f.data = some fElf ∧
      fElf.hasProgramHeaders = decide (0 < (elfHeader f.data).ePhnum) ∧
      (sectionNamed f.data dynsym = none → fElf.hasDynsym = false) ∧
      ∀ shDyn shDynStr, sectionNamed f.data dynsym = some shDyn →
        sectionNamed f.data dynstr = some shDynStr →
        fElf.hasDynsym = true ∧ fElf.dynsymEnts = dynsymOf f.data shDyn shDynStr ∧
          fElf.numSymbols = (dynsymOf f.data shDyn shDynStr).countP fun e => e.shIndex ≠ 0 := by
  have hfind := hsections dynsym List.mem_cons_self
  have hfindStr := hsections dynstr (List.mem_cons_of_mem _ List.mem_cons_self)
  rw [elf2NewInitalizeFile]
  simp only [hfind]
  cases hdyn : sectionNamed f.data dynsym with
  | none => exact ⟨_, rfl, rfl, fun _ => rfl, fun _ _ h => (by cases h)⟩
  | some shDyn =>
      obtain ⟨hsize, hin⟩ := hwf.table shDyn hdyn
      obtain ⟨shDynStr, hstr, -⟩ := hwf.names shDyn hdyn
      have hentries : dynsymEntries f.data
          (elf2NewGetSectionHeaderByIndex f.data ((elfHeader f.data).eShstrndx + 1)).shOffset
            shDyn = some (dynsymOf f.data shDyn shDynStr) := by
        have hcount := dynsymNumEnts_eq hsize hin
        have hcast : ¬ ((shDyn.shSize / symSize : Nat) : Int) < 0 :=
          Int.not_lt.mpr (Int.natCast_nonneg _)
        rw [dynsymEntries, hfindStr, hstr, Option.bind_some,
          hcount, if_neg hcast, Int.toNat_natCast]
        rfl
      have hnonzero : shDyn.shEntsize ≠ 0 := by
        rw [hsize]
        decide
      simp only [if_neg hnonzero, hentries]
      refine ⟨_, rfl, rfl, fun h => (by cases h), fun shDyn' shDynStr' hd hs => ?_⟩
      obtain rfl := Option.some.inj hd
      obtain rfl := Option.some.inj (hstr.symm.trans hs)
      exact ⟨rfl, rfl, rfl⟩

section Sections

variable {f : File} {shDyn shDynStr : Elf64Shdr} (hdyn : sectionNamed f.data dynsym = some shDyn)
  (hstr : sectionNamed f.data dynstr = some shDynStr)
include hdyn hstr

theorem named_dynsymOf : named f (dynsymOf f.data shDyn shDynStr) = storedSymbols f := by
  simp only [storedSymbols, hdyn, hstr, named, dynsymOf, List.filter_map, List.filterMap_map]
  rfl

theorem mem_storedSymbols {name : List UInt8} {v : Nat} :
    (name, v) ∈ storedSymbols f ↔ ∃ i < 256, ∃ s, f.Defines i name s ∧ s.stValue = v := by
  simp only [storedSymbols, hdyn, hstr, List.mem_filterMap, List.mem_filter, List.mem_map,
    List.mem_range]
  constructor
  · rintro ⟨s, ⟨⟨i, hi, rfl⟩, hdef⟩, hs⟩
    obtain ⟨n, hn, hpair⟩ := Option.map_eq_some_iff.mp hs
    obtain ⟨rfl, rfl⟩ := Prod.mk.inj hpair
    have hlt : i % 2 ^ 8 < 256 := Nat.mod_lt _ (by decide)
    exact ⟨i % 2 ^ 8, hlt, _, ⟨shDyn, shDynStr, hdyn, hstr,
      Nat.lt_of_le_of_lt (Nat.mod_le ..) hi, rfl, of_decide_eq_true hdef, hn⟩, rfl⟩
  · rintro ⟨i, hi, s, ⟨shDyn', shDynStr', hdyn', hstr', hcount, rfl, hdef, hn⟩, rfl⟩
    obtain rfl := Option.some.inj (hdyn.symm.trans hdyn')
    obtain rfl := Option.some.inj (hstr.symm.trans hstr')
    have hmod : i % 2 ^ 8 = i := Nat.mod_eq_of_lt hi
    refine ⟨_, ⟨⟨i, hcount, ?_⟩, decide_eq_true hdef⟩, ?_⟩
    · rw [hmod]
    · rw [hn]
      rfl

theorem allNamed_dynsymOf (hwf : WellFormed f) : AllNamed f (dynsymOf f.data shDyn shDynStr) := by
  intro e he
  obtain ⟨shDynStr', hstr', hnames⟩ := hwf.names shDyn hdyn
  obtain rfl := Option.some.inj (hstr.symm.trans hstr')
  obtain ⟨i, hi, rfl⟩ := List.mem_map.mp he
  exact hnames (i % 2 ^ 8) (Nat.lt_of_le_of_lt (Nat.mod_le ..) (List.mem_range.mp hi))

end Sections

/-! ## One library -/

/-- A library whose search finds what the table of its file is to hold. -/
structure Searches (c : LibCall) (lib : LibShared) : Prop where
  found : ∀ name : List UInt8, name.length < libSymbolAddr → ∀ a, libSymbolNamed name lib = some a →
    ∃ i < 256, ∃ s, c.file.Defines i name s ∧ a = (c.libBase + s.stValue) % 2 ^ 64
  finds : ∀ name : List UInt8, name.length < libSymbolAddr → ∀ i < 256, ∀ s,
    c.file.Defines i name s → ∃ a, libSymbolNamed name lib = some a

theorem loadLibrary_spec {c : LibCall} (hwf : WellFormed c.file)
    (hsections : SectionsFound c.file.data) :
    ((loadLibrary c).isSome ↔ NamesFit c.file) ∧
      ∀ lib, loadLibrary c = some lib → Searches c lib := by
  obtain ⟨fElf, hfElf, hhas, hnone, hsome⟩ := elf2NewInitalizeFile_spec hwf hsections
  rw [loadLibrary, hfElf, Option.bind_some, libLoadSymbols, hhas]
  cases hdyn : sectionNamed c.file.data dynsym with
  | none =>
      have hundefined : ∀ i name s, ¬ c.file.Defines i name s := by
        rintro i name s ⟨shDyn, -, h, -⟩
        rw [hdyn] at h
        cases h
      have hempty : storedSymbols c.file = [] := by
        rw [storedSymbols, hdyn]
      simp only [hnone hdyn, Bool.false_eq_true, if_false]
      refine ⟨iff_of_true rfl fun j d hj => ?_, fun lib hlib => ?_⟩
      · rw [hempty] at hj
        cases hj
      · obtain rfl := Option.some.inj hlib
        exact ⟨fun name hname a ha => (by cases ha),
          fun name hname i hi s hs => absurd hs (hundefined i name s)⟩
  | some shDyn =>
      obtain ⟨shDynStr, hstr, -⟩ := hwf.names shDyn hdyn
      obtain ⟨hhasDyn, hents, hcount⟩ := hsome shDyn shDynStr hdyn hstr
      have hnamed := allNamed_dynsymOf hdyn hstr hwf
      rw [← length_named hnamed, named_dynsymOf hdyn hstr] at hcount
      simp only [hhasDyn, if_true, hents, hcount]
      refine ⟨?_, fun lib hlib => ?_⟩
      · rw [Option.isSome_map, storeSymbols_isSome hnamed, named_dynsymOf hdyn hstr]
        simp only [Nat.zero_add]
        rfl
      · obtain ⟨block, hblock, rfl⟩ := Option.map_eq_some_iff.mp hlib
        obtain ⟨-, hentries⟩ := storeSymbols_entries hnamed hblock
        rw [named_dynsymOf hdyn hstr] at hentries
        simp only [Nat.zero_add] at hentries
        refine ⟨fun name hname a ha => ?_, fun name hname i hi s hs => ?_⟩
        · obtain ⟨v, hv, rfl⟩ := (libSymbolNamed_spec rfl hentries hname).1 a ha
          obtain ⟨i, hi, s, hs, rfl⟩ := (mem_storedSymbols hdyn hstr).mp hv
          refine ⟨i, hi, s, hs, ?_⟩
          rw [LibCall.libBase]
          simp only [decide_eq_true_eq]
        · exact (libSymbolNamed_spec rfl hentries hname).2 s.stValue
            ((mem_storedSymbols hdyn hstr).mpr ⟨i, hi, s, hs, rfl⟩)

/-! ## The registry -/

theorem loaded_cons_of_neg {calls : List LibCall} {c : LibCall}
    (h : ¬ (c.getattr = 0 ∧ c.readErr = 0)) : loaded (c :: calls) = loaded calls :=
  List.filter_cons_of_neg (by simpa using h)

theorem loaded_cons_of_pos {calls : List LibCall} {c : LibCall}
    (h : c.getattr = 0 ∧ c.readErr = 0) : loaded (c :: calls) = c :: loaded calls :=
  List.filter_cons_of_pos (by simpa using h)

theorem libRegister_unread {c : LibCall} (registry : List LibShared)
    (h : ¬ (c.getattr = 0 ∧ c.readErr = 0)) :
    libRegister c registry = some (kerrUnknown, registry) := by
  rw [libRegister]
  split
  · rfl
  · next hattr =>
    rw [if_pos fun hread => h ⟨Decidable.not_not.mp hattr, hread⟩]

theorem libRegister_read {c : LibCall} (registry : List LibShared)
    (h : c.getattr = 0 ∧ c.readErr = 0) :
    libRegister c registry = (loadLibrary c).map fun lib => (0, registry ++ [lib]) := by
  rw [libRegister, if_neg (fun hne => hne h.1), if_neg (fun hne => hne h.2)]

theorem registerAll_spec (calls : List LibCall) (registry : List LibShared) :
    ((registerAll calls registry).isSome ↔ ∀ c ∈ loaded calls, (loadLibrary c).isSome) ∧
      ∀ registry', registerAll calls registry = some registry' → ∀ lib,
        lib ∈ registry' ↔ lib ∈ registry ∨ ∃ c ∈ loaded calls, loadLibrary c = some lib := by
  induction calls generalizing registry with
  | nil =>
      refine ⟨iff_of_true rfl fun c hc => absurd hc List.not_mem_nil, fun registry' h lib => ?_⟩
      obtain rfl := Option.some.inj h
      simp [loaded]
  | cons c calls ih =>
      rw [registerAll]
      by_cases hc : c.getattr = 0 ∧ c.readErr = 0
      · rw [libRegister_read registry hc, loaded_cons_of_pos hc]
        cases hlib : loadLibrary c with
        | none =>
            refine ⟨iff_of_false (by simp) fun h => ?_, fun _ h => (by cases h)⟩
            have hsome := h c List.mem_cons_self
            rw [hlib] at hsome
            cases hsome
        | some lib =>
            obtain ⟨hsome, hmem⟩ := ih (registry ++ [lib])
            refine ⟨hsome.trans ?_, fun registry' h lib' => ?_⟩
            · simp [hlib]
            · rw [hmem registry' h lib', List.mem_append, List.mem_singleton, or_assoc]
              refine or_congr_right ?_
              simp only [List.mem_cons, exists_eq_or_imp, hlib, Option.some.injEq]
              rw [@eq_comm _ lib lib']
      · rw [libRegister_unread registry hc, loaded_cons_of_neg hc]
        exact ih registry

/-! ## The search -/

section Search

variable {calls : List LibCall} {name : List UInt8} {registry : List LibShared}
  (hwf : ∀ c ∈ loaded calls, WellFormed c.file)
  (hsections : ∀ c ∈ loaded calls, SectionsFound c.file.data)
  (hname : name.length < libSymbolAddr)
include hwf hsections

theorem registerAll_isSome : (registerAll calls []).isSome ↔ ∀ c ∈ loaded calls,
    NamesFit c.file := by
  rw [(registerAll_spec calls []).1]
  exact forall₂_congr fun c hc => (loadLibrary_spec (hwf c hc) (hsections c hc)).1

variable (hrun : registerAll calls [] = some registry)
include hname hrun

theorem libDynamicLinker_found {a : Nat} (ha : libDynamicLinker registry name = some a) :
    ∃ c ∈ loaded calls, ∃ i < 256, ∃ s, c.file.Defines i name s ∧
      a = (c.libBase + s.stValue) % 2 ^ 64 := by
  obtain ⟨lib, hlib, hfound⟩ := List.exists_of_findSome?_eq_some ha
  rcases ((registerAll_spec calls []).2 registry hrun lib).mp hlib with hnil | ⟨c, hc, hload⟩
  · exact absurd hnil List.not_mem_nil
  · obtain ⟨-, hsearch⟩ := loadLibrary_spec (hwf c hc) (hsections c hc)
    exact ⟨c, hc, (hsearch lib hload).found name hname a hfound⟩

theorem libDynamicLinker_finds {c : LibCall} (hc : c ∈ loaded calls) {i : Nat} (hi : i < 256)
    {s : Elf64Sym} (hs : c.file.Defines i name s) : ∃ a, libDynamicLinker registry name =
    some a := by
  have hall := (registerAll_spec calls []).1.mp (Option.isSome_of_eq_some hrun)
  obtain ⟨lib, hload⟩ := Option.isSome_iff_exists.mp (hall c hc)
  have hlib := ((registerAll_spec calls []).2 registry hrun lib).mpr (.inr ⟨c, hc, hload⟩)
  obtain ⟨-, hsearch⟩ := loadLibrary_spec (hwf c hc) (hsections c hc)
  obtain ⟨a, ha⟩ := (hsearch lib hload).finds name hname i hi s hs
  rw [← Option.isSome_iff_exists, libDynamicLinker, List.findSome?_isSome_iff]
  exact ⟨lib, hlib, Option.isSome_of_eq_some ha⟩

end Search

theorem OnlyIn.mem {calls : List LibCall} {name : List UInt8} {c : LibCall}
    (h : OnlyIn calls name c) : c ∈ loaded calls := by
  obtain ⟨k, hk, -⟩ := h
  exact List.mem_of_getElem? hk

theorem OnlyIn.eq {calls : List LibCall} {name : List UInt8} {c c' : LibCall}
    (h : OnlyIn calls name c) (hc' : c' ∈ loaded calls) {i : Nat} {s : Elf64Sym}
    (hs : c'.file.Defines i name s) : c' = c := by
  obtain ⟨k, hk, -, honly⟩ := h
  obtain ⟨k', hk'⟩ := List.mem_iff_getElem?.mp hc'
  obtain rfl := honly k' c' hk' ⟨i, s, hs⟩
  exact Option.some.inj (hk'.symm.trans hk)

/-- For a short name the search is right if and only if some library has the
name, the library that alone has it has it among its first 256 symbols, and the
names of all libraries fit their tables. A name that no library has makes the
search run off its end, so there is no right answer for it. -/
theorem symbols_resolve_iff (calls : List LibCall) (name : List UInt8)
    (hwf : ∀ c ∈ loaded calls, WellFormed c.file)
    (hsections : ∀ c ∈ loaded calls, SectionsFound c.file.data)
    (hname : name.length < libSymbolAddr) :
    Resolves calls name ↔ (∀ c ∈ loaded calls, NamesFit c.file) ∧
      (∃ c ∈ loaded calls, ∃ i s, c.file.Defines i name s) ∧
      ∀ c, OnlyIn calls name c → ∃ i < 256, ∃ s, c.file.Defines i name s := by
  constructor
  · rintro ⟨registry, hrun, honly, hnone⟩
    have hfits := (registerAll_isSome hwf hsections).mp (Option.isSome_of_eq_some hrun)
    refine ⟨hfits, ?_, fun c hc => ?_⟩
    · by_contra hundefined
      have hnull := hnone fun c hc i s hs => hundefined ⟨c, hc, i, s, hs⟩
      obtain ⟨c, hc, i, -, s, hs, -⟩ := libDynamicLinker_found hwf hsections hname hrun hnull
      exact hundefined ⟨c, hc, i, s, hs⟩
    · obtain ⟨_, _, _, hresult⟩ := honly c hc
      obtain ⟨c', hc', i, hi, s, hs, -⟩ :=
        libDynamicLinker_found hwf hsections hname hrun hresult
      obtain rfl := hc.eq hc' hs
      exact ⟨i, hi, s, hs⟩
  · rintro ⟨hfits, ⟨c₀, hc₀, i₀, s₀, hs₀⟩, hfirst⟩
    obtain ⟨registry, hrun⟩ := Option.isSome_iff_exists.mp
      ((registerAll_isSome hwf hsections).mpr hfits)
    refine ⟨registry, hrun, fun c hc => ?_, fun hnone => absurd hs₀ (hnone c₀ hc₀ i₀ s₀)⟩
    obtain ⟨i, hi, s, hs⟩ := hfirst c hc
    obtain ⟨a, ha⟩ := libDynamicLinker_finds hwf hsections hname hrun hc.mem hi hs
    obtain ⟨c', hc', i', -, s', hs', rfl⟩ :=
      libDynamicLinker_found hwf hsections hname hrun ha
    obtain rfl := hc.eq hc' hs'
    exact ⟨i', s', hs', ha⟩

/-! ## Two libraries -/

/-- The words of a shared object whose dynamic symbol `i` is `f`, with the value 16; the
ones before it are undefined. -/
def libraryFields (i : Nat) : List (Nat × Nat × Nat) :=
  [(8, 32, 64), (8, 40, 128), (2, 54, 56), (2, 56, 1), (2, 58, 64), (2, 60, 3), (8, 152, 320),
    (4, 192, 1), (8, 216, 512), (8, 224, 24 * (i + 1)), (8, 248, 24), (4, 256, 9), (8, 280, 400),
    (8, 321, 0x6D79736E79642E), (8, 329, 0x7274736E79642E), (1, 401, 102),
    (4, 512 + 24 * i, 1), (2, 518 + 24 * i, 1), (8, 520 + 24 * i, 16)]

def libraryFile (i : Nat) (hi : i < 1000) : File where
  data := (libraryFields i).foldl (fun data field => setLe field.1 data field.2.1 field.2.2)
    fun _ => 0
  size := 512 + 24 * (i + 1)
  size_lt := by omega

def libraryCall (i : Nat) (hi : i < 1000) : LibCall where
  file := libraryFile i hi
  getattr := 0
  readErr := 0
  pages := 0x10000
  block := fun _ => 0

theorem le_fields {fields : List (Nat × Nat × Nat)} {n off : Nat} (data : Bytes)
    (h : ∀ field ∈ fields, off + n ≤ field.2.1 ∨ field.2.1 + field.1 ≤ off) :
    le n (fields.foldl (fun data field => setLe field.1 data field.2.1 field.2.2) data) off =
      le n data off := by
  induction fields generalizing data with
  | nil => rfl
  | cons field fields ih =>
      rw [List.foldl_cons, ih _ fun f hf => h f (List.mem_cons_of_mem _ hf),
        le_setLe_disjoint (h field List.mem_cons_self)]

theorem le_zero (n off : Nat) : le n (fun _ => 0) off = 0 := by
  induction n generalizing off with
  | zero => rfl
  | succ n ih =>
      rw [le, ih]
      rfl

theorem libraryFile_before {i n off : Nat} (hi : i < 1000) (hlo : 512 ≤ off)
    (hhi : off + n ≤ 512 + symSize * i) : le n (libraryFile i hi).data off = 0 := by
  have hfields : ∀ field ∈ libraryFields i,
      field.2.1 + field.1 ≤ 512 ∨ 512 + symSize * i ≤ field.2.1 := by
    simp [libraryFields, symSize]
  rw [libraryFile, le_fields _ fun field hfield => ?_, le_zero]
  rcases hfields field hfield with hbelow | habove
  · exact .inr (Nat.le_trans hbelow hlo)
  · exact .inl (Nat.le_trans hhi habove)

theorem libraryFile_index {i j : Nat} (h : j < 24 * (i + 1) / symSize) : j ≤ i := by
  have hcount : 24 * (i + 1) / symSize = i + 1 := Nat.mul_div_cancel_left _ (by decide)
  omega

/-- The sections of such a file, as far as they are read. -/
structure Sections (i : Nat) (hi : i < 1000) : Prop where
  dynsym : sectionNamed (libraryFile i hi).data dynsym = some ⟨1, 0, 0, 512, 24 * (i + 1), 0, 24⟩
  dynstr : sectionNamed (libraryFile i hi).data dynstr = some ⟨9, 0, 0, 400, 0, 0, 0⟩
  symbol : symbolAt (libraryFile i hi).data (512 + symSize * i) = ⟨1, 0, 1, 16, 0⟩
  name : (libraryFile i hi).string 401 = some [102]
  noName : (libraryFile i hi).string 400 = some []

theorem libraryFile_defines {i : Nat} {hi : i < 1000} (h : Sections i hi) {j : Nat}
    {name : List UInt8} {s : Elf64Sym} :
    (libraryFile i hi).Defines j name s ↔ j = i ∧ name = [102] ∧ s = ⟨1, 0, 1, 16, 0⟩ := by
  constructor
  · rintro ⟨shDyn, shDynStr, hdyn, hstr, hcount, hs, hdef, hname⟩
    obtain rfl := Option.some.inj (h.dynsym.symm.trans hdyn)
    obtain rfl := Option.some.inj (h.dynstr.symm.trans hstr)
    rcases Nat.lt_or_eq_of_le (libraryFile_index hcount) with hlt | rfl
    · rw [← hs] at hdef
      refine absurd (libraryFile_before hi (n := 2) ?_ ?_) hdef
      · exact Nat.le_add_right_of_le (Nat.le_add_right ..)
      · show 512 + symSize * j + 6 + 2 ≤ 512 + symSize * i
        rw [symSize]
        omega
    · have hs : ⟨1, 0, 1, 16, 0⟩ = s := h.symbol.symm.trans hs
      subst hs
      exact ⟨rfl, Option.some.inj (hname.symm.trans h.name), rfl⟩
  · rintro ⟨rfl, rfl, rfl⟩
    refine ⟨_, _, h.dynsym, h.dynstr, ?_, h.symbol, by decide, h.name⟩
    show j < 24 * (j + 1) / symSize
    rw [symSize, Nat.mul_div_cancel_left _ (by decide)]
    omega

theorem libraryFile_wellFormed {i : Nat} {hi : i < 1000} (h : Sections i hi) :
    WellFormed (libraryFile i hi) := by
  refine ⟨fun shDyn hdyn => ?_, fun shDyn hdyn => ?_⟩
  · obtain rfl := Option.some.inj (h.dynsym.symm.trans hdyn)
    exact ⟨rfl, Nat.le_refl _⟩
  · obtain rfl := Option.some.inj (h.dynsym.symm.trans hdyn)
    refine ⟨_, h.dynstr, fun j hj => ?_⟩
    rcases Nat.lt_or_eq_of_le (libraryFile_index hj) with hlt | rfl
    · have hzero : (dynamicSymbol (libraryFile i hi).data ⟨1, 0, 0, 512, 24 * (i + 1), 0, 24⟩
          j).stName = 0 := by
        refine libraryFile_before hi (n := 4) (Nat.le_add_right ..) ?_
        show 512 + symSize * j + 4 ≤ 512 + symSize * i
        rw [symSize]
        omega
      rw [hzero]
      exact ⟨[], h.noName⟩
    · have hsymbol : dynamicSymbol (libraryFile j hi).data ⟨1, 0, 0, 512, 24 * (j + 1), 0, 24⟩ j =
          ⟨1, 0, 1, 16, 0⟩ := h.symbol
      rw [hsymbol]
      exact ⟨[102], h.name⟩

theorem sections_one : Sections 1 (by decide) := ⟨rfl, rfl, rfl, rfl, rfl⟩

theorem sections_last : Sections 256 (by decide) := ⟨rfl, rfl, rfl, rfl, rfl⟩

theorem symbols_resolve_iff_second : Resolves [libraryCall 1 (by decide)] [102] := by
  have hone : ∀ c ∈ loaded [libraryCall 1 (by decide)], c = libraryCall 1 (by decide) :=
    fun c hc => List.mem_singleton.mp hc
  have hdef := (libraryFile_defines sections_one).mpr ⟨rfl, rfl, rfl⟩
  refine (symbols_resolve_iff [libraryCall 1 (by decide)] [102] ?_ ?_ (by decide)).mpr
    ⟨?_, ?_, ?_⟩
  · intro c hc
    obtain rfl := hone c hc
    exact libraryFile_wellFormed sections_one
  · intro c hc
    obtain rfl := hone c hc
    exact sectionsFound_of_lt (by decide)
  · intro c hc
    obtain rfl := hone c hc
    have htable : storedSymbols (libraryCall 1 (by decide)).file = [([102], 16)] := rfl
    rw [NamesFit, htable]
    intro j d hj
    cases j with
    | zero =>
        obtain rfl := Option.some.inj hj
        decide
    | succ j => cases hj
  · exact ⟨_, List.mem_singleton_self _, 1, _, hdef⟩
  · intro c hc
    obtain rfl := hone c hc.mem
    exact ⟨1, by decide, _, hdef⟩

/-- With the symbol as the 257th of the library the search does not find it. -/
theorem late_symbol_unresolved :
    WellFormed (libraryCall 256 (by decide)).file ∧
      OnlyIn [libraryCall 256 (by decide)] [102] (libraryCall 256 (by decide)) ∧
      ¬ Resolves [libraryCall 256 (by decide)] [102] := by
  have hwf := libraryFile_wellFormed sections_last
  have hdef := (libraryFile_defines sections_last).mpr ⟨rfl, rfl, rfl⟩
  have honly : OnlyIn [libraryCall 256 (by decide)] [102] (libraryCall 256 (by decide)) := by
    refine ⟨0, rfl, ⟨256, _, hdef⟩, fun k' c' hk' _ => ?_⟩
    cases k' with
    | zero => rfl
    | succ k' => cases hk'
  refine ⟨hwf, honly, ?_⟩
  rintro ⟨registry, hrun, hresult, -⟩
  obtain ⟨_, _, _, ha⟩ := hresult _ honly
  have hwell : ∀ c ∈ loaded [libraryCall 256 (by decide)], WellFormed c.file :=
    fun c hc => List.mem_singleton.mp hc ▸ hwf
  have hsections : ∀ c ∈ loaded [libraryCall 256 (by decide)], SectionsFound c.file.data :=
    fun c hc => List.mem_singleton.mp hc ▸ sectionsFound_of_lt (by decide)
  obtain ⟨c, hc, i, hi, s, hs, -⟩ :=
    libDynamicLinker_found hwell hsections (by decide) hrun ha
  obtain rfl := List.mem_singleton.mp hc
  obtain ⟨rfl, -⟩ := (libraryFile_defines sections_last).mp hs
  exact absurd hi (by decide)

end VersionSix.Elf
