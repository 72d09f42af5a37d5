import Mathlib.Data.List.Basic
import VersionSix.ElfFile

/-!
# The name tables of a program

`elf_file_initalize` takes the section before the one with the number
`e_shstrndx` for the names of the symbols, whatever the `sh_link` of the symbol
table says, and numbers sections with 8 bits. Linkers put the three tables in
this order as a rule, and nothing in the format asks for it.

`names_read_iff` says in which files both name tables are found: where the
names of the symbols are right before those of the sections, with an index that
8 bits can hold (`TablesAdjacent`). In one direction the function is computed;
in the other a file with the tables apart has to be shown to read other bytes,
and that is why the condition speaks of positions and not of contents.

With the tables the other way round, the symbol table is taken for its own
names (`symbol_names_from_symtab`).
-/

namespace VersionSix.Elf

open ByteStore (Bytes cstr setLe)

/-! ## What is to hold -/

/-- `sizeof(Elf64_Shdr)`, which is that of the header as well. -/
def shdrSize : Nat := 64

def SectionName (data : Bytes) (s : Elf64Shdr) (name : List UInt8) : Prop :=
  ∃ n, cstr n data ((sectionNames data).shOffset + s.shName) = some name

/-- The sections of a file of `size` bytes, the symbol table among them. -/
structure NamedFile (data : Bytes) (size : Nat) (symtab : Elf64Shdr) : Prop where
  count : (elfHeader data).eShnum < 2 ^ 16 - 256
  entsize : (elfHeader data).eShentsize = shdrSize
  table : shdrSize ≤ (elfHeader data).eShoff ∧
    (elfHeader data).eShoff + shdrSize * (elfHeader data).eShnum ≤ size
  shstrndx : 0 < (elfHeader data).eShstrndx ∧ (elfHeader data).eShstrndx < (elfHeader data).eShnum
  present : symtab ∈ sectionHeaders data ∧ symtab.shType = shtSymtab
  unique : ∀ s ∈ sectionHeaders data, s.shType = shtSymtab → s = symtab
  link : symtab.shLink < (elfHeader data).eShnum
  name : ∀ s ∈ sectionHeaders data, ∃ n name,
    (sectionNames data).shOffset + s.shName + n ≤ size ∧
      cstr n data ((sectionNames data).shOffset + s.shName) = some name

/-- Names are read from the tables that the file designates. -/
structure NamesRead (data : Bytes) (symtab : Elf64Shdr) (elf : ElfFile) : Prop where
  sections : ∀ off, elfGetSectionName elf off = (sectionNames data).shOffset + off
  symbols : ∀ off, elfGetStrAtOffset elf off = (sectionNo data symtab.shLink).shOffset + off
  named : ∀ name s, elfGetSectionHeaderByName data elf name = some s →
    s ∈ sectionHeaders data ∧ SectionName data s name
  found : ∀ name, (∃ s ∈ sectionHeaders data, SectionName data s name) →
    (elfGetSectionHeaderByName data elf name).isSome

/-- The names of the symbols are right before those of the sections, where 8 bits find them. -/
structure TablesAdjacent (data : Bytes) (symtab : Elf64Shdr) : Prop where
  sections : (elfHeader data).eShstrndx < 255 ∨
    (headerBefore data (((elfHeader data).eShstrndx + 1) % 2 ^ 8)).shOffset
      = (sectionNames data).shOffset
  symbols : (headerBefore data ((elfHeader data).eShstrndx % 2 ^ 8)).shOffset
    = (sectionNo data symtab.shLink).shOffset

/-! ## The tables -/

variable {data : Bytes} {size : Nat} {symtab : Elf64Shdr}

theorem sameString_iff {name : List UInt8} {off : Nat} :
    sameString name data off = true ↔ ∃ n, cstr n data off = some name := by
  unfold sameString
  rw [beq_iff_eq]
  constructor
  · intro h
    exact ⟨_, h⟩
  · rintro ⟨n, h⟩
    exact ByteStore.cstr_of_length h (Nat.lt_succ_self _)

theorem NamedFile.byType (hfile : NamedFile data size symtab) :
    elfGetSectionHeaderByType data shtSymtab = some symtab := by
  obtain ⟨hmem, htype⟩ := hfile.present
  cases hfound : elfGetSectionHeaderByType data shtSymtab with
  | none =>
      have hnone := List.find?_eq_none.mp hfound symtab hmem
      exact absurd (beq_iff_eq.mpr htype) hnone
  | some s =>
      have hsType := List.find?_some hfound
      rw [hfile.unique s (List.mem_of_find?_eq_some hfound) (beq_iff_eq.mp hsType)]

/-- The search of `elf.c` is right when it looks at the names of the sections. -/
theorem byName_of_names {elf : ElfFile}
    (hnames : elf.stringTableSectionNames = (sectionNames data).shOffset) (name : List UInt8) :
    elfGetSectionHeaderByName data elf name = sectionNamed data name := by
  rw [elfGetSectionHeaderByName, hnames, sectionNamed]

theorem sectionNamed_some {name : List UInt8} {s : Elf64Shdr}
    (h : sectionNamed data name = some s) : s ∈ sectionHeaders data ∧ SectionName data s name :=
  ⟨List.mem_of_find?_eq_some h, sameString_iff.mp (List.find?_some h :)⟩

theorem sectionNamed_isSome {name : List UInt8}
    (h : ∃ s ∈ sectionHeaders data, SectionName data s name) : (sectionNamed data name).isSome := by
  obtain ⟨s, hmem, hname⟩ := h
  exact List.find?_isSome.mpr ⟨s, hmem, sameString_iff.mpr hname⟩

theorem TablesAdjacent.sectionNames (hadjacent : TablesAdjacent data symtab) :
    (headerBefore data (((elfHeader data).eShstrndx + 1) % 2 ^ 8)).shOffset
      = (sectionNames data).shOffset := by
  rcases hadjacent.sections with hlt | heq
  · rw [headerBefore_names data hlt]
  · exact heq

theorem NamedFile.initalize (hfile : NamedFile data size symtab) :
    ∃ elf, elfFileInitalize data = some elf ∧
      elf.stringTableSectionNames
        = (headerBefore data (((elfHeader data).eShstrndx + 1) % 2 ^ 8)).shOffset ∧
      elf.stringTable = (headerBefore data ((elfHeader data).eShstrndx % 2 ^ 8)).shOffset := by
  rw [elfFileInitalize, hfile.byType]
  exact ⟨_, rfl, rfl, rfl⟩

/-- Both tables are found where the one of the symbols is before the one of the
sections. As the names are compared by the positions of the tables in the file,
a table at the right position by chance counts as found. -/
theorem names_read_iff (data : Bytes) (size : Nat) (symtab : Elf64Shdr)
    (hfile : NamedFile data size symtab) :
    (∃ elf, elfFileInitalize data = some elf ∧ NamesRead data symtab elf) ↔
      TablesAdjacent data symtab := by
  obtain ⟨elf, hinit, hsections, hsymbols⟩ := hfile.initalize
  constructor
  · rintro ⟨elf', helf', hread⟩
    obtain rfl := Option.some.inj (hinit.symm.trans helf')
    have hnames := hread.sections 0
    have hstrings := hread.symbols 0
    rw [elfGetSectionName, hsections] at hnames
    rw [elfGetStrAtOffset, hsymbols] at hstrings
    exact ⟨.inr (Nat.add_right_cancel hnames), Nat.add_right_cancel hstrings⟩
  · intro hadjacent
    have hnames := hsections.trans hadjacent.sectionNames
    refine ⟨elf, hinit, fun off => ?_, fun off => ?_, fun name => ?_, fun name => ?_⟩
    · rw [elfGetSectionName, hnames]
    · rw [elfGetStrAtOffset, hsymbols, hadjacent.symbols]
    · rw [byName_of_names hnames]
      exact fun s => sectionNamed_some
    · rw [byName_of_names hnames]
      exact sectionNamed_isSome

/-! ## Two orders of the tables -/

/-- A file with a symbol table and the two tables of names at the given numbers. -/
def tablesFile (shstrndx strtab : Nat) : Bytes :=
  [(8, 40, 64), (2, 58, 64), (2, 60, 4), (2, 62, shstrndx), (4, 128, 1), (4, 132, 2), (8, 152, 336),
    (8, 160, 24), (4, 168, strtab), (4, 192, 3), (4, 256, 5), (8, 88 + 64 * shstrndx, 320),
    (8, 88 + 64 * strtab, 328), (1, 321, 97), (1, 323, 98), (1, 325, 99)].foldl
    (fun data field => setLe field.1 data field.2.1 field.2.2) fun _ => 0

def tablesSymtab (strtab : Nat) : Elf64Shdr := ⟨1, 2, 0, 336, 24, strtab, 0⟩

/-- What such a file is to have. -/
structure TablesAt (shstrndx strtab : Nat) : Prop where
  header : (elfHeader (tablesFile shstrndx strtab)).eShoff = 64 ∧
    (elfHeader (tablesFile shstrndx strtab)).eShentsize = 64 ∧
    (elfHeader (tablesFile shstrndx strtab)).eShnum = 4 ∧
    (elfHeader (tablesFile shstrndx strtab)).eShstrndx = shstrndx
  sections : sectionHeaders (tablesFile shstrndx strtab) =
    [⟨0, 0, 0, 0, 0, 0, 0⟩, tablesSymtab strtab,
      ⟨3, 0, 0, (sectionNo (tablesFile shstrndx strtab) 2).shOffset, 0, 0, 0⟩,
      ⟨5, 0, 0, (sectionNo (tablesFile shstrndx strtab) 3).shOffset, 0, 0, 0⟩]
  names : (sectionNames (tablesFile shstrndx strtab)).shOffset = 320
  strings : ∀ name ∈ [(0, []), (1, [97]), (3, [98]), (5, [99])],
    cstr 2 (tablesFile shstrndx strtab) (320 + name.1) = some name.2

theorem TablesAt.namedFile {shstrndx strtab : Nat} (h : TablesAt shstrndx strtab)
    (hshstrndx : 0 < shstrndx ∧ shstrndx < 4) (hstrtab : strtab < 4) :
    NamedFile (tablesFile shstrndx strtab) 360 (tablesSymtab strtab) := by
  obtain ⟨hoff, hentsize, hnum, hindex⟩ := h.header
  refine ⟨?_, hentsize, ?_, ?_, ?_, fun s hs htype => ?_, ?_, fun s hs => ?_⟩
  · rw [hnum]
    decide
  · rw [hoff, hnum]
    decide
  · rw [hindex, hnum]
    exact hshstrndx
  · rw [h.sections]
    exact ⟨by simp, rfl⟩
  · rw [h.sections] at hs
    simp only [List.mem_cons, List.not_mem_nil, or_false] at hs
    rcases hs with rfl | rfl | rfl | rfl
    · cases htype
    · rfl
    · cases htype
    · cases htype
  · rw [hnum]
    exact hstrtab
  · have hname : ∃ name, (s.shName, name) ∈
        [(0, []), (1, [97]), (3, [98]), (5, [(99 : UInt8)])] := by
      rw [h.sections] at hs
      simp only [List.mem_cons, List.not_mem_nil, or_false] at hs
      rcases hs with rfl | rfl | rfl | rfl
      · exact ⟨[], by simp⟩
      · exact ⟨[97], by simp [tablesSymtab]⟩
      · exact ⟨[98], by simp⟩
      · exact ⟨[99], by simp⟩
    obtain ⟨name, hmem⟩ := hname
    refine ⟨2, name, ?_, ?_⟩
    · rw [h.names]
      have hle : ∀ entry ∈ [(0, []), (1, [97]), (3, [98]), (5, [(99 : UInt8)])],
          320 + entry.1 + 2 ≤ 360 := by decide
      exact hle _ hmem
    · rw [h.names]
      exact h.strings _ hmem

theorem tables_behind : TablesAt 3 2 :=
  ⟨⟨rfl, rfl, rfl, rfl⟩, rfl, rfl, by decide⟩

theorem tables_before : TablesAt 2 3 :=
  ⟨⟨rfl, rfl, rfl, rfl⟩, rfl, rfl, by decide⟩

theorem names_read_iff_behind :
    ∃ elf, elfFileInitalize (tablesFile 3 2) = some elf ∧
      NamesRead (tablesFile 3 2) (tablesSymtab 2) elf :=
  (names_read_iff (tablesFile 3 2) 360 (tablesSymtab 2)
    (tables_behind.namedFile (by decide) (by decide))).mpr ⟨.inl (by decide), rfl⟩

/-- With the table of the sections first, the symbol table is taken for its own names. -/
theorem symbol_names_from_symtab :
    NamedFile (tablesFile 2 3) 360 (tablesSymtab 3) ∧
      (elfFileInitalize (tablesFile 2 3)).map (elfGetStrAtOffset · 0) = some 336 ∧
      (sectionNo (tablesFile 2 3) (tablesSymtab 3).shLink).shOffset = 328 ∧
      ¬ ∃ elf, elfFileInitalize (tablesFile 2 3) = some elf ∧
        NamesRead (tablesFile 2 3) (tablesSymtab 3) elf := by
  have hread : (elfFileInitalize (tablesFile 2 3)).map (elfGetStrAtOffset · 0) = some 336 := rfl
  have hlink : (sectionNo (tablesFile 2 3) (tablesSymtab 3).shLink).shOffset = 328 := rfl
  refine ⟨tables_before.namedFile (by decide) (by decide), hread, hlink, ?_⟩
  rintro ⟨elf, helf, hnames⟩
  have hsymbols := hnames.symbols 0
  rw [helf, Option.map_some, hsymbols, hlink] at hread
  cases hread

end VersionSix.Elf
