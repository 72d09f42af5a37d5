import VersionSix.Bytes

/-!
# ELF files

The packed records of `elf.h`, read from the bytes of a file. A file is the
memory from its first byte on; reading past its end reads what follows.

The records are windows on the bytes, with a field for each one the loaders
use. Sections are found by their names, and two readers of the source number
the sections from 1, with 8 bits, when they look for the table that holds
these. `headerBefore_names` says that the header they read is the one that
`e_shstrndx` means as long as the index is small.

A comparison of two strings stops at the first difference. That is why
`sameString` reads no further than the terminator of the name that is looked
for, and needs nothing of the file behind it.
-/

namespace VersionSix.Elf

open ByteStore (Bytes le)

def ptLoad : Nat := 1
def pfX : Nat := 1
def pfW : Nat := 2
def pfR : Nat := 4

structure Elf64Ehdr where
  eEntry : Nat
  ePhoff : Nat
  eShoff : Nat
  ePhentsize : Nat
  ePhnum : Nat
  eShentsize : Nat
  eShnum : Nat
  eShstrndx : Nat

def elfHeader (data : Bytes) : Elf64Ehdr where
  eEntry := le 8 data 24
  ePhoff := le 8 data 32
  eShoff := le 8 data 40
  ePhentsize := le 2 data 54
  ePhnum := le 2 data 56
  eShentsize := le 2 data 58
  eShnum := le 2 data 60
  eShstrndx := le 2 data 62

structure Elf64Phdr where
  pType : Nat
  pFlags : Nat
  pOffset : Nat
  pVaddr : Nat
  pPaddr : Nat
  pFilesz : Nat
  pMemsz : Nat

def programHeaderAt (data : Bytes) (off : Nat) : Elf64Phdr where
  pType := le 4 data off
  pFlags := le 4 data (off + 4)
  pOffset := le 8 data (off + 8)
  pVaddr := le 8 data (off + 16)
  pPaddr := le 8 data (off + 24)
  pFilesz := le 8 data (off + 32)
  pMemsz := le 8 data (off + 40)

def programHeaders (data : Bytes) : List Elf64Phdr :=
  (List.range (elfHeader data).ePhnum).map fun i =>
    programHeaderAt data ((elfHeader data).ePhoff + i * (elfHeader data).ePhentsize)

structure Elf64Shdr where
  shName : Nat
  shType : Nat
  shAddr : Nat
  shOffset : Nat
  shSize : Nat
  shLink : Nat
  shEntsize : Nat

def sectionHeaderAt (data : Bytes) (off : Nat) : Elf64Shdr where
  shName := le 4 data off
  shType := le 4 data (off + 4)
  shAddr := le 8 data (off + 16)
  shOffset := le 8 data (off + 24)
  shSize := le 8 data (off + 32)
  shLink := le 4 data (off + 40)
  shEntsize := le 8 data (off + 56)

def sectionHeaders (data : Bytes) : List Elf64Shdr :=
  (List.range (elfHeader data).eShnum).map fun i =>
    sectionHeaderAt data ((elfHeader data).eShoff + (elfHeader data).eShentsize * i)

structure Elf64Sym where
  stName : Nat
  stInfo : Nat
  stShndx : Nat
  stValue : Nat
  stSize : Nat

/-- `sizeof(Elf64_Sym)` -/
def symSize : Nat := 24

def symbolAt (data : Bytes) (off : Nat) : Elf64Sym where
  stName := le 4 data off
  stInfo := le 1 data (off + 4)
  stShndx := le 2 data (off + 6)
  stValue := le 8 data (off + 8)
  stSize := le 8 data (off + 16)

/-! ## Strings -/

/-- The string at `off` is `s`. A comparison with `s` reads no further than the
terminator of `s`. -/
def sameString (s : List UInt8) (data : Bytes) (off : Nat) : Bool :=
  ByteStore.cstr (s.length + 1) data off == some s

/-! ## Section names -/

section

variable (data : Bytes)

/-- The header with the number `i`. -/
def sectionNo (i : Nat) : Elf64Shdr :=
  sectionHeaderAt data ((elfHeader data).eShoff + (elfHeader data).eShentsize * i)

/-- The section that `e_shstrndx` designates. -/
def sectionNames : Elf64Shdr := sectionNo data (elfHeader data).eShstrndx

/-- The first section with the name, in the table that `e_shstrndx` designates. -/
def sectionNamed (name : List UInt8) : Option Elf64Shdr :=
  (sectionHeaders data).find? fun s =>
    sameString name data ((sectionNames data).shOffset + s.shName)

/-- The bytes before the header `i`, as a header. For `i = 0` they are not in the table. -/
def headerBefore (i : Nat) : Elf64Shdr :=
  sectionHeaderAt data ((elfHeader data).eShoff + (elfHeader data).eShentsize * i
    - (elfHeader data).eShentsize)

theorem headerBefore_succ (i : Nat) : headerBefore data (i + 1) = sectionNo data i := by
  rw [headerBefore, sectionNo, Nat.mul_succ, ← Nat.add_assoc, Nat.add_sub_cancel]

/-- Both readers number sections from 1, with 8 bits; that finds the table of the
names while the index is small. -/
theorem headerBefore_names (h : (elfHeader data).eShstrndx < 255) :
    headerBefore data (((elfHeader data).eShstrndx + 1) % 2 ^ 8) = sectionNames data := by
  rw [Nat.mod_eq_of_lt (by omega), headerBefore_succ, sectionNames]

end

/-! ## `elf.c` -/

def shtSymtab : Nat := 2

/-- `elf_file`. A pointer into the file is the offset from its first byte. -/
structure ElfFile where
  stringTable : Nat
  stringTableSectionNames : Nat
  symbolTable : Nat
  numSymbols : Nat
  numProgramHeaders : Nat

variable (data : Bytes)

def elfGetSectionHeaderByType (type : Nat) : Option Elf64Shdr :=
  (sectionHeaders data).find? fun s => s.shType == type

/-- The header with the number `index - 1`; the index is a `uint8_t`. -/
def elfGetSectionHeaderByIndex (index : Nat) : Elf64Shdr :=
  sectionHeaderAt data ((elfHeader data).eShoff +
    (elfHeader data).eShentsize * (index % 2 ^ 8) - (elfHeader data).eShentsize)

/-- `elf_file_initalize`; `none` is the `NULL` pointer followed in a file without a symbol
table. -/
def elfFileInitalize : Option ElfFile :=
  (elfGetSectionHeaderByType data shtSymtab).map fun symbolTableHeader =>
    { stringTable := (elfGetSectionHeaderByIndex data (elfHeader data).eShstrndx).shOffset
      stringTableSectionNames :=
        (elfGetSectionHeaderByIndex data ((elfHeader data).eShstrndx + 1)).shOffset
      symbolTable := symbolTableHeader.shOffset
      numSymbols := symbolTableHeader.shSize / symSize
      numProgramHeaders := (elfHeader data).ePhnum % 2 ^ 8 }

/-- The first section with the name; neither pointer that is tested is ever `NULL`. -/
def elfGetSectionHeaderByName (elf : ElfFile) (name : List UInt8) : Option Elf64Shdr :=
  (sectionHeaders data).find? fun s =>
    sameString name data (elf.stringTableSectionNames + s.shName)

def elfGetSectionName (elf : ElfFile) (nameOffset : Nat) : Nat :=
  elf.stringTableSectionNames + nameOffset

def elfGetStrAtOffset (elf : ElfFile) (offset : Nat) : Nat := elf.stringTable + offset

end VersionSix.Elf
