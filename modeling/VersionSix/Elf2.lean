import VersionSix.ElfFile

/-!
# Shared objects

`elf2_new_initalize_file` (`elf2.c`) collects what the library code needs of a
shared object: its program headers and its dynamic symbols. The functions that
fetch one record by its index take the index as a `uint8_t`, and the loops that
call them count further, so from the 257th record on the first ones come again.

A pointer into the file is the offset from its first byte. A file has an end
here (`File`), since the names are read from it as strings: a name that does
not end in the file is `none`, and so is everything that has to follow it.

The collection is of the same shape whatever the file is: the loops of
`Libraries`, `LibImage` and `LibRelocations` go over lists and not over the
file any more.
-/

namespace VersionSix.Elf

open ByteStore (Bytes cstr)

/-! ## Files -/

/-- The bytes from the first one of a file on. `asvfs` keeps the size in a `uint32_t`. -/
structure File where
  data : Bytes
  size : Nat
  size_lt : size < 2 ^ 32

/-- The string at `off`; `none` if the file ends before it does. -/
def File.string (f : File) (off : Nat) : Option (List UInt8) := cstr (f.size - off) f.data off

/-- `".dynsym"` -/
def dynsym : List UInt8 := [46, 100, 121, 110, 115, 121, 109]

/-- `".dynstr"` -/
def dynstr : List UInt8 := [46, 100, 121, 110, 115, 116, 114]

/-! ## `elf2.c` -/

structure Elf2Symbol where
  name : Nat
  addr : Nat
  size : Nat
  shIndex : Nat
  type : Nat
  binding : Nat

structure Elf2ProgramHeader where
  type : Nat
  physAddr : Nat
  physOffset : Nat
  virtAddr : Nat
  physSize : Nat
  virtSize : Nat
  read : Bool
  write : Bool
  execute : Bool

structure Elf2File where
  strTblSectionNames : Nat
  hasProgramHeaders : Bool
  programHeadersNumLoads : Nat
  programHeaders : List Elf2ProgramHeader
  hasDynsym : Bool
  dynsymEnts : List Elf2Symbol
  numSymbols : Nat

variable (data : Bytes)

def elf2NewGetSectionHeaderByName (strTblSectionNames : Nat) (name : List UInt8) :
    Option Elf64Shdr :=
  (sectionHeaders data).find? fun s => sameString name data (strTblSectionNames + s.shName)

def elf2NewGetProgramHeaderByIndex (index : Nat) : Elf64Phdr :=
  programHeaderAt data
    ((elfHeader data).ePhoff + (elfHeader data).ePhentsize * (index % 2 ^ 8))

/-- The header with the number `index - 1`; for 0 it is what lies before the table. -/
def elf2NewGetSectionHeaderByIndex (index : Nat) : Elf64Shdr :=
  sectionHeaderAt data ((elfHeader data).eShoff +
    (elfHeader data).eShentsize * (index % 2 ^ 8) - (elfHeader data).eShentsize)

def elf2NewGetSymbolEntry (sOffset index : Nat) : Elf64Sym :=
  symbolAt data (sOffset + symSize * (index % 2 ^ 8))

def programHeaderEntry (index : Nat) : Elf2ProgramHeader :=
  let phdr := elf2NewGetProgramHeaderByIndex data index
  { type := phdr.pType
    physAddr := phdr.pPaddr
    physOffset := phdr.pOffset
    virtAddr := phdr.pVaddr
    physSize := phdr.pFilesz
    virtSize := phdr.pMemsz
    read := phdr.pFlags &&& pfR ≠ 0
    write := phdr.pFlags &&& pfW ≠ 0
    execute := phdr.pFlags &&& pfX ≠ 0 }

def dynsymEntry (sOffset dynsymStrTbl index : Nat) : Elf2Symbol :=
  let s := elf2NewGetSymbolEntry data sOffset index
  { name := dynsymStrTbl + s.stName
    addr := s.stValue
    size := s.stSize
    shIndex := s.stShndx
    type := s.stInfo % 16
    binding := s.stInfo / 16 }

/-- `dynsym_num_ents`, an `int`. -/
def dynsymNumEnts (shDyn : Elf64Shdr) : Int := Int.bmod (shDyn.shSize / shDyn.shEntsize) (2 ^ 32)

/-- The dynamic symbols, `none` if there are none to use. For a negative number of them
`kmalloc` has no memory. -/
def dynsymEntries (strTblSectionNames : Nat) (shDyn : Elf64Shdr) : Option (List Elf2Symbol) :=
  (elf2NewGetSectionHeaderByName data strTblSectionNames dynstr).bind fun shDynStr =>
    if dynsymNumEnts shDyn < 0 then none
    else some ((List.range (dynsymNumEnts shDyn).toNat).map
      (dynsymEntry data shDyn.shOffset shDynStr.shOffset))

/-- `elf2_new_initalize_file`, for a record that `lib_register` has cleared. `none` is a
division by 0. -/
def elf2NewInitalizeFile : Option Elf2File :=
  let strTblSectionNames :=
    (elf2NewGetSectionHeaderByIndex data ((elfHeader data).eShstrndx + 1)).shOffset
  let headers := (List.range (elfHeader data).ePhnum).map (programHeaderEntry data)
  let f : Elf2File :=
    { strTblSectionNames := strTblSectionNames
      hasProgramHeaders := 0 < (elfHeader data).ePhnum
      programHeadersNumLoads := headers.countP fun phdr => phdr.type == ptLoad
      programHeaders := headers
      hasDynsym := false
      dynsymEnts := []
      numSymbols := 0 }
  match elf2NewGetSectionHeaderByName data strTblSectionNames dynsym with
  | none => some f
  | some shDyn =>
      if shDyn.shEntsize = 0 then none
      else
        match dynsymEntries data strTblSectionNames shDyn with
        | none => some f
        | some entries =>
            some { f with
              hasDynsym := true
              dynsymEnts := entries
              numSymbols := entries.countP fun e => e.shIndex ≠ 0 }

theorem elf2NewInitalizeFile_headers {data : Bytes} {fElf : Elf2File}
    (hinit : elf2NewInitalizeFile data = some fElf) :
    fElf.strTblSectionNames =
        (elf2NewGetSectionHeaderByIndex data ((elfHeader data).eShstrndx + 1)).shOffset ∧
      fElf.hasProgramHeaders = decide (0 < (elfHeader data).ePhnum) ∧
      fElf.programHeaders = (List.range (elfHeader data).ePhnum).map (programHeaderEntry data) := by
  unfold elf2NewInitalizeFile at hinit
  dsimp only at hinit
  split at hinit
  · obtain rfl := Option.some.inj hinit
    exact ⟨rfl, rfl, rfl⟩
  · split at hinit
    · cases hinit
    · split at hinit
      · obtain rfl := Option.some.inj hinit
        exact ⟨rfl, rfl, rfl⟩
      · obtain rfl := Option.some.inj hinit
        exact ⟨rfl, rfl, rfl⟩

end VersionSix.Elf
