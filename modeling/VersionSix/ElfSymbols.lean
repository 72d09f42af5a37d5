import Mathlib.Data.List.Basic
import VersionSix.ElfFile
import VersionSix.Pieces

/-!
# The symbols of a program

`elf_load_symbols` (`elf.c`) and `symbols_add`, `symbols_get_symbol`
(`ksymbols.c`), on the memory of the kernel. A `symbol_collection` begins with
the number of its symbols, and no one writes it before it is counted up:
`kmalloc` returns memory with whatever has been there. Nor is the number
compared with `DEBUG_SYMBOLS_MAX`.

`symbols_collected_iff` says which blocks and tables come out right: the first
word of the block happens to be zero, and there are not too many symbols.

The proof follows the loop on the memory. A turn adds the symbol at the
position the counter has, wherever that is; as long as the stores lie in the
block, a turn leaves the file and the positions before alone (`AddedAt.frame`),
and behind the last position the counter is one further (`Follows`). A block
that began with another number gets its first symbol somewhere else, which is
all the converse needs.
-/

namespace VersionSix.Elf

open ByteStore (Bytes Heap Region le setLe cstr le_setLe_apart le_setLe_same)

def debugSymbolsMax : Nat := 10000

/-- `sizeof(symbol)` -/
def symbolSize : Nat := 48

/-- `sizeof(symbol_collection)` -/
def collectionSize : Nat := 8 + symbolSize * debugSymbolsMax

/-! ## `ksymbols.c` -/

/-- `syms->top` -/
def symbolsTop (memory : Bytes) (syms : Nat) : Nat := le 8 memory syms

/-- The address of the field at `off` of `syms->symbols[ i ]`. -/
def symbolField (syms i off : Nat) : Nat := (syms + 8 + symbolSize * i + off) % 2 ^ 64

/-- Each statement reads `syms->top` anew. -/
def symbolsAdd (syms name addr size : Nat) (h : Heap) : Heap :=
  let h := h.store (symbolField syms (symbolsTop h.memory syms) 0) name
  let h := h.store (symbolField syms (symbolsTop h.memory syms) 8) addr
  let h := h.store (symbolField syms (symbolsTop h.memory syms) 16) size
  h.store syms (symbolsTop h.memory syms + 1)

/-- The address of the last symbol with the name; symbols without a name are passed over. -/
def symbolsGetSymbol (memory : Bytes) (syms : Nat) (name : List UInt8) : Option Nat :=
  (List.range (symbolsTop memory syms)).foldl
    (fun ret i =>
      let p := le 8 memory (symbolField syms i 0)
      if memory p = 0 then ret
      else if sameString name memory p then some (symbolField syms i 0) else ret) none

/-! ## `elf.c` -/

/-- The symbol `i` of a file at `fileBase`. -/
def elfSymbol (memory : Bytes) (fileBase : Nat) (elf : ElfFile) (i : Nat) : Elf64Sym :=
  symbolAt memory (fileBase + elf.symbolTable + symSize * i)

def loadSymbol (fileBase : Nat) (elf : ElfFile) (syms : Nat) (h : Heap) (i : Nat) : Heap :=
  let sym := elfSymbol h.memory fileBase elf i
  symbolsAdd syms (fileBase + elf.stringTable + sym.stName) sym.stValue sym.stSize h

/-- `elf_load_symbols`, for a file at `fileBase` and a block at `syms`. It has no `return`. -/
def elfLoadSymbols (fileBase : Nat) (elf : ElfFile) (syms : Nat) (h : Heap) : Heap :=
  (List.range elf.numSymbols).foldl (loadSymbol fileBase elf syms) h

/-! ## What is to hold -/

/-- The block that `kmalloc` returns for the collection. -/
def collectionBlock (syms : Nat) : Region := ⟨syms, collectionSize⟩

/-- A symbol table and its names in a file of `size` bytes at `fileBase`, and a block in the
address space that has nothing in common with it. -/
structure SymbolFile (memory : Bytes) (fileBase size : Nat) (elf : ElfFile) (syms : Nat)
    (names : List (List UInt8)) : Prop where
  fileEnd : fileBase + size ≤ 2 ^ 64
  blockEnd : syms + collectionSize ≤ 2 ^ 64
  apart : (Region.mk fileBase size).Apart (collectionBlock syms)
  table : elf.symbolTable + symSize * elf.numSymbols ≤ size
  length : names.length = elf.numSymbols
  name : ∀ i name, names[i]? = some name →
    ∃ off, elf.stringTable + (elfSymbol memory fileBase elf i).stName + off ≤ size ∧
      cstr off memory (fileBase + elf.stringTable + (elfSymbol memory fileBase elf i).stName)
        = some name

/-- The position `i` of the collection holds the symbol `i` of the file. -/
structure StoredAt (memory' memory : Bytes) (fileBase : Nat) (elf : ElfFile) (syms i : Nat) :
    Prop where
  name : le 8 memory' (symbolField syms i 0)
    = fileBase + elf.stringTable + (elfSymbol memory fileBase elf i).stName
  addr : le 8 memory' (symbolField syms i 8) = (elfSymbol memory fileBase elf i).stValue
  size : le 8 memory' (symbolField syms i 16) = (elfSymbol memory fileBase elf i).stSize

/-- The symbols are collected safely; too many of them leave the block alone. -/
structure Collected (memory : Bytes) (fileBase : Nat) (elf : ElfFile) (syms : Nat)
    (names : List (List UInt8)) (h' : Heap) : Prop where
  inside : ∀ r ∈ h'.stores, r.Within (collectionBlock syms)
  top : elf.numSymbols ≤ debugSymbolsMax → symbolsTop h'.memory syms = elf.numSymbols
  stored : elf.numSymbols ≤ debugSymbolsMax → ∀ i < elf.numSymbols,
    StoredAt h'.memory memory fileBase elf syms i
  found : elf.numSymbols ≤ debugSymbolsMax → ∀ name, name ≠ [] →
    ((symbolsGetSymbol h'.memory syms name).isSome ↔ name ∈ names)
  /-- and what is found is a position with that name -/
  position : elf.numSymbols ≤ debugSymbolsMax → ∀ name a,
    symbolsGetSymbol h'.memory syms name = some a →
      ∃ i, names[i]? = some name ∧ a = symbolField syms i 0

/-! ## One symbol -/

variable {fileBase size syms i : Nat} {elf : ElfFile} {names : List (List UInt8)} {memory : Bytes}

/-- The fields of a position whose first field lies in the block. They are at multiples of 8
bytes from the start of the block, so the first one is not `top`. -/
theorem symbolField_within (hend : syms + collectionSize ≤ 2 ^ 64)
    (h : (Region.mk (symbolField syms i 0) 8).Within (collectionBlock syms)) :
    syms + 8 ≤ symbolField syms i 0 ∧ symbolField syms i 0 + 16 ≤ syms + collectionSize ∧
      symbolField syms i 8 = symbolField syms i 0 + 8 ∧
      symbolField syms i 16 = (symbolField syms i 0 + 16) % 2 ^ 64 := by
  obtain ⟨hlow, hhigh⟩ := h
  have hsize : collectionSize = 480008 := rfl
  simp only [collectionBlock, symbolField, symbolSize] at hlow hhigh ⊢
  omega

theorem symbolField_last {a : Nat} (ha : a + 16 ≤ syms + collectionSize)
    (h : (Region.mk ((a + 16) % 2 ^ 64) 8).Within (collectionBlock syms)) :
    (a + 16) % 2 ^ 64 = a + 16 ∧ a + 24 ≤ syms + collectionSize := by
  obtain ⟨hlow, hhigh⟩ := h
  have hsize : collectionSize = 480008 := rfl
  simp only [collectionBlock] at hlow hhigh
  omega

/-- The position after one that lies in the block lies right behind it, or outside. -/
theorem symbolField_next {t : Nat}
    (hhigh : symbolField syms t 0 + 24 ≤ syms + collectionSize)
    (h : (Region.mk (symbolField syms ((t + 1) % 2 ^ 64) 0) 8).Within (collectionBlock syms)) :
    symbolField syms ((t + 1) % 2 ^ 64) 0 = symbolField syms t 0 + symbolSize := by
  obtain ⟨hlow', hhigh'⟩ := h
  have hsize : collectionSize = 480008 := rfl
  simp only [collectionBlock, symbolField, symbolSize] at hhigh hlow' hhigh' ⊢
  omega

theorem symbolField_eq (hend : syms + collectionSize ≤ 2 ^ 64) (hi : i < debugSymbolsMax)
    {off : Nat} (hoff : off < symbolSize) :
    symbolField syms i off = syms + 8 + symbolSize * i + off := by
  have hsize : collectionSize = 480008 := rfl
  simp only [symbolField, symbolSize, debugSymbolsMax] at *
  omega

theorem symbolField_below (hend : syms + collectionSize ≤ 2 ^ 64) (hi : i < debugSymbolsMax) :
    syms + 8 ≤ symbolField syms i 0 ∧ symbolField syms i 0 + 24 ≤ syms + collectionSize ∧
      symbolField syms i 8 = symbolField syms i 0 + 8 ∧
      symbolField syms i 16 = symbolField syms i 0 + 16 := by
  have hsize : collectionSize = 480008 := rfl
  have hlast : symbolSize * i + 48 ≤ 480000 := by
    simp only [symbolSize, debugSymbolsMax] at *
    omega
  rw [symbolField_eq hend hi (by decide), symbolField_eq hend hi (by decide),
    symbolField_eq hend hi (by decide), hsize]
  refine ⟨?_, ?_, rfl, rfl⟩
  · omega
  · omega

theorem field_within {a : Nat} (hlow : syms + 8 ≤ a) (hhigh : a + 24 ≤ syms + collectionSize) :
    (Region.mk a 8).Within (collectionBlock syms) := by
  refine ⟨Nat.le_of_add_right_le hlow, ?_⟩
  simp only [collectionBlock]
  omega

theorem symbolsTop_store {h : Heap} {a v : Nat} (ha : syms + 8 ≤ a) :
    symbolsTop (h.store a v).memory syms = symbolsTop h.memory syms :=
  le_setLe_apart (.inl ha)

/-- The stores of a symbol whose fields lie in the block at `a`. -/
structure AddedAt (syms a name addr size : Nat) (h h' : Heap) : Prop where
  low : syms + 8 ≤ a
  high : a + 24 ≤ syms + collectionSize
  memory : h'.memory = setLe 8 (setLe 8 (setLe 8 (setLe 8 h.memory a name) (a + 8) addr) (a + 16)
    size) syms (symbolsTop h.memory syms + 1)
  stores : h'.stores = h.stores ++ [⟨a, 8⟩, ⟨a + 8, 8⟩, ⟨a + 16, 8⟩, ⟨syms, 8⟩]

theorem symbolsAdd_at {h : Heap} {a name addr size : Nat} (hlow : syms + 8 ≤ a)
    (hhigh : a + 24 ≤ syms + collectionSize)
    (h0 : symbolField syms (symbolsTop h.memory syms) 0 = a)
    (h8 : symbolField syms (symbolsTop h.memory syms) 8 = a + 8)
    (h16 : symbolField syms (symbolsTop h.memory syms) 16 = a + 16) :
    AddedAt syms a name addr size h (symbolsAdd syms name addr size h) := by
  have heq : symbolsAdd syms name addr size h =
      (((h.store a name).store (a + 8) addr).store (a + 16) size).store syms
        (symbolsTop h.memory syms + 1) := by
    unfold symbolsAdd
    dsimp only
    rw [h0, symbolsTop_store hlow, h8, symbolsTop_store (Nat.le_add_right_of_le hlow),
      symbolsTop_store hlow, h16, symbolsTop_store (Nat.le_add_right_of_le hlow),
      symbolsTop_store (Nat.le_add_right_of_le hlow), symbolsTop_store hlow]
  rw [heq]
  exact ⟨hlow, hhigh, rfl, by simp [ByteStore.Heap.store]⟩

/-- A symbol whose stores all lie in the block is added at its position. -/
theorem symbolsAdd_inside (hend : syms + collectionSize ≤ 2 ^ 64) {h : Heap}
    {name addr size : Nat} (hin : ∀ r ∈ (symbolsAdd syms name addr size h).stores,
      r.Within (collectionBlock syms)) :
    AddedAt syms (symbolField syms (symbolsTop h.memory syms) 0) name addr size h
      (symbolsAdd syms name addr size h) := by
  have hfirst := hin ⟨symbolField syms (symbolsTop h.memory syms) 0, 8⟩ (by
    simp [symbolsAdd, ByteStore.Heap.store])
  obtain ⟨hlow, hhigh, h8, h16⟩ := symbolField_within hend hfirst
  have htop : symbolsTop ((h.store (symbolField syms (symbolsTop h.memory syms) 0) name).store
      (symbolField syms (symbolsTop h.memory syms) 0 + 8) addr).memory syms
        = symbolsTop h.memory syms := by
    rw [symbolsTop_store (Nat.le_add_right_of_le hlow), symbolsTop_store hlow]
  have hthird : (Region.mk (symbolField syms (symbolsTop h.memory syms) 16) 8).Within
      (collectionBlock syms) := by
    refine hin _ ?_
    unfold symbolsAdd
    dsimp only
    rw [symbolsTop_store hlow, h8, htop]
    simp [ByteStore.Heap.store]
  rw [h16] at hthird
  obtain ⟨hmod, hend'⟩ := symbolField_last hhigh hthird
  exact symbolsAdd_at hlow hend' rfl h8 (h16.trans hmod)

/-! ## All symbols -/

/-- The memory after `n` turns. -/
def loadTurns (fileBase : Nat) (elf : ElfFile) (syms : Nat) (h : Heap) (n : Nat) : Heap :=
  (List.range n).foldl (loadSymbol fileBase elf syms) h

theorem loadTurns_succ (h : Heap) (n : Nat) : loadTurns fileBase elf syms h (n + 1)
    = loadSymbol fileBase elf syms (loadTurns fileBase elf syms h n) n := by
  unfold loadTurns
  rw [List.range_succ, List.foldl_append]
  rfl

theorem symbolsAdd_stores (name addr size : Nat) (h : Heap) :
    h.stores ⊆ (symbolsAdd syms name addr size h).stores := by
  unfold symbolsAdd ByteStore.Heap.store
  simp

theorem AddedAt.top {h h' : Heap} {a name addr size : Nat}
    (hadd : AddedAt syms a name addr size h h') :
    symbolsTop h'.memory syms = (symbolsTop h.memory syms + 1) % 2 ^ 64 := by
  rw [symbolsTop, hadd.memory, le_setLe_same]
  norm_num

/-- The position `m` turns after `top` was `t` lies in the block, `m` positions behind the
first one. -/
structure Follows (syms t m : Nat) : Prop where
  position : symbolField syms ((t + m) % 2 ^ 64) 0
    = symbolField syms (t % 2 ^ 64) 0 + symbolSize * m
  low : syms + 8 ≤ symbolField syms ((t + m) % 2 ^ 64) 0
  high : symbolField syms ((t + m) % 2 ^ 64) 0 + 24 ≤ syms + collectionSize

theorem loadTurns_inside (hend : syms + collectionSize ≤ 2 ^ 64) {h : Heap} {n : Nat}
    (hin : ∀ r ∈ (loadTurns fileBase elf syms h n).stores, r.Within (collectionBlock syms)) :
    symbolsTop (loadTurns fileBase elf syms h n).memory syms
        = (symbolsTop h.memory syms + n) % 2 ^ 64 ∧
      ∀ m < n, Follows syms (symbolsTop h.memory syms) m := by
  have hword : symbolsTop h.memory syms < 2 ^ 64 := ByteStore.le_lt 8 h.memory syms
  generalize ht : symbolsTop h.memory syms = t at *
  induction n with
  | zero =>
      refine ⟨?_, fun m hm => absurd hm (Nat.not_lt_zero m)⟩
      rw [Nat.add_zero, Nat.mod_eq_of_lt hword]
      exact ht
  | succ n ih =>
      rw [loadTurns_succ] at hin ⊢
      obtain ⟨htop, hfollows⟩ := ih fun r hr => hin r (symbolsAdd_stores _ _ _ _ hr)
      have hadd := symbolsAdd_inside hend hin
      have hlow := hadd.low
      have hhigh := hadd.high
      rw [htop] at hlow hhigh
      refine ⟨?_, fun m hm => ?_⟩
      · refine hadd.top.trans ?_
        rw [htop, Nat.mod_add_mod, Nat.add_assoc]
      · rcases Nat.lt_or_eq_of_le (Nat.le_of_lt_succ hm) with hlt | rfl
        · exact hfollows m hlt
        · refine ⟨?_, hlow, hhigh⟩
          cases m with
          | zero => rw [Nat.add_zero, Nat.mul_zero, Nat.add_zero]
          | succ m =>
              have hlast := hfollows m (Nat.lt_succ_self m)
              have hnext := symbolField_next (t := (t + m) % 2 ^ 64) hlast.high (by
                rw [Nat.mod_add_mod, Nat.add_assoc]
                exact field_within hlow hhigh)
              rw [Nat.mod_add_mod, Nat.add_assoc, hlast.position] at hnext
              rw [hnext, Nat.mul_succ, Nat.add_assoc]

theorem loads_inside_le (hend : syms + collectionSize ≤ 2 ^ 64) {h : Heap}
    (hin : ∀ r ∈ (elfLoadSymbols fileBase elf syms h).stores, r.Within (collectionBlock syms)) :
    elf.numSymbols ≤ debugSymbolsMax := by
  obtain ⟨-, hfollows⟩ := loadTurns_inside hend hin
  cases hn : elf.numSymbols with
  | zero => exact Nat.zero_le _
  | succ n =>
      have hfirst := hfollows 0 (by omega)
      have hlast := hfollows n (by omega)
      have hlow := hfirst.low
      have hhigh := hlast.high
      rw [hlast.position] at hhigh
      rw [hfirst.position] at hlow
      have hsize : collectionSize = 480008 := rfl
      simp only [symbolSize, debugSymbolsMax] at *
      omega

/-! ## A cleared collection -/

theorem symbolAt_congr {b b' : Bytes} {off : Nat} (h : ∀ i < symSize, b (off + i) = b' (off + i)) :
    symbolAt b off = symbolAt b' off := by
  have hle : ∀ d n, d + n ≤ symSize → le n b (off + d) = le n b' (off + d) := by
    intro d n hd
    refine ByteStore.le_congr fun i hi => ?_
    rw [Nat.add_assoc]
    exact h _ (by omega)
  have hname := hle 0 4 (by decide)
  rw [Nat.add_zero] at hname
  unfold symbolAt
  rw [hname, hle 4 1 (by decide), hle 6 2 (by decide), hle 8 8 (by decide), hle 16 8 (by decide)]

/-- What the first `k` turns have done. -/
structure Loaded (memory : Bytes) (fileBase : Nat) (elf : ElfFile) (syms : Nat) (h : Heap)
    (k : Nat) : Prop where
  top : symbolsTop h.memory syms = k
  stored : ∀ i < k, StoredAt h.memory memory fileBase elf syms i
  outside : ∀ a, (Region.mk a 1).Apart (collectionBlock syms) → h.memory a = memory a
  inside : ∀ r ∈ h.stores, r.Within (collectionBlock syms)

/-- A symbol added behind the first `k` ones leaves these, and what is not in the block. -/
theorem AddedAt.frame {h h' : Heap} {a name addr size : Nat}
    (hadd : AddedAt syms a name addr size h h') {b n : Nat}
    (hb : Region.Apart ⟨b, n⟩ ⟨a, symbolSize⟩) (htop : Region.Apart ⟨b, n⟩ ⟨syms, 8⟩) :
    le n h'.memory b = le n h.memory b := by
  simp only [Region.Apart, symbolSize] at hb
  rw [hadd.memory, le_setLe_apart htop, ByteStore.le_setLe_disjoint (by omega),
    ByteStore.le_setLe_disjoint (by omega), ByteStore.le_setLe_disjoint (by omega)]

theorem AddedAt.fields {h h' : Heap} {a name addr size : Nat}
    (hadd : AddedAt syms a name addr size h h') :
    le 8 h'.memory a = name % 2 ^ 64 ∧ le 8 h'.memory (a + 8) = addr % 2 ^ 64 ∧
      le 8 h'.memory (a + 16) = size % 2 ^ 64 := by
  have hlow := hadd.low
  rw [hadd.memory]
  refine ⟨?_, ?_, ?_⟩
  · rw [le_setLe_apart (.inr hlow), ByteStore.le_setLe_disjoint (.inl (by omega)),
      ByteStore.le_setLe_disjoint (.inl (by omega)), le_setLe_same]
    norm_num
  · rw [ByteStore.le_setLe_disjoint (.inr (by omega)),
      ByteStore.le_setLe_disjoint (.inl (by omega)), le_setLe_same]
    norm_num
  · rw [ByteStore.le_setLe_disjoint (.inr (by omega)), le_setLe_same]
    norm_num

theorem AddedAt.outside {h h' : Heap} {a name addr size : Nat}
    (hadd : AddedAt syms a name addr size h h') {b : Nat}
    (hb : (Region.mk b 1).Apart (collectionBlock syms)) : h'.memory b = h.memory b := by
  have hlow := hadd.low
  have hhigh := hadd.high
  have hsize : collectionSize = 480008 := rfl
  simp only [Region.Apart, collectionBlock] at hb
  rw [hadd.memory, ByteStore.setLe_out (by omega), ByteStore.setLe_out (by omega),
    ByteStore.setLe_out (by omega), ByteStore.setLe_out (by omega)]

theorem AddedAt.within {h h' : Heap} {a name addr size : Nat}
    (hadd : AddedAt syms a name addr size h h') {r : Region}
    (hr : r ∈ [Region.mk a 8, ⟨a + 8, 8⟩, ⟨a + 16, 8⟩, ⟨syms, 8⟩]) :
    r.Within (collectionBlock syms) := by
  have hlow := hadd.low
  have hhigh := hadd.high
  simp only [List.mem_cons, List.not_mem_nil, or_false] at hr
  rcases hr with rfl | rfl | rfl | rfl <;> simp only [Region.Within, collectionBlock] <;> omega

section Cleared

variable (hfile : SymbolFile memory fileBase size elf syms names)
include hfile

theorem SymbolFile.outside {m : Bytes}
    (hm : ∀ a, (Region.mk a 1).Apart (collectionBlock syms) → m a = memory a) (off : Nat)
    (hoff : off < size) : m (fileBase + off) = memory (fileBase + off) := by
  refine hm _ ?_
  refine (hfile.apart.symm.within ⟨?_, ?_⟩).symm
  · exact Nat.le_add_right ..
  · dsimp only
    omega

theorem SymbolFile.symbol {m : Bytes}
    (hm : ∀ a, (Region.mk a 1).Apart (collectionBlock syms) → m a = memory a)
    (hi : i < elf.numSymbols) : elfSymbol m fileBase elf i = elfSymbol memory fileBase elf i := by
  have htable := hfile.table
  have hmul : symSize * (i + 1) ≤ symSize * elf.numSymbols := Nat.mul_le_mul_left _ hi
  rw [Nat.mul_succ] at hmul
  refine symbolAt_congr fun j hj => ?_
  have hin := hfile.outside hm (elf.symbolTable + symSize * i + j) (by omega)
  simpa only [Nat.add_assoc] using hin

/-- A name is read through its address, which is below the end of the file. -/
theorem SymbolFile.nameEnd (hi : i < elf.numSymbols) :
    fileBase + elf.stringTable + (elfSymbol memory fileBase elf i).stName < 2 ^ 64 := by
  have hin : i < names.length := hfile.length ▸ hi
  obtain ⟨off, hoff, hname⟩ := hfile.name i _ (List.getElem?_eq_getElem hin)
  have hlength := ByteStore.cstr_length hname
  have hend := hfile.fileEnd
  omega

theorem Loaded.succ {h : Heap} {k : Nat} (hloaded : Loaded memory fileBase elf syms h k)
    (hk : k < elf.numSymbols) (hmax : k < debugSymbolsMax) :
    Loaded memory fileBase elf syms (loadSymbol fileBase elf syms h k) (k + 1) := by
  obtain ⟨hlow, hhigh, h8, h16⟩ := symbolField_below hfile.blockEnd hmax
  have hadd : AddedAt syms (symbolField syms k 0) _ _ _ h (loadSymbol fileBase elf syms h k) :=
    symbolsAdd_at hlow hhigh (by rw [hloaded.top]) (by rw [hloaded.top, h8])
      (by rw [hloaded.top, h16])
  rw [hfile.symbol hloaded.outside hk] at hadd
  refine ⟨?_, fun i hi => ?_, fun a ha => ?_, fun r hr => ?_⟩
  · refine hadd.top.trans ?_
    rw [hloaded.top, Nat.mod_eq_of_lt]
    simp only [debugSymbolsMax] at hmax
    omega
  · rcases Nat.lt_or_eq_of_le (Nat.le_of_lt_succ hi) with hlt | rfl
    · have hold := hloaded.stored i hlt
      have hkept : ∀ off, off + 8 ≤ 24 →
          le 8 (loadSymbol fileBase elf syms h k).memory (symbolField syms i off)
            = le 8 h.memory (symbolField syms i off) := by
        intro off hoff
        refine hadd.frame ?_ ?_
        · rw [symbolField_eq hfile.blockEnd (hlt.trans hmax) (by simp only [symbolSize]; omega),
            symbolField_eq hfile.blockEnd hmax (by decide)]
          refine .inl ?_
          simp only [symbolSize]
          omega
        · rw [symbolField_eq hfile.blockEnd (hlt.trans hmax) (by simp only [symbolSize]; omega)]
          refine .inr ?_
          dsimp only
          omega
      exact ⟨(hkept 0 (by omega)).trans hold.name, (hkept 8 (by omega)).trans hold.addr,
        (hkept 16 (by omega)).trans hold.size⟩
    · obtain ⟨hname, haddr, hsize⟩ := hadd.fields
      have hvalue : (elfSymbol memory fileBase elf i).stValue < 2 ^ 64 := ByteStore.le_lt 8 _ _
      have hextent : (elfSymbol memory fileBase elf i).stSize < 2 ^ 64 := ByteStore.le_lt 8 _ _
      refine ⟨?_, ?_, ?_⟩
      · rw [hname, Nat.mod_eq_of_lt (hfile.nameEnd hk)]
      · rw [h8, haddr, Nat.mod_eq_of_lt hvalue]
      · rw [h16, hsize, Nat.mod_eq_of_lt hextent]
  · rw [hadd.outside ha, hloaded.outside a ha]
  · rw [hadd.stores, List.mem_append] at hr
    rcases hr with hr | hr
    · exact hloaded.inside r hr
    · exact hadd.within hr

theorem loaded_turns (htop : symbolsTop memory syms = 0)
    (hmax : elf.numSymbols ≤ debugSymbolsMax) {k : Nat} (hk : k ≤ elf.numSymbols) :
    Loaded memory fileBase elf syms (loadTurns fileBase elf syms ⟨memory, []⟩ k) k := by
  induction k with
  | zero =>
      refine ⟨htop, fun i hi => absurd hi (Nat.not_lt_zero i), fun a _ => rfl, fun r hr => ?_⟩
      exact absurd hr List.not_mem_nil
  | succ k ih =>
      rw [loadTurns_succ]
      exact (ih (Nat.le_of_succ_le hk)).succ hfile hk (Nat.lt_of_lt_of_le hk hmax)

end Cleared

/-! ## The search -/

theorem searchTurn_eq {m : Bytes} {off p : Nat} {name s : List UInt8} {ret : Option Nat}
    (hs : cstr off m p = some s) :
    (if m p = 0 then ret else if sameString name m p then some i else ret)
      = if s = name ∧ name ≠ [] then some i else ret := by
  have hempty : m p = 0 ↔ s = [] := by
    rw [← ByteStore.cstr_eq_iff hs (k := 1) (by simp)]
    simp [cstr]
  have hsame : sameString name m p = true ↔ s = name := by
    rw [← ByteStore.cstr_eq_iff hs (Nat.lt_succ_self name.length)]
    simp [sameString]
  by_cases h0 : m p = 0
  · rw [if_pos h0, if_neg]
    rintro ⟨rfl, hname⟩
    exact hname (hempty.mp h0)
  · rw [if_neg h0]
    by_cases hn : s = name
    · rw [if_pos (hsame.mpr hn), if_pos ⟨hn, hn ▸ mt hempty.mpr h0⟩]
    · rw [if_neg (mt hsame.mp hn), if_neg fun h => hn h.1]

/-- A loop that keeps the last index with a property has found one if there is one. -/
theorem foldl_last {P : Nat → Prop} [DecidablePred P] (f : Nat → Nat) (n : Nat) :
    (((List.range n).foldl (fun ret i => if P i then some (f i) else ret) none).isSome
        ↔ ∃ i < n, P i) ∧
      ∀ a, (List.range n).foldl (fun ret i => if P i then some (f i) else ret) none = some a →
        ∃ i < n, P i ∧ a = f i := by
  induction n with
  | zero => simp
  | succ n ih =>
      obtain ⟨hsome, hfound⟩ := ih
      rw [List.range_succ, List.foldl_append, List.foldl_cons, List.foldl_nil]
      by_cases hn : P n
      · rw [if_pos hn]
        refine ⟨iff_of_true rfl ⟨n, n.lt_succ_self, hn⟩, fun a ha => ?_⟩
        exact ⟨n, n.lt_succ_self, hn, (Option.some.inj ha).symm⟩
      · rw [if_neg hn]
        refine ⟨hsome.trans ⟨?_, ?_⟩, fun a ha => ?_⟩
        · rintro ⟨i, hi, hP⟩
          exact ⟨i, Nat.lt_succ_of_lt hi, hP⟩
        · rintro ⟨i, hi, hP⟩
          refine ⟨i, Nat.lt_of_le_of_ne (Nat.le_of_lt_succ hi) ?_, hP⟩
          rintro rfl
          exact hn hP
        · obtain ⟨i, hi, hP⟩ := hfound a ha
          exact ⟨i, Nat.lt_succ_of_lt hi, hP⟩

theorem symbolsGetSymbol_spec {m : Bytes} (htop : symbolsTop m syms = names.length)
    (hnames : ∀ i name, names[i]? = some name →
      ∃ off, cstr off m (le 8 m (symbolField syms i 0)) = some name) (name : List UInt8) :
    ((symbolsGetSymbol m syms name).isSome ↔ name ≠ [] ∧ name ∈ names) ∧
      ∀ a, symbolsGetSymbol m syms name = some a →
        ∃ i : Nat, names[i]? = some name ∧ a = symbolField syms i 0 := by
  have hturns : symbolsGetSymbol m syms name = (List.range names.length).foldl
      (fun ret i => if names[i]? = some name ∧ name ≠ [] then some (symbolField syms i 0) else ret)
      none := by
    rw [symbolsGetSymbol, htop]
    refine List.foldl_ext _ _ none fun ret i hi => ?_
    have hlt := List.getElem?_eq_getElem (List.mem_range.mp hi)
    obtain ⟨off, hoff⟩ := hnames i _ hlt
    refine (searchTurn_eq hoff).trans ?_
    simp only [hlt, Option.some.injEq]
  obtain ⟨hsome, hfound⟩ := foldl_last (P := fun i => names[i]? = some name ∧ name ≠ [])
    (fun i => symbolField syms i 0) names.length
  rw [← hturns] at hsome hfound
  refine ⟨hsome.trans ⟨?_, ?_⟩, fun a ha => ?_⟩
  · rintro ⟨i, -, hi, hname⟩
    exact ⟨hname, List.mem_of_getElem? hi⟩
  · rintro ⟨hname, hmem⟩
    obtain ⟨i, hi⟩ := List.getElem?_of_mem hmem
    exact ⟨i, (List.getElem?_eq_some_iff.mp hi).1, hi, hname⟩
  · obtain ⟨i, -, ⟨hi, -⟩, heq⟩ := hfound a ha
    exact ⟨i, hi, heq⟩

/-- The names are in the file, where they are still after all turns. -/
theorem SymbolFile.namesAt (hfile : SymbolFile memory fileBase size elf syms names) {h : Heap}
    (hloaded : Loaded memory fileBase elf syms h elf.numSymbols) {name : List UInt8}
    (hi : names[i]? = some name) :
    ∃ off, cstr off h.memory (le 8 h.memory (symbolField syms i 0)) = some name := by
  obtain ⟨hlt, -⟩ := List.getElem?_eq_some_iff.mp hi
  obtain ⟨off, hoff, hname⟩ := hfile.name i name hi
  refine ⟨off, ?_⟩
  rw [(hloaded.stored i (hfile.length ▸ hlt)).name, ← hname]
  refine ByteStore.cstr_congr fun j hj => ?_
  have hin := hfile.outside hloaded.outside
    (elf.stringTable + (elfSymbol memory fileBase elf i).stName + j) (by omega)
  simpa only [Nat.add_assoc] using hin

/-- The symbols are collected as they should be in a block whose first word
happens to be zero, when they are not too many. Then a lookup finds the last
symbol of a name. In any other block the first symbol is stored in the wrong
place, and one symbol too many goes over the end of the block. -/
theorem symbols_collected_iff (memory : Bytes) (fileBase size : Nat) (elf : ElfFile) (syms : Nat)
    (names : List (List UInt8)) (hfile : SymbolFile memory fileBase size elf syms names) :
    Collected memory fileBase elf syms names (elfLoadSymbols fileBase elf syms ⟨memory, []⟩) ↔
      elf.numSymbols ≤ debugSymbolsMax ∧ symbolsTop memory syms = 0 := by
  constructor
  · intro hcollected
    have hmax := loads_inside_le hfile.blockEnd hcollected.inside
    refine ⟨hmax, ?_⟩
    have hword : symbolsTop memory syms < 2 ^ 64 := ByteStore.le_lt 8 memory syms
    obtain ⟨hcount, -⟩ := loadTurns_inside hfile.blockEnd hcollected.inside
    have htop : (symbolsTop memory syms + elf.numSymbols) % 2 ^ 64 = elf.numSymbols :=
      hcount.symm.trans (hcollected.top hmax)
    simp only [debugSymbolsMax] at hmax
    omega
  · rintro ⟨hmax, htop⟩
    have hloaded := loaded_turns hfile htop hmax le_rfl
    have hsearch := symbolsGetSymbol_spec (hloaded.top.trans hfile.length.symm)
      fun i name => hfile.namesAt hloaded
    refine ⟨hloaded.inside, fun _ => hloaded.top, fun _ => hloaded.stored, fun _ name hname => ?_,
      fun _ name a ha => (hsearch name).2 a ha⟩
    exact (hsearch name).1.trans (and_iff_right hname)

/-- A file of 26 bytes at 4096, whose symbol has the name `a`, and a block at 8192 whose first
byte is `first`. -/
def oneSymbolMemory (first : UInt8) : Bytes := fun a =>
  if a = 4120 then 97 else if a = 8192 then first else 0

def oneSymbolFile : ElfFile where
  stringTable := 24
  stringTableSectionNames := 24
  symbolTable := 0
  numSymbols := 1
  numProgramHeaders := 0

theorem oneSymbol_file (first : UInt8) :
    SymbolFile (oneSymbolMemory first) 4096 26 oneSymbolFile 8192 [[97]] := by
  refine ⟨by decide, by decide, .inl (by decide), by decide, rfl, fun i name hi => ?_⟩
  cases i with
  | zero =>
      cases hi
      exact ⟨2, Nat.le_refl 26, rfl⟩
  | succ i => cases hi

/-- A file of 52 bytes at 4096 with two symbols, `a` at 16 and `b` at 32. -/
def twoSymbolMemory : Bytes := fun a =>
  if a = 4104 then 16 else if a = 4120 then 2 else if a = 4128 then 32
  else if a = 4144 then 97 else if a = 4146 then 98 else 0

def twoSymbolFile : ElfFile where
  stringTable := 48
  stringTableSectionNames := 48
  symbolTable := 0
  numSymbols := 2
  numProgramHeaders := 0

theorem twoSymbol_file : SymbolFile twoSymbolMemory 4096 52 twoSymbolFile 8192 [[97], [98]] := by
  refine ⟨by decide, by decide, .inl (by decide), by decide, rfl, fun i name hi => ?_⟩
  match i with
  | 0 =>
      cases hi
      exact ⟨2, by decide, rfl⟩
  | 1 =>
      cases hi
      exact ⟨2, by decide, rfl⟩
  | i + 2 => cases hi

theorem symbols_collected_iff_cleared :
    Collected twoSymbolMemory 4096 twoSymbolFile 8192 [[97], [98]]
      (elfLoadSymbols 4096 twoSymbolFile 8192 ⟨twoSymbolMemory, []⟩) :=
  (symbols_collected_iff twoSymbolMemory 4096 52 twoSymbolFile 8192 [[97], [98]]
    twoSymbol_file).mpr ⟨by decide, by decide⟩

/-- In a block that began with 5, the only symbol becomes the sixth one. -/
theorem symbol_stored_sixth :
    SymbolFile (oneSymbolMemory 5) 4096 26 oneSymbolFile 8192 [[97]] ∧
      symbolsTop (elfLoadSymbols 4096 oneSymbolFile 8192 ⟨oneSymbolMemory 5, []⟩).memory 8192 = 6 ∧
      ¬ Collected (oneSymbolMemory 5) 4096 oneSymbolFile 8192 [[97]]
        (elfLoadSymbols 4096 oneSymbolFile 8192 ⟨oneSymbolMemory 5, []⟩) := by
  have htop : symbolsTop
      (elfLoadSymbols 4096 oneSymbolFile 8192 ⟨oneSymbolMemory 5, []⟩).memory 8192 = 6 := by
    decide
  refine ⟨oneSymbol_file 5, htop, fun hcollected => ?_⟩
  have hone := hcollected.top (by decide)
  rw [htop] at hone
  cases hone

end VersionSix.Elf
