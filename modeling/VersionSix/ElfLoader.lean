import Mathlib.Data.List.Pairwise
import VersionSix.ElfFile
import VersionSix.Process

/-!
# Loading the segments of a program

The loop of `elf_loader_load_binary` (`elf_loader.c`): a `PT_LOAD` segment gets
as many pages as its size needs, the first of them for the page it starts in,
and its bytes are copied there. The process keeps one table of text pages and
one of data pages.

The pages are counted from the size alone, the tables belong to the last
segment of their kind, and the counts and indexes are narrow; so not every
segment is mapped whole. `segments_mapped_iff` says for which files all are:
each segment is the last of its kind, and its pages reach to its end.

The pages come one after the other from the allocator, which is a counter here.
So where a segment was put is known from the segments before it (`placements`),
the copies never meet, and what the table of a process holds in the end is the
entries of the last segment of the kind (`mem_lastTable`). The loop is run
once; the converse is read off the pages that have no entry.
-/

namespace VersionSix.Elf

open ByteStore (Bytes)
open Process (ProcessData ExecSection pageSize)

/-! ## The loop -/

/-- The bytes `memcpy` stores for a segment, and the pages it was given. -/
structure Copy where
  firstPage : Nat
  pages : Nat
  dst : Nat
  n : Nat

/-- The process and the kernel's memory. `nextPage` is the page that
`page_allocate_kernel(1)` hands out next; no function reads the copies. -/
structure Loader where
  process : ProcessData
  dataSectionAva : Nat
  memory : Bytes
  nextPage : Nat
  copies : List Copy

/-- `paging_virtual_to_physical`, and what an entry that was not written holds for
`kern_virt`. -/
structure Env where
  physical : Nat → Nat
  uninitialized : Nat

def pageAllocateKernel (s : Loader) : Nat × Loader :=
  (s.nextPage, { s with
    memory := ByteStore.write s.memory s.nextPage pageSize fun _ => 0
    nextPage := s.nextPage + pageSize })

/-- `num_pages`, a `uint32_t`. -/
def numPages (h : Elf64Phdr) : Nat :=
  (h.pMemsz / pageSize + if h.pMemsz % pageSize = 0 then 0 else 1) % 2 ^ 32

def actualVirtAddress (h : Elf64Phdr) : Nat :=
  if h.pVaddr = 0 then 0 else h.pVaddr / 4096 * 4096

def virtOffset (h : Elf64Phdr) : Nat :=
  if h.pVaddr = 0 then 0 else h.pVaddr - actualVirtAddress h

/-- The loop over the pages of a segment, from the index `j` on. The product
`j * PAGE_SIZE` is an `int`; it is exact for all entries that are counted. -/
def allocatePages (env : Env) (ava : Nat) : Nat → Nat → Loader → List ExecSection × Loader
  | _, 0, s => ([], s)
  | j, n + 1, s =>
      let (kernVirt, s) := pageAllocateKernel s
      let (pages, s) := allocatePages env ava (j + 1) n s
      ({ kernVirt := kernVirt
         virt := (ava + j * pageSize) % 2 ^ 64
         phys := env.physical kernVirt } :: pages, s)

def copySegment (env : Env) (data : Bytes) (h : Elf64Phdr) (pages : List ExecSection)
    (s : Loader) : Loader :=
  let firstPage := (pages.head?.map ExecSection.kernVirt).getD env.uninitialized
  let dst := firstPage + virtOffset h
  { s with
    memory := ByteStore.write s.memory dst h.pFilesz fun i => data (h.pOffset + i)
    copies := s.copies ++
      [{ firstPage := firstPage, pages := numPages h, dst := dst, n := h.pFilesz }] }

def setText (h : Elf64Phdr) (pages : List ExecSection) (s : Loader) : Loader :=
  { s with process := { s.process with
      textSections := pages
      textSectionCount := numPages h % 2 ^ 16
      textSectonVirtStart := h.pVaddr } }

def setData (h : Elf64Phdr) (pages : List ExecSection) (s : Loader) : Loader :=
  { s with
    process := { s.process with
      dataSections := pages
      dataSectionCount := numPages h % 2 ^ 16
      dataSectionVirtStart := h.pVaddr }
    dataSectionAva := actualVirtAddress h }

/-- One `PT_LOAD` segment; `none` is the exit with no table for it. -/
def loadSegment (env : Env) (data : Bytes) (h : Elf64Phdr) (s : Loader) : Option Loader :=
  if h.pFlags &&& pfX ≠ 0 then
    let (pages, s) := allocatePages env (actualVirtAddress h) 0 (numPages h) s
    some (copySegment env data h pages (setText h pages s))
  else if h.pFlags &&& pfR ≠ 0 then
    let (pages, s) := allocatePages env (actualVirtAddress h) 0 (numPages h) s
    some (copySegment env data h pages (setData h pages s))
  else none

/-- What the loop returns early, and the state it leaves. -/
def loadSegments (env : Env) (data : Bytes) : List Elf64Phdr → Loader → Option Int × Loader
  | [], s => (none, s)
  | h :: headers, s =>
      if h.pType = ptLoad then
        match loadSegment env data h s with
        | none => (some (-1), s)
        | some s => loadSegments env data headers s
      else loadSegments env data headers s

/-- `elf_file.num_program_headers`, a `uint8_t`. -/
def numProgramHeaders (data : Bytes) : Nat := (elfHeader data).ePhnum % 2 ^ 8

/-- The loop of `elf_loader_load_binary`. What follows it leaves the section tables as they
are. For a file with `.rela.plt` it fills the symbol indexes and then two words of the GOT,
which lie in a page of the data section. -/
def elfLoaderLoadSegments (env : Env) (data : Bytes) (s : Loader) : Option Int × Loader :=
  loadSegments env data ((programHeaders data).take (numProgramHeaders data)) s

/-! ## What is to hold -/

/-- The page with the number `q` holds an address of the segment. -/
def Elf64Phdr.Touches (h : Elf64Phdr) (q : Nat) : Prop :=
  0 < h.pMemsz ∧ q * pageSize < h.pVaddr + h.pMemsz ∧ h.pVaddr < (q + 1) * pageSize

/-- What the program is to find at the address `a`. -/
def Elf64Phdr.byteAt (h : Elf64Phdr) (data : Bytes) (a : Nat) : UInt8 :=
  if h.pVaddr ≤ a ∧ a < h.pVaddr + h.pFilesz then data (h.pOffset + (a - h.pVaddr)) else 0

/-- The entries of a process that are in use. -/
def recorded (p : ProcessData) : List ExecSection :=
  p.textSections.take p.textSectionCount ++ p.dataSections.take p.dataSectionCount

/-- Segments that can be loaded: sizes, flags and addresses make sense, and no page holds
addresses of two of them. -/
structure Loadable (headers : List Elf64Phdr) : Prop where
  segment : ∀ h ∈ headers, h.pType = ptLoad → h.pFilesz ≤ h.pMemsz ∧
    (h.pFlags &&& pfX ≠ 0 ∨ h.pFlags &&& pfR ≠ 0) ∧ h.pVaddr + h.pMemsz ≤ 2 ^ 64
  apart : headers.Pairwise fun h h' =>
    h.pType = ptLoad → h'.pType = ptLoad → ∀ q, ¬ (h.Touches q ∧ h'.Touches q)

/-- Every page of every segment has an entry, with a page of its own from `first` on that
holds the right bytes; and the copies stayed in the pages of their segment. -/
structure FullyMapped (data : Bytes) (headers : List Elf64Phdr) (first : Nat) (s : Loader) :
    Prop where
  mapped : ∀ h ∈ headers, h.pType = ptLoad → ∀ q, h.Touches q →
    ∃ x ∈ recorded s.process, x.virt = q * pageSize ∧ first ≤ x.kernVirt ∧
      ∀ i < pageSize, s.memory (x.kernVirt + i) = h.byteAt data (q * pageSize + i)
  own : ∀ x ∈ recorded s.process, ∀ y ∈ recorded s.process, first ≤ x.kernVirt →
    x.kernVirt = y.kernVirt → x.virt = y.virt
  inside : ∀ c ∈ s.copies, ∀ a, c.dst ≤ a → a < c.dst + c.n →
    c.firstPage ≤ a ∧ a < c.firstPage + c.pages * pageSize

def isText (h : Elf64Phdr) : Bool := h.pFlags &&& pfX ≠ 0

/-- `h` is among the headers, and no segment of its kind after it. -/
def LastOfKind (headers : List Elf64Phdr) (h : Elf64Phdr) : Prop :=
  ∃ before after, headers = before ++ h :: after ∧
    ∀ h' ∈ after, h'.pType = ptLoad → isText h' ≠ isText h

/-- Every segment that is not empty is the last of its kind among the first `n` headers,
and its pages, as many as the table counts, reach to its end. -/
def Kept (headers : List Elf64Phdr) (n : Nat) : Prop :=
  ∀ h ∈ headers, h.pType = ptLoad → 0 < h.pMemsz → LastOfKind (headers.take n) h ∧
    h.pVaddr % pageSize + h.pMemsz ≤ numPages h % 2 ^ 16 * pageSize

/-! ## Addresses of a segment -/

theorem actualVirtAddress_eq (h : Elf64Phdr) :
    actualVirtAddress h = h.pVaddr / pageSize * pageSize := by
  rw [actualVirtAddress]
  split
  · next hzero => rw [hzero, Nat.zero_div, Nat.zero_mul]
  · rfl

theorem virtOffset_eq (h : Elf64Phdr) : virtOffset h = h.pVaddr % pageSize := by
  rw [virtOffset, actualVirtAddress_eq]
  have hdiv := Nat.div_add_mod h.pVaddr pageSize
  rw [Nat.mul_comm] at hdiv
  split
  · next hzero => rw [hzero, Nat.zero_mod]
  · omega

theorem actualVirtAddress_add (h : Elf64Phdr) : actualVirtAddress h + virtOffset h = h.pVaddr := by
  rw [actualVirtAddress_eq, virtOffset_eq, Nat.mul_comm]
  exact Nat.div_add_mod ..

theorem numPages_le (h : Elf64Phdr) {j : Nat} (hj : j < numPages h) :
    j * pageSize < h.pMemsz := by
  have hmod := Nat.div_add_mod h.pMemsz pageSize
  have hle : numPages h ≤ h.pMemsz / pageSize + if h.pMemsz % pageSize = 0 then 0 else 1 :=
    Nat.mod_le ..
  unfold pageSize at *
  split at hle <;> omega

/-! ## Pages -/

/-- The segments of a list of headers with their first pages, when `next` is free. -/
def placements (next : Nat) : List Elf64Phdr → List (Elf64Phdr × Nat)
  | [] => []
  | h :: headers =>
      if h.pType = ptLoad then (h, next) :: placements (next + numPages h * pageSize) headers
      else placements next headers

/-- The entry for the page `j` of a segment. -/
def entry (env : Env) (d : Elf64Phdr × Nat) (j : Nat) : ExecSection where
  kernVirt := d.2 + j * pageSize
  virt := (actualVirtAddress d.1 + j * pageSize) % 2 ^ 64
  phys := env.physical (d.2 + j * pageSize)

def sections (env : Env) (d : Elf64Phdr × Nat) : List ExecSection :=
  (List.range (numPages d.1)).map (entry env d)

def zeroed (memory : Bytes) (next n : Nat) : Bytes :=
  ByteStore.write memory next (n * pageSize) fun _ => 0

theorem zeroed_succ (memory : Bytes) (next n : Nat) :
    zeroed (ByteStore.write memory next pageSize fun _ => 0) (next + pageSize) n =
      zeroed memory next (n + 1) := by
  funext a
  rw [zeroed, zeroed, ByteStore.write, ByteStore.write, ByteStore.write, Nat.succ_mul]
  push_cast
  grind

theorem allocatePages_spec (env : Env) (ava j n : Nat) (s : Loader) :
    allocatePages env ava j n s =
      ((List.range n).map fun i =>
        { kernVirt := s.nextPage + i * pageSize
          virt := (ava + (j + i) * pageSize) % 2 ^ 64
          phys := env.physical (s.nextPage + i * pageSize) },
        { s with
          memory := zeroed s.memory s.nextPage n
          nextPage := s.nextPage + n * pageSize }) := by
  induction n generalizing j s with
  | zero =>
      rw [allocatePages, zeroed, Nat.zero_mul, ByteStore.write_zero]
      rfl
  | succ n ih =>
      have hnext : ∀ i, s.nextPage + pageSize + i * pageSize = s.nextPage + (i + 1) * pageSize := by
        intro i
        rw [Nat.succ_mul]
        omega
      have hindex : ∀ i, j + 1 + i = j + (i + 1) := fun i => by omega
      rw [allocatePages, pageAllocateKernel]
      simp only [ih, zeroed_succ, hnext, hindex, List.range_succ_eq_map, List.map_cons,
        List.map_map,
        Function.comp_def, Nat.succ_eq_add_one, Nat.zero_mul, Nat.add_zero]

/-! ## One segment -/

def textTable (p : ProcessData) : List ExecSection × Nat := (p.textSections, p.textSectionCount)

def dataTable (p : ProcessData) : List ExecSection × Nat := (p.dataSections, p.dataSectionCount)

def tableOf (env : Env) (d : Elf64Phdr × Nat) : List ExecSection × Nat :=
  (sections env d, numPages d.1 % 2 ^ 16)

/-- The copy for a segment whose first page is `d.2`. -/
def copyOf (env : Env) (d : Elf64Phdr × Nat) : Copy :=
  let firstPage := if numPages d.1 = 0 then env.uninitialized else d.2
  { firstPage := firstPage, pages := numPages d.1, dst := firstPage + virtOffset d.1,
    n := d.1.pFilesz }

/-- The state after a segment whose pages begin at the next page. -/
structure Placed (env : Env) (data : Bytes) (h : Elf64Phdr) (s s' : Loader) : Prop where
  nextPage : s'.nextPage = s.nextPage + numPages h * pageSize
  textPages : textTable s'.process =
    if isText h then tableOf env (h, s.nextPage) else textTable s.process
  dataPages : dataTable s'.process =
    if isText h then dataTable s.process else tableOf env (h, s.nextPage)
  memory : s'.memory = ByteStore.write (zeroed s.memory s.nextPage (numPages h))
    (copyOf env (h, s.nextPage)).dst h.pFilesz fun i => data (h.pOffset + i)
  copies : s'.copies = s.copies ++ [copyOf env (h, s.nextPage)]

variable {env : Env} {data : Bytes} {h : Elf64Phdr} {s s' : Loader} {headers : List Elf64Phdr}

theorem allocatePages_sections (s : Loader) :
    allocatePages env (actualVirtAddress h) 0 (numPages h) s =
      (sections env (h, s.nextPage), { s with
        memory := zeroed s.memory s.nextPage (numPages h)
        nextPage := s.nextPage + numPages h * pageSize }) := by
  rw [allocatePages_spec]
  simp only [Nat.zero_add]
  rfl

theorem firstPage_sections (d : Elf64Phdr × Nat) :
    ((sections env d).head?.map ExecSection.kernVirt).getD env.uninitialized =
      if numPages d.1 = 0 then env.uninitialized else d.2 := by
  rw [sections]
  cases hn : numPages d.1 with
  | zero => rfl
  | succ n =>
      rw [List.range_succ_eq_map, if_neg (Nat.succ_ne_zero n)]
      simp [entry]

theorem loadSegment_spec (env : Env) (data : Bytes) (s : Loader)
    (hflags : h.pFlags &&& pfX ≠ 0 ∨ h.pFlags &&& pfR ≠ 0) :
    ∃ s', loadSegment env data h s = some s' ∧ Placed env data h s s' := by
  rw [loadSegment, allocatePages_sections]
  by_cases hx : h.pFlags &&& pfX ≠ 0
  · have htext : isText h = true := decide_eq_true hx
    rw [if_pos hx]
    refine ⟨_, rfl, rfl, ?_, ?_, ?_, ?_⟩
    · rw [if_pos htext]
      rfl
    · rw [if_pos htext]
      rfl
    · simp only [copySegment, setText, copyOf, firstPage_sections]
    · simp only [copySegment, setText, copyOf, firstPage_sections]
  · have htext : ¬ isText h = true := fun ht => hx (of_decide_eq_true ht)
    rw [if_neg hx, if_pos (hflags.resolve_left hx)]
    refine ⟨_, rfl, rfl, ?_, ?_, ?_, ?_⟩
    · rw [if_neg htext]
      rfl
    · rw [if_neg htext]
      rfl
    · simp only [copySegment, setData, copyOf, firstPage_sections]
    · simp only [copySegment, setData, copyOf, firstPage_sections]

/-! ## Where the segments are -/

theorem placements_bounds {next : Nat} {d : Elf64Phdr × Nat} (hd : d ∈ placements next headers) :
    d.1 ∈ headers ∧ d.1.pType = ptLoad ∧ next ≤ d.2 := by
  induction headers generalizing next with
  | nil => exact absurd hd List.not_mem_nil
  | cons h headers ih =>
      rw [placements] at hd
      split at hd
      · next hload =>
        rcases List.mem_cons.mp hd with rfl | hd
        · exact ⟨List.mem_cons_self, hload, Nat.le_refl _⟩
        · obtain ⟨hmem, htype, hle⟩ := ih hd
          exact ⟨List.mem_cons_of_mem _ hmem, htype, by omega⟩
      · obtain ⟨hmem, htype, hle⟩ := ih hd
        exact ⟨List.mem_cons_of_mem _ hmem, htype, hle⟩

theorem placements_disjoint {next : Nat} {d d' : Elf64Phdr × Nat}
    (hd : d ∈ placements next headers) (hd' : d' ∈ placements next headers) :
    d = d' ∨ d.2 + numPages d.1 * pageSize ≤ d'.2 ∨ d'.2 + numPages d'.1 * pageSize ≤ d.2 := by
  induction headers generalizing next with
  | nil => exact absurd hd List.not_mem_nil
  | cons h headers ih =>
      rw [placements] at hd hd'
      split at hd
      · next hload =>
        rw [if_pos hload] at hd'
        rcases List.mem_cons.mp hd with rfl | hd
        · rcases List.mem_cons.mp hd' with rfl | hd'
          · exact .inl rfl
          · exact .inr (.inl (placements_bounds hd').2.2)
        · rcases List.mem_cons.mp hd' with rfl | hd'
          · exact .inr (.inr (placements_bounds hd).2.2)
          · exact ih hd hd'
      · next hother =>
        rw [if_neg hother] at hd'
        exact ih hd hd'

theorem placements_of_mem (next : Nat) (hmem : h ∈ headers) (hload : h.pType = ptLoad) :
    ∃ b, (h, b) ∈ placements next headers := by
  induction headers generalizing next with
  | nil => exact absurd hmem List.not_mem_nil
  | cons g headers ih =>
      rw [placements]
      rcases List.mem_cons.mp hmem with rfl | hmem
      · rw [if_pos hload]
        exact ⟨next, List.mem_cons_self⟩
      · split
        · obtain ⟨b, hb⟩ := ih (next + numPages g * pageSize) hmem
          exact ⟨b, List.mem_cons_of_mem _ hb⟩
        · exact ih next hmem

def ofKind (next : Nat) (headers : List Elf64Phdr) (kind : Bool) : List (Elf64Phdr × Nat) :=
  (placements next headers).filter fun d => isText d.1 == kind

theorem ofKind_eq_nil {next : Nat} {kind : Bool} :
    ofKind next headers kind = [] ↔ ∀ h ∈ headers, h.pType = ptLoad → isText h ≠ kind := by
  rw [ofKind, List.filter_eq_nil_iff]
  constructor
  · intro hnone h hmem hload hkind
    obtain ⟨b, hb⟩ := placements_of_mem next hmem hload
    exact hnone (h, b) hb (by simpa using hkind)
  · intro hnone d hd hkind
    obtain ⟨hmem, hload, -⟩ := placements_bounds hd
    exact hnone d.1 hmem hload (by simpa using hkind)

theorem ofKind_cons (next : Nat) (g : Elf64Phdr) (headers : List Elf64Phdr) (kind : Bool) :
    ofKind next (g :: headers) kind =
      if g.pType = ptLoad then
        if isText g = kind then (g, next) :: ofKind (next + numPages g * pageSize) headers kind
        else ofKind (next + numPages g * pageSize) headers kind
      else ofKind next headers kind := by
  rw [ofKind, placements]
  split
  · rw [List.filter_cons]
    simp only [beq_iff_eq]
    rfl
  · rfl

theorem lastOfKind_of_ofKind {next : Nat} {d : Elf64Phdr × Nat} {ds : List (Elf64Phdr × Nat)}
    (hds : ofKind next headers (isText d.1) = ds ++ [d]) : LastOfKind headers d.1 := by
  induction headers generalizing next ds with
  | nil => simp [ofKind, placements] at hds
  | cons g headers ih =>
      have hcons : ∀ {m : Nat} {ds : List (Elf64Phdr × Nat)},
          ofKind m headers (isText d.1) = ds ++ [d] → LastOfKind (g :: headers) d.1 := by
        intro m ds hds
        obtain ⟨before, after, rfl, hafter⟩ := ih hds
        exact ⟨g :: before, after, rfl, hafter⟩
      rw [ofKind_cons] at hds
      split at hds
      · split at hds
        · cases ds with
          | nil =>
              obtain ⟨rfl, hrest⟩ := List.cons.inj hds
              exact ⟨[], headers, rfl, ofKind_eq_nil.mp hrest⟩
          | cons d' ds => exact hcons (List.cons.inj hds).2
        · exact hcons hds
      · exact hcons hds

theorem ofKind_of_lastOfKind (next : Nat) (hlast : LastOfKind headers h)
    (hload : h.pType = ptLoad) :
    ∃ b ds, ofKind next headers (isText h) = ds ++ [(h, b)] := by
  obtain ⟨before, after, rfl, hafter⟩ := hlast
  induction before generalizing next with
  | nil =>
      refine ⟨next, [], ?_⟩
      rw [List.nil_append, ofKind_cons, if_pos hload, if_pos rfl, ofKind_eq_nil.mpr hafter]
      rfl
  | cons g before ih =>
      rw [List.cons_append, ofKind_cons]
      split
      · obtain ⟨b, ds, hds⟩ := ih (next + numPages g * pageSize)
        rw [hds]
        split
        · exact ⟨b, (g, next) :: ds, rfl⟩
        · exact ⟨b, ds, rfl⟩
      · exact ih next

/-! ## All segments -/

/-- The table of the last of the segments, if there is one. -/
def lastTable (env : Env) (ds : List (Elf64Phdr × Nat)) (t : List ExecSection × Nat) :
    List ExecSection × Nat :=
  match ds.getLast? with
  | some d => tableOf env d
  | none => t

theorem lastTable_cons (d : Elf64Phdr × Nat) (ds : List (Elf64Phdr × Nat))
    (t : List ExecSection × Nat) :
    lastTable env (d :: ds) t = lastTable env ds (tableOf env d) := by
  rw [lastTable, lastTable]
  cases ds with
  | nil => rfl
  | cons d' ds => rfl

theorem loadSegments_tables (env : Env) (data : Bytes) (s : Loader)
    (hflags : ∀ h ∈ headers, h.pType = ptLoad → h.pFlags &&& pfX ≠ 0 ∨ h.pFlags &&& pfR ≠ 0) :
    ∃ s', loadSegments env data headers s = (none, s') ∧
      textTable s'.process =
        lastTable env (ofKind s.nextPage headers true) (textTable s.process) ∧
      dataTable s'.process =
        lastTable env (ofKind s.nextPage headers false) (dataTable s.process) := by
  induction headers generalizing s with
  | nil => exact ⟨s, rfl, rfl, rfl⟩
  | cons h headers ih =>
      have hrest := fun h' hh' => hflags h' (List.mem_cons_of_mem h hh')
      rw [loadSegments, ofKind_cons, ofKind_cons]
      by_cases hload : h.pType = ptLoad
      · obtain ⟨s₁, hs₁, hplaced⟩ := loadSegment_spec env data s
          (hflags h List.mem_cons_self hload)
        obtain ⟨s', hs', htext, hdata⟩ := ih s₁ hrest
        rw [if_pos hload, if_pos hload, if_pos hload, hs₁]
        refine ⟨s', hs', ?_, ?_⟩
        · rw [htext, hplaced.nextPage, hplaced.textPages]
          split
          · rw [lastTable_cons]
          · rfl
        · rw [hdata, hplaced.nextPage, hplaced.dataPages]
          cases isText h with
          | true => rfl
          | false => exact (lastTable_cons ..).symm
      · rw [if_neg hload, if_neg hload, if_neg hload]
        exact ih s hrest

/-- The copy of the segment stays in its pages. -/
def Fits (h : Elf64Phdr) : Prop :=
  h.pFilesz = 0 ∨ virtOffset h + h.pFilesz ≤ numPages h * pageSize

theorem copyOf_fits (env : Env) (hfits : Fits h) (next : Nat) : h.pFilesz = 0 ∨
    (copyOf env (h, next)).firstPage = next ∧ (copyOf env (h, next)).dst = next + virtOffset h ∧
      virtOffset h + h.pFilesz ≤ numPages h * pageSize := by
  by_cases hzero : h.pFilesz = 0
  · exact .inl hzero
  · have hle := hfits.resolve_left hzero
    have hpages : numPages h ≠ 0 := by
      intro hnone
      rw [hnone] at hle
      omega
    refine .inr ⟨?_, ?_, hle⟩
    · exact if_neg hpages
    · rw [copyOf, if_neg hpages]

/-- The pages of a segment after its copy, and the memory below them. -/
theorem Placed.bytes (hp : Placed env data h s s') (hfits : Fits h) :
    (∀ a < s.nextPage, s'.memory a = s.memory a) ∧
      ∀ i < numPages h * pageSize,
        s'.memory (s.nextPage + i) = h.byteAt data (actualVirtAddress h + i) := by
  have hava := actualVirtAddress_add h
  rw [hp.memory]
  rcases copyOf_fits env hfits s.nextPage with hzero | ⟨-, hdst, hle⟩
  · rw [hzero, ByteStore.write_zero]
    refine ⟨fun a ha => ByteStore.write_out (.inl (by omega)), fun i hi => ?_⟩
    rw [zeroed, ByteStore.write_in hi, Elf64Phdr.byteAt, if_neg (by omega)]
  · rw [hdst]
    refine ⟨fun a ha => ?_, fun i hi => ?_⟩
    · rw [ByteStore.write_out (.inl (by omega)), zeroed, ByteStore.write_out (.inl (by omega))]
    · rw [Elf64Phdr.byteAt]
      by_cases hin : virtOffset h ≤ i ∧ i < virtOffset h + h.pFilesz
      · obtain ⟨k, rfl⟩ := Nat.exists_eq_add_of_le hin.1
        rw [← Nat.add_assoc, ByteStore.write_in (by omega), if_pos (by omega)]
        congr 2
        omega
      · rw [ByteStore.write_out (by push_cast; omega), zeroed, ByteStore.write_in hi,
          if_neg (by omega)]

theorem loadSegments_memory (s : Loader)
    (hflags : ∀ h ∈ headers, h.pType = ptLoad → h.pFlags &&& pfX ≠ 0 ∨ h.pFlags &&& pfR ≠ 0)
    (hfits : ∀ h ∈ headers, h.pType = ptLoad → Fits h)
    (hs' : loadSegments env data headers s = (none, s')) :
    (∀ a < s.nextPage, s'.memory a = s.memory a) ∧
      (∀ d ∈ placements s.nextPage headers, ∀ i < numPages d.1 * pageSize,
        s'.memory (d.2 + i) = d.1.byteAt data (actualVirtAddress d.1 + i)) ∧
      s'.copies = s.copies ++ (placements s.nextPage headers).map (copyOf env) := by
  induction headers generalizing s with
  | nil =>
      obtain rfl : s = s' := congrArg Prod.snd hs'
      exact ⟨fun _ _ => rfl, fun _ hd => absurd hd List.not_mem_nil, (List.append_nil _).symm⟩
  | cons h headers ih =>
      have hrest := fun h' hh' => hflags h' (List.mem_cons_of_mem h hh')
      have hfits' := fun h' hh' => hfits h' (List.mem_cons_of_mem h hh')
      rw [loadSegments] at hs'
      rw [placements]
      by_cases hload : h.pType = ptLoad
      · obtain ⟨s₁, hs₁, hplaced⟩ := loadSegment_spec env data s
          (hflags h List.mem_cons_self hload)
        obtain ⟨hbelow₁, hpages₁⟩ := hplaced.bytes (hfits h List.mem_cons_self hload)
        rw [if_pos hload, hs₁] at hs'
        obtain ⟨hbelow, hpages, hcopies⟩ := ih s₁ hrest hfits' hs'
        rw [hplaced.nextPage] at hbelow hpages hcopies
        rw [if_pos hload]
        refine ⟨fun a ha => ?_, fun d hd i hi => ?_, ?_⟩
        · rw [hbelow a (by omega), hbelow₁ a ha]
        · rcases List.mem_cons.mp hd with rfl | hd
          · have hi : i < numPages h * pageSize := hi
            rw [hbelow _ (Nat.add_lt_add_left hi _), hpages₁ i hi]
          · exact hpages d hd i hi
        · rw [hcopies, hplaced.copies, List.append_assoc, List.map_cons]
          rfl
      · rw [if_neg hload] at hs' ⊢
        exact ih s hrest hfits' hs'

/-! ## The recorded entries -/

theorem mem_tableOf {d : Elf64Phdr × Nat} {x : ExecSection} :
    x ∈ (tableOf env d).1.take (tableOf env d).2 ↔ ∃ j < numPages d.1 % 2 ^ 16, x =
      entry env d j := by
  rw [tableOf, sections, ← List.map_take, List.take_range,
    Nat.min_eq_left (Nat.mod_le (numPages d.1) _), List.mem_map]
  simp only [List.mem_range]
  constructor
  · rintro ⟨j, hj, rfl⟩
    exact ⟨j, hj, rfl⟩
  · rintro ⟨j, hj, rfl⟩
    exact ⟨j, hj, rfl⟩

theorem recorded_eq (p : ProcessData) : recorded p =
    (textTable p).1.take (textTable p).2 ++ (dataTable p).1.take (dataTable p).2 := rfl

/-- An entry is one of the last segment of its kind, or was there before. -/
theorem mem_lastTable {next : Nat} {kind : Bool} {t : List ExecSection × Nat} {x : ExecSection}
    (hx : x ∈ (lastTable env (ofKind next headers kind) t).1.take
      (lastTable env (ofKind next headers kind) t).2) :
    x ∈ t.1.take t.2 ∨ ∃ d ∈ placements next headers, LastOfKind headers d.1 ∧
      ∃ j < numPages d.1 % 2 ^ 16, x = entry env d j := by
  rw [lastTable] at hx
  cases hlast : (ofKind next headers kind).getLast? with
  | none =>
      rw [hlast] at hx
      exact .inl hx
  | some d =>
      rw [hlast] at hx
      obtain ⟨ds, hds⟩ := List.getLast?_eq_some_iff.mp hlast
      have hmem : d ∈ ofKind next headers kind := by simp [hds]
      obtain ⟨hd, hkind⟩ := List.mem_filter.mp hmem
      rw [← beq_iff_eq.mp hkind] at hds
      exact .inr ⟨d, hd, lastOfKind_of_ofKind hds, mem_tableOf.mp hx⟩

section Run

variable (hflags : ∀ h ∈ headers, h.pType = ptLoad → h.pFlags &&& pfX ≠ 0 ∨ h.pFlags &&& pfR ≠ 0)
  (hs' : loadSegments env data headers s = (none, s'))
include hflags hs'

theorem mem_recorded {x : ExecSection} (hx : x ∈ recorded s'.process) :
    x ∈ recorded s.process ∨ ∃ d ∈ placements s.nextPage headers, LastOfKind headers d.1 ∧
      ∃ j < numPages d.1 % 2 ^ 16, x = entry env d j := by
  obtain ⟨s₁, hs₁, htext, hdata⟩ := loadSegments_tables env data s hflags
  obtain rfl : s₁ = s' := congrArg Prod.snd (hs₁.symm.trans hs')
  rw [recorded_eq, htext, hdata] at hx
  rw [recorded_eq]
  rcases List.mem_append.mp hx with hx | hx
  · exact (mem_lastTable hx).imp_left fun hold => List.mem_append_left _ hold
  · exact (mem_lastTable hx).imp_left fun hold => List.mem_append_right _ hold

theorem recorded_of_last (hlast : LastOfKind headers h) (hload : h.pType = ptLoad) :
    ∃ b, (h, b) ∈ placements s.nextPage headers ∧
      ∀ j < numPages h % 2 ^ 16, entry env (h, b) j ∈ recorded s'.process := by
  obtain ⟨s₁, hs₁, htext, hdata⟩ := loadSegments_tables env data s hflags
  obtain rfl : s₁ = s' := congrArg Prod.snd (hs₁.symm.trans hs')
  obtain ⟨b, ds, hds⟩ := ofKind_of_lastOfKind s.nextPage hlast hload
  have hmem : (h, b) ∈ ofKind s.nextPage headers (isText h) := by simp [hds]
  have htable : ∀ t, lastTable env (ofKind s.nextPage headers (isText h)) t =
      tableOf env (h, b) := by
    intro t
    rw [lastTable, hds, List.getLast?_concat]
  refine ⟨b, (List.mem_filter.mp hmem).1, fun j hj => ?_⟩
  have hentry : entry env (h, b) j ∈ (tableOf env (h, b)).1.take (tableOf env (h, b)).2 :=
    mem_tableOf.mpr ⟨j, hj, rfl⟩
  rw [recorded_eq, htext, hdata]
  cases hkind : isText h with
  | true =>
      rw [hkind] at htable
      rw [htable]
      exact List.mem_append_left _ hentry
  | false =>
      rw [hkind] at htable
      rw [htable (dataTable s.process)]
      exact List.mem_append_right _ hentry

end Run

/-! ## Pages of a segment -/

theorem touches_iff {q : Nat} : h.Touches q ↔
    0 < h.pMemsz ∧ h.pVaddr / pageSize ≤ q ∧ q * pageSize < h.pVaddr + h.pMemsz := by
  rw [Elf64Phdr.Touches]
  unfold pageSize
  omega

/-- The page of an entry is one of its segment, and its address does not wrap. -/
theorem entry_virt (env : Env) (b : Nat) {j : Nat}
    (hend : h.pVaddr + h.pMemsz ≤ 2 ^ 64) (hj : j < numPages h) :
    (entry env (h, b) j).virt = (h.pVaddr / pageSize + j) * pageSize ∧
      h.Touches (h.pVaddr / pageSize + j) := by
  have hsize := numPages_le h hj
  have hstart : actualVirtAddress h ≤ h.pVaddr := by
    rw [actualVirtAddress_eq]
    exact Nat.div_mul_le_self ..
  have hpage : (h.pVaddr / pageSize + j) * pageSize = actualVirtAddress h + j * pageSize := by
    rw [actualVirtAddress_eq, Nat.add_mul]
  refine ⟨?_, touches_iff.mpr ⟨by omega, Nat.le_add_right .., by omega⟩⟩
  have hlt : actualVirtAddress h + j * pageSize < 2 ^ 64 := by omega
  rw [hpage]
  exact Nat.mod_eq_of_lt hlt

theorem index_lt {q : Nat} (hq : h.Touches q)
    (hreach : h.pVaddr % pageSize + h.pMemsz ≤ numPages h % 2 ^ 16 * pageSize) :
    ∃ j < numPages h % 2 ^ 16, q = h.pVaddr / pageSize + j := by
  obtain ⟨-, hle, hlt⟩ := touches_iff.mp hq
  obtain ⟨j, rfl⟩ := Nat.exists_eq_add_of_le hle
  have hdiv := Nat.div_add_mod h.pVaddr pageSize
  refine ⟨j, ?_, rfl⟩
  unfold pageSize at *
  omega

theorem Loadable.flags (hload : Loadable headers) {n : Nat} : ∀ h ∈ headers.take n,
    h.pType = ptLoad → h.pFlags &&& pfX ≠ 0 ∨ h.pFlags &&& pfR ≠ 0 :=
  fun h hh hl => (hload.segment h (List.mem_of_mem_take hh) hl).2.1

theorem Loadable.eq_of_touches (hload : Loadable headers) {h' : Elf64Phdr} {q : Nat}
    (hh : h ∈ headers) (hh' : h' ∈ headers) (hl : h.pType = ptLoad) (hl' : h'.pType = ptLoad)
    (hq : h.Touches q) (hq' : h'.Touches q) : h = h' := by
  have hsymm : Std.Symm fun h h' : Elf64Phdr =>
      h.pType = ptLoad → h'.pType = ptLoad → ∀ q, ¬ (h.Touches q ∧ h'.Touches q) :=
    ⟨fun g g' hg hl' hl q hq => hg hl hl' q hq.symm⟩
  by_contra hne
  exact hload.apart.forall hh hh' hne hl hl' q ⟨hq, hq'⟩

/-! ## Every segment is mapped -/

theorem copyOf_inside (hfits : Fits h) {b a : Nat} (hlo : (copyOf env (h, b)).dst ≤ a)
    (hhi : a < (copyOf env (h, b)).dst + h.pFilesz) : (copyOf env (h, b)).firstPage ≤ a ∧
      a < (copyOf env (h, b)).firstPage + numPages h * pageSize := by
  rcases copyOf_fits env hfits b with hzero | ⟨hfirst, hdst, hle⟩
  · omega
  · rw [hdst] at hlo hhi
    rw [hfirst]
    omega

theorem Kept.fits {n : Nat} (hload : Loadable headers) (hkept : Kept headers n)
    (hh : h ∈ headers) (hl : h.pType = ptLoad) : Fits h := by
  obtain ⟨hsize, -, -⟩ := hload.segment h hh hl
  by_cases hempty : h.pMemsz = 0
  · exact .inl (by omega)
  · obtain ⟨-, hreach⟩ := hkept h hh hl (by omega)
    have hcount : numPages h % 2 ^ 16 * pageSize ≤ numPages h * pageSize :=
      Nat.mul_le_mul_right _ (Nat.mod_le ..)
    refine .inr ?_
    rw [virtOffset_eq]
    omega

theorem mapped_of_kept {n : Nat} (hload : Loadable headers) (hkept : Kept headers n)
    (hcopies : s.copies = [])
    (hs' : loadSegments env data (headers.take n) s = (none, s'))
    (hold : ∀ x ∈ recorded s.process, x.kernVirt < s.nextPage) :
    FullyMapped data headers s.nextPage s' := by
  have hsub : ∀ {h}, h ∈ headers.take n → h ∈ headers := fun hh => List.mem_of_mem_take hh
  obtain ⟨-, hpages, hmade⟩ := loadSegments_memory s hload.flags
    (fun h hh hl => hkept.fits hload (hsub hh) hl) hs'
  refine ⟨fun h hh hl q hq => ?_, fun x hx y hy hx₁ hxy => ?_, fun c hc a hlo hhi => ?_⟩
  · obtain ⟨hlast, hreach⟩ := hkept h hh hl hq.1
    obtain ⟨j, hj, rfl⟩ := index_lt hq hreach
    have hjn : j < numPages h := Nat.lt_of_lt_of_le hj (Nat.mod_le ..)
    obtain ⟨b, hb, hrec⟩ := recorded_of_last hload.flags hs' hlast hl
    refine ⟨entry env (h, b) j, hrec j hj,
      (entry_virt env b (hload.segment h hh hl).2.2 hjn).1, ?_, fun i hi => ?_⟩
    · exact Nat.le_trans (placements_bounds hb).2.2 (Nat.le_add_right ..)
    · have hin : j * pageSize + i < numPages h * pageSize := by
        unfold pageSize at *
        omega
      have hbyte := hpages (h, b) hb (j * pageSize + i) hin
      rw [actualVirtAddress_eq] at hbyte
      rw [entry, Nat.add_mul]
      simpa only [Nat.add_assoc] using hbyte
  · rcases mem_recorded hload.flags hs' hx with hx | ⟨d, hd, -, j, hj, rfl⟩
    · exact absurd (hold x hx) (by omega)
    · rcases mem_recorded hload.flags hs' hy with hy | ⟨d', hd', -, j', hj', rfl⟩
      · exact absurd (hold y hy) (by omega)
      · have hj := Nat.lt_of_lt_of_le hj (Nat.mod_le ..)
        have hj' := Nat.lt_of_lt_of_le hj' (Nat.mod_le ..)
        have hkern : d.2 + j * pageSize = d'.2 + j' * pageSize := hxy
        unfold pageSize at *
        rcases placements_disjoint hd hd' with rfl | hdis | hdis
        · obtain rfl : j = j' := by omega
          rfl
        · unfold pageSize at hdis
          omega
        · unfold pageSize at hdis
          omega
  · rw [hmade, hcopies, List.nil_append] at hc
    obtain ⟨⟨h, b⟩, hd, rfl⟩ := List.mem_map.mp hc
    obtain ⟨hmem, hl, -⟩ := placements_bounds hd
    exact copyOf_inside (hkept.fits hload (hsub hmem) hl) hlo hhi

/-! ## No other file is -/

theorem kept_of_mapped {n : Nat} (hload : Loadable headers)
    (hs' : loadSegments env data (headers.take n) s = (none, s'))
    (hold : ∀ x ∈ recorded s.process, x.kernVirt < s.nextPage)
    (hmapped : FullyMapped data headers s.nextPage s') : Kept headers n := by
  have hsub : ∀ {h}, h ∈ headers.take n → h ∈ headers := fun hh => List.mem_of_mem_take hh
  intro h hh hl hpos
  -- a page of the segment can only have an entry of the segment's own table
  have hentry : ∀ q, h.Touches q → LastOfKind (headers.take n) h ∧
      ∃ j < numPages h % 2 ^ 16, q = h.pVaddr / pageSize + j := by
    intro q hq
    obtain ⟨x, hx, hvirt, hfresh, -⟩ := hmapped.mapped h hh hl q hq
    rcases mem_recorded hload.flags hs' hx with hx | ⟨⟨h', b⟩, hd, hlast, j, hj, rfl⟩
    · exact absurd (hold x hx) (by omega)
    · obtain ⟨hmem, hl', -⟩ := placements_bounds hd
      have hjn : j < numPages h' := Nat.lt_of_lt_of_le hj (Nat.mod_le ..)
      obtain ⟨hv, htouch⟩ := entry_virt env b
        (hload.segment h' (hsub hmem) hl').2.2 hjn
      obtain rfl : h'.pVaddr / pageSize + j = q := by
        rw [hv] at hvirt
        exact Nat.eq_of_mul_eq_mul_right (by decide) hvirt
      obtain rfl := hload.eq_of_touches hh (hsub hmem) hl hl' hq htouch
      exact ⟨hlast, j, hj, rfl⟩
  have hstart : h.pVaddr / pageSize * pageSize ≤ h.pVaddr := Nat.div_mul_le_self ..
  refine ⟨(hentry (h.pVaddr / pageSize) (touches_iff.mpr ⟨hpos, Nat.le_refl _, by omega⟩)).1, ?_⟩
  -- else the page after the last one counted has no entry
  by_contra hshort
  have hdiv := Nat.div_add_mod h.pVaddr pageSize
  obtain ⟨-, j, hj, heq⟩ := hentry (h.pVaddr / pageSize + numPages h % 2 ^ 16)
    (touches_iff.mpr ⟨hpos,
      Nat.le_add_right .., by rw [Nat.add_mul]; rw [Nat.mul_comm] at hdiv; omega⟩)
  omega

/-- All segments of a file are mapped if and only if each is the last of its
kind and its pages reach to its end. The kinds are what can be executed and
what cannot; the number of pages is taken from the size alone, without the
place in its page where a segment begins, and is cut to 16 bits. -/
theorem segments_mapped_iff (env : Env) (data : Bytes) (s : Loader)
    (hload : Loadable (programHeaders data))
    (hold : ∀ x ∈ recorded s.process, x.kernVirt < s.nextPage) (hcopies : s.copies = []) :
    FullyMapped data (programHeaders data) s.nextPage (elfLoaderLoadSegments env data s).2 ↔
      Kept (programHeaders data) (numProgramHeaders data) := by
  obtain ⟨s', hs', -, -⟩ :=
    loadSegments_tables env data s (hload.flags (n := numProgramHeaders data))
  have hrun : elfLoaderLoadSegments env data s = (none, s') := hs'
  rw [hrun]
  exact ⟨kept_of_mapped hload hs' hold, fun hkept => mapped_of_kept hload hkept hcopies hs' hold⟩

/-! ## Two files -/

/-- A file with one readable and executable segment, its bytes at the offset 4096. -/
def programFile (vaddr size : Nat) : Bytes :=
  [(4, 0, 0x464C457F), (8, 32, 64), (2, 54, 56), (2, 56, 1), (4, 64, 1), (4, 68, 5),
    (8, 72, 4096), (8, 80, vaddr), (8, 96, size), (8, 104, size)].foldl
    (fun file field => ByteStore.setLe field.1 file field.2.1 field.2.2) fun _ => 0

theorem loadable_single (hsegment : h.pFilesz ≤ h.pMemsz ∧
    (h.pFlags &&& pfX ≠ 0 ∨ h.pFlags &&& pfR ≠ 0) ∧ h.pVaddr + h.pMemsz ≤ 2 ^ 64) :
    Loadable [h] := by
  refine ⟨fun h' hh' _ => ?_, List.pairwise_singleton ..⟩
  obtain rfl := List.mem_singleton.mp hh'
  exact hsegment

/-- A process without pages, and the kernel's memory before its first pages are handed out. -/
def freshLoader : Loader where
  process := { pid := 1, fileDescriptors := [] }
  dataSectionAva := 0
  memory := fun _ => 0
  nextPage := 0x1000
  copies := []

def plainEnv : Env := { physical := id, uninitialized := 0 }

theorem segments_mapped_iff_aligned :
    FullyMapped (programFile 0x400F00 0x100) (programHeaders (programFile 0x400F00 0x100)) 0x1000
      (elfLoaderLoadSegments plainEnv (programFile 0x400F00 0x100) freshLoader).2 := by
  have hheaders : programHeaders (programFile 0x400F00 0x100) =
      [⟨ptLoad, 5, 4096, 0x400F00, 0, 0x100, 0x100⟩] := rfl
  have hload : Loadable (programHeaders (programFile 0x400F00 0x100)) := by
    rw [hheaders]
    exact loadable_single (by decide)
  refine (segments_mapped_iff plainEnv _ freshLoader hload ?_ rfl).mpr ?_
  · intro x hx
    exact absurd hx List.not_mem_nil
  · rw [hheaders]
    intro h hh hl hpos
    obtain rfl := List.mem_singleton.mp hh
    exact ⟨⟨[], [], rfl, fun _ hh' => absurd hh' List.not_mem_nil⟩, by decide⟩

/-- A segment of half a page that goes over the end of one gets one page; the second
half of it is copied behind that page, and its second page is not mapped. -/
theorem unaligned_segment_cut :
    Loadable (programHeaders (programFile 0x400F00 0x200)) ∧
      ¬ FullyMapped (programFile 0x400F00 0x200) (programHeaders (programFile 0x400F00 0x200))
        0x1000 (elfLoaderLoadSegments plainEnv (programFile 0x400F00 0x200) freshLoader).2 := by
  have hheaders : programHeaders (programFile 0x400F00 0x200) =
      [⟨ptLoad, 5, 4096, 0x400F00, 0, 0x200, 0x200⟩] := rfl
  have hload : Loadable (programHeaders (programFile 0x400F00 0x200)) := by
    rw [hheaders]
    exact loadable_single (by decide)
  refine ⟨hload, fun hmapped => ?_⟩
  have hnone : ∀ x ∈ recorded freshLoader.process, x.kernVirt < freshLoader.nextPage :=
    fun x hx => absurd hx List.not_mem_nil
  have hkept := kept_of_mapped (n := 1) hload rfl hnone hmapped
  have hreach := (hkept _ (hheaders ▸ List.mem_singleton_self _) rfl (by decide)).2
  exact absurd hreach (by decide)

end VersionSix.Elf
