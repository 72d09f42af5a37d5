import VersionSix.PathText

/-!
# The words of a command line

The shell and kbugs split a line with the same loop. It closes a slot of `args`
at every space, also between two spaces, counts the slots that are not empty,
and ends at the fourth space or terminator it sees. So the first slots are the
words of the line, and the loop ends in the line, only if the line is spaced to
suit it (`shell_words_iff`).

A line is a list of fields between single spaces, some of them empty; the words
are the fields that are not. The loop closes fields (`Split.close`) and cannot
tell the two apart, and the vector it builds is the first slots and not the
slots in use. The condition says of the fields which of them may be empty, and
that there are exactly as many spaces as the loop waits for.

With fewer spaces it reads on behind the terminator, whatever is there
(`shell_words_shifted`).
-/

namespace VersionSix.Shell

open PathText

def space : UInt8 := 32

def KSHELL_MAX_LINESIZE : Nat := 255

def KBUGS_MAX_LINE_SIZE : Nat := 256

/-! ## Functions -/

/-- `args[0]` to `args[i - 1]`, the start of `args[i]` with its `j` characters, and
`num_args`. -/
structure Split where
  args : List (List UInt8)
  word : List UInt8
  numArgs : Nat

def Split.start : Split := ⟨[], [], 0⟩

def Split.endWord (s : Split) : Split where
  args := s.args ++ [s.word]
  word := []
  numArgs := if s.word.length ≠ 0 then s.numArgs + 1 else s.numArgs

/-- `argv_builder[0]` to `argv_builder[num_args - 1]`. -/
def Split.argv (s : Split) : List (List UInt8) := s.args.take s.numArgs

/-- The loop over the memory from `char_to_process` on, with what it leaves unread. `none`
is a loop that does not end, or a word longer than its slot. -/
def splitLoop (lineSize : Nat) : List UInt8 → Split → Option (Split × List UInt8)
  | [], _ => none
  | c :: memory, s =>
      if s.word.length < lineSize then
        if c ≠ space ∧ c ≠ 0 then splitLoop lineSize memory { s with word := s.word ++ [c] }
        else
          let s := s.endWord
          if s.args.length > 3 then some (s, memory) else splitLoop lineSize memory s
      else none

/-- Step 2 for a line and the memory behind its terminator. A blank line has no step 2. -/
def splitLine (lineSize : Nat) (line behind : List UInt8) :
    Option (Option (Split × List UInt8)) :=
  if line = [] then none else some (splitLoop lineSize (line ++ 0 :: behind) Split.start)

def kshellMainLoop : List UInt8 → List UInt8 → Option (Option (Split × List UInt8)) :=
  splitLine KSHELL_MAX_LINESIZE

def kbugsMain : List UInt8 → List UInt8 → Option (Option (Split × List UInt8)) :=
  splitLine KBUGS_MAX_LINE_SIZE

/-! ## Statement -/

structure Line where
  chars : List UInt8
  nonzero : ∀ c ∈ chars, c ≠ 0
  short : chars.length ≤ 254

/-- The vector is the first four words, and nothing is read behind the terminator. -/
def Tokenized (split : List UInt8 → List UInt8 → Option (Option (Split × List UInt8)))
    (line : Line) (behind : List UInt8) : Prop :=
  ∀ result, split line.chars behind = some result →
    ∃ s rest, result = some (s, rest) ∧ behind.length ≤ rest.length ∧
      s.argv = (words space [] line.chars).take 4 ∧ s.numArgs = s.argv.length

/-- The line has three spaces; of its first four fields no empty one stands before a
word; and there is no word behind them, unless all four are words. -/
structure WellSpaced (fields : List (List UInt8)) : Prop where
  spaces : 4 ≤ fields.length
  packed : (fields.take 4).Pairwise fun f g => g ≠ [] → f ≠ []
  last : (∀ f ∈ fields.take 4, f ≠ []) ∨ ∀ f ∈ fields.drop 4, f = []

/-! ## Words and fields -/

def isWord (f : List UInt8) : Bool := f ≠ []

section Packed

variable {α : Type*} {p : α → Bool}

/-- A list starts with what a filter leaves of it exactly if what the filter leaves out comes
last. -/
theorem take_filter_iff (l : List α) :
    l.take (l.filter p).length = l.filter p ↔ l.Pairwise fun a b => p b → p a := by
  induction l with
  | nil => simp
  | cons a l ih =>
      rw [List.pairwise_cons]
      by_cases ha : p a
      · rw [List.filter_cons_of_pos ha, List.length_cons, List.take_succ_cons, List.cons_inj_right,
          ih]
        exact ⟨fun h => ⟨fun _ _ _ => ha, h⟩, fun h => h.2⟩
      · rw [List.filter_cons_of_neg ha]
        constructor
        · intro h
          cases hw : l.filter p with
          | nil =>
              have hnone : ∀ b ∈ l, ¬ p b := List.filter_eq_nil_iff.mp hw
              refine ⟨fun b hb hpb => absurd hpb (hnone b hb), ih.mp ?_⟩
              rw [hw]
              rfl
          | cons w ws =>
              rw [hw, List.length_cons, List.take_succ_cons] at h
              obtain ⟨rfl, -⟩ := List.cons.inj h
              have hmem : a ∈ l.filter p := hw ▸ List.mem_cons_self ..
              exact absurd (List.mem_filter.mp hmem).2 ha
        · rintro ⟨hbefore, -⟩
          have hnone : l.filter p = [] :=
            List.filter_eq_nil_iff.mpr fun b hb hpb => ha (hbefore b hb hpb)
          rw [hnone]
          rfl

/-- As many of `l` as the filter leaves are the first ones that it leaves of `l ++ m`. -/
theorem take_filter_append_iff (l m : List α) :
    l.take (l.filter p).length = (l.filter p ++ m.filter p).take l.length ↔
      (l.Pairwise fun a b => p b → p a) ∧ ((∀ a ∈ l, p a) ∨ ∀ a ∈ m, ¬ p a) := by
  have hle : (l.filter p).length ≤ l.length := List.length_filter_le p l
  constructor
  · intro h
    have hlength := congrArg List.length h
    rw [List.length_take, List.length_take, List.length_append] at hlength
    have hcases : (l.filter p).length = l.length ∨ (m.filter p).length = 0 := by omega
    rcases hcases with hall | hnone
    · have hall : ∀ a ∈ l, p a := List.length_filter_eq_length_iff.mp hall
      refine ⟨(take_filter_iff l).mp ?_, Or.inl hall⟩
      rw [List.filter_eq_self.mpr hall, List.take_length]
    · have hnone : m.filter p = [] := List.length_eq_zero_iff.mp hnone
      rw [hnone, List.append_nil, List.take_of_length_le hle] at h
      exact ⟨(take_filter_iff l).mp h, Or.inr (List.filter_eq_nil_iff.mp hnone)⟩
  · rintro ⟨hpacked, hall | hnone⟩
    · rw [List.filter_eq_self.mpr hall, List.take_length, List.take_left' rfl]
    · rw [List.filter_eq_nil_iff.mpr hnone, List.append_nil, List.take_of_length_le hle,
        (take_filter_iff l).mpr hpacked]

end Packed

/-! ## The loop -/

variable {lineSize : Nat} {line behind memory rest : List UInt8} {s s' : Split}

theorem splitLoop_letter {c : UInt8} (hc : c ≠ space) (h0 : c ≠ 0)
    (hfit : s.word.length < lineSize) :
    splitLoop lineSize (c :: memory) s =
      splitLoop lineSize memory { s with word := s.word ++ [c] } := by
  rw [splitLoop, if_pos hfit, if_pos ⟨hc, h0⟩]

theorem splitLoop_end {c : UInt8} (hc : c = space ∨ c = 0) (hfit : s.word.length < lineSize) :
    splitLoop lineSize (c :: memory) s =
      if s.endWord.args.length > 3 then some (s.endWord, memory)
      else splitLoop lineSize memory s.endWord := by
  rw [splitLoop, if_pos hfit, if_neg]
  rintro ⟨hspace, h0⟩
  exact hc.elim hspace h0

theorem splitLoop_reads (h : splitLoop lineSize memory s = some (s', rest)) :
    rest.length < memory.length := by
  induction memory generalizing s with
  | nil => cases h
  | cons c memory ih =>
      by_cases hfit : s.word.length < lineSize
      case neg =>
        rw [splitLoop, if_neg hfit] at h
        cases h
      by_cases hc : c ≠ space ∧ c ≠ 0
      · rw [splitLoop_letter hc.1 hc.2 hfit] at h
        exact Nat.lt_succ_of_lt (ih h)
      · rw [splitLoop_end (by simpa [or_iff_not_imp_left] using hc) hfit] at h
        split at h
        · obtain ⟨-, rfl⟩ := Prod.mk.inj (Option.some.inj h)
          exact Nat.lt_succ_self _
        · exact Nat.lt_succ_of_lt (ih h)

/-- The slots when the loop has closed the fields `fs`. -/
def Split.close (s : Split) (fs : List (List UInt8)) : Split where
  args := s.args ++ fs
  word := []
  numArgs := s.numArgs + (fs.filter isWord).length

theorem Split.endWord_close (s : Split) (fs : List (List UInt8)) :
    s.endWord.close fs = s.close (s.word :: fs) := by
  simp only [Split.close, Split.endWord, List.append_assoc, List.singleton_append,
    Split.mk.injEq, true_and]
  by_cases h : s.word = []
  · simp [h, isWord]
  · simp [h, isWord]
    omega

theorem Split.endWord_eq (s : Split) : s.endWord = s.close [s.word] := by
  rw [← Split.endWord_close]
  simp [Split.close, Split.endWord]

theorem Split.endWord_length (s : Split) : s.endWord.args.length = s.args.length + 1 :=
  List.length_append

theorem splitLoop_enough (h0 : ∀ c ∈ line, c ≠ 0) (hfit : s.word.length + line.length < lineSize)
    (hargs : s.args.length < 4) (henough : 4 ≤ s.args.length + (fields space s.word line).length) :
    ∃ rest, behind.length ≤ rest.length ∧
      splitLoop lineSize (line ++ 0 :: behind) s =
        some (s.close ((fields space s.word line).take (4 - s.args.length)), rest) := by
  induction line generalizing s with
  | nil =>
      -- The terminator closes the last slot.
      have hlast : s.args.length = 3 := by
        simp only [fields, List.length_singleton] at henough
        omega
      refine ⟨behind, Nat.le_refl _, ?_⟩
      rw [List.nil_append, splitLoop_end (Or.inr rfl) (by omega), if_pos, hlast, s.endWord_eq]
      · rfl
      · rw [s.endWord_length]
        omega
  | cons c line ih =>
      obtain ⟨hc0, hrest0⟩ := List.forall_mem_cons.mp h0
      rw [List.length_cons] at hfit
      by_cases hc : c = space
      · subst hc
        rw [fields_sep] at henough ⊢
        rw [List.cons_append, splitLoop_end (Or.inl rfl) (by omega), s.endWord_length]
        by_cases hlast : s.args.length = 3
        · refine ⟨line ++ 0 :: behind, ?_, ?_⟩
          · rw [List.length_append, List.length_cons]
            omega
          · rw [if_pos (by omega), hlast, s.endWord_eq]
            rfl
        · rw [List.length_cons] at henough
          rw [if_neg (by omega)]
          obtain ⟨rest, hrest, hrun⟩ := ih hrest0 (s := s.endWord)
            (by simp only [Split.endWord, List.length_nil]; omega)
            (by rw [s.endWord_length]; omega)
            (by rw [s.endWord_length]; simp only [Split.endWord]; omega)
          refine ⟨rest, hrest, ?_⟩
          have htake : 4 - s.args.length = (4 - s.endWord.args.length) + 1 := by
            rw [s.endWord_length]
            omega
          rw [hrun, s.endWord_close, htake, List.take_succ_cons]
          rfl
      · rw [fields_of_ne hc] at henough ⊢
        rw [List.cons_append, splitLoop_letter hc hc0 (by omega)]
        exact ih hrest0 (by rw [List.length_append, List.length_singleton]; omega) hargs henough

/-- A line with too few fields: the loop goes on behind it. -/
theorem splitLoop_short (h0 : ∀ c ∈ line, c ≠ 0) (hfit : s.word.length + line.length < lineSize)
    (hargs : s.args.length + (fields space s.word line).length < 4)
    (h : splitLoop lineSize (line ++ 0 :: behind) s = some (s', rest)) :
    rest.length < behind.length := by
  induction line generalizing s with
  | nil =>
      rw [fields, List.length_singleton] at hargs
      rw [List.nil_append, splitLoop_end (Or.inr rfl) (by omega), s.endWord_length,
        if_neg (by omega)] at h
      exact splitLoop_reads h
  | cons c line ih =>
      obtain ⟨hc0, hrest0⟩ := List.forall_mem_cons.mp h0
      rw [List.length_cons] at hfit
      by_cases hc : c = space
      · subst hc
        rw [fields_sep, List.length_cons] at hargs
        rw [List.cons_append, splitLoop_end (Or.inl rfl) (by omega), s.endWord_length,
          if_neg (by omega)] at h
        refine ih hrest0 (s := s.endWord) ?_ ?_ h
        · simp only [Split.endWord, List.length_nil]
          omega
        · rw [s.endWord_length]
          simp only [Split.endWord]
          omega
      · rw [fields_of_ne hc] at hargs
        rw [List.cons_append, splitLoop_letter hc hc0 (by omega)] at h
        refine ih hrest0 ?_ hargs h
        rw [List.length_append, List.length_singleton]
        omega

/-! ## Main result -/

theorem wellSpaced_iff {fs : List (List UInt8)} (h : 4 ≤ fs.length) :
    (fs.take 4).take ((fs.take 4).filter isWord).length = (fs.filter isWord).take 4 ↔
      WellSpaced fs := by
  have hlength : (fs.take 4).length = 4 := by
    rw [List.length_take]
    omega
  have hsplit : fs.filter isWord = (fs.take 4).filter isWord ++ (fs.drop 4).filter isWord := by
    rw [← List.filter_append, List.take_append_drop]
  have hiff := take_filter_append_iff (p := isWord) (fs.take 4) (fs.drop 4)
  rw [hlength] at hiff
  rw [hsplit, hiff]
  simp only [isWord, decide_eq_true_eq, ne_eq, not_not]
  exact ⟨fun ⟨hpacked, hlast⟩ => ⟨h, hpacked, hlast⟩, fun h => ⟨h.packed, h.last⟩⟩

theorem argv_close (fs : List (List UInt8)) :
    (Split.start.close fs).argv = fs.take (fs.filter isWord).length := by
  simp [Split.argv, Split.close, Split.start]

theorem numArgs_close (fs : List (List UInt8)) :
    (Split.start.close fs).numArgs = (Split.start.close fs).argv.length := by
  have hle : (fs.filter isWord).length ≤ fs.length := List.length_filter_le isWord fs
  rw [argv_close, List.length_take, Nat.min_eq_left hle]
  exact Nat.zero_add _

theorem splitLoop_start {line : Line} (hsize : 254 < lineSize) (behind : List UInt8)
    (henough : 4 ≤ (fields space [] line.chars).length) :
    ∃ rest, behind.length ≤ rest.length ∧
      splitLoop lineSize (line.chars ++ 0 :: behind) Split.start =
        some (Split.start.close ((fields space [] line.chars).take 4), rest) := by
  have hshort := line.short
  refine splitLoop_enough line.nonzero ?_ (by simp [Split.start]) (by simpa [Split.start])
  simp only [Split.start, List.length_nil]
  omega

theorem fields_enough {line : Line} (hsize : 254 < lineSize) {behind : List UInt8}
    (hrun : splitLoop lineSize (line.chars ++ 0 :: behind) Split.start = some (s, rest))
    (hrest : behind.length ≤ rest.length) : 4 ≤ (fields space [] line.chars).length := by
  by_contra hfew
  have hshort := line.short
  refine absurd (splitLoop_short line.nonzero ?_ ?_ hrun) (not_lt.mpr hrest)
  · simp only [Split.start, List.length_nil]
    omega
  · simpa [Split.start] using not_le.mp hfew

theorem tokenized_iff {line : Line} (hsize : 254 < lineSize) (behind : List UInt8) :
    Tokenized (splitLine lineSize) line behind ↔
      (line.chars ≠ [] → WellSpaced (fields space [] line.chars)) := by
  unfold Tokenized splitLine
  by_cases hblank : line.chars = []
  · simp [hblank]
  have hwords : words space [] line.chars = (fields space [] line.chars).filter isWord :=
    words_eq_filter space [] line.chars
  constructor
  · intro h _
    obtain ⟨s, rest, hrun, hrest, hargv, -⟩ := h _ (if_neg hblank)
    have henough := fields_enough hsize hrun hrest
    obtain ⟨rest', -, hrun'⟩ := splitLoop_start hsize behind henough
    rw [hrun'] at hrun
    obtain ⟨rfl, -⟩ := Prod.mk.inj (Option.some.inj hrun)
    rw [argv_close, hwords] at hargv
    exact (wellSpaced_iff henough).mp hargv
  · intro h result hresult
    rw [if_neg hblank] at hresult
    obtain rfl := Option.some.inj hresult
    have hspaced := h hblank
    obtain ⟨rest, hrest, hrun⟩ := splitLoop_start hsize behind hspaced.spaces
    refine ⟨_, rest, hrun, hrest, ?_, numArgs_close _⟩
    rw [argv_close, hwords]
    exact (wellSpaced_iff hspaced.spaces).mpr hspaced

/-- **The words of a command line** are what the loop makes of it, without
reading on behind its terminator, exactly if the line is blank or spaced to
suit it: three spaces at least, no empty field before a word among the first
four, and no word behind them unless all four are words. -/
theorem shell_words_iff (line : Line) (behind : List UInt8) :
    (Tokenized kshellMainLoop line behind ↔
        (line.chars ≠ [] → WellSpaced (fields space [] line.chars))) ∧
      (Tokenized kbugsMain line behind ↔
        (line.chars ≠ [] → WellSpaced (fields space [] line.chars))) :=
  ⟨tokenized_iff (by decide) behind, tokenized_iff (by decide) behind⟩

/-- `ls  -l x y`, with two spaces in a row. -/
def twoSpaces : Line := ⟨[108, 115, 32, 32, 45, 108, 32, 120, 32, 121], by simp, by decide⟩

def oneWord : Line := ⟨[108, 115], by simp, by decide⟩

/-- Two spaces put an empty word into the vector. The loop for a line of one word goes on
behind it, whatever is there. -/
theorem shell_words_shifted :
    (∀ behind, ¬ Tokenized kshellMainLoop twoSpaces behind) ∧
      ∀ behind, ¬ Tokenized kshellMainLoop oneWord behind := by
  constructor
  · intro behind h
    obtain ⟨s, rest, hrun, -, hargv, -⟩ := h _ rfl
    obtain ⟨rfl, -⟩ := Prod.mk.inj (Option.some.inj hrun)
    exact absurd hargv (by decide)
  · intro behind h
    obtain ⟨s, rest, hrun, hrest, -⟩ := h _ rfl
    have henough : 4 ≤ (fields space [] oneWord.chars).length :=
      fields_enough (by decide) hrun hrest
    exact absurd henough (by decide)

end VersionSix.Shell
