import Mathlib.Data.Nat.Digits.Lemmas
import VersionSix.PrintfNumbers

/-!
# Specifications as they are written

A `Written` is a specification before it is text: flags in any order and number, a width, a
precision, a length (`h`, `hh`, `l`, `ll`, `t`, `j` or `z`) and a specifier. `Written.format`
writes it behind the `%`, and the formatter reads it as it is meant (`specification_written`).
Widths and precisions are written out in digits; with `*` in their place they would come from
the arguments.

So what a format with one integer prints is known, and the text can be read again. Three
readers are asked. `readNumber` looks through blanks and takes a sign; it finds every unsigned
number (`prints_unsigned`), and every signed one whose sign had a place (`prints_signed`).
`_atoi`, the formatter's own reader, stops at the first character that is no digit, so it
reads `%u` back only if no blank was printed in front (`prints_atoi`).
-/

namespace VersionSix.Printf

open Emit

variable {σ D : Type} {out : UInt8 → Nat → σ → σ} {s : Sink σ} {floats : Floats D}

/-! ## What can be written -/

inductive FlagChar
  | zero
  | minus
  | plus
  | space
  | hash

namespace FlagChar

def code : FlagChar → UInt8
  | zero => chr '0'
  | minus => chr '-'
  | plus => chr '+'
  | space => chr ' '
  | hash => chr '#'

def set (flags : Flags) : FlagChar → Flags
  | zero => { flags with zeropad := true }
  | minus => { flags with left := true }
  | plus => { flags with plus := true }
  | space => { flags with space := true }
  | hash => { flags with hash := true }

end FlagChar

inductive Length
  | none
  | char
  | short
  | long
  | longLong
  | ptrdiff
  | intmax
  | size

namespace Length

def text : Length → List UInt8
  | none => []
  | char => [chr 'h', chr 'h']
  | short => [chr 'h']
  | long => [chr 'l']
  | longLong => [chr 'l', chr 'l']
  | ptrdiff => [chr 't']
  | intmax => [chr 'j']
  | size => [chr 'z']

def set (flags : Flags) : Length → Flags
  | none => flags
  | char => { flags with short := true, char := true }
  | short => { flags with short := true }
  | long => { flags with long := true }
  | longLong => { flags with long := true, longLong := true }
  | ptrdiff | intmax | size => { flags with long := true }

end Length

def decimal (n : Nat) : List UInt8 := ((Nat.digits 10 n).map (digitChar false)).reverse

/-- `%[flags][width][.precision][length]specifier`; the width is left out if it is 0. -/
structure Written where
  flags : List FlagChar
  width : Nat
  precision : Option Nat
  length : Length
  specifier : UInt8
  width_lt : width < 2 ^ 32
  precision_lt : ∀ n ∈ precision, n < 2 ^ 32
  letter : specifier ∈ ['d', 'i', 'u', 'x', 'X', 'o', 'b', 'f', 'F', 'e', 'E', 'g', 'G', 'c', 's',
    'p', '%'].map chr

namespace Written

/-- What is behind the `%`. -/
def format (x : Written) : List UInt8 :=
  x.flags.map FlagChar.code ++ (decimal x.width ++
    (x.precision.elim [] (fun n => chr '.' :: decimal n) ++ (x.length.text ++ [x.specifier])))

def flagsSet (x : Written) : Flags :=
  let flags := x.flags.foldl FlagChar.set {}
  let flags := if x.precision.isSome then { flags with precision := true } else flags
  x.length.set flags

end Written

theorem atoi_decimal {n : Nat} {rest : List UInt8} (hn : n < 2 ^ 32) (hrest : Stops rest) :
    atoi (decimal n ++ rest) = (n, rest) := by
  unfold decimal
  rw [atoi_digits false (fun d hd => Nat.digits_lt_base (by decide) hd) hrest, Nat.ofDigits_digits,
    Nat.mod_eq_of_lt hn]

/-- A number that is not 0 starts with a digit that is not 0. -/
theorem decimal_cons {n : Nat} (hn : n ≠ 0) : ∃ d cs, decimal n = digitChar false d :: cs ∧
    1 ≤ d ∧ d < 10 := by
  have hne := Nat.digits_ne_nil_iff_ne_zero (b := 10).mpr hn
  refine ⟨(Nat.digits 10 n).getLast hne, ((Nat.digits 10 n).dropLast.map (digitChar false)).reverse,
    ?_, ?_, Nat.digits_lt_base (by decide) (List.getLast_mem hne)⟩
  · unfold decimal
    conv_lhs => rw [← List.dropLast_append_getLast hne]
    simp
  · exact Nat.one_le_iff_ne_zero.mpr (Nat.getLast_digit_ne_zero 10 hn)

/-! ## How it is read -/

/-- What is neither a flag nor the start of a width or a precision. -/
structure Plain (c : UInt8) : Prop where
  digit : isDigit c = false
  star : c ≠ chr '*'
  dot : c ≠ chr '.'
  flag : c ≠ chr '0' ∧ c ≠ chr '-' ∧ c ≠ chr '+' ∧ c ≠ chr ' ' ∧ c ≠ chr '#'

theorem plain_of_mem {c : UInt8} (h : c ∈ ['d', 'i', 'u', 'x', 'X', 'o', 'b', 'f', 'F', 'e', 'E',
    'g', 'G', 'c', 's', 'p', '%', 'h', 'l', 't', 'j', 'z'].map chr) : Plain c := by
  have hall : (['d', 'i', 'u', 'x', 'X', 'o', 'b', 'f', 'F', 'e', 'E', 'g', 'G', 'c', 's', 'p',
      '%', 'h', 'l', 't', 'j', 'z'].map chr).all fun c =>
        !isDigit c && c != chr '*' && c != chr '.' &&
        (c != chr '0' && c != chr '-' && c != chr '+' && c != chr ' ' && c != chr '#') := by
    decide
  have hc := List.all_eq_true.mp hall c h
  simp only [Bool.and_eq_true, Bool.not_eq_true', bne_iff_ne] at hc
  obtain ⟨⟨⟨hdigit, hstar⟩, hdot⟩, ⟨⟨⟨h₀, h₁⟩, h₂⟩, h₃⟩, h₄⟩ := hc
  exact ⟨hdigit, hstar, hdot, h₀, h₁, h₂, h₃, h₄⟩

theorem evaluateFlags_stop {flags : Flags} {c : UInt8} {rest : List UInt8}
    (h : c ≠ chr '0' ∧ c ≠ chr '-' ∧ c ≠ chr '+' ∧ c ≠ chr ' ' ∧ c ≠ chr '#') :
    evaluateFlags flags (c :: rest) = (flags, c :: rest) := by
  obtain ⟨h₁, h₂, h₃, h₄, h₅⟩ := h
  rw [evaluateFlags, if_neg h₁, if_neg h₂, if_neg h₃, if_neg h₄, if_neg h₅]

theorem evaluateFlags_codes (flags : Flags) (fs : List FlagChar) (rest : List UInt8) :
    evaluateFlags flags (fs.map FlagChar.code ++ rest)
      = evaluateFlags (fs.foldl FlagChar.set flags) rest := by
  induction fs generalizing flags with
  | nil => rfl
  | cons f fs ih =>
      rw [List.map_cons, List.cons_append, List.foldl_cons, ← ih]
      cases f <;> rfl

theorem evaluateWidth_decimal (flags : Flags) {width : Nat} (hlt : width < 2 ^ 32) {c : UInt8}
    (hdigit : isDigit c = false) (hstar : c ≠ chr '*') (rest : List UInt8) (va : List (Arg D)) :
    evaluateWidth ⟨flags, 0, 0, decimal width ++ c :: rest, va⟩
      = some ⟨flags, width, 0, c :: rest, va⟩ := by
  unfold evaluateWidth
  rcases Nat.eq_zero_or_pos width with rfl | hpos
  · have hnil : decimal 0 = [] := rfl
    simp only [hnil, List.nil_append, hdigit, Bool.false_eq_true, if_false, if_neg hstar]
  · obtain ⟨d, cs, hcons, -, hd⟩ := decimal_cons (Nat.pos_iff_ne_zero.mp hpos)
    have hatoi := atoi_decimal hlt (stops_cons hdigit rest)
    rw [hcons, List.cons_append] at hatoi ⊢
    simp only [(isDigit_digitChar d hd).1, if_true, hatoi]

theorem evaluatePrecision_written (flags : Flags) (width : Nat) {precision : Option Nat}
    (hlt : ∀ n ∈ precision, n < 2 ^ 32) {c : UInt8} (hc : Plain c) (rest : List UInt8)
    (va : List (Arg D)) :
    evaluatePrecision ⟨flags, width, 0,
        precision.elim [] (fun n => chr '.' :: decimal n) ++ c :: rest, va⟩
      = some ⟨if precision.isSome then { flags with precision := true } else flags, width,
          precision.getD 0, c :: rest, va⟩ := by
  unfold evaluatePrecision
  rcases precision with _ | n
  · simp only [Option.elim_none, List.nil_append, if_neg hc.dot]
    rfl
  simp only [Option.elim_some, List.cons_append, if_true]
  have hn : n < 2 ^ 32 := hlt n rfl
  rcases Nat.eq_zero_or_pos n with rfl | hpos
  · have hnil : decimal 0 = [] := rfl
    simp only [hnil, List.nil_append, hc.digit, Bool.false_eq_true, if_false, if_neg hc.star]
    rfl
  · obtain ⟨d, cs, hcons, -, hd⟩ := decimal_cons (Nat.pos_iff_ne_zero.mp hpos)
    have hatoi := atoi_decimal hn (stops_cons hc.digit rest)
    rw [hcons, List.cons_append] at hatoi ⊢
    simp only [(isDigit_digitChar d hd).1, if_true, hatoi]
    rfl

theorem evaluateLength_written (f : Fields D) (length : Length) {c : UInt8}
    (hc : c ∈ ['d', 'i', 'u', 'x', 'X', 'o', 'b', 'f', 'F', 'e', 'E', 'g', 'G', 'c', 's', 'p',
      '%'].map chr) (rest : List UInt8) (hformat : f.format = length.text ++ c :: rest) :
    evaluateLength f = { f with flags := length.set f.flags, format := c :: rest } := by
  have hall : (['d', 'i', 'u', 'x', 'X', 'o', 'b', 'f', 'F', 'e', 'E', 'g', 'G', 'c', 's', 'p',
      '%'].map chr).all fun c => c != chr 'l' && c != chr 'h' &&
        !(c == chr 't' || c == chr 'j' || c == chr 'z') := by
    decide
  have hnone := List.all_eq_true.mp hall c hc
  simp only [Bool.and_eq_true, Bool.not_eq_true', bne_iff_ne, Bool.or_eq_false_iff,
    beq_eq_false_iff_ne] at hnone
  obtain ⟨⟨hl, hh⟩, ⟨ht, hj⟩, hz⟩ := hnone
  have hother : ¬(c = chr 't' ∨ c = chr 'j' ∨ c = chr 'z') := by
    rintro (h | h | h)
    · exact ht h
    · exact hj h
    · exact hz h
  obtain ⟨flags, width, precision, format, va⟩ := f
  simp only at hformat
  subst hformat
  have hlh : chr 'h' ≠ chr 'l' := by decide
  have hlong : (['t', 'j', 'z'].map chr).all fun c => c != chr 'l' && c != chr 'h' := by decide
  simp only [List.map_cons, List.map_nil, List.all_cons, List.all_nil, Bool.and_true,
    Bool.and_eq_true, bne_iff_ne] at hlong
  cases length <;>
    simp [evaluateLength, Length.text, Length.set, hl, hh, hother, hlh, hlong]

theorem Written.tail_cons (x : Written) (g : List UInt8) :
    ∃ c rest, x.length.text ++ x.specifier :: g = c :: rest ∧ Plain c := by
  have hspec : Plain x.specifier := plain_of_mem (by
    have h := x.letter
    simp only [List.map_cons, List.map_nil, List.mem_cons] at h ⊢
    tauto)
  have hh : Plain (chr 'h') := plain_of_mem (by decide)
  have hl : Plain (chr 'l') := plain_of_mem (by decide)
  have ht : Plain (chr 't') := plain_of_mem (by decide)
  have hj : Plain (chr 'j') := plain_of_mem (by decide)
  have hz : Plain (chr 'z') := plain_of_mem (by decide)
  rcases x.length
  · exact ⟨_, _, rfl, hspec⟩
  · exact ⟨_, _, rfl, hh⟩
  · exact ⟨_, _, rfl, hh⟩
  · exact ⟨_, _, rfl, hl⟩
  · exact ⟨_, _, rfl, hl⟩
  · exact ⟨_, _, rfl, ht⟩
  · exact ⟨_, _, rfl, hj⟩
  · exact ⟨_, _, rfl, hz⟩

/-- **A specification is read as it is meant.** -/
theorem specification_written (x : Written) (g : List UInt8) (va : List (Arg D)) :
    specification out floats (x.format ++ g) va s =
      (specifier out floats x.specifier ⟨x.flagsSet, x.width, x.precision.getD 0,
        x.specifier :: g, va⟩ s).map fun (z, va) => (z, g, va) := by
  obtain ⟨c, rest, htail, hc⟩ := x.tail_cons g
  obtain ⟨c₂, rest₂, hsecond, hdigit₂, hstar₂, hflag₂⟩ : ∃ c₂ rest₂,
      x.precision.elim [] (fun n => chr '.' :: decimal n) ++ c :: rest = c₂ :: rest₂ ∧
        isDigit c₂ = false ∧ c₂ ≠ chr '*' ∧
          (c₂ ≠ chr '0' ∧ c₂ ≠ chr '-' ∧ c₂ ≠ chr '+' ∧ c₂ ≠ chr ' ' ∧ c₂ ≠ chr '#') := by
    rcases x.precision with _ | n
    · exact ⟨c, rest, rfl, hc.digit, hc.star, hc.flag⟩
    · exact ⟨chr '.', _, rfl, by decide, by decide, by decide⟩
  have hformat : x.format ++ g = x.flags.map FlagChar.code ++
      (decimal x.width ++ c₂ :: rest₂) := by
    unfold Written.format
    simp only [List.append_assoc, List.singleton_append, htail, hsecond]
  have hflags : evaluateFlags {} (x.format ++ g)
      = (x.flags.foldl FlagChar.set {}, decimal x.width ++ c₂ :: rest₂) := by
    rw [hformat, evaluateFlags_codes]
    rcases Nat.eq_zero_or_pos x.width with hzero | hpos
    · rw [hzero]
      exact evaluateFlags_stop hflag₂
    · obtain ⟨d, cs, hcons, hpos, hd⟩ := decimal_cons (Nat.pos_iff_ne_zero.mp hpos)
      have hdigits : ∀ d < 10, 1 ≤ d → digitChar false d ≠ chr '0' ∧ digitChar false d ≠ chr '-' ∧
          digitChar false d ≠ chr '+' ∧ digitChar false d ≠ chr ' ' ∧
            digitChar false d ≠ chr '#' := by
        decide
      rw [hcons, List.cons_append]
      exact evaluateFlags_stop (hdigits d hd hpos)
  unfold specification
  simp only [hflags, Option.bind_eq_bind, evaluateWidth_decimal _ x.width_lt hdigit₂ hstar₂,
    Option.bind_some]
  rw [← hsecond]
  simp only [evaluatePrecision_written _ _ x.precision_lt hc, Option.bind_some]
  rw [evaluateLength_written _ x.length x.letter g htail.symm]
  rw [Option.map_eq_bind]
  rfl

theorem prints_written (x : Written) (va : List (Arg D)) :
    prints floats (chr '%' :: x.format) va =
      (specifier collect floats x.specifier ⟨x.flagsSet, x.width, x.precision.getD 0,
        [x.specifier], va⟩ ⟨0, []⟩).map fun (z, va) => (z.state, va) := by
  have hspec : specification collect floats (x.format ++ []) va ⟨0, []⟩ = _ :=
    specification_written x [] va
  rw [List.append_nil] at hspec
  unfold prints
  rw [List.length_cons, vsnprintfLoop, if_neg (fun h => h rfl), hspec]
  rcases specifier collect floats x.specifier _ _ with _ | ⟨z, va'⟩
  · rfl
  · cases x.format.length <;> rfl

theorem prints_integer (x : Written) (hx : isInteger x.specifier = true) (w : BitVec 64)
    (va : List (Arg D)) : prints floats (chr '%' :: x.format) (.word w :: va)
      = some (integerText x.specifier x.flagsSet x.width (x.precision.getD 0) w, va) := by
  rw [prints_written, specifier, if_pos hx]
  simp only [vaWord, Option.map_some, convertInteger_eq, state_collect, List.nil_append]

/-! ## Numbers -/

/-- **Unsigned numbers**: what any specification for them prints, without `#`, reads back as
the argument, as far as 32 digits can say it. -/
theorem prints_unsigned (x : Written) (hx : isInteger x.specifier = true)
    (hsigned : isSigned x.specifier = false)
    (hhash : x.flagsSet.hash = false ∨ baseOf x.specifier = 10) (w : BitVec 64)
    (va : List (Arg D)) : ∃ cs,
    prints floats (chr '%' :: x.format) (.word w :: va) = some (cs, va) ∧
      readNumber (baseOf x.specifier) cs
        = (unsignedValue x.flagsSet w % baseOf x.specifier ^ 32 : Nat) :=
  ⟨_, prints_integer x hx w va, unsigned_reads_back hsigned hhash _ _ w⟩

theorem isInteger_of_isSigned {c : UInt8} (h : isSigned c = true) : isInteger c = true := by
  unfold isInteger
  simp [h]

/-- `%08lx` and the like: zeros up to eight characters -/
def paddedLong (c : UInt8) (hc : c ∈ ['d', 'u', 'x'].map chr) : Written where
  flags := [.zero]
  width := 8
  precision := none
  length := .long
  specifier := c
  width_lt := by decide
  precision_lt := by simp
  letter := by
    simp only [List.map_cons, List.map_nil, List.mem_cons] at hc ⊢
    tauto

theorem prints_unsigned_paddedLong : ∃ cs,
    prints noFloats (chr '%' :: (paddedLong (chr 'x') (by decide)).format) [.word 0xBEEF]
        = some (cs, []) ∧
      readNumber 16 cs = 0xBEEF := by
  have hvalue : unsignedValue (paddedLong (chr 'x') (by decide)).flagsSet 0xBEEF = 0xBEEF := by
    decide
  obtain ⟨cs, hprints, hread⟩ :=
    prints_unsigned (paddedLong (chr 'x') (by decide)) rfl rfl (.inl rfl) 0xBEEF []
  refine ⟨cs, hprints, hread.trans ?_⟩
  rw [hvalue]
  rfl

/-- **Signed numbers**: what a specification for them prints reads back as the argument if
and only if that is not negative, or there is a place for the sign in front of the zeros. -/
theorem prints_signed (x : Written) (hsigned : isSigned x.specifier = true) (w : BitVec 64)
    (va : List (Arg D)) : ∃ cs,
    prints floats (chr '%' :: x.format) (.word w :: va) = some (cs, va) ∧
      (readNumber 10 cs = signedValue x.flagsSet w ↔
        0 ≤ signedValue x.flagsSet w ∨ x.flagsSet.left = true ∨ (x.precision.getD 0 < 32 ∧
          (x.flagsSet.zeropad = true → x.flagsSet.precision = false → x.width ≤ 32))) :=
  ⟨_, prints_integer x (isInteger_of_isSigned hsigned) w va, signed_reads_back_iff hsigned _ _ _ w⟩

theorem prints_signed_paddedLong : ∃ cs,
    prints noFloats (chr '%' :: (paddedLong (chr 'd') (by decide)).format) [.word (-42)]
        = some (cs, []) ∧
      readNumber 10 cs = -42 := by
  have hvalue : signedValue (paddedLong (chr 'd') (by decide)).flagsSet (-42) = -42 := by decide
  obtain ⟨cs, hprints, hread⟩ :=
    prints_signed (paddedLong (chr 'd') (by decide)) rfl (-42) []
  rw [hvalue] at hread
  exact ⟨cs, hprints, hread.mpr (.inr (.inr ⟨by decide, fun _ _ => by decide⟩))⟩

/-- **`_atoi`** reads back what `%u` prints if and only if no blank stands in front: the text
is at the left, or filled with zeros, or not shorter than the width. -/
theorem prints_atoi (x : Written) (hx : x.specifier = chr 'u') (w : BitVec 64)
    (va : List (Arg D)) : ∃ cs,
    prints floats (chr '%' :: x.format) (.word w :: va) = some (cs, va) ∧
      ((atoi cs).1 = unsignedValue x.flagsSet w % 2 ^ 32 ↔
        unsignedValue x.flagsSet w % 2 ^ 32 = 0 ∨ x.flagsSet.left = true ∨
          (x.flagsSet.zeropad = true ∧ x.flagsSet.precision = false) ∨
          x.width ≤ max (Nat.digits 10 (unsignedValue x.flagsSet w)).length
            (min (x.precision.getD 0) 32)) := by
  refine ⟨_, prints_integer x (by rw [hx]; rfl) w va, ?_⟩
  rw [hx]
  exact atoi_unsigned_iff ..

theorem prints_atoi_paddedLong : ∃ cs,
    prints noFloats (chr '%' :: (paddedLong (chr 'u') (by decide)).format) [.word 42]
        = some (cs, []) ∧
      (atoi cs).1 = 42 := by
  have hvalue : unsignedValue (paddedLong (chr 'u') (by decide)).flagsSet 42 = 42 := by decide
  obtain ⟨cs, hprints, hread⟩ := prints_atoi (paddedLong (chr 'u') (by decide)) rfl 42 []
  rw [hvalue] at hread
  exact ⟨cs, hprints, hread.mpr (.inr (.inr (.inl ⟨rfl, rfl⟩)))⟩

end VersionSix.Printf
