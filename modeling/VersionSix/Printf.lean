import VersionSix.Bytes
import VersionSix.CInt
import VersionSix.Emit

/-!
# `printf`

`printf.c`. A string is the characters in front of its terminator, and the format is one;
what is left of it is where `format` points to. The arguments are the words that `va_arg`
takes, with strings and doubles of their own. `none` is what C does not define: an argument
that is not there or of another kind, and a format whose end is passed.

What `_ftoa` and `_etoa` print for a double is a parameter, and so is the type of doubles.
-/

namespace VersionSix.Printf

open Emit

def chr (c : Char) : UInt8 := c.toUInt8

/-- `PRINTF_NTOA_BUFFER_SIZE` -/
def ntoaBufferSize : Nat := 32

/-- The bits `FLAGS_*`. -/
structure Flags where
  zeropad : Bool := false
  left : Bool := false
  plus : Bool := false
  space : Bool := false
  hash : Bool := false
  uppercase : Bool := false
  char : Bool := false
  short : Bool := false
  long : Bool := false
  longLong : Bool := false
  precision : Bool := false
  adaptExp : Bool := false
deriving DecidableEq

/-- An argument: a word, or a pointer to a string, or a double. -/
inductive Arg (D : Type)
  | word (w : BitVec 64)
  | string (s : List UInt8)
  | double (d : D)

/-- The characters for a double, a precision, a width and flags. -/
structure Floats (D : Type) where
  ftoa : D → Nat → Nat → Flags → List UInt8
  etoa : D → Nat → Nat → Flags → List UInt8

/-! ## Output functions -/

def outBuffer (buffer maxlen : Nat) : UInt8 → Nat → ByteStore.Bytes → ByteStore.Bytes :=
  bounded maxlen buffer

def outNull {σ : Type} (_ : UInt8) (_ : Nat) (t : σ) : σ := t

/-- `_out_char` and `_out_fct`, with what is done with a character. -/
def outChar {σ : Type} (putchar : UInt8 → σ → σ) (character : UInt8) (_ : Nat) (t : σ) : σ :=
  if character ≠ 0 then putchar character t else t

/-! ## Strings -/

def strnlenS (str : List UInt8) (maxsize : Nat) : Nat := min str.length maxsize % 2 ^ 32

def isDigit (ch : UInt8) : Bool := chr '0' ≤ ch && ch ≤ chr '9'

/-- The number so far is `i`. -/
def atoiFrom (i : Nat) : List UInt8 → Nat × List UInt8
  | [] => (i, [])
  | c :: str =>
      if isDigit c then atoiFrom ((i * 10 + (c.toNat - (chr '0').toNat)) % 2 ^ 32) str
      else (i, c :: str)

/-- `_atoi`, with where it leaves the pointer. -/
def atoi (str : List UInt8) : Nat × List UInt8 := atoiFrom 0 str

/-! ## Numbers -/

variable {σ D : Type} (out : UInt8 → Nat → σ → σ)

/-- `out( ' ', buffer, idx++, maxlen )`, `n` times. -/
def spaces (n : Nat) (s : Sink σ) : Sink σ := putAll out (List.replicate n (chr ' ')) s

def outRev (buf : List UInt8) (width : Nat) (flags : Flags) (s : Sink σ) : Sink σ :=
  let s₁ := if !flags.left && !flags.zeropad then spaces out (width - buf.length) s else s
  let s₂ := putAll out buf.reverse s₁
  if flags.left then spaces out (width - (s₂.idx - s.idx)) s₂ else s₂

/-- `buf[len++] = c`, if there is space. -/
def push (c : UInt8) (buf : List UInt8) : List UInt8 :=
  if buf.length < ntoaBufferSize then buf ++ [c] else buf

/-- `while( ( len < n ) && ( len < PRINTF_NTOA_BUFFER_SIZE ) ) buf[len++] = '0'` -/
def zeros (n : Nat) (buf : List UInt8) : List UInt8 :=
  buf ++ List.replicate (min n ntoaBufferSize - buf.length) (chr '0')

/-- The part under `FLAGS_HASH`. -/
def handleHash (base prec width : Nat) (flags : Flags) (buf : List UInt8) : List UInt8 :=
  let buf :=
    if !flags.precision ∧ buf.length ≠ 0 ∧ (buf.length = prec ∨ buf.length = width) then
      let buf := buf.dropLast
      if buf.length ≠ 0 ∧ base = 16 then buf.dropLast else buf
    else buf
  let buf :=
    if base = 16 then push (if flags.uppercase then chr 'X' else chr 'x') buf
    else if base = 2 then push (chr 'b') buf
    else buf
  push (chr '0') buf

def sign (negative : Bool) (flags : Flags) : List UInt8 :=
  if negative then [chr '-'] else if flags.plus then [chr '+'] else if flags.space then [chr ' ']
  else []

/-- `width`, when there will be a sign in front of the zeros. -/
def ntoaWidth (negative : Bool) (width : Nat) (flags : Flags) : Nat :=
  if !flags.left ∧ width ≠ 0 ∧ flags.zeropad ∧ (negative ∨ flags.plus ∨ flags.space) then
    width - 1
  else width

/-- What `_ntoa_format` makes of `buf`. -/
def ntoaBuf (buf : List UInt8) (negative : Bool) (base prec width : Nat) (flags : Flags) :
    List UInt8 :=
  let buf := if !flags.left then zeros prec buf else buf
  let buf := if !flags.left ∧ flags.zeropad then zeros width buf else buf
  let buf := if flags.hash then handleHash base prec width flags buf else buf
  if buf.length < ntoaBufferSize then buf ++ sign negative flags else buf

def ntoaFormat (buf : List UInt8) (negative : Bool) (base prec width : Nat) (flags : Flags)
    (s : Sink σ) : Sink σ :=
  let width := ntoaWidth negative width flags
  outRev out (ntoaBuf buf negative base prec width flags) width flags s

def digitChar (uppercase : Bool) (digit : Nat) : UInt8 :=
  if digit < 10 then chr '0' + UInt8.ofNat digit
  else (if uppercase then chr 'A' else chr 'a') + UInt8.ofNat digit - 10

/-- The `do` loop, with space for `n` more digits. -/
def ntoaDigits (uppercase : Bool) (base : Nat) : Nat → Nat → List UInt8
  | 0, _ => []
  | n + 1, value => digitChar uppercase (value % base) ::
      if value / base ≠ 0 then ntoaDigits uppercase base n (value / base) else []

def ntoaLong (value : Nat) (negative : Bool) (base prec width : Nat) (flags : Flags)
    (s : Sink σ) : Sink σ :=
  let flags := if value = 0 then { flags with hash := false } else flags
  let buf :=
    if !flags.precision ∨ value ≠ 0 then ntoaDigits flags.uppercase base ntoaBufferSize value
    else []
  ntoaFormat out buf negative base prec width flags s

/-- A `long long` is as long as a `long`. -/
def ntoaLongLong (value : Nat) (negative : Bool) (base prec width : Nat) (flags : Flags)
    (s : Sink σ) : Sink σ :=
  ntoaLong out value negative base prec width flags s

/-! ## Arguments -/

def vaWord : List (Arg D) → Option (BitVec 64 × List (Arg D))
  | .word w :: va => some (w, va)
  | _ => none

def vaString : List (Arg D) → Option (List UInt8 × List (Arg D))
  | .string s :: va => some (s, va)
  | _ => none

def vaDouble : List (Arg D) → Option (D × List (Arg D))
  | .double d :: va => some (d, va)
  | _ => none

/-- `va_arg( va, int )` -/
def vaInt (va : List (Arg D)) : Option (Int × List (Arg D)) :=
  (vaWord va).map fun (w, va) => ((w.setWidth 32).toInt, va)

/-! ## The fields of a specification -/

def evaluateFlags (flags : Flags) : List UInt8 → Flags × List UInt8
  | [] => (flags, [])
  | c :: format =>
      if c = chr '0' then evaluateFlags { flags with zeropad := true } format
      else if c = chr '-' then evaluateFlags { flags with left := true } format
      else if c = chr '+' then evaluateFlags { flags with plus := true } format
      else if c = chr ' ' then evaluateFlags { flags with space := true } format
      else if c = chr '#' then evaluateFlags { flags with hash := true } format
      else (flags, c :: format)

/-- What the fields so far say, and what is left to be read. -/
structure Fields (D : Type) where
  flags : Flags
  width : Nat
  precision : Nat
  format : List UInt8
  va : List (Arg D)

def evaluateWidth (f : Fields D) : Option (Fields D) :=
  match f.format with
  | [] => some f
  | c :: format =>
      if isDigit c then
        let (width, format) := atoi (c :: format)
        some { f with width, format }
      else if c = chr '*' then
        (vaInt f.va).map fun (w, va) =>
          if w < 0 then
            { f with flags := { f.flags with left := true }, width := w.natAbs, format, va }
          else { f with width := w.toNat, format, va }
      else some f

def evaluatePrecision (f : Fields D) : Option (Fields D) :=
  match f.format with
  | [] => some f
  | c :: format =>
      if c = chr '.' then
        let f := { f with flags := { f.flags with precision := true }, format }
        match format with
        | [] => some f
        | d :: format =>
            if isDigit d then
              let (precision, format) := atoi (d :: format)
              some { f with precision, format }
            else if d = chr '*' then
              (vaInt f.va).map fun (prec, va) => { f with precision := prec.toNat, format, va }
            else some f
      else some f

/-- `ptrdiff_t`, `intmax_t` and `size_t` are as long as a `long`. -/
def evaluateLength (f : Fields D) : Fields D :=
  match f.format with
  | [] => f
  | c :: format =>
      if c = chr 'l' then
        let f := { f with flags := { f.flags with long := true }, format }
        match format with
        | d :: format =>
            if d = chr 'l' then { f with flags := { f.flags with longLong := true }, format } else f
        | [] => f
      else if c = chr 'h' then
        let f := { f with flags := { f.flags with short := true }, format }
        match format with
        | d :: format =>
            if d = chr 'h' then { f with flags := { f.flags with char := true }, format } else f
        | [] => f
      else if c = chr 't' ∨ c = chr 'j' ∨ c = chr 'z' then
        { f with flags := { f.flags with long := true }, format }
      else f

/-! ## Specifiers -/

/-- `d` and `i` -/
def isSigned (c : UInt8) : Bool := c = chr 'd' || c = chr 'i'

def isInteger (c : UInt8) : Bool :=
  isSigned c || c = chr 'u' || c = chr 'x' || c = chr 'X' || c = chr 'o' || c = chr 'b'

def baseOf (c : UInt8) : Nat :=
  if c = chr 'x' ∨ c = chr 'X' then 16
  else if c = chr 'o' then 8
  else if c = chr 'b' then 2
  else 10

def integerFlags (c : UInt8) (flags : Flags) : Flags :=
  let flags := if baseOf c = 10 then { flags with hash := false } else flags
  let flags := if c = chr 'X' then { flags with uppercase := true } else flags
  let flags := if isSigned c then flags else { flags with plus := false, space := false }
  if flags.precision then { flags with zeropad := false } else flags

def signedValue (flags : Flags) (w : BitVec 64) : Int :=
  if flags.longLong ∨ flags.long then w.toInt
  else if flags.char then (w.setWidth 8).toInt
  else if flags.short then (w.setWidth 16).toInt
  else (w.setWidth 32).toInt

def unsignedValue (flags : Flags) (w : BitVec 64) : Nat :=
  if flags.longLong ∨ flags.long then w.toNat
  else if flags.char then (w.setWidth 8).toNat
  else if flags.short then (w.setWidth 16).toNat
  else (w.setWidth 32).toNat

def convertInteger (c : UInt8) (flags : Flags) (width precision : Nat) (w : BitVec 64)
    (s : Sink σ) : Sink σ :=
  let flags := integerFlags c flags
  if isSigned c then
    let value := signedValue flags w
    if flags.longLong then
      ntoaLongLong out value.natAbs (value < 0) (baseOf c) precision width flags s
    else ntoaLong out value.natAbs (value < 0) (baseOf c) precision width flags s
  else
    if flags.longLong then
      ntoaLongLong out (unsignedValue flags w) false (baseOf c) precision width flags s
    else ntoaLong out (unsignedValue flags w) false (baseOf c) precision width flags s

/-- Padding around a text that counts for `l` characters. -/
def padded (flags : Flags) (width l : Nat) (text : List UInt8) (s : Sink σ) : Sink σ :=
  let s := if flags.left then s else spaces out (width - l) s
  let s := putAll out text s
  if flags.left then spaces out (width - l) s else s

def convertString (flags : Flags) (width precision : Nat) (p : List UInt8) (s : Sink σ) :
    Sink σ :=
  let l := strnlenS p (if precision ≠ 0 then precision else 2 ^ 64 - 1)
  let l := if flags.precision then min l precision else l
  padded out flags width l (if flags.precision then p.take precision else p) s

/-- The `switch` over the specifier. -/
def specifier (floats : Floats D) (c : UInt8) (f : Fields D) (s : Sink σ) :
    Option (Sink σ × List (Arg D)) :=
  let flags := f.flags
  if isInteger c then
    (vaWord f.va).map fun (w, va) => (convertInteger out c flags f.width f.precision w s, va)
  else if c = chr 'f' ∨ c = chr 'F' then
    let flags := if c = chr 'F' then { flags with uppercase := true } else flags
    (vaDouble f.va).map fun (d, va) => (putAll out (floats.ftoa d f.precision f.width flags) s, va)
  else if c = chr 'e' ∨ c = chr 'E' ∨ c = chr 'g' ∨ c = chr 'G' then
    let flags := if c = chr 'g' ∨ c = chr 'G' then { flags with adaptExp := true } else flags
    let flags := if c = chr 'E' ∨ c = chr 'G' then { flags with uppercase := true } else flags
    (vaDouble f.va).map fun (d, va) => (putAll out (floats.etoa d f.precision f.width flags) s, va)
  else if c = chr 'c' then
    (vaWord f.va).map fun (w, va) =>
      (padded out flags f.width 1 [UInt8.ofBitVec (w.setWidth 8)] s, va)
  else if c = chr 's' then
    (vaString f.va).map fun (p, va) => (convertString out flags f.width f.precision p s, va)
  else if c = chr 'p' then
    let flags := { flags with zeropad := true, uppercase := true }
    (vaWord f.va).map fun (w, va) =>
      (ntoaLongLong out w.toNat false 16 f.precision 16 flags s, va)
  else some (put out c s, f.va)

/-- What is behind a `%`. -/
def specification (floats : Floats D) (format : List UInt8) (va : List (Arg D)) (s : Sink σ) :
    Option (Sink σ × List UInt8 × List (Arg D)) := do
  let (flags, format) := evaluateFlags {} format
  let f ← evaluateWidth ⟨flags, 0, 0, format, va⟩
  let f ← evaluatePrecision f
  let f := evaluateLength f
  match f.format with
  | [] => none
  | c :: format =>
      let (s, va) ← specifier out floats c f s
      some (s, format, va)

/-- The `while` loop, for at most so many turns. -/
def vsnprintfLoop (floats : Floats D) : Nat → List UInt8 → List (Arg D) → Sink σ →
    Option (Sink σ × List (Arg D))
  | _, [], va, s => some (s, va)
  | 0, _ :: _, _, _ => none
  | n + 1, c :: format, va, s =>
      if c ≠ chr '%' then vsnprintfLoop floats n format va (put out c s)
      else do
        let (s, format, va) ← specification out floats format va s
        vsnprintfLoop floats n format va s

/-- `_vsnprintf`: the state behind `out`, and the result. -/
def vsnprintf (floats : Floats D) (maxlen : Nat) (format : List UInt8) (va : List (Arg D)) (t : σ) :
    Option (σ × Int) :=
  (vsnprintfLoop out floats format.length format va ⟨0, t⟩).map fun (s, _) =>
    (out 0 (if s.idx < maxlen then s.idx else CInt.uint64 ((maxlen : Int) - 1)) s.state,
      CInt.int32 s.idx)

/-! ## The functions of the interface -/

/-- `printf_`, `vprintf_` and `fctprintf`, with what is done with a character. -/
def printf (floats : Floats D) (putchar : UInt8 → σ → σ) (format : List UInt8)
    (va : List (Arg D)) (t : σ) : Option (σ × Int) :=
  vsnprintf (outChar putchar) floats (2 ^ 64 - 1) format va t

/-- `snprintf_` and `vsnprintf_` -/
def snprintf (floats : Floats D) (buffer count : Nat) (format : List UInt8) (va : List (Arg D))
    (m : ByteStore.Bytes) : Option (ByteStore.Bytes × Int) :=
  if buffer ≠ 0 then vsnprintf (outBuffer buffer count) floats count format va m
  else vsnprintf outNull floats count format va m

def sprintf (floats : Floats D) (buffer : Nat) (format : List UInt8) (va : List (Arg D))
    (m : ByteStore.Bytes) : Option (ByteStore.Bytes × Int) :=
  snprintf floats buffer (2 ^ 64 - 1) format va m

end VersionSix.Printf
