import VersionSix.BoundedTable
import VersionSix.JsonText

/-!
# Log messages as JSON

`klog_stage2` sends a record for each message, with the message as a JSON
string in it. The buffers are large enough for every message, but
`klog_string_escape_json` knows two characters only: the record has the message
in it if and only if there is no backslash in the message and no control
character other than a newline (`klog_survives_iff`).

What a JSON string means is in `JsonText`; a reader of the log is that grammar
and nothing of this kernel. Going along the escaped text, each step of the
reader takes up what one character of the message became. Behind a backslash
the two get out of step: the reader takes more than was written for a
character, or reads a newline that was none.

`LogsSurvive` has a second half, that different messages have different
records. It needs the same condition, as a newline and the two characters of
its escape come out alike.
-/

namespace VersionSix.Klog

open BoundedTable JsonText

def newline : UInt8 := 10

/-! ## Functions -/

def escapedChar (c : UInt8) : List UInt8 :=
  if c = quote then [backslash, quote]
  else if c = newline then [backslash, 110]
  else [c]

def klogStringEscapeJson : List UInt8 → List UInt8
  | [] => []
  | c :: s => escapedChar c ++ klogStringEscapeJson s

def text (s : String) : List UInt8 := s.toList.map fun c => UInt8.ofNat c.toNat

def klogLevels : List (List UInt8) := [text "Info", text "Debug", text "Error", text "Panic"]

/-- The call of the macro `klog`: level, file, function and line. -/
structure Caller where
  level : Fin 4
  fileName : List UInt8
  functionName : List UInt8
  lineNumber : Int

/-- What is printed to `start_buff`. -/
def Caller.start (c : Caller) : List UInt8 :=
  text "\x7b \"level\": \"" ++ klogLevels[c.level] ++ text "\", \"file\": \"" ++ c.fileName ++
    text "\", \"function\": \"" ++ c.functionName ++ text "\", \"line_number\": \"" ++
    text (toString c.lineNumber) ++ text "\", \"message\": \""

/-- What is printed to `end_buff`. -/
def endBuff : List UInt8 := text "\" \x7d\n"

/-- A caller whose names leave `start_buff` its terminator. -/
structure Source extends Caller where
  fits : toCaller.start.length < 1024

/-- What `vsnprintf` leaves in `klog_message`: at most 1023 characters, and no 0. -/
structure Message where
  chars : List UInt8
  short : chars.length ≤ 1023
  ascii : ∀ c ∈ chars, c ≠ 0 ∧ c < 0x80

/-- The record that goes to the serial port. A string in a buffer of 4096 bytes has its
terminator there as well; `none` is one that has not the space. -/
def klogStage2 (source : Source) (message : Message) : Option (List UInt8) :=
  (appendAll 4095 [] (klogStringEscapeJson message.chars)).bind fun klogEscapedStr =>
    (appendAll 4095 [] source.start).bind fun klogBuff =>
      (appendAll 4095 klogBuff klogEscapedStr).bind fun klogBuff =>
        appendAll 4095 klogBuff endBuff

/-! ## Statement -/

def Message.codes (m : Message) : List Nat := m.chars.map UInt8.toNat

/-- The record is sent, with the message in it as a JSON string. -/
def Logged (source : Source) (m : Message) : Prop :=
  ∃ body, klogStage2 source m = some (source.start ++ body ++ endBuff) ∧
    body = klogStringEscapeJson m.chars ∧ Body body m.codes

/-- Each message is logged, and different messages have different records. -/
def LogsSurvive (source : Source) (messages : Message → Prop) : Prop :=
  (∀ m, messages m → Logged source m) ∧
    ∀ m m', messages m → messages m' → klogStage2 source m = klogStage2 source m' →
      m.chars = m'.chars

/-- No backslash, and no control character other than a newline. -/
def Plain (chars : List UInt8) : Prop :=
  ∀ c ∈ chars, c ≠ backslash ∧ (0x20 ≤ c ∨ c = newline)

/-! ## The escaped text -/

variable {c : UInt8} {m s t : List UInt8} {xs : List Nat}

theorem escape_quote : klogStringEscapeJson (quote :: t) =
    backslash :: quote :: klogStringEscapeJson t := rfl

theorem escape_newline : klogStringEscapeJson (newline :: t) =
    backslash :: 110 :: klogStringEscapeJson t := rfl

theorem escape_other (hq : c ≠ quote) (hn : c ≠ newline) :
    klogStringEscapeJson (c :: t) = c :: klogStringEscapeJson t := by
  rw [klogStringEscapeJson, escapedChar, if_neg hq, if_neg hn]
  rfl

theorem escape_length_le (m : List UInt8) : (klogStringEscapeJson m).length ≤ 2 * m.length := by
  induction m with
  | nil => exact Nat.le_refl 0
  | cons c m ih =>
      have hc : (escapedChar c).length ≤ 2 := by
        unfold escapedChar
        split
        · exact Nat.le_refl 2
        · split
          · exact Nat.le_refl 2
          · exact Nat.le_succ 1
      rw [klogStringEscapeJson, List.length_append, List.length_cons]
      omega

/-- A character of the text that is not a backslash is one of the message. -/
theorem escape_eq_cons (hc : c ≠ backslash) (h : klogStringEscapeJson m = c :: s) :
    ∃ t, m = c :: t ∧ klogStringEscapeJson t = s := by
  cases m with
  | nil => cases h
  | cons d t =>
      by_cases hq : d = quote
      · rw [hq, escape_quote] at h
        exact absurd (List.cons.inj h).1.symm hc
      · by_cases hn : d = newline
        · rw [hn, escape_newline] at h
          exact absurd (List.cons.inj h).1.symm hc
        · rw [escape_other hq hn] at h
          obtain ⟨rfl, hs⟩ := List.cons.inj h
          exact ⟨t, rfl, hs⟩

/-- A backslash is one of the message or the first of an escape. -/
theorem escape_eq_backslash (h : klogStringEscapeJson m = backslash :: s) :
    (∃ t, m = backslash :: t ∧ klogStringEscapeJson t = s) ∨
      (∃ t, m = quote :: t ∧ s = quote :: klogStringEscapeJson t) ∨
      ∃ t, m = newline :: t ∧ s = 110 :: klogStringEscapeJson t := by
  cases m with
  | nil => cases h
  | cons d t =>
      by_cases hq : d = quote
      · subst hq
        exact Or.inr (Or.inl ⟨t, rfl, (List.cons.inj h).2.symm⟩)
      · by_cases hn : d = newline
        · subst hn
          exact Or.inr (Or.inr ⟨t, rfl, (List.cons.inj h).2.symm⟩)
        · rw [escape_other hq hn] at h
          obtain ⟨rfl, hs⟩ := List.cons.inj h
          exact Or.inl ⟨t, rfl, hs⟩

/-! ## Reading it back -/

theorem body_cons (hc : c ≠ backslash) (h : Body (klogStringEscapeJson (c :: t)) xs) :
    (0x20 ≤ c ∨ c = newline) ∧ ∃ ys, xs = c.toNat :: ys ∧ Body (klogStringEscapeJson t) ys := by
  have hshort : ∀ {d : UInt8}, d ≠ 117 → Body (backslash :: d :: klogStringEscapeJson t) xs →
      ∃ x ys, shortEscape d = some x ∧ xs = x :: ys ∧ Body (klogStringEscapeJson t) ys := by
    intro d hd h
    rcases Body.backslash_iff.mp h with ⟨d', x, s, ys, hs, hx, rfl, hys⟩ |
      ⟨_, _, _, _, _, _, _, hs, -⟩
    · obtain ⟨rfl, rfl⟩ := List.cons.inj hs
      exact ⟨x, ys, hx, rfl, hys⟩
    · exact absurd (List.cons.inj hs).1 hd
  by_cases hq : c = quote
  · subst hq
    obtain ⟨x, ys, hx, rfl, hys⟩ := hshort (by decide) h
    obtain rfl := Option.some.inj hx
    exact ⟨Or.inl (by decide), ys, rfl, hys⟩
  · by_cases hn : c = newline
    · subst hn
      obtain ⟨x, ys, hx, rfl, hys⟩ := hshort (by decide) h
      obtain rfl := Option.some.inj hx
      exact ⟨Or.inr rfl, ys, rfl, hys⟩
    · rw [escape_other hq hn] at h
      obtain ⟨hu, ys, rfl, hys⟩ := (Body.char_iff hc).mp h
      exact ⟨Or.inl hu.1, ys, rfl, hys⟩

theorem hexUnit_digits {a b c d : UInt8} {x : Nat} (h : hexUnit a b c d = some x) :
    a ≠ backslash ∧ b ≠ backslash ∧ c ≠ backslash ∧ d ≠ backslash := by
  have hdigit : hexDigit backslash = none := rfl
  refine ⟨?_, ?_, ?_, ?_⟩ <;> rintro rfl <;> simp [hexUnit, hdigit] at h

/-- Behind a backslash more characters are used up than read, or they are a newline and
come back as another character. -/
theorem body_backslash (h : Body (klogStringEscapeJson (backslash :: t)) xs) :
    (∃ t' x ys, t'.length < t.length ∧ xs = x :: ys ∧ Body (klogStringEscapeJson t') ys) ∨
      ∃ t' ys, t = newline :: t' ∧ xs = 92 :: 110 :: ys ∧ Body (klogStringEscapeJson t') ys := by
  rw [escape_other (by decide) (by decide)] at h
  rcases Body.backslash_iff.mp h with ⟨c, x, s, ys, hs, hx, rfl, hys⟩ |
    ⟨a, b, c, d, x, s, ys, hs, hx, rfl, hys⟩
  · by_cases hc : c = backslash
    · subst hc
      rcases escape_eq_backslash hs with ⟨t', rfl, rfl⟩ | ⟨t', rfl, rfl⟩ | ⟨t', rfl, rfl⟩
      · exact Or.inl ⟨t', x, ys, Nat.lt_succ_self _, rfl, hys⟩
      · exact absurd rfl ((Body.char_iff (by decide)).mp hys).1.2.2.1
      · obtain rfl := Option.some.inj hx
        obtain ⟨-, zs, rfl, hzs⟩ := (Body.char_iff (by decide)).mp hys
        exact Or.inr ⟨t', zs, rfl, rfl, hzs⟩
    · obtain ⟨t', rfl, rfl⟩ := escape_eq_cons hc hs
      exact Or.inl ⟨t', x, ys, Nat.lt_succ_self _, rfl, hys⟩
  · obtain ⟨ha, hb, hc, hd⟩ := hexUnit_digits hx
    obtain ⟨t₁, rfl, h₁⟩ := escape_eq_cons (by decide) hs
    obtain ⟨t₂, rfl, h₂⟩ := escape_eq_cons ha h₁
    obtain ⟨t₃, rfl, h₃⟩ := escape_eq_cons hb h₂
    obtain ⟨t₄, rfl, h₄⟩ := escape_eq_cons hc h₃
    obtain ⟨t₅, rfl, rfl⟩ := escape_eq_cons hd h₄
    refine Or.inl ⟨t₅, x, ys, ?_, rfl, hys⟩
    simp only [List.length_cons]
    omega

theorem body_length_le (h : Body (klogStringEscapeJson m) xs) : xs.length ≤ m.length := by
  induction hlen : m.length using Nat.strongRecOn generalizing m xs with
  | _ n ih =>
      cases m with
      | nil =>
          cases h
          exact Nat.zero_le n
      | cons c t =>
          rw [List.length_cons] at hlen
          by_cases hc : c = backslash
          · subst hc
            rcases body_backslash h with ⟨t', x, ys, hlt, rfl, hys⟩ | ⟨t', ys, rfl, rfl, hys⟩
            · have hle := ih _ (by omega) hys rfl
              rw [List.length_cons]
              omega
            · rw [List.length_cons] at hlen
              have hle := ih _ (by omega) hys rfl
              rw [List.length_cons, List.length_cons]
              omega
          · obtain ⟨-, ys, rfl, hys⟩ := body_cons hc h
            have hle := ih _ (by omega) hys rfl
            rw [List.length_cons]
            omega

theorem plain_of_body (h : Body (klogStringEscapeJson m) (m.map UInt8.toNat)) : Plain m := by
  induction m with
  | nil => exact fun _ hc => absurd hc List.not_mem_nil
  | cons c t ih =>
      rw [List.map_cons] at h
      have hc : c ≠ backslash := by
        rintro rfl
        rcases body_backslash h with ⟨t', x, ys, hlt, heq, hys⟩ | ⟨t', ys, rfl, heq, -⟩
        · have hle := body_length_le hys
          obtain ⟨-, rfl⟩ := List.cons.inj heq
          rw [List.length_map] at hle
          omega
        · rw [List.map_cons] at heq
          cases heq
      obtain ⟨hcontrol, ys, heq, hys⟩ := body_cons hc h
      obtain ⟨-, rfl⟩ := List.cons.inj heq
      exact List.forall_mem_cons.mpr ⟨⟨hc, hcontrol⟩, ih hys⟩

theorem body_of_plain (hplain : Plain m) (hascii : ∀ c ∈ m, c ≠ 0 ∧ c < 0x80) :
    Body (klogStringEscapeJson m) (m.map UInt8.toNat) := by
  induction m with
  | nil => exact Body.nil
  | cons c t ih =>
      obtain ⟨⟨hc, hcontrol⟩, hplain'⟩ := List.forall_mem_cons.mp hplain
      obtain ⟨⟨-, hc7⟩, hascii'⟩ := List.forall_mem_cons.mp hascii
      have hrest := ih hplain' hascii'
      by_cases hq : c = quote
      · subst hq
        exact Body.short rfl hrest
      · by_cases hn : c = newline
        · subst hn
          exact Body.short rfl hrest
        · rw [escape_other hq hn]
          have hprint : 0x20 ≤ c := hcontrol.resolve_right hn
          exact Body.char ⟨hprint, hc7, hq, hc⟩ hrest

/-! ## The record -/

variable {source : Source}

theorem klogStage2_eq (source : Source) (m : Message) :
    klogStage2 source m =
      some (source.start ++ klogStringEscapeJson m.chars ++ endBuff) := by
  have hstart := source.fits
  have hescape := escape_length_le m.chars
  have hshort := m.short
  have hend : endBuff.length = 4 := rfl
  unfold klogStage2
  rw [appendAll_some (by rw [List.length_nil]; omega), Option.bind_some, List.nil_append,
    appendAll_some (by rw [List.length_nil]; omega), Option.bind_some, List.nil_append,
    appendAll_some (by omega), Option.bind_some, appendAll_some]
  rw [List.length_append]
  omega

theorem logged_iff {m : Message} : Logged source m ↔ Plain m.chars := by
  constructor
  · rintro ⟨body, -, rfl, hbody⟩
    exact plain_of_body hbody
  · intro h
    exact ⟨_, klogStage2_eq source m, rfl, body_of_plain h m.ascii⟩

/-- **Messages in the log.** Each of some messages is in its record as a JSON
string, and different messages have different records, exactly if none of them
has a backslash or a control character other than a newline. The sources of the
calls are any whose names fit the buffer. -/
theorem klog_survives_iff (source : Source) (messages : Message → Prop) :
    LogsSurvive source messages ↔ ∀ m, messages m → Plain m.chars := by
  constructor
  · rintro ⟨hlogged, -⟩ m hm
    exact logged_iff.mp (hlogged m hm)
  · intro h
    refine ⟨fun m hm => logged_iff.mpr (h m hm), fun m m' hm hm' hsame => ?_⟩
    rw [klogStage2_eq, klogStage2_eq] at hsame
    have hbody : klogStringEscapeJson m.chars = klogStringEscapeJson m'.chars :=
      List.append_cancel_left (List.append_cancel_right (Option.some.inj hsame))
    have hread := body_of_plain (h m hm) m.ascii
    rw [hbody] at hread
    have hcodes := hread.unique (body_of_plain (h m' hm') m'.ascii)
    exact List.map_injective_iff.mpr (fun _ _ => UInt8.toNat_inj.mp) hcodes

/-- A call from `main.c`. -/
def mainSource : Source where
  level := 0
  fileName := text "main.c"
  functionName := text "main"
  lineNumber := 1
  fits := by decide

/-- A newline, and the two characters of its escape. -/
def newlineMessages : Message × Message :=
  (⟨[newline], by decide, by simp [newline]⟩, ⟨[backslash, 110], by decide, by simp [backslash]⟩)

theorem same_record :
    newlineMessages.1.chars ≠ newlineMessages.2.chars ∧
      klogStage2 mainSource newlineMessages.1 = klogStage2 mainSource newlineMessages.2 ∧
      ¬ Logged mainSource newlineMessages.2 ∧ ¬ LogsSurvive mainSource fun _ => True := by
  have hsame :
      klogStage2 mainSource newlineMessages.1 = klogStage2 mainSource newlineMessages.2 := by
    rw [klogStage2_eq, klogStage2_eq]
    rfl
  have hne : newlineMessages.1.chars ≠ newlineMessages.2.chars := by decide
  refine ⟨hne, hsame, fun h => ?_, fun h => hne (h.2 _ _ trivial trivial hsame)⟩
  exact (logged_iff.mp h backslash (by decide)).1 rfl

end VersionSix.Klog
