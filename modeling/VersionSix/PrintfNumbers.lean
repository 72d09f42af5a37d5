import Mathlib.Data.Nat.Digits.Defs
import VersionSix.PrintfText

/-!
# The numbers that are printed

A number without `#` is printed as spaces, a sign, zeros, digits and spaces
(`ntoaText_layout`), so it can be read back. That gives the number itself, but
for two cases: 32 characters have no place for all binary digits of a `long`
(`unsigned_reads_back`), and none for the sign behind as many zeros
(`signed_reads_back_iff`).

The digits come out last one first, as the loop finds them, and are turned
round when the buffer is printed. Reading is a function of the text alone
(`readNumber`), with spaces anywhere and a sign, in the base of the specifier;
precision, width and flags change the layout and not the number.

`_atoi` is the reader that the code has, and a weaker one: it takes digits and
nothing in front of them. It reads back what `%u` prints if no blank goes
before it (`atoi_unsigned_iff`).
-/

namespace VersionSix.Printf

variable {D : Type} {flags : Flags} {base prec width value : Nat} {negative : Bool}

/-! ## Digits -/

/-- The digits that the loop finds, the last one first. -/
def digitsOf (base : Nat) : Nat → Nat → List Nat
  | 0, _ => []
  | n + 1, value => value % base :: if value / base ≠ 0 then digitsOf base n (value / base) else []

theorem ntoaDigits_eq (uppercase : Bool) (n : Nat) :
    ntoaDigits uppercase base n value = (digitsOf base n value).map (digitChar uppercase) := by
  induction n generalizing value with
  | zero => rfl
  | succ n ih =>
      rw [ntoaDigits, digitsOf, List.map_cons]
      split
      · rw [ih]
      · rfl

theorem ofDigits_digitsOf (hbase : 2 ≤ base) (n : Nat) :
    Nat.ofDigits base (digitsOf base n value) = value % base ^ n := by
  induction n generalizing value with
  | zero => simp [digitsOf, Nat.mod_one]
  | succ n ih =>
      rw [digitsOf, Nat.ofDigits_cons]
      split
      · rw [ih, pow_succ', Nat.mod_mul]
      · next hlast =>
          have hlt : value < base := (Nat.div_eq_zero_iff_lt (by omega)).mp (not_not.mp hlast)
          have hpow : base ≤ base ^ (n + 1) := Nat.le_self_pow (Nat.succ_ne_zero n) base
          rw [Nat.ofDigits_nil, mul_zero, add_zero, Nat.mod_eq_of_lt hlt,
            Nat.mod_eq_of_lt (by omega)]

theorem digitsOf_lt (hbase : 2 ≤ base) (n : Nat) : ∀ d ∈ digitsOf base n value, d < base := by
  induction n generalizing value with
  | zero => simp [digitsOf]
  | succ n ih =>
      rw [digitsOf]
      intro d hd
      rcases List.mem_cons.mp hd with rfl | hd
      · exact Nat.mod_lt _ (by omega)
      · split at hd
        · exact ih d hd
        · cases hd

theorem length_digitsOf (n : Nat) : (digitsOf base n value).length ≤ n := by
  induction n generalizing value with
  | zero => exact Nat.le_refl 0
  | succ n ih =>
      rw [digitsOf, List.length_cons]
      split
      · exact Nat.succ_le_succ ih
      · simp

/-! ## Layout -/

theorem length_zeros (n : Nat) (buf : List UInt8) :
    (zeros n buf).length = max buf.length (min n ntoaBufferSize) := by
  unfold zeros
  simp only [List.length_append, List.length_replicate]
  omega

/-- Whether the zeros leave a place for the sign. -/
def SignFits (negative : Bool) (prec width : Nat) (flags : Flags) : Prop :=
  flags.left = true ∨ (prec < ntoaBufferSize ∧
    (flags.zeropad = true → ntoaWidth negative width flags < ntoaBufferSize))

instance : Decidable (SignFits negative prec width flags) := inferInstanceAs (Decidable (_ ∨ _))

/-- `buf` with the zeros, for a width that is one less if there is a sign. -/
def zeroed (buf : List UInt8) (prec width : Nat) (flags : Flags) : List UInt8 :=
  let buf := if !flags.left then zeros prec buf else buf
  if !flags.left ∧ flags.zeropad then zeros width buf else buf

theorem zeroed_eq (buf : List UInt8) (prec width : Nat) (flags : Flags) :
    ∃ k, zeroed buf prec width flags = buf ++ List.replicate k (chr '0') := by
  unfold zeroed
  by_cases hleft : flags.left = true
  · exact ⟨0, by simp [hleft]⟩
  by_cases hzero : flags.zeropad = true
  · refine ⟨(min prec ntoaBufferSize - buf.length) +
      (min width ntoaBufferSize - (zeros prec buf).length), ?_⟩
    simp only [hleft, hzero, Bool.not_false, and_self, if_true]
    rw [List.replicate_add, ← List.append_assoc]
    rfl
  · refine ⟨min prec ntoaBufferSize - buf.length, ?_⟩
    simp only [hleft, hzero, Bool.not_false, if_true, and_false, Bool.false_eq_true, if_false]
    rfl

theorem length_zeroed_lt (negative : Bool) (prec width : Nat) (flags : Flags) (buf : List UInt8) :
    (zeroed buf prec (ntoaWidth negative width flags) flags).length < ntoaBufferSize ↔
      buf.length < ntoaBufferSize ∧ SignFits negative prec width flags := by
  unfold zeroed SignFits
  by_cases hleft : flags.left = true
  · simp [hleft]
  by_cases hzero : flags.zeropad = true
  · simp only [hleft, hzero, Bool.not_false, and_self, if_true, length_zeros, Bool.false_eq_true,
      false_or, forall_const]
    omega
  · simp only [hleft, hzero, Bool.not_false, if_true, and_false, Bool.false_eq_true, if_false,
      length_zeros, false_or, false_imp_iff, and_true]
    omega

theorem ntoaBuf_layout (negative : Bool) (base prec width : Nat) (hhash : flags.hash = false)
    (buf : List UInt8) : ∃ k,
    ntoaBuf buf negative base prec (ntoaWidth negative width flags) flags
      = buf ++ List.replicate k (chr '0') ++
        if buf.length < ntoaBufferSize ∧ SignFits negative prec width flags then sign negative flags
        else [] := by
  obtain ⟨k, hk⟩ := zeroed_eq buf prec (ntoaWidth negative width flags) flags
  refine ⟨k, ?_⟩
  have hlt := length_zeroed_lt negative prec width flags buf
  unfold ntoaBuf
  simp only [hhash, Bool.false_eq_true, if_false]
  change (if (zeroed buf prec (ntoaWidth negative width flags) flags).length < ntoaBufferSize then
    zeroed buf prec (ntoaWidth negative width flags) flags ++ sign negative flags
      else zeroed buf prec (ntoaWidth negative width flags) flags) = _
  rw [hk] at hlt ⊢
  by_cases hfits : buf.length < ntoaBufferSize ∧ SignFits negative prec width flags
  · rw [if_pos hfits, if_pos (hlt.mpr hfits)]
  · rw [if_neg hfits, if_neg (mt hlt.mp hfits), List.append_nil]

/-- The digits of a number. With a precision, there are none for 0. -/
def numeral (value base : Nat) (flags : Flags) : List UInt8 :=
  if !flags.precision ∨ value ≠ 0 then ntoaDigits flags.uppercase base ntoaBufferSize value else []

theorem reverse_sign : (sign negative flags).reverse = sign negative flags := by
  unfold sign
  split_ifs <;> rfl

/-- Blanks in front only on the right-hand side, and only as many as are missing. -/
theorem justified_layout (left : Bool) (width l : Nat) (cs : List UInt8) : ∃ b,
    justified left width l cs
      = List.replicate (if left then 0 else width - l) (chr ' ') ++ cs ++
        List.replicate b (chr ' ') := by
  unfold justified
  split
  · exact ⟨width - l, by rw [List.replicate_zero, List.nil_append]⟩
  · exact ⟨0, by rw [List.replicate_zero, List.append_nil]⟩

def blanks (buf : List UInt8) (negative : Bool) (base prec width : Nat) (flags : Flags) : Nat :=
  if flags.left ∨ flags.zeropad then 0
  else width - (ntoaBuf buf negative base prec width flags).length

theorem ntoaText_layout (value : Nat) (negative : Bool) (base prec width : Nat)
    (hhash : flags.hash = false) : ∃ b k,
    ntoaText value negative base prec width flags
      = List.replicate (blanks (numeral value base flags) negative base prec width flags)
          (chr ' ') ++
        ((if (numeral value base flags).length < ntoaBufferSize ∧
            SignFits negative prec width flags then sign negative flags else []) ++
          (List.replicate k (chr '0') ++ (numeral value base flags).reverse)) ++
        List.replicate b (chr ' ') := by
  obtain ⟨k, hk⟩ := ntoaBuf_layout negative base prec width hhash (numeral value base flags)
  have hsame : (if value = 0 then { flags with hash := false } else flags) = flags := by
    split
    · rw [← hhash]
    · rfl
  have hreverse : (ntoaBuf (numeral value base flags) negative base prec
      (ntoaWidth negative width flags) flags).reverse =
        (if (numeral value base flags).length < ntoaBufferSize ∧
            SignFits negative prec width flags then sign negative flags else []) ++
          (List.replicate k (chr '0') ++ (numeral value base flags).reverse) := by
    rw [hk, List.reverse_append, List.reverse_append, List.reverse_replicate]
    split
    · rw [reverse_sign]
    · rfl
  unfold ntoaText blanks
  simp only [hsame]
  rw [← numeral, outRevText, hreverse]
  by_cases hzero : (!flags.left && flags.zeropad) = true
  · simp only [Bool.and_eq_true, Bool.not_eq_true'] at hzero
    refine ⟨0, k, ?_⟩
    simp only [hzero, Bool.not_false, Bool.and_self, if_true, or_true, List.replicate_zero,
      List.nil_append, List.append_nil]
  · obtain ⟨b, h⟩ := justified_layout flags.left (ntoaWidth negative width flags)
      (ntoaBuf (numeral value base flags) negative base prec (ntoaWidth negative width flags)
        flags).length ((if (numeral value base flags).length < ntoaBufferSize ∧
          SignFits negative prec width flags then sign negative flags else []) ++
            (List.replicate k (chr '0') ++ (numeral value base flags).reverse))
    refine ⟨b, k, ?_⟩
    rw [if_neg hzero, h]
    cases hleft : flags.left
    · have hpad : flags.zeropad = false := by simpa [hleft] using hzero
      have hwidth : ntoaWidth negative width flags = width := by
        unfold ntoaWidth
        simp [hpad]
      simp only [hpad, hwidth, Bool.false_eq_true, or_self, if_false]
    · simp

/-! ## Reading back -/

def digitValue (c : UInt8) : Nat :=
  if isDigit c then c.toNat - 48 else if c ≤ chr 'Z' then c.toNat - 55 else c.toNat - 87

def readDigits (base : Nat) (cs : List UInt8) : Nat :=
  cs.foldl (fun n c => base * n + digitValue c) 0

def readSigned (base : Nat) : List UInt8 → Int
  | [] => 0
  | c :: ds =>
      if c = chr '-' then -(readDigits base ds : Int)
      else if c = chr '+' then readDigits base ds
      else readDigits base (c :: ds)

/-- What a text says that is a number, with spaces anywhere and perhaps a sign. -/
def readNumber (base : Nat) (cs : List UInt8) : Int := readSigned base (cs.filter (· ≠ chr ' '))

theorem digitChar_spec : ∀ uppercase : Bool, ∀ d < 16,
    digitValue (digitChar uppercase d) = d ∧ digitChar uppercase d ≠ chr ' ' ∧
      digitChar uppercase d ≠ chr '-' ∧ digitChar uppercase d ≠ chr '+' := by
  decide

theorem readDigits_reverse (hbase : base ≤ 16) (uppercase : Bool) {ds : List Nat}
    (hds : ∀ d ∈ ds, d < base) :
    readDigits base (ds.map (digitChar uppercase)).reverse = Nat.ofDigits base ds := by
  unfold readDigits
  rw [List.foldl_reverse]
  induction ds with
  | nil => rfl
  | cons d ds ih =>
      have hd := hds d List.mem_cons_self
      rw [List.map_cons, List.foldr_cons, ih fun e he => hds e (List.mem_cons_of_mem d he),
        (digitChar_spec uppercase d (by omega)).1, Nat.ofDigits_cons, Nat.add_comm]

theorem numeral_eq (value base : Nat) (flags : Flags) : ∃ ds,
    numeral value base flags = ds.map (digitChar flags.uppercase) ∧
    ds.length ≤ ntoaBufferSize ∧ (2 ≤ base → (∀ d ∈ ds, d < base) ∧
      Nat.ofDigits base ds = value % base ^ ntoaBufferSize) := by
  unfold numeral
  split
  · exact ⟨digitsOf base ntoaBufferSize value, ntoaDigits_eq .., length_digitsOf ..,
      fun hbase => ⟨digitsOf_lt hbase _, ofDigits_digitsOf hbase _⟩⟩
  · next hnone =>
      have hzero : value = 0 := by
        by_contra hne
        exact hnone (.inr hne)
      exact ⟨[], rfl, Nat.zero_le _, fun _ => ⟨by simp, by rw [hzero, Nat.zero_mod]; rfl⟩⟩

theorem zeros_numeral_eq (value : Nat) (flags : Flags) (hlow : 2 ≤ base) (hhigh : base ≤ 16)
    (k : Nat) : ∃ ds,
    List.replicate k (chr '0') ++ (numeral value base flags).reverse
        = (ds.map (digitChar flags.uppercase)).reverse ∧
      (∀ d ∈ ds, d < base) ∧ Nat.ofDigits base ds = value % base ^ ntoaBufferSize := by
  obtain ⟨ds, hds, -, hspec⟩ := numeral_eq value base flags
  obtain ⟨hlt, hvalue⟩ := hspec hlow
  refine ⟨ds ++ List.replicate k 0, ?_, fun d hd => ?_, ?_⟩
  · rw [hds, List.map_append, List.reverse_append, List.map_replicate, List.reverse_replicate]
    rfl
  · rcases List.mem_append.mp hd with hd | hd
    · exact hlt d hd
    · rw [List.eq_of_mem_replicate hd]
      omega
  · rw [Nat.ofDigits_append_replicate_zero, hvalue]

theorem filter_digits (uppercase : Bool) (hbase : base ≤ 16) {ds : List Nat}
    (hds : ∀ d ∈ ds, d < base) : ∀ c ∈ (ds.map (digitChar uppercase)).reverse,
      c ≠ chr ' ' ∧ c ≠ chr '-' ∧ c ≠ chr '+' := by
  intro c hc
  obtain ⟨d, hd, rfl⟩ := List.mem_map.mp (List.mem_reverse.mp hc)
  exact (digitChar_spec uppercase d ((hds d hd).trans_le hbase)).2

theorem readNumber_text {cs pre : List UInt8} (a b : Nat)
    (hpre : pre = [] ∨ pre = [chr '-'] ∨ pre = [chr '+'] ∨ pre = [chr ' '])
    (hcs : ∀ c ∈ cs, c ≠ chr ' ' ∧ c ≠ chr '-' ∧ c ≠ chr '+') :
    readNumber base (List.replicate a (chr ' ') ++ (pre ++ cs) ++ List.replicate b (chr ' '))
      = if pre = [chr '-'] then -(readDigits base cs : Int) else readDigits base cs := by
  have hspaces (n : Nat) : (List.replicate n (chr ' ')).filter (· ≠ chr ' ') = [] := by
    simp
  have hdigits : cs.filter (· ≠ chr ' ') = cs :=
    List.filter_eq_self.mpr fun c hc => decide_eq_true (hcs c hc).1
  have hplain : readSigned base cs = readDigits base cs := by
    rcases cs with _ | ⟨c, cs⟩
    · rfl
    · obtain ⟨-, hminus, hplus⟩ := hcs c List.mem_cons_self
      rw [readSigned, if_neg hminus, if_neg hplus]
  unfold readNumber
  rw [List.filter_append, List.filter_append, List.filter_append, hspaces, hspaces, hdigits,
    List.nil_append, List.append_nil]
  rcases hpre with rfl | rfl | rfl | rfl
  · exact hplain
  · rfl
  · rfl
  · exact hplain

theorem sign_cases (negative : Bool) (flags : Flags) : sign negative flags = [] ∨
    sign negative flags = [chr '-'] ∨ sign negative flags = [chr '+'] ∨
      sign negative flags = [chr ' '] := by
  unfold sign
  split_ifs <;> simp

theorem sign_eq_minus : sign negative flags = [chr '-'] ↔ negative = true := by
  unfold sign
  split_ifs with h
  · simp [h]
  all_goals
    refine iff_of_false ?_ h
    decide

theorem readNumber_ntoaText (hhash : flags.hash = false) (hlow : 2 ≤ base) (hhigh : base ≤ 16) :
    readNumber base (ntoaText value negative base prec width flags)
      = if negative = true ∧ (numeral value base flags).length < ntoaBufferSize ∧
          SignFits negative prec width flags then -((value % base ^ ntoaBufferSize : Nat) : Int)
        else (value % base ^ ntoaBufferSize : Nat) := by
  obtain ⟨b, k, hlayout⟩ := ntoaText_layout value negative base prec width hhash
  obtain ⟨ds, hds, hlt, hvalue⟩ := zeros_numeral_eq value flags hlow hhigh k
  rw [hlayout, hds, readNumber_text _ b _ (filter_digits flags.uppercase hhigh hlt),
    readDigits_reverse hhigh _ hlt, hvalue]
  · by_cases hfits : (numeral value base flags).length < ntoaBufferSize ∧
        SignFits negative prec width flags
    · rw [if_pos hfits]
      simp only [sign_eq_minus, hfits, and_true]
    · rw [if_neg hfits, if_neg (by simp), if_neg (fun h => hfits h.2)]
  · split
    · exact sign_cases negative flags
    · exact .inl rfl

/-! ## Specifiers -/

theorem baseOf_bounds (c : UInt8) : 2 ≤ baseOf c ∧ baseOf c ≤ 16 := by
  unfold baseOf
  split_ifs <;> decide

theorem integerFlags_eq (c : UInt8) (flags : Flags) : integerFlags c flags =
    { flags with
      zeropad := flags.zeropad && !flags.precision
      hash := flags.hash && baseOf c ≠ 10
      uppercase := flags.uppercase || c = chr 'X'
      plus := flags.plus && isSigned c
      space := flags.space && isSigned c } := by
  obtain ⟨zeropad, left, plus, space, hash, uppercase, char, short, long, longLong, precision,
    adaptExp⟩ := flags
  unfold integerFlags
  generalize isSigned c = signed
  generalize baseOf c = base
  cases precision <;> cases signed <;> split_ifs <;> simp_all

theorem integerFlags_hash {c : UInt8} (h : flags.hash = false ∨ baseOf c = 10) :
    (integerFlags c flags).hash = false := by
  rw [integerFlags_eq]
  rcases h with h | h <;> simp [h]

theorem unsignedValue_integerFlags (c : UInt8) (flags : Flags) (w : BitVec 64) :
    unsignedValue (integerFlags c flags) w = unsignedValue flags w := by
  rw [integerFlags_eq]
  rfl

theorem signedValue_integerFlags (c : UInt8) (flags : Flags) (w : BitVec 64) :
    signedValue (integerFlags c flags) w = signedValue flags w := by
  rw [integerFlags_eq]
  rfl

/-- **Unsigned numbers**: without `#`, what is printed reads back as the argument, as far as
32 digits can say it. -/
theorem unsigned_reads_back {c : UInt8} (hc : isSigned c = false)
    (hhash : flags.hash = false ∨ baseOf c = 10) (width precision : Nat) (w : BitVec 64) :
    readNumber (baseOf c) (integerText c flags width precision w)
      = (unsignedValue flags w % baseOf c ^ 32 : Nat) := by
  unfold integerText
  simp only [hc, Bool.false_eq_true, if_false, unsignedValue_integerFlags]
  rw [readNumber_ntoaText (integerFlags_hash hhash) (baseOf_bounds c).1 (baseOf_bounds c).2,
    if_neg (by simp)]
  rfl

theorem length_digitsOf_le {n k : Nat} (hbase : 2 ≤ base) (hk : 1 ≤ k) (hlt : value < base ^ k) :
    (digitsOf base n value).length ≤ k := by
  induction n generalizing k value with
  | zero => exact Nat.zero_le k
  | succ n ih =>
      obtain ⟨k, rfl⟩ := Nat.exists_eq_add_of_le' hk
      rw [digitsOf, List.length_cons]
      split
      · next hmore =>
          have hdiv : value / base < base ^ k := by
            rw [Nat.div_lt_iff_lt_mul (by omega), ← pow_succ]
            exact hlt
          have hpos : 1 ≤ k := by
            by_contra hzero
            obtain rfl : k = 0 := by omega
            exact hmore (Nat.lt_one_iff.mp hdiv)
          exact Nat.succ_le_succ (ih hpos hdiv)
      · exact Nat.succ_le_succ (Nat.zero_le k)

theorem length_numeral_le (flags : Flags) (hlt : value < 10 ^ 20) :
    (numeral value 10 flags).length ≤ 20 := by
  unfold numeral
  split
  · rw [ntoaDigits_eq, List.length_map]
    exact length_digitsOf_le (by decide) (by decide) hlt
  · exact Nat.zero_le _

theorem toInt_bounds {k : Nat} (w : BitVec k) (hk : k ≤ 64) :
    -2 ^ 63 ≤ w.toInt ∧ w.toInt < 2 ^ 63 := by
  have hlow := w.le_toInt
  have hhigh := w.toInt_lt
  have hpow : (2 : Int) ^ (k - 1) ≤ 2 ^ 63 := pow_le_pow_right₀ (by decide) (by omega)
  omega

theorem signedValue_bounds (flags : Flags) (w : BitVec 64) :
    -2 ^ 63 ≤ signedValue flags w ∧ signedValue flags w < 2 ^ 63 := by
  unfold signedValue
  split_ifs
  · exact toInt_bounds w (Nat.le_refl 64)
  · exact toInt_bounds _ (by decide)
  · exact toInt_bounds _ (by decide)
  · exact toInt_bounds _ (by decide)

theorem signFits_iff {c : UInt8} : SignFits true prec width (integerFlags c flags) ↔
    flags.left = true ∨ (prec < 32 ∧
      (flags.zeropad = true → flags.precision = false → width ≤ 32)) := by
  rw [integerFlags_eq]
  unfold SignFits ntoaWidth ntoaBufferSize
  by_cases hleft : flags.left = true
  · simp [hleft]
  by_cases hzero : flags.zeropad = true ∧ flags.precision = false
  · simp only [hleft, hzero.1, hzero.2, Bool.not_false, Bool.and_true, true_or, and_true,
      true_and, forall_const, false_or, Bool.false_eq_true]
    split <;> omega
  · have hpadded : (flags.zeropad && !flags.precision) = false := by
      cases hz : flags.zeropad
      · rfl
      · cases hp : flags.precision
        · exact absurd ⟨hz, hp⟩ hzero
        · rfl
    simp only [hpadded, Bool.false_eq_true, false_imp_iff, and_true, hleft, false_or]
    exact ⟨fun h => ⟨h, fun hz hp => absurd ⟨hz, hp⟩ hzero⟩, fun h => h.1⟩

/-- **Signed numbers**: what is printed reads back as the argument if and only if that is
not negative, or there is a place for the sign in front of the zeros. -/
theorem signed_reads_back_iff {c : UInt8} (hc : isSigned c = true) (flags : Flags)
    (width precision : Nat) (w : BitVec 64) :
    readNumber 10 (integerText c flags width precision w) = signedValue flags w ↔
      0 ≤ signedValue flags w ∨ flags.left = true ∨ (precision < 32 ∧
        (flags.zeropad = true → flags.precision = false → width ≤ 32)) := by
  have hbase : baseOf c = 10 := by
    unfold isSigned at hc
    rcases Bool.or_eq_true_iff.mp hc with h | h <;> rw [of_decide_eq_true h] <;> rfl
  obtain ⟨hlow, hhigh⟩ := signedValue_bounds flags w
  have habs : (signedValue flags w).natAbs < 10 ^ 20 := by omega
  have hlength := length_numeral_le (integerFlags c flags) habs
  rw [← signFits_iff (c := c)]
  unfold integerText
  simp only [hc, if_true, signedValue_integerFlags]
  rw [hbase, readNumber_ntoaText (integerFlags_hash (.inr hbase)) (by decide) (by decide),
    Nat.mod_eq_of_lt (show _ < 10 ^ ntoaBufferSize from habs.trans (by decide))]
  have hfits : (numeral (signedValue flags w).natAbs 10 (integerFlags c flags)).length
      < ntoaBufferSize := hlength.trans_lt (by decide)
  by_cases hneg : signedValue flags w < 0
  · by_cases hsign : SignFits true precision width (integerFlags c flags)
    · simp only [hneg, decide_true, hfits, hsign, and_self, if_true, or_true, iff_true]
      omega
    · simp only [hneg, decide_true, hfits, hsign, and_false, if_false, or_false]
      omega
  · simp only [hneg, decide_false, Bool.false_eq_true, false_and, if_false]
    exact iff_of_true (by omega) (.inl (by omega))

/-! ## `_atoi` -/

theorem isDigit_digitChar : ∀ d < 10, isDigit (digitChar false d) = true ∧
    (digitChar false d).toNat - (chr '0').toNat = d ∧ digitChar true d = digitChar false d := by
  decide

/-- Nothing that `_atoi` would read. -/
def Stops (rest : List UInt8) : Prop := ∀ i, atoiFrom i rest = (i, rest)

theorem stops_spaces (b : Nat) : Stops (List.replicate b (chr ' ')) := by
  intro i
  cases b <;> rfl

theorem stops_cons {c : UInt8} (hc : isDigit c = false) (rest : List UInt8) :
    Stops (c :: rest) := by
  intro i
  rw [atoiFrom, if_neg (by simp [hc])]

theorem atoiFrom_digits {ds : List Nat} {rest : List UInt8} (hds : ∀ d ∈ ds, d < 10)
    (hrest : Stops rest) (i : Nat) : atoiFrom (i % 2 ^ 32) (ds.map (digitChar false) ++ rest)
      = (ds.foldl (fun n d => 10 * n + d) i % 2 ^ 32, rest) := by
  induction ds generalizing i with
  | nil => exact hrest _
  | cons d ds ih =>
      obtain ⟨hdigit, hvalue, -⟩ := isDigit_digitChar d (hds d List.mem_cons_self)
      have hnext : (i % 2 ^ 32 * 10 + d) % 2 ^ 32 = (10 * i + d) % 2 ^ 32 := by omega
      rw [List.map_cons, List.cons_append, atoiFrom, if_pos hdigit, hvalue, hnext,
        ih fun e he => hds e (List.mem_cons_of_mem d he)]
      rfl

theorem atoi_digits {ds : List Nat} {rest : List UInt8} (uppercase : Bool)
    (hds : ∀ d ∈ ds, d < 10) (hrest : Stops rest) :
    atoi ((ds.map (digitChar uppercase)).reverse ++ rest)
      = (Nat.ofDigits 10 ds % 2 ^ 32, rest) := by
  have hmap : ds.map (digitChar uppercase) = ds.map (digitChar false) := by
    cases uppercase
    · rfl
    · exact List.map_congr_left fun d hd => (isDigit_digitChar d (hds d hd)).2.2
  have hvalue : ds.reverse.foldl (fun n d => 10 * n + d) 0 = Nat.ofDigits 10 ds := by
    rw [List.foldl_reverse, Nat.ofDigits_eq_foldr]
    congr 1
    funext d n
    exact Nat.add_comm ..
  rw [hmap, ← List.map_reverse, ← hvalue]
  exact atoiFrom_digits (fun d hd => hds d (List.mem_reverse.mp hd)) hrest 0

theorem unsignedValue_lt (flags : Flags) (w : BitVec 64) : unsignedValue flags w < 2 ^ 64 := by
  unfold unsignedValue
  have h := w.isLt
  have h8 := (w.setWidth 8).isLt
  have h16 := (w.setWidth 16).isLt
  have h32 := (w.setWidth 32).isLt
  split_ifs <;> omega

theorem digitsOf_eq_digits {n : Nat} (hbase : 2 ≤ base) (hpos : 0 < value)
    (hlt : value < base ^ n) : digitsOf base n value = Nat.digits base value := by
  induction n generalizing value with
  | zero =>
      rw [pow_zero] at hlt
      omega
  | succ n ih =>
      rw [digitsOf, Nat.digits_def' (by omega) hpos]
      by_cases hmore : value / base = 0
      · rw [hmore, if_neg (fun h => h rfl), Nat.digits_zero]
      · have hdiv : value / base < base ^ n := by
          rw [Nat.div_lt_iff_lt_mul (by omega), ← pow_succ]
          exact hlt
        rw [if_pos hmore, ih (Nat.pos_of_ne_zero hmore) hdiv]

/-- The blanks that `%u` prints in front of the digits. -/
def unsignedBlanks (flags : Flags) (width precision : Nat) (w : BitVec 64) : Nat :=
  blanks (numeral (unsignedValue flags w) 10 (integerFlags (chr 'u') flags)) false 10 precision
    width (integerFlags (chr 'u') flags)

theorem sign_unsigned (flags : Flags) : sign false (integerFlags (chr 'u') flags) = [] := by
  have hs : isSigned (chr 'u') = false := rfl
  rw [integerFlags_eq]
  unfold sign
  simp only [hs, Bool.and_false]
  rfl

theorem unsigned_layout (flags : Flags) (width precision : Nat) (w : BitVec 64) : ∃ b ds,
    integerText (chr 'u') flags width precision w
      = List.replicate (unsignedBlanks flags width precision w) (chr ' ') ++
        ((ds.map (digitChar (integerFlags (chr 'u') flags).uppercase)).reverse ++
        List.replicate b (chr ' ')) ∧
      (∀ d ∈ ds, d < 10) ∧ Nat.ofDigits 10 ds = unsignedValue flags w := by
  have hs : isSigned (chr 'u') = false := rfl
  have hhash : (integerFlags (chr 'u') flags).hash = false := integerFlags_hash (.inr rfl)
  obtain ⟨b, k, hlayout⟩ :=
    ntoaText_layout (unsignedValue flags w) false 10 precision width hhash
  obtain ⟨ds, hds, hlt, hvalue⟩ := zeros_numeral_eq (unsignedValue flags w)
    (integerFlags (chr 'u') flags) (show 2 ≤ 10 by decide) (show 10 ≤ 16 by decide) k
  refine ⟨b, ds, ?_, hlt, ?_⟩
  · rw [sign_unsigned, ite_self, List.nil_append, hds, List.append_assoc] at hlayout
    unfold integerText
    simp only [hs, Bool.false_eq_true, if_false, unsignedValue_integerFlags]
    exact hlayout
  · have hsmall := unsignedValue_lt flags w
    rw [hvalue, Nat.mod_eq_of_lt (hsmall.trans (by decide))]

/-- No blank goes before the digits if they stand at the left, behind zeros, or fill the
width. -/
theorem unsignedBlanks_eq_zero_iff {w : BitVec 64} (hw : unsignedValue flags w ≠ 0) :
    unsignedBlanks flags width prec w = 0 ↔
      flags.left = true ∨ (flags.zeropad = true ∧ flags.precision = false) ∨
        width ≤ max (Nat.digits 10 (unsignedValue flags w)).length (min prec 32) := by
  have hsmall := unsignedValue_lt flags w
  have hlength : (numeral (unsignedValue flags w) 10 (integerFlags (chr 'u') flags)).length
      = (Nat.digits 10 (unsignedValue flags w)).length := by
    unfold numeral
    rw [if_pos (.inr hw), ntoaDigits_eq, List.length_map, digitsOf_eq_digits (by decide)
      (Nat.pos_of_ne_zero hw) (hsmall.trans (by decide))]
  have hleft : (integerFlags (chr 'u') flags).left = flags.left := by rw [integerFlags_eq]
  have hpad : (integerFlags (chr 'u') flags).zeropad = (flags.zeropad && !flags.precision) := by
    rw [integerFlags_eq]
  have hhash : (integerFlags (chr 'u') flags).hash = false := integerFlags_hash (.inr rfl)
  unfold unsignedBlanks blanks ntoaBuf
  simp only [hleft, hpad, hhash, sign_unsigned, List.append_nil, ite_self, Bool.false_eq_true,
    if_false]
  by_cases h₁ : flags.left = true
  · simp [h₁]
  by_cases h₂ : flags.zeropad = true ∧ flags.precision = false
  · simp [h₂]
  have h₃ : (flags.zeropad && !flags.precision) = false := by
    cases hz : flags.zeropad
    · rfl
    · cases hp : flags.precision
      · exact absurd ⟨hz, hp⟩ h₂
      · rfl
  simp only [h₁, h₂, h₃, Bool.not_false, and_false, if_true, if_false, Bool.false_eq_true,
    or_false, false_or, length_zeros, hlength, ntoaBufferSize]
  omega

theorem atoi_unsigned (flags : Flags) (width precision : Nat) (w : BitVec 64) :
    (atoi (integerText (chr 'u') flags width precision w)).1
      = if unsignedBlanks flags width precision w = 0 then unsignedValue flags w % 2 ^ 32
        else 0 := by
  obtain ⟨b, ds, htext, hlt, hvalue⟩ := unsigned_layout flags width precision w
  rw [htext, ← hvalue]
  split
  · next hnone => rw [hnone, List.replicate_zero, List.nil_append,
      atoi_digits _ hlt (stops_spaces b)]
  · next hsome =>
      obtain ⟨n, hn⟩ := Nat.exists_eq_succ_of_ne_zero hsome
      rw [hn, List.replicate_succ]
      rfl

/-- **`_atoi`** reads back what `%u` prints if and only if no blank goes before it, or there
is nothing to read. -/
theorem atoi_unsigned_iff (flags : Flags) (width precision : Nat) (w : BitVec 64) :
    (atoi (integerText (chr 'u') flags width precision w)).1 = unsignedValue flags w % 2 ^ 32 ↔
      unsignedValue flags w % 2 ^ 32 = 0 ∨ flags.left = true ∨
        (flags.zeropad = true ∧ flags.precision = false) ∨
        width ≤ max (Nat.digits 10 (unsignedValue flags w)).length (min precision 32) := by
  rw [atoi_unsigned]
  by_cases hzero : unsignedValue flags w % 2 ^ 32 = 0
  · rw [hzero, ite_self]
    exact iff_of_true rfl (.inl rfl)
  · have hw : unsignedValue flags w ≠ 0 := by
      intro h
      rw [h] at hzero
      exact hzero rfl
    rw [← unsignedBlanks_eq_zero_iff hw]
    split
    · next hnone => simp [hnone]
    · next hsome =>
        refine iff_of_false (Ne.symm hzero) ?_
        rintro (h | h)
        · exact hzero h
        · exact hsome h

end VersionSix.Printf
