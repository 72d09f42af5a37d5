import VersionSix.Printf

/-!
# The text of a format

What is printed does not depend on where it goes: every function of `printf.c`
passes the same characters to `out`, one after the other (`vsnprintfLoop_eq`).
So there is one `text` of a format and its arguments. A buffer gets as much of
it as fits in front of the terminator (`snprintf_eq`), a stream all of it but
the zeros (`printf_eq`), and the result is its length in each case.

The text is a list of characters with the arguments that are left, or nothing
where C does not define it. Every part of the code that puts something out has
such a text of its own (padding, numbers, strings), and a lemma that it appends
it; the loop appends them all.

Formats can be put one behind the other (`prints_append`), if the first one is
complete: a `%` at its end would take its specifier from the second.
-/

namespace VersionSix.Printf

open Emit

variable {σ D : Type} {out : UInt8 → Nat → σ → σ} {s : Sink σ} {floats : Floats D}

/-! ## Texts of the parts -/

/-- Spaces up to a width, on the side that the flag says. -/
def justified (left : Bool) (width l : Nat) (text : List UInt8) : List UInt8 :=
  if left then text ++ List.replicate (width - l) (chr ' ')
  else List.replicate (width - l) (chr ' ') ++ text

def outRevText (buf : List UInt8) (width : Nat) (flags : Flags) : List UInt8 :=
  if !flags.left && flags.zeropad then buf.reverse
  else justified flags.left width buf.length buf.reverse

theorem outRev_eq (buf : List UInt8) (width : Nat) (flags : Flags) :
    outRev out buf width flags s = putAll out (outRevText buf width flags) s := by
  unfold outRev outRevText justified spaces
  cases flags.left
  · cases flags.zeropad
    · simp [putAll_append]
    · simp
  · simp [putAll_append]

def ntoaText (value : Nat) (negative : Bool) (base prec width : Nat) (flags : Flags) :
    List UInt8 :=
  let flags := if value = 0 then { flags with hash := false } else flags
  let buf :=
    if !flags.precision ∨ value ≠ 0 then ntoaDigits flags.uppercase base ntoaBufferSize value
    else []
  let width := ntoaWidth negative width flags
  outRevText (ntoaBuf buf negative base prec width flags) width flags

theorem ntoaLong_eq (value : Nat) (negative : Bool) (base prec width : Nat) (flags : Flags) :
    ntoaLong out value negative base prec width flags s
      = putAll out (ntoaText value negative base prec width flags) s :=
  outRev_eq ..

def integerText (c : UInt8) (flags : Flags) (width precision : Nat) (w : BitVec 64) :
    List UInt8 :=
  let flags := integerFlags c flags
  if isSigned c then
    ntoaText (signedValue flags w).natAbs (signedValue flags w < 0) (baseOf c) precision width flags
  else ntoaText (unsignedValue flags w) false (baseOf c) precision width flags

theorem convertInteger_eq (c : UInt8) (flags : Flags) (width precision : Nat) (w : BitVec 64) :
    convertInteger out c flags width precision w s
      = putAll out (integerText c flags width precision w) s := by
  unfold convertInteger integerText ntoaLongLong
  simp only [ntoaLong_eq, ite_self]
  split <;> rfl

theorem padded_eq (flags : Flags) (width l : Nat) (cs : List UInt8) :
    padded out flags width l cs s = putAll out (justified flags.left width l cs) s := by
  unfold padded justified spaces
  cases flags.left <;> simp [putAll_append]

def stringText (flags : Flags) (width precision : Nat) (p : List UInt8) : List UInt8 :=
  let l := strnlenS p (if precision ≠ 0 then precision else 2 ^ 64 - 1)
  let l := if flags.precision then min l precision else l
  justified flags.left width l (if flags.precision then p.take precision else p)

theorem convertString_eq (flags : Flags) (width precision : Nat) (p : List UInt8) :
    convertString out flags width precision p s
      = putAll out (stringText flags width precision p) s :=
  padded_eq ..

/-! ## The text of a format -/

def Same {γ : Type} (x : Option (Sink σ × γ)) (y : Option (Sink (List UInt8) × γ))
    (out : UInt8 → Nat → σ → σ) (s : Sink σ) : Prop :=
  x = y.map fun (z, r) => (putAll out z.state s, r)

theorem Same.map {γ δ : Type} {va : Option (γ × δ)} {f : ∀ {σ : Type}, (UInt8 → Nat → σ → σ) →
    γ → Sink σ → Sink σ} {cs : γ → List UInt8}
    (hf : ∀ {σ : Type} (out : UInt8 → Nat → σ → σ) c (s : Sink σ),
      f out c s = putAll out (cs c) s) :
    Same (va.map fun (c, r) => (f out c s, r)) (va.map fun (c, r) => (f collect c ⟨0, []⟩, r))
      out s := by
  unfold Same
  rw [Option.map_map]
  congr 1
  funext x
  simp only [Function.comp_apply, hf, state_collect, List.nil_append]

theorem specifier_same (out : UInt8 → Nat → σ → σ) (s : Sink σ) (c : UInt8) (f : Fields D) :
    Same (specifier out floats c f s) (specifier collect floats c f ⟨0, []⟩) out s := by
  unfold specifier
  split
  · exact Same.map (f := fun out w s => convertInteger out c f.flags f.width f.precision w s)
      fun out w s => convertInteger_eq ..
  split
  · exact Same.map (f := fun out d s => putAll out (floats.ftoa d f.precision f.width _) s)
      fun out d s => rfl
  split
  · exact Same.map (f := fun out d s => putAll out (floats.etoa d f.precision f.width _) s)
      fun out d s => rfl
  split
  · exact Same.map (f := fun out w s => padded out f.flags f.width 1
      [UInt8.ofBitVec (BitVec.setWidth 8 w)] s) fun out w s => padded_eq ..
  split
  · exact Same.map (f := fun out p s => convertString out f.flags f.width f.precision p s)
      fun out p s => convertString_eq ..
  split
  · exact Same.map
      (f := fun out w s => ntoaLongLong out (BitVec.toNat w) false 16 f.precision 16 _ s)
      fun out w s => ntoaLong_eq ..
  · rfl

theorem specification_same (out : UInt8 → Nat → σ → σ) (s : Sink σ) (format : List UInt8)
    (va : List (Arg D)) :
    Same (specification out floats format va s)
      (specification collect floats format va ⟨0, []⟩) out s := by
  unfold Same specification
  simp only [Option.bind_eq_bind]
  generalize evaluateWidth _ = x
  rcases x with _ | f
  · rfl
  rw [Option.bind_some, Option.bind_some]
  generalize evaluatePrecision f = x
  rcases x with _ | f
  · rfl
  rw [Option.bind_some, Option.bind_some]
  generalize evaluateLength f = f
  rcases f.format with _ | ⟨c, format⟩
  · rfl
  simp only
  rw [specifier_same out s c f]
  rcases specifier collect floats c f ⟨0, []⟩ with _ | ⟨z, va⟩ <;> rfl

theorem vsnprintfLoop_eq (out : UInt8 → Nat → σ → σ) (s : Sink σ) (n : Nat)
    (format : List UInt8) (va : List (Arg D)) :
    Same (vsnprintfLoop out floats n format va s)
      (vsnprintfLoop collect floats n format va ⟨0, []⟩) out s := by
  unfold Same
  induction n generalizing format va σ out s with
  | zero => cases format <;> rfl
  | succ n ih =>
      rcases format with _ | ⟨c, format⟩
      · rfl
      rw [vsnprintfLoop, vsnprintfLoop]
      split
      · rw [ih, ih collect (put collect c _), Option.map_map]
        congr 1
        funext ⟨z, va⟩
        simp only [Function.comp_apply, state_collect]
        rfl
      · rw [specification_same out]
        rcases specification collect floats format va ⟨0, []⟩ with _ | ⟨y, format, va⟩
        · rfl
        simp only [Option.bind_eq_bind, Option.map_some, Option.bind_some]
        rw [ih, ih collect y, Option.map_map]
        congr 1
        funext ⟨z, va⟩
        simp only [Function.comp_apply, state_collect, putAll_append]

/-- What a format prints with some arguments, and the arguments that it leaves. -/
def prints (floats : Floats D) (format : List UInt8) (va : List (Arg D)) :
    Option (List UInt8 × List (Arg D)) :=
  (vsnprintfLoop collect floats format.length format va ⟨0, []⟩).map fun (z, va) => (z.state, va)

def text (floats : Floats D) (format : List UInt8) (va : List (Arg D)) : Option (List UInt8) :=
  (prints floats format va).map Prod.fst

theorem vsnprintf_eq (maxlen : Nat) (format : List UInt8) (va : List (Arg D)) (t : σ) :
    vsnprintf out floats maxlen format va t = (text floats format va).map fun cs =>
      (out 0 (if cs.length < maxlen then cs.length else CInt.uint64 ((maxlen : Int) - 1))
        (putAll out cs ⟨0, t⟩).state, CInt.int32 cs.length) := by
  unfold vsnprintf text prints
  rw [vsnprintfLoop_eq out, Option.map_map, Option.map_map, Option.map_map]
  congr 1
  funext ⟨z, va⟩
  simp only [Function.comp_apply, idx_putAll, Nat.zero_add]

/-! ## Where it goes -/

/-- What is left of a text in a buffer of a size: a terminated string, if it is not 0. -/
def stored (count : Nat) (cs : List UInt8) : List UInt8 :=
  if count = 0 then [] else cs.take (count - 1) ++ [0]

theorem bounded_stored {buffer count : Nat} (hcount : count < 2 ^ 64) (cs : List UInt8)
    (m : ByteStore.Bytes) :
    bounded count buffer 0 (if cs.length < count then cs.length
        else CInt.uint64 ((count : Int) - 1)) (putAll (bounded count buffer) cs ⟨0, m⟩).state
      = written buffer (stored count cs) m := by
  rw [state_bounded]
  unfold stored bounded
  rcases Nat.eq_zero_or_pos count with rfl | hpos
  · simp [written_nil]
  simp only [Nat.add_zero, Nat.sub_zero, if_neg (show count ≠ 0 by omega)]
  have hidx : (if cs.length < count then cs.length else CInt.uint64 ((count : Int) - 1))
      = min cs.length (count - 1) := by
    have hlast : CInt.uint64 ((count : Int) - 1) = count - 1 := by
      rw [show (count : Int) - 1 = (count - 1 : Nat) by omega, CInt.uint64_natCast (by omega)]
    rw [hlast]
    split <;> omega
  rw [hidx, if_pos (by omega), written_set (by simp) (by simp; omega), List.take_take]
  congr 2
  exact List.take_eq_take_iff.mpr (by omega)

/-- **`snprintf`** leaves the front of the text in the buffer, as a string, and nothing
anywhere else. Its result is the length of the whole text. -/
theorem snprintf_eq {buffer count : Nat} (hbuffer : buffer ≠ 0) (hcount : count < 2 ^ 64)
    (format : List UInt8) (va : List (Arg D)) (m : ByteStore.Bytes) :
    snprintf floats buffer count format va m = (text floats format va).map fun cs =>
      (written buffer (stored count cs) m, CInt.int32 cs.length) := by
  unfold snprintf
  rw [if_pos hbuffer, vsnprintf_eq]
  congr 1
  funext cs
  exact congrArg (·, _) (bounded_stored hcount cs m)

def noFloats : Floats Empty := ⟨nofun, nofun⟩

theorem snprintf_eq_short :
    snprintf noFloats 0x1000 4 (['n', '=', '%', 'u'].map chr) [.word 42] (fun _ => 0xFF)
      = some (written 0x1000 (['n', '=', '4'].map chr ++ [0]) (fun _ => 0xFF), 4) := by
  have htext : text noFloats (['n', '=', '%', 'u'].map chr) [.word 42]
      = some (['n', '=', '4', '2'].map chr) := by
    decide
  rw [snprintf_eq (by decide) (by decide), htext]
  rfl

theorem snprintf_null (count : Nat) (format : List UInt8) (va : List (Arg D))
    (m : ByteStore.Bytes) :
    snprintf floats 0 count format va m = (text floats format va).map fun cs =>
      (m, CInt.int32 cs.length) := by
  unfold snprintf
  rw [if_neg (fun h => h rfl), vsnprintf_eq]
  congr 1
  funext cs
  exact congrArg (·, _) (state_null _)

/-- **`printf`** passes on every character that is not 0. -/
theorem printf_eq (putchar : UInt8 → σ → σ) (format : List UInt8) (va : List (Arg D)) (t : σ) :
    printf floats putchar format va t = (text floats format va).map fun cs =>
      ((cs.filter (· ≠ 0)).foldl (fun t c => putchar c t) t, CInt.int32 cs.length) := by
  unfold printf
  rw [vsnprintf_eq]
  congr 1
  funext cs
  have hstream : (putAll (fun c _ t => if c ≠ 0 then putchar c t else t) cs ⟨0, t⟩).state = _ :=
    state_stream ⟨0, t⟩
  have hfilter : cs.foldl (fun t c => if c ≠ 0 then putchar c t else t) t
      = (cs.filter (· ≠ 0)).foldl (fun t c => putchar c t) t := by
    rw [List.foldl_filter]
    simp only [decide_eq_true_eq]
  exact congrArg (·, _) (hstream.trans hfilter)

/-! ## One format behind the other -/

theorem atoiFrom_append {i n : Nat} {str rest : List UInt8} (g : List UInt8)
    (h : atoiFrom i str = (n, rest)) (hrest : rest ≠ []) :
    atoiFrom i (str ++ g) = (n, rest ++ g) := by
  induction str generalizing i with
  | nil =>
      obtain ⟨rfl, rfl⟩ := Prod.mk.inj h
      exact absurd rfl hrest
  | cons c str ih =>
      rw [atoiFrom] at h
      rw [List.cons_append, atoiFrom]
      split
      · next hdigit => exact ih (by rwa [if_pos hdigit] at h)
      · next hdigit =>
          rw [if_neg hdigit] at h
          obtain ⟨rfl, rfl⟩ := Prod.mk.inj h
          rfl

theorem evaluateFlags_append {flags flags' : Flags} {format rest : List UInt8} (g : List UInt8)
    (h : evaluateFlags flags format = (flags', rest)) (hrest : rest ≠ []) :
    evaluateFlags flags (format ++ g) = (flags', rest ++ g) := by
  induction format generalizing flags with
  | nil =>
      obtain ⟨rfl, rfl⟩ := Prod.mk.inj h
      exact absurd rfl hrest
  | cons c format ih =>
      rw [evaluateFlags] at h
      rw [List.cons_append, evaluateFlags]
      split_ifs at h ⊢
      any_goals exact ih h
      obtain ⟨rfl, rfl⟩ := Prod.mk.inj h
      rfl

def Fields.extend (f : Fields D) (g : List UInt8) (e : List (Arg D)) : Fields D :=
  { f with format := f.format ++ g, va := f.va ++ e }

theorem vaWord_append {va va' : List (Arg D)} {w : BitVec 64} (e : List (Arg D))
    (h : vaWord va = some (w, va')) : vaWord (va ++ e) = some (w, va' ++ e) := by
  unfold vaWord at h
  split at h
  · cases h
    rfl
  · cases h

theorem vaInt_append {va va' : List (Arg D)} {i : Int} (e : List (Arg D))
    (h : vaInt va = some (i, va')) : vaInt (va ++ e) = some (i, va' ++ e) := by
  obtain ⟨⟨w, va''⟩, hw, heq⟩ := Option.map_eq_some_iff.mp h
  obtain ⟨rfl, rfl⟩ := Prod.mk.inj heq
  unfold vaInt
  rw [vaWord_append e hw]
  rfl

theorem evaluateWidth_append {f f' : Fields D} (g : List UInt8) (e : List (Arg D))
    (h : evaluateWidth f = some f') (hrest : f'.format ≠ []) :
    evaluateWidth (f.extend g e) = some (f'.extend g e) := by
  obtain ⟨flags, width, precision, format, va⟩ := f
  unfold evaluateWidth Fields.extend at *
  rcases format with _ | ⟨c, format⟩
  · cases h
    exact absurd rfl hrest
  simp only [List.cons_append] at *
  split
  · next hdigit =>
      rw [if_pos hdigit] at h
      cases h
      have happ : atoi (c :: (format ++ g)) = _ := atoiFrom_append g rfl hrest
      simp only [happ]
      rfl
  · next hdigit =>
      rw [if_neg hdigit] at h
      split
      · next hstar =>
          rw [if_pos hstar] at h
          obtain ⟨⟨w, va'⟩, hw, rfl⟩ := Option.map_eq_some_iff.mp h
          rw [vaInt_append e hw, Option.map_some]
          split <;> rfl
      · next hstar =>
          rw [if_neg hstar] at h
          cases h
          rfl

theorem evaluatePrecision_append {f f' : Fields D} (g : List UInt8) (e : List (Arg D))
    (h : evaluatePrecision f = some f') (hrest : f'.format ≠ []) :
    evaluatePrecision (f.extend g e) = some (f'.extend g e) := by
  obtain ⟨flags, width, precision, format, va⟩ := f
  unfold evaluatePrecision Fields.extend at *
  rcases format with _ | ⟨c, format⟩
  · cases h
    exact absurd rfl hrest
  simp only [List.cons_append] at *
  split
  swap
  · next hdot =>
      rw [if_neg hdot] at h
      cases h
      rfl
  next hdot =>
  rw [if_pos hdot] at h
  rcases format with _ | ⟨d, format⟩
  · cases h
    exact absurd rfl hrest
  simp only [List.cons_append] at *
  split
  · next hdigit =>
      rw [if_pos hdigit] at h
      cases h
      have happ : atoi (d :: (format ++ g)) = _ := atoiFrom_append g rfl hrest
      simp only [happ]
      rfl
  · next hdigit =>
      rw [if_neg hdigit] at h
      split
      · next hstar =>
          rw [if_pos hstar] at h
          obtain ⟨⟨w, va'⟩, hw, rfl⟩ := Option.map_eq_some_iff.mp h
          rw [vaInt_append e hw, Option.map_some]
      · next hstar =>
          rw [if_neg hstar] at h
          cases h
          rfl

theorem evaluateLength_append {f : Fields D} (g : List UInt8) (e : List (Arg D))
    (hrest : (evaluateLength f).format ≠ []) :
    evaluateLength (f.extend g e) = (evaluateLength f).extend g e := by
  obtain ⟨flags, width, precision, format, va⟩ := f
  unfold evaluateLength Fields.extend at *
  rcases format with _ | ⟨c, format⟩
  · exact absurd rfl hrest
  rcases format with _ | ⟨d, format⟩
  · simp only [List.cons_append, List.nil_append] at *
    split_ifs at hrest ⊢
    · exact absurd rfl hrest
    · exact absurd rfl hrest
    · exact absurd rfl hrest
    · rfl
  · simp only [List.cons_append] at *
    split_ifs <;> rfl

theorem map_append {γ δ : Type} {va va' : List (Arg D)} {z : γ} {e : List (Arg D)}
    {get : List (Arg D) → Option (δ × List (Arg D))} {k : δ × List (Arg D) → γ × List (Arg D)}
    (hget : ∀ {w r}, get va = some (w, r) → get (va ++ e) = some (w, r ++ e))
    (hk : ∀ w r r', k (w, r') = ((k (w, r)).1, r')) (h : (get va).map k = some (z, va')) :
    (get (va ++ e)).map k = some (z, va' ++ e) := by
  obtain ⟨⟨w, r⟩, hw, heq⟩ := Option.map_eq_some_iff.mp h
  rw [hk w r r] at heq
  obtain ⟨rfl, rfl⟩ := Prod.mk.inj heq
  rw [hget hw, Option.map_some, hk w r]

theorem vaString_append {va va' : List (Arg D)} {p : List UInt8} (e : List (Arg D))
    (h : vaString va = some (p, va')) : vaString (va ++ e) = some (p, va' ++ e) := by
  unfold vaString at h
  split at h
  · cases h
    rfl
  · cases h

theorem vaDouble_append {va va' : List (Arg D)} {d : D} (e : List (Arg D))
    (h : vaDouble va = some (d, va')) : vaDouble (va ++ e) = some (d, va' ++ e) := by
  unfold vaDouble at h
  split at h
  · cases h
    rfl
  · cases h

theorem specifier_append {c : UInt8} {f : Fields D} {z : Sink σ} {va : List (Arg D)}
    (g : List UInt8) (e : List (Arg D)) (h : specifier out floats c f s = some (z, va)) :
    specifier out floats c (f.extend g e) s = some (z, va ++ e) := by
  unfold specifier at *
  simp only [Fields.extend] at *
  split_ifs at h ⊢
  any_goals first
    | exact map_append (vaWord_append e) (fun _ _ _ => rfl) h
    | exact map_append (vaDouble_append e) (fun _ _ _ => rfl) h
    | exact map_append (vaString_append e) (fun _ _ _ => rfl) h
  obtain ⟨rfl, rfl⟩ := Prod.mk.inj (Option.some.inj h)
  rfl

/-- A stage that reads on has not left the format empty before. -/
theorem ne_nil_of_width {f f' : Fields D} (h : evaluateWidth f = some f') (hrest : f'.format ≠ []) :
    f.format ≠ [] := by
  rintro hnil
  unfold evaluateWidth at h
  rw [hnil] at h
  obtain rfl := Option.some.inj h
  exact hrest hnil

theorem ne_nil_of_precision {f f' : Fields D} (h : evaluatePrecision f = some f')
    (hrest : f'.format ≠ []) : f.format ≠ [] := by
  rintro hnil
  unfold evaluatePrecision at h
  rw [hnil] at h
  obtain rfl := Option.some.inj h
  exact hrest hnil

theorem ne_nil_of_length {f : Fields D} (hrest : (evaluateLength f).format ≠ []) :
    f.format ≠ [] := by
  rintro hnil
  unfold evaluateLength at hrest
  rw [hnil] at hrest
  exact hrest hnil

theorem specification_eq_some {format rest : List UInt8} {va va' : List (Arg D)} {z : Sink σ}
    (h : specification out floats format va s = some (z, rest, va')) : ∃ f f' c,
      evaluateWidth ⟨(evaluateFlags {} format).1, 0, 0, (evaluateFlags {} format).2, va⟩ = some f ∧
        evaluatePrecision f = some f' ∧ (evaluateLength f').format = c :: rest ∧
          specifier out floats c (evaluateLength f') s = some (z, va') := by
  obtain ⟨f, hf, h⟩ := Option.bind_eq_some_iff.mp h
  obtain ⟨f', hf', h⟩ := Option.bind_eq_some_iff.mp h
  rcases hformat : (evaluateLength f').format with _ | ⟨c, format'⟩
  · simp only [hformat] at h
    cases h
  · simp only [hformat] at h
    obtain ⟨⟨z', va''⟩, hspec, heq⟩ := Option.bind_eq_some_iff.mp h
    cases heq
    exact ⟨f, f', c, hf, hf', hformat, hspec⟩

theorem specification_append {format rest : List UInt8} {va va' : List (Arg D)} {z : Sink σ}
    (g : List UInt8) (e : List (Arg D))
    (h : specification out floats format va s = some (z, rest, va')) :
    specification out floats (format ++ g) (va ++ e) s = some (z, rest ++ g, va' ++ e) := by
  obtain ⟨f, f', c, hf, hf', hrest, hspec⟩ := specification_eq_some h
  have hlength : (evaluateLength f').format ≠ [] := by simp [hrest]
  have hprec := ne_nil_of_length hlength
  have hwidth := ne_nil_of_precision hf' hprec
  have hflags := evaluateFlags_append g rfl (ne_nil_of_width hf hwidth)
  have hf := evaluateWidth_append g e hf hwidth
  have hf' := evaluatePrecision_append g e hf' hprec
  have hlast := evaluateLength_append g e hlength
  unfold specification
  simp only [hflags]
  rw [Fields.extend] at hf
  rw [hf]
  simp only [Option.bind_eq_bind, Option.bind_some, hf', hlast]
  have hformat : ((evaluateLength f').extend g e).format = c :: (rest ++ g) := by
    rw [Fields.extend, hrest, List.cons_append]
  rw [hformat]
  simp only [specifier_append g e hspec, Option.bind_some]

/-! ### The counter of turns suffices -/

theorem atoiFrom_length (i : Nat) (str : List UInt8) : (atoiFrom i str).2.length ≤ str.length := by
  induction str generalizing i with
  | nil => exact Nat.le_refl 0
  | cons c str ih =>
      rw [atoiFrom]
      split
      · exact (ih _).trans (Nat.le_succ _)
      · exact Nat.le_refl _

theorem evaluateFlags_length (flags : Flags) (format : List UInt8) :
    (evaluateFlags flags format).2.length ≤ format.length := by
  induction format generalizing flags with
  | nil => exact Nat.le_refl 0
  | cons c format ih =>
      rw [evaluateFlags]
      split_ifs
      any_goals exact (ih _).trans (Nat.le_succ _)
      exact Nat.le_refl _

theorem evaluateWidth_length {f f' : Fields D} (h : evaluateWidth f = some f') :
    f'.format.length ≤ f.format.length := by
  unfold evaluateWidth at h
  split at h
  · cases h
    exact Nat.le_refl _
  · next c format hformat =>
      rw [hformat]
      split_ifs at h
      · cases h
        exact atoiFrom_length 0 (c :: format)
      · obtain ⟨⟨w, va⟩, -, rfl⟩ := Option.map_eq_some_iff.mp h
        simp only
        split <;> exact Nat.le_succ _
      · cases h
        exact hformat ▸ Nat.le_refl _

theorem evaluatePrecision_length {f f' : Fields D} (h : evaluatePrecision f = some f') :
    f'.format.length ≤ f.format.length := by
  unfold evaluatePrecision at h
  split at h
  · cases h
    exact Nat.le_refl _
  next c format hformat =>
  rw [hformat]
  split at h
  swap
  · cases h
    exact hformat ▸ Nat.le_refl _
  rcases format with _ | ⟨d, format⟩
  · cases h
    exact Nat.zero_le _
  simp only at h
  split_ifs at h
  · cases h
    exact (atoiFrom_length 0 (d :: format)).trans (Nat.le_succ _)
  · obtain ⟨⟨w, va⟩, -, rfl⟩ := Option.map_eq_some_iff.mp h
    exact (Nat.le_succ _).trans (Nat.le_succ _)
  · cases h
    exact Nat.le_succ _

theorem evaluateLength_length (f : Fields D) :
    (evaluateLength f).format.length ≤ f.format.length := by
  unfold evaluateLength
  split
  · exact Nat.le_refl _
  next c format hformat =>
  rw [hformat]
  rcases format with _ | ⟨d, format⟩
  · split_ifs <;> simp [hformat]
  · simp only
    split_ifs <;> simp [hformat] <;> omega

theorem specification_length {format rest : List UInt8} {va va' : List (Arg D)} {z : Sink σ}
    (h : specification out floats format va s = some (z, rest, va')) :
    rest.length < format.length := by
  obtain ⟨f, f', c, hf, hf', hrest, -⟩ := specification_eq_some h
  have hflags := evaluateFlags_length {} format
  have hwidth := evaluateWidth_length hf
  have hprec := evaluatePrecision_length hf'
  have hlength := evaluateLength_length f'
  rw [hrest] at hlength
  simp only [List.length_cons] at *
  omega

theorem vsnprintfLoop_turns {n : Nat} {format : List UInt8} (va : List (Arg D)) (s : Sink σ)
    (hn : format.length ≤ n) : vsnprintfLoop out floats n format va s
      = vsnprintfLoop out floats format.length format va s := by
  induction n using Nat.strongRecOn generalizing format va s with
  | ind n ih =>
      rcases format with _ | ⟨c, format⟩
      · cases n <;> rfl
      obtain ⟨n, rfl⟩ : ∃ k, n = k + 1 := ⟨n - 1, by simp at hn; omega⟩
      simp only [List.length_cons, Nat.add_le_add_iff_right] at hn
      rw [List.length_cons, vsnprintfLoop, vsnprintfLoop]
      split
      · exact ih n (Nat.lt_succ_self n) va _ hn
      · rcases hspec : specification out floats format va s with _ | ⟨z, rest, va'⟩
        · rfl
        · have hlt := specification_length hspec
          simp only [Option.bind_eq_bind, Option.bind_some]
          rw [ih n (Nat.lt_succ_self n) va' z (by omega),
            ih format.length (by omega) va' z (by omega)]

/-- A format that is complete prints its text whatever is behind it. -/
theorem vsnprintfLoop_append {format : List UInt8} {va va' : List (Arg D)} {s z : Sink σ}
    (g : List UInt8) (e : List (Arg D))
    (h : vsnprintfLoop out floats format.length format va s = some (z, va')) :
    vsnprintfLoop out floats (format ++ g).length (format ++ g) (va ++ e) s
      = vsnprintfLoop out floats g.length g (va' ++ e) z := by
  induction hn : format.length using Nat.strongRecOn generalizing format va s with
  | ind n ih =>
      rcases format with _ | ⟨c, format⟩
      · obtain ⟨rfl, rfl⟩ := Prod.mk.inj (Option.some.inj h)
        rfl
      rw [List.length_cons, vsnprintfLoop] at h
      rw [List.cons_append, List.length_cons, vsnprintfLoop]
      split
      · next hc =>
          rw [if_pos hc] at h
          exact ih format.length (by simp at hn; omega) h rfl
      · next hc =>
          rw [if_neg hc] at h
          obtain ⟨⟨y, rest, va''⟩, hspec, h⟩ := Option.bind_eq_some_iff.mp h
          have hlt := specification_length hspec
          simp only [vsnprintfLoop_turns va'' y hlt.le] at h
          rw [specification_append g e hspec]
          simp only [Option.bind_eq_bind, Option.bind_some]
          rw [vsnprintfLoop_turns _ _ (by simp; omega)]
          exact ih rest.length (by simp at hn; omega) h rfl

/-- **Composition.** What two formats print one behind the other is what they print alone,
if the first one is complete: the second gets the arguments that are left. -/
theorem prints_append {format : List UInt8} {va va' : List (Arg D)} {cs : List UInt8}
    (h : prints floats format va = some (cs, va')) (g : List UInt8) (e : List (Arg D)) :
    prints floats (format ++ g) (va ++ e)
      = (prints floats g (va' ++ e)).map fun (ds, r) => (cs ++ ds, r) := by
  obtain ⟨⟨z, va''⟩, hloop, heq⟩ := Option.map_eq_some_iff.mp h
  obtain ⟨rfl, rfl⟩ := Prod.mk.inj heq
  unfold prints
  rw [vsnprintfLoop_append g e hloop, vsnprintfLoop_eq, Option.map_map, Option.map_map]
  congr 1
  funext ⟨y, r⟩
  simp only [Function.comp_apply, state_collect]

theorem prints_append_pair :
    prints noFloats (['%', 'u', ','].map chr ++ ['%', 'u'].map chr) ([.word 4, .word 2] ++ [])
      = some (['4', ',', '2'].map chr, []) := by
  have hfirst : prints noFloats (['%', 'u', ','].map chr) [.word 4, .word 2]
      = some (['4', ','].map chr, [.word 2]) := rfl
  exact prints_append hfirst _ []

end VersionSix.Printf
