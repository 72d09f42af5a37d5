import Mathlib.Data.List.Basic

/-!
# Runs of a labelled step function

A system is a partial step function `step : σ → α → Option σ`: `none` is a step
that does not return (a fault, an overrun, a loop without end). `exec` folds it
over a list of labels, `Along` says that a condition holds before every step of
a run, and the rule `exec_invariant` turns a step lemma into a run lemma once
and for all. The condition is judged in the state each step starts from, so it
may speak of what earlier steps have left behind; nothing is asked of labels
that are never reached.

For steps with a result, `trace` collects the results of a run. An invariant
may speak of them (`trace_total`, `trace_along`), and `trace_refines` compares
them with those of an abstract system that always returns.

Where the abstract system leaves a choice, an allocator's addresses for one, it
is a relation (`Runs`), and a guard has to hold whatever it chose so far
(`GuardedBy`). `trace_simulates` is the rule for that case: the program's run
is one of those that the relation allows.
-/

namespace Run

variable {σ α : Type*}

/-- The state after the labels of a run, if every step returns. -/
def exec (step : σ → α → Option σ) : σ → List α → Option σ
  | s, [] => some s
  | s, a :: as => (step s a).bind fun s' => exec step s' as

/-- `P` holds of the state and the label before every step of the run. -/
def Along (step : σ → α → Option σ) (P : σ → α → Prop) : σ → List α → Prop
  | _, [] => True
  | s, a :: as => P s a ∧ ∀ s', step s a = some s' → Along step P s' as

instance Along.decidable {step : σ → α → Option σ} {P : σ → α → Prop}
    [∀ s a, Decidable (P s a)] : ∀ s as, Decidable (Along step P s as)
  | _, [] => isTrue trivial
  | s, a :: as =>
      match h : step s a with
      | none => decidable_of_iff (P s a)
          ⟨fun hp => ⟨hp, fun s' hs => by rw [h] at hs; cases hs⟩, And.left⟩
      | some s' =>
          have : Decidable (Along step P s' as) := Along.decidable s' as
          decidable_of_iff (P s a ∧ Along step P s' as)
            ⟨fun hp => ⟨hp.1, fun s'' hs => by rw [h] at hs; cases hs; exact hp.2⟩,
              fun hp => ⟨hp.1, hp.2 s' h⟩⟩

theorem exec_cons {step : σ → α → Option σ} {s s' : σ} {a : α} {as : List α}
    (h : exec step s (a :: as) = some s') :
    ∃ s₁, step s a = some s₁ ∧ exec step s₁ as = some s' :=
  Option.bind_eq_some_iff.mp h

theorem along_true {step : σ → α → Option σ} (s : σ) (as : List α) :
    Along step (fun _ _ => True) s as := by
  induction as generalizing s with
  | nil => trivial
  | cons a as ih => exact ⟨trivial, fun s' _ => ih s'⟩

theorem exec_append {step : σ → α → Option σ} (s : σ) (as bs : List α) :
    exec step s (as ++ bs) = (exec step s as).bind fun s' => exec step s' bs := by
  induction as generalizing s with
  | nil => rfl
  | cons a as ih =>
      rw [List.cons_append, exec, exec, Option.bind_assoc]
      congr 1
      funext s₁
      exact ih s₁

theorem Along.left {step : σ → α → Option σ} {P : σ → α → Prop} {s : σ} {as bs : List α}
    (h : Along step P s (as ++ bs)) : Along step P s as := by
  induction as generalizing s with
  | nil => trivial
  | cons a as ih => exact ⟨h.1, fun s' hs' => ih (h.2 s' hs')⟩

theorem Along.of_append {step : σ → α → Option σ} {P : σ → α → Prop} {s s' : σ} {as bs : List α}
    (h : Along step P s (as ++ bs)) (hs : exec step s as = some s') :
    Along step P s as ∧ Along step P s' bs := by
  induction as generalizing s with
  | nil =>
      obtain rfl := Option.some.inj hs
      exact ⟨trivial, h⟩
  | cons a as ih =>
      obtain ⟨s₁, h₁, h₂⟩ := exec_cons hs
      refine ⟨⟨h.1, fun s₂ hs₂ => ?_⟩, (ih (h.2 s₁ h₁) h₂).2⟩
      obtain rfl := Option.some.inj (h₁.symm.trans hs₂)
      exact (ih (h.2 s₁ h₁) h₂).1

theorem along_concat {step : σ → α → Option σ} {P : σ → α → Prop} {s s' : σ} {as : List α}
    {a : α} (hs : exec step s as = some s') :
    Along step P s (as ++ [a]) ↔ Along step P s as ∧ P s' a := by
  refine ⟨fun h => ⟨(h.of_append hs).1, (h.of_append hs).2.1⟩, ?_⟩
  rintro ⟨h, hlast⟩
  induction as generalizing s with
  | nil =>
      obtain rfl := Option.some.inj hs
      exact ⟨hlast, fun _ _ => trivial⟩
  | cons b as ih =>
      obtain ⟨s₁, h₁, h₂⟩ := exec_cons hs
      refine ⟨h.1, fun s₂ hs₂ => ?_⟩
      obtain rfl := Option.some.inj (h₁.symm.trans hs₂)
      exact ih h₂ (h.2 s₁ h₁)

/-- **The run rule.** A property that every guarded step preserves holds
after every run whose steps all meet the guard. -/
theorem exec_invariant {step : σ → α → Option σ} {P : σ → α → Prop} {I : σ → Prop}
    (hstep : ∀ s a s', I s → P s a → step s a = some s' → I s')
    {s s' : σ} {as : List α} (hs : I s) (hP : Along step P s as)
    (h : exec step s as = some s') : I s' := by
  induction as generalizing s with
  | nil =>
      obtain rfl := Option.some.inj h
      exact hs
  | cons a as ih =>
      obtain ⟨s₁, h₁, h₂⟩ := exec_cons h
      exact ih (hstep s a s₁ hs hP.1 h₁) (hP.2 s₁ h₁) h₂

theorem exec_total {step : σ → α → Option σ} {P : σ → α → Prop} {I : σ → Prop}
    (hstep : ∀ s a, I s → P s a → ∃ s', step s a = some s' ∧ I s') {s : σ} {as : List α}
    (hs : I s) (hP : Along step P s as) : ∃ s', exec step s as = some s' ∧ I s' := by
  induction as generalizing s with
  | nil => exact ⟨s, rfl, hs⟩
  | cons a as ih =>
      obtain ⟨s₁, h₁, hs₁⟩ := hstep s a hs hP.1
      obtain ⟨s₂, h₂, hs₂⟩ := ih hs₁ (hP.2 s₁ h₁)
      exact ⟨s₂, by rw [exec, h₁, Option.bind_some, h₂], hs₂⟩

/-- When a step from a good state leads to a state with `G` exactly under the
guard, then all states of a run have `G` exactly if the whole run is guarded.
`A` is what is known of the labels. -/
theorem prefixes_iff_along_labels {step : σ → α → Option σ} {P : σ → α → Prop} {I G : σ → Prop}
    {A : α → Prop} (hgood : ∀ s, I s → G s)
    (hstep : ∀ s a, A a → I s → P s a → ∃ s', step s a = some s' ∧ I s')
    (hback : ∀ s a s', A a → I s → step s a = some s' → G s' → P s a) {s : σ} {as : List α}
    (has : ∀ a ∈ as, A a) (hs : I s) :
    (∀ bs, bs <+: as → ∃ s', exec step s bs = some s' ∧ G s') ↔ Along step P s as := by
  induction as generalizing s with
  | nil =>
      refine iff_of_true (fun bs hbs => ?_) trivial
      obtain rfl := List.prefix_nil.mp hbs
      exact ⟨s, rfl, hgood s hs⟩
  | cons a as ih =>
      have ha : A a := has a (List.mem_cons_self ..)
      have has' : ∀ b ∈ as, A b := fun b hb => has b (List.mem_cons_of_mem _ hb)
      constructor
      · intro h
        obtain ⟨s₁, hexec, hs₁⟩ := h [a] (List.prefix_append [a] as)
        obtain ⟨s₂, h₁, h₂⟩ := exec_cons hexec
        obtain rfl := Option.some.inj h₂
        have hP := hback s a s₂ ha hs h₁ hs₁
        refine ⟨hP, fun s' hs' => ?_⟩
        obtain ⟨s₃, h₃, hI⟩ := hstep s a ha hs hP
        obtain rfl := Option.some.inj (h₃.symm.trans hs')
        refine (ih has' hI).mp fun bs hbs => ?_
        obtain ⟨s₄, h₄, hG⟩ := h (a :: bs) (List.cons_prefix_cons.mpr ⟨rfl, hbs⟩)
        rw [exec, h₃, Option.bind_some] at h₄
        exact ⟨s₄, h₄, hG⟩
      · rintro ⟨hP, hrest⟩ bs hbs
        obtain ⟨s₁, h₁, hI⟩ := hstep s a ha hs hP
        cases bs with
        | nil => exact ⟨s, rfl, hgood s hs⟩
        | cons b bs =>
            obtain ⟨rfl, htail⟩ := List.cons_prefix_cons.mp hbs
            obtain ⟨s₂, h₂, hG⟩ := (ih has' hI).mpr (hrest s₁ h₁) bs htail
            exact ⟨s₂, by rw [exec, h₁, Option.bind_some, h₂], hG⟩

theorem prefixes_iff_along {step : σ → α → Option σ} {P : σ → α → Prop} {I G : σ → Prop}
    (hgood : ∀ s, I s → G s)
    (hstep : ∀ s a, I s → P s a → ∃ s', step s a = some s' ∧ I s')
    (hback : ∀ s a s', I s → step s a = some s' → G s' → P s a) {s : σ} {as : List α} (hs : I s) :
    (∀ bs, bs <+: as → ∃ s', exec step s bs = some s' ∧ G s') ↔ Along step P s as :=
  prefixes_iff_along_labels (A := fun _ => True) hgood (fun s a _ => hstep s a)
    (fun s a s' _ => hback s a s') (fun _ _ => trivial) hs

/-- A property of the loop index and the state that every turn carries to the
next index holds after a counted loop. -/
theorem foldlM_range_invariant {f : σ → ℕ → Option σ} {I : ℕ → σ → Prop} {n : ℕ}
    (hstep : ∀ i s s', i < n → I i s → f s i = some s' → I (i + 1) s') {s s' : σ} (hs : I 0 s)
    (h : (List.range n).foldlM f s = some s') : I n s' := by
  induction n generalizing s' with
  | zero =>
      obtain rfl := Option.some.inj h
      exact hs
  | succ n ih =>
      rw [List.range_succ, List.foldlM_append] at h
      obtain ⟨s₁, h₁, h₂⟩ := Option.bind_eq_some_iff.mp h
      simp only [List.foldlM_cons, List.foldlM_nil, bind_pure] at h₂
      exact hstep n s₁ s' (Nat.lt_succ_self n)
        (ih (fun i s s' hi => hstep i s s' (Nat.lt_succ_of_lt hi)) h₁) h₂

/-! ## Two systems side by side -/

section Beside

variable {τ : Type*} {step : σ → α → Option σ} {g : τ → α → τ} {P : σ → α → Prop}

def beside (step : σ → α → Option σ) (g : τ → α → τ) (s : σ × τ) (a : α) : Option (σ × τ) :=
  (step s.1 a).map fun s' => (s', g s.2 a)

theorem beside_of_step {s s' : σ} {a : α} (h : step s a = some s') (t : τ) :
    beside step g (s, t) a = some (s', g t a) := by
  rw [beside, h, Option.map_some]

theorem step_of_beside {x x' : σ × τ} {a : α} (h : beside step g x a = some x') :
    step x.1 a = some x'.1 ∧ x'.2 = g x.2 a := by
  obtain ⟨s', hs', rfl⟩ := Option.map_eq_some_iff.mp h
  exact ⟨hs', rfl⟩

theorem exec_beside (s : σ) (t : τ) (as : List α) :
    exec (beside step g) (s, t) as = (exec step s as).map fun s' => (s', as.foldl g t) := by
  induction as generalizing s t with
  | nil => rfl
  | cons a as ih =>
      rw [exec, exec, beside, Option.bind_map, Option.map_bind]
      congr 1
      funext s₁
      exact ih s₁ (g t a)

theorem along_beside (s : σ) (t : τ) (as : List α) :
    Along (beside step g) (fun x a => P x.1 a) (s, t) as ↔ Along step P s as := by
  induction as generalizing s t with
  | nil => exact Iff.rfl
  | cons a as ih =>
      rw [Along, Along]
      refine and_congr_right fun _ => ⟨fun h s' hs' => ?_, fun h x hx => ?_⟩
      · exact (ih s' (g t a)).mp (h _ (beside_of_step hs' t))
      · obtain ⟨hs', hx'⟩ := step_of_beside hx
        have hpair : x = (x.1, g t a) := Prod.ext rfl hx'
        rw [hpair]
        exact (ih x.1 (g t a)).mpr (h _ hs')

end Beside

/-! ## Runs with results -/

section Traces

variable {τ β : Type*}

/-- The state after a run, and the results of its steps. -/
def trace (step : σ → α → Option (σ × β)) : σ → List α → Option (σ × List β)
  | s, [] => some (s, [])
  | s, a :: as => (step s a).bind fun x => (trace step x.1 as).map fun y => (y.1, x.2 :: y.2)

theorem trace_cons {step : σ → α → Option (σ × β)} {s s' : σ} {a : α} {as : List α} {bs : List β}
    (h : trace step s (a :: as) = some (s', bs)) : ∃ s₁ b bs', step s a = some (s₁, b) ∧
      trace step s₁ as = some (s', bs') ∧ bs = b :: bs' := by
  obtain ⟨⟨s₁, b⟩, hstep, hrest⟩ := Option.bind_eq_some_iff.mp h
  obtain ⟨⟨s₂, bs'⟩, htrace, heq⟩ := Option.map_eq_some_iff.mp hrest
  obtain ⟨rfl, rfl⟩ := Prod.mk.inj heq
  exact ⟨s₁, b, bs', hstep, htrace, rfl⟩

theorem trace_append (step : σ → α → Option (σ × β)) (s : σ) (as bs : List α) :
    trace step s (as ++ bs) = (trace step s as).bind fun x =>
      (trace step x.1 bs).map fun y => (y.1, x.2 ++ y.2) := by
  induction as generalizing s with
  | nil =>
      rw [List.nil_append, trace, Option.bind_some]
      simp
  | cons a as ih =>
      rw [List.cons_append, trace, trace, Option.bind_assoc]
      congr 1
      funext x
      rw [ih, Option.map_bind, Option.bind_map]
      congr 1
      funext y
      simp [Function.comp_def]

theorem trace_concat (step : σ → α → Option (σ × β)) (s : σ) (as : List α) (a : α) :
    trace step s (as ++ [a]) = (trace step s as).bind fun x =>
      (step x.1 a).map fun y => (y.1, x.2 ++ [y.2]) := by
  rw [trace_append]
  congr 1
  funext x
  rw [trace, Option.map_bind]
  cases step x.1 a with
  | none => rfl
  | some y => rfl

theorem exec_of_trace {step : σ → α → Option (σ × β)} {s s' : σ} {as : List α} {bs : List β}
    (h : trace step s as = some (s', bs)) :
    exec (fun s a => (step s a).map Prod.fst) s as = some s' := by
  induction as generalizing s bs with
  | nil =>
      rw [trace] at h
      rw [exec, (Prod.mk.inj (Option.some.inj h)).1]
  | cons a as ih =>
      obtain ⟨s₁, b, bs', hstep, hrest, rfl⟩ := trace_cons h
      rw [exec, hstep, Option.map_some, Option.bind_some]
      exact ih hrest

/-- **The run rule** for an invariant that speaks of the results so far. -/
theorem trace_total {step : σ → α → Option (σ × β)} {I : σ → List β → Prop}
    (hstep : ∀ s bs a, I s bs → ∃ s' b, step s a = some (s', b) ∧ I s' (bs ++ [b]))
    {s : σ} {bs : List β} (hs : I s bs) (as : List α) :
    ∃ s' bs', trace step s as = some (s', bs') ∧ I s' (bs ++ bs') := by
  induction as generalizing s bs with
  | nil => exact ⟨s, [], rfl, by rwa [List.append_nil]⟩
  | cons a as ih =>
      obtain ⟨s₁, b, h₁, hs₁⟩ := hstep s bs a hs
      obtain ⟨s₂, bs₂, h₂, hs₂⟩ := ih hs₁
      refine ⟨s₂, b :: bs₂, ?_, ?_⟩
      · rw [trace, h₁, Option.bind_some, h₂, Option.map_some]
      · rwa [List.append_assoc, List.singleton_append] at hs₂

/-- **The run rule** for guarded steps, with an invariant that speaks of the labels and
the results so far. -/
theorem trace_along {step : σ → α → Option (σ × β)} {ok : σ → α → Prop}
    {I : σ → List α → List β → Prop}
    (hstep : ∀ s as bs a, I s as bs → ok s a → ∃ s' b, step s a = some (s', b) ∧
      I s' (as ++ [a]) (bs ++ [b]))
    {s : σ} {as₀ as : List α} {bs : List β} (hs : I s as₀ bs)
    (hok : Along (fun s a => (step s a).map Prod.fst) ok s as) :
    ∃ s' bs', trace step s as = some (s', bs') ∧ I s' (as₀ ++ as) (bs ++ bs') := by
  induction as generalizing s as₀ bs with
  | nil => exact ⟨s, [], rfl, by rwa [List.append_nil, List.append_nil]⟩
  | cons a as ih =>
      obtain ⟨s₁, b, h₁, hs₁⟩ := hstep s as₀ bs a hs hok.1
      obtain ⟨s₂, bs₂, h₂, hs₂⟩ := ih hs₁ (hok.2 s₁ (by simp only [h₁, Option.map_some]))
      refine ⟨s₂, b :: bs₂, ?_, ?_⟩
      · rw [trace, h₁, Option.bind_some, h₂, Option.map_some]
      · rwa [List.append_assoc, List.append_assoc, List.singleton_append,
          List.singleton_append] at hs₂

def outputs (step : τ → α → τ × β) : τ → List α → τ × List β
  | t, [] => (t, [])
  | t, a :: as =>
      ((outputs step (step t a).1 as).1, (step t a).2 :: (outputs step (step t a).1 as).2)

theorem outputs_append (step : τ → α → τ × β) (t : τ) (as bs : List α) :
    outputs step t (as ++ bs) = ((outputs step (outputs step t as).1 bs).1,
      (outputs step t as).2 ++ (outputs step (outputs step t as).1 bs).2) := by
  induction as generalizing t with
  | nil => rfl
  | cons a as ih =>
      rw [List.cons_append, outputs, ih]
      rfl

/-- The guard holds of both states before every step. -/
def Guarded (step : σ → α → Option (σ × β)) (astep : τ → α → τ × β) (ok : σ → τ → α → Prop) :
    σ → τ → List α → Prop
  | _, _, [] => True
  | s, t, a :: as =>
      ok s t a ∧ ∀ s' b, step s a = some (s', b) → Guarded step astep ok s' (astep t a).1 as

instance Guarded.decidable {step : σ → α → Option (σ × β)} {astep : τ → α → τ × β}
    {ok : σ → τ → α → Prop} [∀ s t a, Decidable (ok s t a)] :
    ∀ s t as, Decidable (Guarded step astep ok s t as)
  | _, _, [] => isTrue trivial
  | s, t, a :: as =>
      match h : step s a with
      | none => decidable_of_iff (ok s t a)
          ⟨fun hp => ⟨hp, fun s' b hs => by rw [h] at hs; cases hs⟩, And.left⟩
      | some (s', _) =>
          have : Decidable (Guarded step astep ok s' (astep t a).1 as) :=
            Guarded.decidable s' (astep t a).1 as
          decidable_of_iff (ok s t a ∧ Guarded step astep ok s' (astep t a).1 as)
            ⟨fun hp => ⟨hp.1, fun s'' b hs => by rw [h] at hs; cases hs; exact hp.2⟩,
              fun hp => ⟨hp.1, hp.2 s' _ h⟩⟩

/-- **The refinement rule.** When every guarded step returns what the abstract
step returns, and keeps the two states related, so does every guarded run. -/
theorem trace_refines {step : σ → α → Option (σ × β)} {astep : τ → α → τ × β}
    {ok : σ → τ → α → Prop} {R : σ → τ → Prop}
    (hstep : ∀ s t a, R s t → ok s t a → ∃ s', step s a = some (s', (astep t a).2) ∧
      R s' (astep t a).1)
    {s : σ} {t : τ} {as : List α} (hR : R s t) (hok : Guarded step astep ok s t as) :
    ∃ s', trace step s as = some (s', (outputs astep t as).2) ∧ R s' (outputs astep t as).1 := by
  induction as generalizing s t with
  | nil => exact ⟨s, rfl, hR⟩
  | cons a as ih =>
      obtain ⟨s₁, hs₁, hR₁⟩ := hstep s t a hR hok.1
      obtain ⟨s₂, hs₂, hR₂⟩ := ih hR₁ (hok.2 s₁ _ hs₁)
      exact ⟨s₂, by rw [trace, hs₁, Option.bind_some, hs₂, Option.map_some, outputs], hR₂⟩

end Traces

/-! ## Systems that leave a choice -/

section Choices

variable {τ β : Type*}

/-- A run of a relation, with the results of its steps. -/
def Runs (spec : τ → α → τ → β → Prop) : τ → List α → τ → List β → Prop
  | t, [], t', bs => t' = t ∧ bs = []
  | t, a :: as, t', bs => ∃ t₁ b bs', spec t a t₁ b ∧ Runs spec t₁ as t' bs' ∧ bs = b :: bs'

/-- The guard holds before every step, whatever the abstract system has chosen so far. -/
def GuardedBy (step : σ → α → Option (σ × β)) (spec : τ → α → τ → β → Prop)
    (ok : σ → τ → α → Prop) : σ → τ → List α → Prop
  | _, _, [] => True
  | s, t, a :: as => ok s t a ∧ ∀ s' t' b, step s a = some (s', b) → spec t a t' b →
      GuardedBy step spec ok s' t' as

/-- **The simulation rule.** When every guarded step returns what the abstract system may
return, and keeps the two states related, so does every guarded run. -/
theorem trace_simulates {step : σ → α → Option (σ × β)} {spec : τ → α → τ → β → Prop}
    {ok : σ → τ → α → Prop} {R : σ → τ → Prop}
    (hstep : ∀ s t a, R s t → ok s t a → ∃ s' t' b, step s a = some (s', b) ∧ spec t a t' b ∧
      R s' t')
    {s : σ} {t : τ} {as : List α} (hR : R s t) (hok : GuardedBy step spec ok s t as) :
    ∃ s' t' bs, trace step s as = some (s', bs) ∧ Runs spec t as t' bs ∧ R s' t' := by
  induction as generalizing s t with
  | nil => exact ⟨s, t, [], rfl, ⟨rfl, rfl⟩, hR⟩
  | cons a as ih =>
      obtain ⟨s₁, t₁, b, hs₁, ht₁, hR₁⟩ := hstep s t a hR hok.1
      obtain ⟨s₂, t₂, bs, hs₂, ht₂, hR₂⟩ := ih hR₁ (hok.2 s₁ t₁ b hs₁ ht₁)
      refine ⟨s₂, t₂, b :: bs, ?_, ⟨t₁, b, bs, ht₁, ht₂, rfl⟩, hR₂⟩
      rw [trace, hs₁, Option.bind_some, hs₂, Option.map_some]

end Choices

end Run
