import VersionSix.Sched

/-!
# Round robin

The candidate loop of `process_sched_yield` is the ring search of `RoundRobin`
over the statuses of the process list, so it ends on any fuel that reaches a
candidate, and it finds the first candidate strictly behind the current
process; the current one is looked at last.

A yield among processes that can all be scheduled keeps them so (`Rotating`)
and passes the turn to the next node. So as many yields as there are processes
make each of them current exactly once (`roundRobin_first_and_fair`): the order
is the orbit of the successor on the ring, and nothing about the frames or the
pages enters.

That pages can be mapped is part of `Rotating`: parents of threads have to be
in the list and section arrays as long as their counts say. This is what
creating a process establishes.
-/

namespace VersionSix.Process

/-- The process at position `i` can be chosen. -/
def Candidate (k : Kernel) (i : Nat) : Prop :=
  ∃ p, k.proc? i = some p ∧ schedulable p.status

/-- The current process after each of `n` yields. -/
def currents (k : Kernel) : Nat → Option (List Nat)
  | 0 => some []
  | n + 1 => (processSchedYield k).bind fun k' =>
      (currents k' n).map fun cs => k'.currentProcess :: cs

/-! ## The loop is a ring search -/

def candidateAt (l : List ProcessData) (i : Nat) : Bool := (l[i]?).any fun p => schedulable p.status

theorem candidateAt_iff {k : Kernel} {i : Nat} : candidateAt k.processList i ↔ Candidate k i := by
  simp [candidateAt, Candidate, Kernel.proc?, Option.any_eq_true]

theorem Candidate.lt {k : Kernel} {i : Nat} (h : Candidate k i) : i < k.processList.length := by
  obtain ⟨p, hp, -⟩ := h
  exact (List.getElem?_eq_some_iff.mp hp).1

theorem nextProcess_eq_search {l : List ProcessData} {i : Nat} (hi : i < l.length) (fuel : Nat) :
    nextProcess l fuel i = RoundRobin.search (candidateAt l) l.length fuel i := by
  induction fuel generalizing i with
  | zero => rfl
  | succ fuel ih =>
      have hlt := RoundRobin.next_lt hi
      have hnext : (if i + 1 < l.length then i + 1 else 0) = RoundRobin.next l.length i := rfl
      rw [RoundRobin.search, nextProcess, ← ih hlt]
      simp only [hnext, candidateAt, List.getElem?_eq_getElem hlt, Option.any_some]

/-- The loop fails on fuel `size` only when it does not end at all. -/
theorem nextProcess_stuck {l : List ProcessData} {i : Nat} (hi : i < l.length)
    (h : nextProcess l l.length i = none) (fuel : Nat) : nextProcess l fuel i = none := by
  rw [nextProcess_eq_search hi] at h ⊢
  exact RoundRobin.search_stuck hi h fuel

theorem nextProcess_first {k : Kernel} {i : Nat} (hi : i < k.processList.length)
    (hex : ∃ j, Candidate k j) :
    ∃ d, 1 ≤ d ∧ d ≤ k.processList.length ∧ Candidate k ((i + d) % k.processList.length) ∧
      (∀ e, 1 ≤ e → e < d → ¬ Candidate k ((i + e) % k.processList.length)) ∧
      ∀ fuel, d ≤ fuel → nextProcess k.processList fuel i
        = some ((i + d) % k.processList.length) := by
  obtain ⟨j, hj⟩ := hex
  obtain ⟨d, hd, hok, hbefore⟩ := RoundRobin.exists_first hi ⟨j, hj.lt, candidateAt_iff.mpr hj⟩
  refine ⟨d + 1, by omega, by omega, candidateAt_iff.mp hok, fun e he hed hcand => ?_,
    fun fuel hfuel => ?_⟩
  · refine hbefore (e - 1) (by omega) ?_
    rw [Nat.sub_add_cancel he]
    exact candidateAt_iff.mpr hcand
  · rw [nextProcess_eq_search hi]
    exact (RoundRobin.search_eq_some hi).mpr ⟨d, by omega, rfl, hok, hbefore⟩

/-! ## One turn among schedulable processes -/

/-- Every process can be scheduled and mapped, and none is set to be next. -/
structure Rotating (k : Kernel) : Prop where
  current_lt : k.currentProcess < k.processList.length
  noNextUp : k.processNextUp = none
  ready : ∀ p ∈ k.processList, schedulable p.status
  mapped : ∀ p ∈ k.processList, ∃ pages, pagesMapped k p = some pages

theorem mem_switched {k : Kernel} {new : Nat} {newP : ProcessData} {pages : List ExecSection}
    {q : ProcessData} (hq : q ∈ (switched k new newP pages).processList) :
    ∃ p ∈ k.processList, q = p ∨ q = switchOut k.frame p ∨ q = switchIn p ∨
      q = switchIn (switchOut k.frame p) := by
  obtain ⟨i, hi⟩ := List.mem_iff_getElem?.mp hq
  simp only [switched, List.getElem?_modify] at hi
  cases hp : k.processList[i]? with
  | none => simp [hp] at hi
  | some p =>
      refine ⟨p, List.mem_of_getElem? hp, ?_⟩
      rw [hp] at hi
      simp only [Option.map_eq_map, Option.map_some] at hi
      rw [← Option.some.inj hi]
      split <;> split <;> simp

theorem pagesMapped_switched {k : Kernel} {new : Nat} {newP : ProcessData}
    {pages : List ExecSection} (p : ProcessData) :
    pagesMapped (switched k new newP pages) p = pagesMapped k p := by
  have hin := switchIn_keepsLayout.pagesMapped_updateProc
    (k.updateProc k.currentProcess (switchOut k.frame)) new p
  rw [(switchOut_keepsLayout k.frame).pagesMapped_updateProc] at hin
  exact hin

theorem Rotating.switched {k : Kernel} (h : Rotating k) {new : Nat} {newP : ProcessData}
    {pages : List ExecSection} (hnew : k.proc? new = some newP) :
    Rotating (switched k new newP pages) where
  current_lt := by
    have := (List.getElem?_eq_some_iff.mp hnew).1
    simpa [Process.switched] using this
  noNextUp := rfl
  ready q hq := by
    obtain ⟨p, hp, rfl | rfl | rfl | rfl⟩ := mem_switched hq
    · exact h.ready _ hp
    · have := h.ready p hp
      revert this
      simp only [switchOut]
      cases p.status <;> simp [schedulable, statusAfterSwitch]
    · rfl
    · rfl
  mapped q hq := by
    have hout := switchOut_keepsLayout k.frame
    obtain ⟨p, hp, hqp⟩ := mem_switched hq
    obtain ⟨pages', hpages⟩ := h.mapped p hp
    refine ⟨pages', ?_⟩
    rw [pagesMapped_switched, ← hpages]
    rcases hqp with rfl | rfl | rfl | rfl
    · rfl
    · exact hout.pagesMapped_self k p
    · exact switchIn_keepsLayout.pagesMapped_self k p
    · rw [switchIn_keepsLayout.pagesMapped_self, hout.pagesMapped_self]

theorem Rotating.selectNext_eq {k : Kernel} (h : Rotating k) :
    selectNext k = some ((k.currentProcess + 1) % k.processList.length) := by
  unfold selectNext
  rw [h.noNextUp]
  change nextProcess _ _ _ = _
  rw [nextProcess_eq_search h.current_lt]
  refine RoundRobin.search_all h.current_lt fun j hj => candidateAt_iff.mpr ?_
  exact ⟨k.processList[j], List.getElem?_eq_getElem hj, h.ready _ (List.getElem_mem hj)⟩

/-- **One turn**: the yield returns, the next node is current and everything
can still be scheduled. -/
theorem Rotating.yield {k : Kernel} (h : Rotating k) :
    ∃ k', processSchedYield k = some k' ∧ Rotating k' ∧
      k'.processList.length = k.processList.length ∧
      k'.currentProcess = (k.currentProcess + 1) % k.processList.length := by
  have hsel := h.selectNext_eq
  generalize hnext : (k.currentProcess + 1) % k.processList.length = new at hsel ⊢
  by_cases hself : new = k.currentProcess
  · subst hself
    exact ⟨_, yield_self hsel, ⟨h.current_lt, rfl, h.ready, h.mapped⟩, rfl, rfl⟩
  · have hlt : new < k.processList.length := by
      rw [← hnext]
      exact Nat.mod_lt _ (by have := h.current_lt; omega)
    have hproc : k.proc? new = some k.processList[new] := List.getElem?_eq_getElem hlt
    obtain ⟨pages, hpages⟩ := h.mapped _ (List.getElem_mem hlt)
    refine ⟨Process.switched k new k.processList[new] pages, ?_, h.switched hproc, ?_, rfl⟩
    · rw [yield_switch hsel hself hproc, hpages]
      rfl
    · simp [Process.switched]

theorem Rotating.currents_eq {k : Kernel} (h : Rotating k) (n : Nat) :
    currents k n = some ((List.range n).map fun d =>
      (k.currentProcess + (d + 1)) % k.processList.length) := by
  induction n generalizing k with
  | zero => rfl
  | succ n ih =>
      obtain ⟨k', hy, hrot, hlen, hcur⟩ := h.yield
      rw [currents, hy, Option.bind_some, ih hrot, hlen, List.range_succ_eq_map]
      simp only [Option.map_some, List.map_cons, List.map_map]
      rw [hcur]
      congr 2
      refine List.map_congr_left fun d _ => ?_
      rw [Nat.mod_add_mod]
      simp only [Function.comp_apply]
      congr 1
      omega

/-! ## The scheduler is round robin -/

/-- The search ends on every fuel from `d` on and selects the first candidate
strictly after the current process; and `n` yields among `n` schedulable
processes make each of them current once. That pages can be mapped says that
parents of threads are in the list and that section arrays are as long as their
counts: what creating a process establishes. -/
theorem roundRobin_first_and_fair {k : Kernel}
    (hcur : k.currentProcess < k.processList.length) (hnext : k.processNextUp = none) :
    ((∃ j, Candidate k j) → ∃ d new, 1 ≤ d ∧ d ≤ k.processList.length ∧
      new = (k.currentProcess + d) % k.processList.length ∧
      (∀ fuel, d ≤ fuel → nextProcess k.processList fuel k.currentProcess = some new) ∧
      selectNext k = some new ∧ Candidate k new ∧
      (∀ e, 1 ≤ e → e < d →
        ¬ Candidate k ((k.currentProcess + e) % k.processList.length)) ∧
      (new = k.currentProcess → ∀ j, Candidate k j → j = k.currentProcess)) ∧
    ((∀ p ∈ k.processList, schedulable p.status) →
      (∀ p ∈ k.processList, ∃ pages, pagesMapped k p = some pages) →
      ∃ cs, currents k k.processList.length = some cs ∧
        cs.length = k.processList.length ∧ ∀ j < k.processList.length, cs.count j = 1) := by
  constructor
  · intro hex
    obtain ⟨d, hd1, hdn, hcand, hbefore, hfuel⟩ := nextProcess_first hcur hex
    refine ⟨d, _, hd1, hdn, rfl, hfuel, ?_, hcand, hbefore, fun hself j hj => ?_⟩
    · unfold selectNext
      rw [hnext]
      exact hfuel _ hdn
    · -- the search came round to the start, so `d` is the length of the ring
      by_contra hne
      have hjlt := hj.lt
      have hdeq : d = k.processList.length := by
        by_contra hdlt
        have hsum : k.currentProcess + d < 2 * k.processList.length := by omega
        by_cases hw : k.currentProcess + d < k.processList.length
        · rw [Nat.mod_eq_of_lt hw] at hself
          omega
        · rw [Nat.mod_eq_sub_mod (by omega), Nat.mod_eq_of_lt (by omega)] at hself
          omega
      by_cases hlt : k.currentProcess < j
      · refine hbefore (j - k.currentProcess) (by omega) (by omega) ?_
        rwa [show k.currentProcess + (j - k.currentProcess) = j by omega, Nat.mod_eq_of_lt hjlt]
      · refine hbefore (j + k.processList.length - k.currentProcess) (by omega) (by omega) ?_
        rwa [show k.currentProcess + (j + k.processList.length - k.currentProcess)
          = j + k.processList.length by omega, Nat.add_mod_right, Nat.mod_eq_of_lt hjlt]
  · intro hready hmapped
    have hrot : Rotating k := ⟨hcur, hnext, hready, hmapped⟩
    refine ⟨_, hrot.currents_eq _, by simp, fun j hj => ?_⟩
    exact RoundRobin.orbit_count hcur hj

/-- Three processes with empty address spaces of their own; 0 is current. -/
def threeProcesses (s₀ s₁ s₂ : ProcessStatus) : Kernel :=
  { Kernel.start {} with
    processList :=
      [{ newProcess 0 with status := s₀, hasOwnAddrSpace := true },
        { newProcess 1 with status := s₁, hasOwnAddrSpace := true },
        { newProcess 2 with status := s₂, hasOwnAddrSpace := true }]
    pidNext := 3 }

theorem roundRobin_threeProcesses :
    (∃ new, selectNext (threeProcesses .active .waiting .sleep) = some new ∧
      Candidate (threeProcesses .active .waiting .sleep) new) ∧
    ∃ cs, currents (threeProcesses .active .inactive .sleep) 3 = some cs ∧
      ∀ j < 3, cs.count j = 1 := by
  constructor
  · obtain ⟨d, new, -, -, -, -, hsel, hcand, -⟩ :=
      (roundRobin_first_and_fair (k := threeProcesses .active .waiting .sleep) (by decide) rfl).1
        ⟨2, _, rfl, rfl⟩
    exact ⟨new, hsel, hcand⟩
  · obtain ⟨cs, hcs, -, hcount⟩ :=
      (roundRobin_first_and_fair (k := threeProcesses .active .inactive .sleep) (by decide) rfl).2
        (by decide) fun p hp => by
          simp only [threeProcesses, List.mem_cons, List.not_mem_nil, or_false] at hp
          rcases hp with rfl | rfl | rfl <;> exact ⟨_, rfl⟩
    exact ⟨cs, hcs, hcount⟩

end VersionSix.Process
