import VersionSix.Process
import VersionSix.X64

/-!
# Interrupt entry and return

The stubs of `interrupt_asm.S`. Each one brings the stack into the shape of the
packed struct `registers` (`interrupt.h`) and hands the C handler a pointer to
a pointer to it; after the handler the same words are popped again.

The stubs of the exceptions and device interrupts push on the interrupted
stack. `isr_254` moves to the system call stack first and copies the
processor's frame through `r13`, which it overwrites before it is saved: the
frame is faithful for it only when the interrupted `r13` is the address the
stub puts there (`frame_faithful_iff`).

The argument has a part that all stubs share, the saving and the restoring
(`restored_saved`), and one for what a stub does before it. The handler is any
function of the machine that leaves its stack pointer and the frame as they
were. Two stacks come into the second part, and for `isr_254` they must not
overlap (`StacksApart`).
-/

namespace VersionSix.Interrupt

open X64
open Process (Registers)

/-! ## The code -/

def saveRegisters : List Instr :=
  [.push .r15, .push .r14, .push .r13, .push .r12, .push .r11, .push .r10, .push .r9, .push .r8,
    .push .rbp, .push .rdi, .push .rsi, .push .rdx, .push .rcx, .push .rbx, .push .rax,
    .push .rsp, .mov .rdi .rsp]

def restoreRegisters : List Instr :=
  [.pop .rsp, .pop .rax, .pop .rbx, .pop .rcx, .pop .rdx, .pop .rsi, .pop .rdi, .pop .rbp,
    .pop .r8, .pop .r9, .pop .r10, .pop .r11, .pop .r12, .pop .r13, .pop .r14, .pop .r15,
    .addImm .rsp 16, .iretq]

def isrWithoutErrorCode (num : Nat) : List Instr := [.pushImm 0, .pushImm (UInt64.ofNat num)]

def isrWithErrorCode (num : Nat) : List Instr := [.pushImm (UInt64.ofNat num)]

def isr254 (syscallStackTop : UInt64) : List Instr :=
  [.mov .r13 .rsp, .movImm .rsp syscallStackTop, .pushMem 32 .r13, .pushMem 24 .r13,
    .pushMem 16 .r13, .pushMem 8 .r13, .pushMem 0 .r13, .pushImm 0, .pushImm 254]

/-- The stub of a vector, up to the instructions all of them share:
`saveRegisters`, the call and `restoreRegisters`. -/
def isr (syscallStackTop : UInt64) (num : Nat) : Option (List Instr) :=
  if num = 254 then some (isr254 syscallStackTop)
  else if num = 8 ∨ 10 ≤ num ∧ num ≤ 14 ∨ num = 17 then some (isrWithErrorCode num)
  else if num ≤ 20 ∨ 32 ≤ num ∧ num ≤ 47 then some (isrWithoutErrorCode num)
  else none

/-- The vectors with which the processor pushes an error code. -/
def pushesErrorCode (num : Nat) : Bool := num ∈ [8, 10, 11, 12, 13, 14, 17, 21, 29, 30]

/-! ## The frame -/

/-- The struct `registers` at an address. -/
def registersAt (m : Mem) (a : UInt64) : Registers :=
  { rax := loadWord m a
    rbx := loadWord m (a + 8)
    rcx := loadWord m (a + 16)
    rdx := loadWord m (a + 24)
    rsi := loadWord m (a + 32)
    rdi := loadWord m (a + 40)
    rbp := loadWord m (a + 48)
    r8 := loadWord m (a + 56)
    r9 := loadWord m (a + 64)
    r10 := loadWord m (a + 72)
    r11 := loadWord m (a + 80)
    r12 := loadWord m (a + 88)
    r13 := loadWord m (a + 96)
    r14 := loadWord m (a + 104)
    r15 := loadWord m (a + 112)
    interruptNo := loadWord m (a + 120)
    errorNo := loadWord m (a + 128)
    rip := loadWord m (a + 136)
    cs := loadWord m (a + 144)
    rflags := loadWord m (a + 152)
    rsp := loadWord m (a + 160)
    ss := loadWord m (a + 168) }

/-- `**context`, for a handler that starts in `c`. -/
def frameSeen (c : Cpu) : Registers := registersAt c.mem (loadWord c.mem (c.regs .rdi))

/-- A frame with the general registers `regs`. -/
def frameOf (regs : Reg → UInt64) (interruptNo errorNo rip cs rflags rsp ss : UInt64) :
    Registers :=
  { rax := regs .rax
    rbx := regs .rbx
    rcx := regs .rcx
    rdx := regs .rdx
    rsi := regs .rsi
    rdi := regs .rdi
    rbp := regs .rbp
    r8 := regs .r8
    r9 := regs .r9
    r10 := regs .r10
    r11 := regs .r11
    r12 := regs .r12
    r13 := regs .r13
    r14 := regs .r14
    r15 := regs .r15
    interruptNo, errorNo, rip, cs, rflags, rsp, ss }

def interrupted (s : Cpu) (num : Nat) (error : UInt64) : Registers :=
  frameOf s.regs (UInt64.ofNat num) (if pushesErrorCode num then error else 0) s.rip
    s.cs.toUInt64 s.rflags (s.regs .rsp) s.ss.toUInt64

/-! ## The law -/

/-- The state when the stub `code` calls the handler. -/
def atCall (code : List Instr) (s : Cpu) (num : Nat) (error : UInt64) : Cpu :=
  exec (interrupt s (if pushesErrorCode num then some error else none)) (code ++ saveRegisters)

/-- The handler returns with its stack pointer where it was, and with the
pointer and the struct above its return address as they were. -/
structure LeavesFrame (handler : Cpu → Cpu) (c : Cpu) : Prop where
  rsp : (handler c).regs .rsp = c.regs .rsp
  frame : ∀ x, (x - (c.regs .rsp + 8)).toNat < 184 → (handler c).mem x = c.mem x

structure SameRegisters (c s : Cpu) : Prop where
  regs : ∀ r, c.regs r = s.regs r
  rip : c.rip = s.rip
  cs : c.cs = s.cs
  rflags : c.rflags = s.rflags
  ss : c.ss = s.ss

/-- The frame holds the interrupted values, and a handler that leaves it
unchanged returns to them. -/
structure FrameFaithful (code : List Instr) (s : Cpu) (num : Nat) (error : UInt64) : Prop where
  seen : ∀ returnAddress, frameSeen ((atCall code s num error).pushWord returnAddress) =
    interrupted s num error
  restored : ∀ handler returnAddress,
    LeavesFrame handler ((atCall code s num error).pushWord returnAddress) →
    SameRegisters
      (exec (call handler returnAddress (atCall code s num error)) restoreRegisters) s

/-! ## Saving and restoring -/

/-- The general registers in the order of the struct. -/
def general : List Reg :=
  [.rax, .rbx, .rcx, .rdx, .rsi, .rdi, .rbp, .r8, .r9, .r10, .r11, .r12, .r13, .r14, .r15]

theorem mem_general {r : Reg} (h : r ≠ .rsp) : r ∈ general := by
  cases r <;> first | exact absurd rfl h | decide

theorem saveRegisters_eq :
    saveRegisters = general.reverse.map .push ++ [.push .rsp, .mov .rdi .rsp] := rfl

theorem restoreRegisters_eq :
    restoreRegisters = .pop .rsp :: (general.map .pop ++ [.addImm .rsp 16, .iretq]) := rfl

/-- A word with the address of the words above it. -/
structure Pointed (c : Cpu) (ws : List UInt64) : Prop where
  holds : c.Holds ((c.regs .rsp + 8) :: ws)
  rdi : c.regs .rdi = c.regs .rsp

theorem saved {c : Cpu} {ws : List UInt64} (h : c.Holds ws) (hlen : ws.length < 2 ^ 32) :
    Pointed (exec c saveRegisters) (general.map c.regs ++ ws) := by
  obtain ⟨hheld, -⟩ := exec_pushes general.reverse (by decide) h
    (by rw [List.length_reverse]; exact Nat.lt_of_lt_of_le (Nat.add_lt_add_left hlen _) (by decide))
  rw [List.map_reverse (f := c.regs), List.reverse_reverse] at hheld
  rw [saveRegisters_eq, exec_append]
  generalize exec c (general.reverse.map .push) = c₁ at hheld ⊢
  have hlen' : (general.map c.regs ++ ws).length < 2 ^ 60 := by
    rw [List.length_append, List.length_map]
    exact Nat.lt_of_lt_of_le (Nat.add_lt_add_left hlen _) (by decide)
  have hpush := hheld.pushWord hlen' (c₁.regs .rsp)
  have hdi : exec c₁ [.push .rsp, .mov .rdi .rsp] =
      (c₁.pushWord (c₁.regs .rsp)).set .rdi ((c₁.pushWord (c₁.regs .rsp)).regs .rsp) := rfl
  have hrsp := c₁.pushWord_rsp_add (c₁.regs .rsp)
  rw [hdi]
  generalize c₁.pushWord (c₁.regs .rsp) = c₂ at hpush hrsp ⊢
  rw [← hrsp] at hpush
  have hkeep : (c₂.set .rdi (c₂.regs .rsp)).regs .rsp = c₂.regs .rsp := c₂.set_regs (by decide) _
  refine ⟨?_, ?_⟩
  · rw [hkeep]
    exact hpush.set (by decide) _
  · rw [hkeep]
    exact c₂.set_regs_same .rdi _

theorem registersAt_eq {m : Mem} {a : UInt64} {regs : Reg → UInt64}
    {num error rip cs rflags rsp ss : UInt64}
    (h : Stacked m a (general.map regs ++ [num, error, rip, cs, rflags, rsp, ss])) :
    registersAt m a = frameOf regs num error rip cs rflags rsp ss := by
  simp only [general, List.map_cons, List.map_nil, List.cons_append, List.nil_append, Stacked,
    UInt64.add_assoc, UInt64.reduceAdd] at h
  obtain ⟨h₀, h₁, h₂, h₃, h₄, h₅, h₆, h₇, h₈, h₉, h₁₀, h₁₁, h₁₂, h₁₃, h₁₄, h₁₅, h₁₆, h₁₇, h₁₈, h₁₉,
    h₂₀, h₂₁, -⟩ := h
  unfold registersAt frameOf
  rw [h₀, h₁, h₂, h₃, h₄, h₅, h₆, h₇, h₈, h₉, h₁₀, h₁₁, h₁₂, h₁₃, h₁₄, h₁₅, h₁₆, h₁₇, h₁₈, h₁₉, h₂₀,
    h₂₁]

/-- What the handler sees is the state in which the registers were saved. -/
theorem frameSeen_saved {c : Cpu} {num error rip cs rflags rsp ss : UInt64}
    (h : c.Holds [num, error, rip, cs, rflags, rsp, ss]) (returnAddress : UInt64) :
    frameSeen ((exec c saveRegisters).pushWord returnAddress) =
      frameOf c.regs num error rip cs rflags rsp ss := by
  obtain ⟨hholds, hrdi⟩ := saved h (Nat.lt_of_lt_of_le (Nat.lt_succ_self 7) (by decide))
  generalize exec c saveRegisters = c₁ at hholds hrdi ⊢
  obtain ⟨-, hstack⟩ := hholds.pushWord (by simp [general]) returnAddress
  rw [c₁.pushWord_rsp_add] at hstack
  obtain ⟨hpointer, hframe⟩ := hstack
  unfold frameSeen
  rw [c₁.pushWord_regs (by decide), hrdi, hpointer]
  exact registersAt_eq hframe

/-- A handler that leaves the frame unchanged returns to the state in which
the registers were saved. -/
theorem restored_saved {c : Cpu} {num error rip cs rflags rsp ss : UInt64}
    (h : c.Holds [num, error, rip, cs, rflags, rsp, ss]) {handler : Cpu → Cpu}
    {returnAddress : UInt64}
    (hleaves : LeavesFrame handler ((exec c saveRegisters).pushWord returnAddress)) :
    ∃ c', exec (call handler returnAddress (exec c saveRegisters)) restoreRegisters = c' ∧
      c'.rip = rip ∧ c'.cs = cs.toUInt16 ∧ c'.rflags = rflags ∧ c'.regs .rsp = rsp ∧
      c'.ss = ss.toUInt16 ∧ ∀ r ≠ .rsp, c'.regs r = c.regs r := by
  obtain ⟨hholds, -⟩ := saved h (Nat.lt_of_lt_of_le (Nat.lt_succ_self 7) (by decide))
  generalize exec c saveRegisters = c₁ at hholds hleaves ⊢
  obtain ⟨hrsp, hmem⟩ := hleaves
  rw [c₁.pushWord_rsp_add] at hmem
  have hcall : (call handler returnAddress c₁).regs .rsp = c₁.regs .rsp := by
    rw [call, Cpu.drop_rsp, hrsp, c₁.pushWord_rsp_add]
  -- the handler gives back the words above its return address
  have hback : (call handler returnAddress c₁).Holds
      ((c₁.regs .rsp + 8) :: (general.map c.regs ++ [num, error, rip, cs, rflags, rsp, ss])) := by
    have hstack := (hholds.pushWord (by simp [general]) returnAddress).2
    rw [c₁.pushWord_rsp_add] at hstack
    unfold Cpu.Holds
    rw [hcall]
    exact hstack.congr (by simp [general]) fun x hx => hmem x (by simpa [general] using hx)
  rw [← hcall] at hback
  generalize call handler returnAddress c₁ = c₂ at hback ⊢
  obtain ⟨hframe, hregs⟩ := exec_pops general (by decide) (by decide) hback.popRsp
  rw [restoreRegisters_eq, exec_cons, exec_append, exec_cons, exec_cons, exec_nil]
  generalize exec (step c₂ (.pop .rsp)) (general.map .pop) = c₃ at hframe hregs ⊢
  obtain ⟨hrip, hcs, hrflags, hsp, hss, hkeep⟩ := iret_eq hframe.skip
  refine ⟨_, rfl, hrip, hcs, hrflags, hsp, hss, fun r hr => ?_⟩
  rw [← hregs r (mem_general hr)]
  exact (hkeep r hr).trans (c₃.set_regs hr _)

/-! ## What the stubs leave for `saveRegisters` -/

/-- The stack of the interrupted code when the stub starts. -/
def entryRsp (s : Cpu) : UInt64 := (s.regs .rsp &&& ~~~15) - 8 - 8 - 8 - 8 - 8

def frameTail (s : Cpu) (num error : UInt64) : List UInt64 :=
  [num, error, s.rip, s.cs.toUInt64, s.rflags, s.regs .rsp, s.ss.toUInt64]

theorem isrWithoutErrorCode_prepares (s : Cpu) (num : Nat) :
    (exec (interrupt s none) (isrWithoutErrorCode num)).Holds
        (frameTail s (UInt64.ofNat num) 0) ∧
      ∀ r ≠ .rsp, (exec (interrupt s none) (isrWithoutErrorCode num)).regs r = s.regs r := by
  obtain ⟨hholds, hregs⟩ := interrupt_holds s
  generalize interrupt s none = c at hholds hregs ⊢
  unfold isrWithoutErrorCode
  rw [exec_cons, exec_cons, exec_nil]
  refine ⟨(hholds.pushWord (by simp) _).pushWord (by simp) _, fun r hr => ?_⟩
  exact ((Cpu.pushWord_regs _ hr _).trans (Cpu.pushWord_regs _ hr _)).trans (hregs r hr)

theorem isrWithErrorCode_prepares (s : Cpu) (num : Nat) (error : UInt64) :
    (exec (interrupt s (some error)) (isrWithErrorCode num)).Holds
        (frameTail s (UInt64.ofNat num) error) ∧
      ∀ r ≠ .rsp, (exec (interrupt s (some error)) (isrWithErrorCode num)).regs r = s.regs r := by
  obtain ⟨hholds, hregs⟩ := interrupt_holds s
  rw [interrupt_error]
  generalize interrupt s none = c at hholds hregs ⊢
  unfold isrWithErrorCode
  rw [exec_cons, exec_nil]
  refine ⟨(hholds.pushWord (by simp) _).pushWord (by simp) _, fun r hr => ?_⟩
  exact ((Cpu.pushWord_regs _ hr _).trans (Cpu.pushWord_regs _ hr _)).trans (hregs r hr)

/-- The interrupted stack does not start in the five words above the system
call stack. -/
def StacksApart (syscallStackTop : UInt64) (s : Cpu) : Prop :=
  ((s.regs .rsp &&& ~~~15) - syscallStackTop).toNat = 0 ∨
    40 ≤ ((s.regs .rsp &&& ~~~15) - syscallStackTop).toNat

theorem isr254_eq (syscallStackTop : UInt64) : isr254 syscallStackTop =
    .mov .r13 .rsp :: .movImm .rsp syscallStackTop ::
      (copyBlock .r13 5 ++ [.pushImm 0, .pushImm 254]) := rfl

theorem isr254_prepares {syscallStackTop : UInt64} {s : Cpu}
    (h : StacksApart syscallStackTop s) :
    (exec (interrupt s none) (isr254 syscallStackTop)).Holds (frameTail s 254 0) ∧
      (exec (interrupt s none) (isr254 syscallStackTop)).regs .r13 = entryRsp s ∧
      ∀ r ≠ .rsp, r ≠ .r13 →
        (exec (interrupt s none) (isr254 syscallStackTop)).regs r = s.regs r := by
  obtain ⟨hholds, hregs⟩ := interrupt_holds s
  have hentry : (interrupt s none).regs .rsp = entryRsp s := interrupt_rsp s
  generalize interrupt s none = c at hholds hregs hentry ⊢
  rw [isr254_eq, exec_cons, exec_cons, exec_append]
  -- `r13` points to the processor's frame, `rsp` to the top of the other stack
  have hr13 : (step (step c (.mov .r13 .rsp)) (.movImm .rsp syscallStackTop)).regs .r13 =
      entryRsp s := by
    refine (Cpu.set_regs _ (by decide) _).trans ((Cpu.set_regs_same ..).trans ?_)
    exact hentry
  have hrsp : (step (step c (.mov .r13 .rsp)) (.movImm .rsp syscallStackTop)).regs .rsp =
      syscallStackTop := Cpu.set_regs_same ..
  have hother : ∀ r ≠ .rsp, r ≠ .r13 →
      (step (step c (.mov .r13 .rsp)) (.movImm .rsp syscallStackTop)).regs r = s.regs r :=
    fun r hr hr' => (Cpu.set_regs _ hr _).trans ((Cpu.set_regs _ hr' _).trans (hregs r hr))
  have hblock : Stacked (step (step c (.mov .r13 .rsp)) (.movImm .rsp syscallStackTop)).mem
      (entryRsp s) [s.rip, s.cs.toUInt64, s.rflags, s.regs .rsp, s.ss.toUInt64] := by
    rw [← hentry]
    exact hholds
  generalize step (step c (.mov .r13 .rsp)) (.movImm .rsp syscallStackTop) = c₁
    at hr13 hrsp hother hblock ⊢
  have hend : entryRsp s + 8 * UInt64.ofNat 5 = s.regs .rsp &&& ~~~15 := by
    unfold entryRsp
    grind
  rw [← hr13] at hblock
  have hnil : c₁.Holds [] := trivial
  have hgap : (c₁.regs .r13 + 8 * UInt64.ofNat 5 - c₁.regs .rsp).toNat = 0 ∨
      8 * 5 ≤ (c₁.regs .r13 + 8 * UInt64.ofNat 5 - c₁.regs .rsp).toNat := by
    rw [hr13, hrsp, hend]
    exact h
  obtain ⟨hheld, hkeep⟩ := exec_copyBlock hnil (by simp) (by decide) hblock hgap
  rw [exec_cons, exec_cons, exec_nil]
  have htail : ∀ r ≠ .rsp, (step (step (exec c₁ (copyBlock .r13 5)) (.pushImm 0))
      (.pushImm 254)).regs r = c₁.regs r := fun r hr =>
    (Cpu.pushWord_regs _ hr _).trans ((Cpu.pushWord_regs _ hr _).trans (hkeep r hr))
  refine ⟨(hheld.pushWord (by simp) 0).pushWord (by simp) 254, ?_, fun r hr hr' => ?_⟩
  · exact (htail _ (by decide)).trans hr13
  · exact (htail r hr).trans (hother r hr hr')

/-! ## When the frame is faithful -/

theorem frameOf_congr {regs regs' : Reg → UInt64} (h : ∀ r ≠ .rsp, regs r = regs' r)
    (num error rip cs rflags rsp ss : UInt64) :
    frameOf regs num error rip cs rflags rsp ss = frameOf regs' num error rip cs rflags rsp ss := by
  have hall : ∀ r ∈ general, regs r = regs' r := fun r hr => h r fun hsp => by
    rw [hsp] at hr
    exact absurd hr (by decide)
  simp only [general, List.forall_mem_cons] at hall
  obtain ⟨h₀, h₁, h₂, h₃, h₄, h₅, h₆, h₇, h₈, h₉, h₁₀, h₁₁, h₁₂, h₁₃, h₁₄, -⟩ := hall
  unfold frameOf
  rw [h₀, h₁, h₂, h₃, h₄, h₅, h₆, h₇, h₈, h₉, h₁₀, h₁₁, h₁₂, h₁₃, h₁₄]

theorem atCall_eq (code : List Instr) (s : Cpu) (num : Nat) (error : UInt64) :
    atCall code s num error = exec (exec (interrupt s
      (if pushesErrorCode num then some error else none)) code) saveRegisters := exec_append ..

/-- A stub that leaves the general registers alone and the right words on the
stack builds a faithful frame. -/
theorem faithful_of_prepares {code : List Instr} {s : Cpu} {num : Nat} {error : UInt64}
    (hholds : (exec (interrupt s (if pushesErrorCode num then some error else none)) code).Holds
      (frameTail s (UInt64.ofNat num) (if pushesErrorCode num then error else 0)))
    (hregs : ∀ r ≠ .rsp,
      (exec (interrupt s (if pushesErrorCode num then some error else none)) code).regs r =
        s.regs r) :
    FrameFaithful code s num error where
  seen returnAddress := by
    rw [atCall_eq, frameSeen_saved hholds, frameOf_congr hregs]
    rfl
  restored handler returnAddress hleaves := by
    rw [atCall_eq] at hleaves ⊢
    obtain ⟨c', hc', hrip, hcs, hrflags, hrsp, hss, hkeep⟩ := restored_saved hholds hleaves
    rw [hc']
    refine ⟨fun r => ?_, hrip, ?_, hrflags, ?_⟩
    · by_cases hr : r = .rsp
      · rw [hr, hrsp]
      · rw [hkeep r hr, hregs r hr]
    · rw [hcs, UInt16.toUInt16_toUInt64]
    · rw [hss, UInt16.toUInt16_toUInt64]

theorem isr_cases {syscallStackTop : UInt64} {num : Nat} {code : List Instr}
    (h : isr syscallStackTop num = some code) :
    (num = 254 ∧ code = isr254 syscallStackTop ∧ pushesErrorCode num = false) ∨
    (num ≠ 254 ∧ code = isrWithErrorCode num ∧ pushesErrorCode num = true) ∨
    (num ≠ 254 ∧ code = isrWithoutErrorCode num ∧ pushesErrorCode num = false) := by
  unfold isr at h
  split at h
  · rename_i hnum
    subst hnum
    exact .inl ⟨rfl, (Option.some.inj h).symm, rfl⟩
  · rename_i hne
    split at h
    · rename_i hnum
      refine .inr (.inl ⟨hne, (Option.some.inj h).symm, ?_⟩)
      simp [pushesErrorCode]
      omega
    · rename_i hnot
      split at h
      · rename_i hnum
        refine .inr (.inr ⟨hne, (Option.some.inj h).symm, ?_⟩)
        simp [pushesErrorCode]
        omega
      · cases h

/-- The frame is faithful for every stub but `isr_254`, and for that one when
the interrupted `r13` is what the stub writes into it. The handler is any that
leaves the frame as it is; what it sees of the interrupted registers, and what
the code returns to, are both part of the law. -/
theorem frame_faithful_iff {syscallStackTop : UInt64} {num : Nat} {code : List Instr}
    (hcode : isr syscallStackTop num = some code) {s : Cpu}
    (hapart : num = 254 → StacksApart syscallStackTop s) (error : UInt64) :
    FrameFaithful code s num error ↔ (num = 254 → s.regs .r13 = entryRsp s) := by
  rcases isr_cases hcode with ⟨rfl, rfl, herror⟩ | ⟨hne, rfl, herror⟩ | ⟨hne, rfl, herror⟩
  · obtain ⟨hholds, hr13, hregs⟩ := isr254_prepares (hapart rfl)
    constructor
    · intro hfaithful _
      have hseen := hfaithful.seen 0
      rw [atCall_eq] at hseen
      have hframe := (frameSeen_saved hholds 0).symm.trans hseen
      exact (congrArg Registers.r13 hframe).symm.trans hr13
    · intro hentry
      refine faithful_of_prepares ?_ fun r hr => ?_
      · exact hholds
      · by_cases hr' : r = .r13
        · rw [hr', hentry rfl]
          exact hr13
        · exact hregs r hr hr'
  · obtain ⟨hholds, hregs⟩ := isrWithErrorCode_prepares s num error
    refine iff_of_true (faithful_of_prepares ?_ ?_) fun h => absurd h hne
    · rw [herror]
      exact hholds
    · rw [herror]
      exact hregs
  · obtain ⟨hholds, hregs⟩ := isrWithoutErrorCode_prepares s num
    refine iff_of_true (faithful_of_prepares ?_ ?_) fun h => absurd h hne
    · rw [herror]
      exact hholds
    · rw [herror]
      exact hregs

/-! ### A page fault and a system call -/

def running : Cpu :=
  { regs := fun r => if r = .rsp then 0xA000FFF8 else 0
    rip := 0x400000
    cs := 0x28
    rflags := 0x200
    ss := 0x30
    mem := fun _ => 0 }

def stackTop : UInt64 := 0xFFFFFFFF80010000

/-- One whose `r13` happens to be the address of the processor's frame. -/
def prepared : Cpu := running.set .r13 (entryRsp running)

theorem frame_faithful_iff_running : FrameFaithful (isrWithErrorCode 14) running 14 2 ∧
    FrameFaithful (isr254 stackTop) prepared 254 0 := by
  have hfault : isr stackTop 14 = some (isrWithErrorCode 14) := rfl
  have hsyscall : isr stackTop 254 = some (isr254 stackTop) := rfl
  have hapart : StacksApart stackTop prepared := .inr (by decide +kernel)
  constructor
  · refine (frame_faithful_iff hfault (fun h => ?_) 2).mpr fun h => ?_
    · exact absurd h (by decide)
    · exact absurd h (by decide)
  · exact (frame_faithful_iff hsyscall (fun _ => hapart) 0).mpr fun _ => by decide +kernel

/-- A system call with `r13 = 0` shows the handler another `r13`, and
returns with it. -/
theorem syscall_loses_r13 : ∃ code, isr stackTop 254 = some code ∧ StacksApart stackTop running ∧
    ¬ FrameFaithful code running 254 0 := by
  have hapart : StacksApart stackTop running := .inr (by decide +kernel)
  refine ⟨_, rfl, hapart, fun h => ?_⟩
  have hr13 := (frame_faithful_iff rfl (fun _ => hapart) 0).mp h rfl
  exact absurd hr13 (by decide +kernel)

end VersionSix.Interrupt
