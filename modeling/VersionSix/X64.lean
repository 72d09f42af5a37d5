import Mathlib.Data.List.Induction
import VersionSix.Bytes

/-!
# Stack code on x86-64

The part of the machine that entry and return sequences use: general registers,
the fields an interrupt saves, byte memory over 64-bit addresses, and the
instructions that move words between registers and the stack. Addresses wrap,
so nothing here asks for room below a stack pointer.

`Stacked m sp ws` says that the words `ws` lie at `sp` and upwards. A push adds
one in front, a pop takes the first one off, and a block of pops undoes the
block of pushes that lists the same registers backwards (`exec_pushes`,
`exec_pops`). Straight-line stack code is verified by these two lemmas and the
few instructions between the blocks.

A frame can also be copied from one stack to another word by word
(`copyBlock`); what is written never reaches what is left as long as the blocks
are apart (`copy_apart`). What code behind a `call` does is not modelled: it
starts with the return address on its stack and is asked to leave the frame
alone.
-/

namespace X64

/-! ## Memory -/

abbrev Mem := UInt64 → UInt8

/-- The bytes from `a` on. -/
def window (m : Mem) (a : UInt64) : ByteStore.Bytes := fun i => m (a + UInt64.ofNat i)

def loadWord (m : Mem) (a : UInt64) : UInt64 := UInt64.ofNat (ByteStore.le 8 (window m a) 0)

def storeWord (m : Mem) (a w : UInt64) : Mem :=
  fun x => if (x - a).toNat < 8 then UInt8.ofNat (w.toNat / 256 ^ (x - a).toNat) else m x

/-- No byte of the word at `a` is one of the word at `b`. -/
def Apart (a b : UInt64) : Prop := 8 ≤ (b - a).toNat ∧ 8 ≤ (a - b).toNat

theorem toNat_offset (a : UInt64) {i : Nat} (h : i < 8) :
    (a + UInt64.ofNat i - a).toNat = i := by
  rw [UInt64.toNat_sub, UInt64.toNat_add, UInt64.toNat_ofNat']
  have := a.toNat_lt
  omega

theorem loadWord_storeWord_same (m : Mem) (a w : UInt64) : loadWord (storeWord m a w) a = w := by
  have hwindow : ∀ i, i < 8 → window (storeWord m a w) a (0 + i) =
      ByteStore.setLe 8 (window m a) 0 w.toNat (0 + i) := fun i hi => by
    unfold window storeWord ByteStore.setLe
    rw [Nat.zero_add, toNat_offset a hi, if_pos hi, if_pos ⟨Nat.zero_le _, by omega⟩, Nat.sub_zero]
  have hw : w.toNat < 256 ^ 8 := w.toNat_lt
  unfold loadWord
  rw [ByteStore.le_congr hwindow, ByteStore.le_setLe_same, Nat.mod_eq_of_lt hw]
  exact UInt64.ofNat_toNat

theorem loadWord_storeWord_apart {m : Mem} {a b : UInt64} (h : Apart a b) (w : UInt64) :
    loadWord (storeWord m a w) b = loadWord m b := by
  have hout : ∀ i, i < 8 → ¬ (b + UInt64.ofNat i - a).toNat < 8 := fun i hi => by
    obtain ⟨h₁, h₂⟩ := h
    rw [UInt64.toNat_sub] at h₁ h₂
    rw [UInt64.toNat_sub, UInt64.toNat_add, UInt64.toNat_ofNat']
    have := a.toNat_lt
    have := b.toNat_lt
    omega
  unfold loadWord
  refine congrArg UInt64.ofNat (ByteStore.le_congr fun i hi => ?_)
  unfold window storeWord
  rw [Nat.zero_add, if_neg (hout i hi)]

/-! ## Words on a stack -/

def Stacked (m : Mem) : UInt64 → List UInt64 → Prop
  | _, [] => True
  | sp, w :: ws => loadWord m sp = w ∧ Stacked m (sp + 8) ws

theorem Stacked.store {m : Mem} {a sp : UInt64} {ws : List UInt64} (h : Stacked m sp ws)
    (hlow : 8 ≤ (sp - a).toNat) (hroom : (sp - a).toNat + 8 * ws.length ≤ 2 ^ 64) (w : UInt64) :
    Stacked (storeWord m a w) sp ws := by
  induction ws generalizing sp with
  | nil => exact trivial
  | cons v ws ih =>
      obtain ⟨hv, hws⟩ := h
      rw [List.length_cons] at hroom
      have hapart : Apart a sp := by
        refine ⟨hlow, ?_⟩
        rw [UInt64.toNat_sub] at hlow hroom ⊢
        have := a.toNat_lt
        have := sp.toNat_lt
        omega
      refine ⟨(loadWord_storeWord_apart hapart w).trans hv, ?_⟩
      cases ws with
      | nil => exact trivial
      | cons v' ws =>
          rw [List.length_cons] at hroom
          have hnext : (sp + 8 - a).toNat = (sp - a).toNat + 8 := by
            have h8 : (8 : UInt64).toNat = 8 := rfl
            rw [UInt64.toNat_sub] at hroom ⊢
            rw [UInt64.toNat_sub, UInt64.toNat_add, h8]
            have := a.toNat_lt
            have := sp.toNat_lt
            omega
          refine ih hws (by rw [hnext]; omega) ?_
          rw [hnext, List.length_cons]
          omega

theorem Stacked.append_iff {m : Mem} {sp : UInt64} {vs ws : List UInt64} :
    Stacked m sp (vs ++ ws) ↔
      Stacked m sp vs ∧ Stacked m (sp + 8 * UInt64.ofNat vs.length) ws := by
  induction vs generalizing sp with
  | nil =>
      have hsp : sp + 8 * UInt64.ofNat 0 = sp := UInt64.add_zero sp
      rw [List.nil_append, List.length_nil, hsp]
      exact (and_iff_right trivial).symm
  | cons v vs ih =>
      have hsp : sp + 8 + 8 * UInt64.ofNat vs.length = sp + 8 * UInt64.ofNat (v :: vs).length := by
        rw [List.length_cons, UInt64.ofNat_add]
        grind
      rw [List.cons_append, Stacked, Stacked, ih, hsp, and_assoc]

theorem Stacked.congr {m m' : Mem} {sp : UInt64} {ws : List UInt64} (h : Stacked m sp ws)
    (hroom : 8 * ws.length ≤ 2 ^ 64) (hm : ∀ x, (x - sp).toNat < 8 * ws.length → m' x = m x) :
    Stacked m' sp ws := by
  induction ws generalizing sp with
  | nil => exact trivial
  | cons w ws ih =>
      obtain ⟨hw, hws⟩ := h
      rw [List.length_cons] at hroom hm
      refine ⟨?_, ih hws (by omega) fun x hx => hm x ?_⟩
      · rw [← hw]
        refine congrArg UInt64.ofNat (ByteStore.le_congr fun i hi => hm _ ?_)
        rw [Nat.zero_add, toNat_offset sp hi]
        omega
      · have h8 : (8 : UInt64).toNat = 8 := rfl
        rw [UInt64.toNat_sub, UInt64.toNat_add, h8] at hx
        rw [UInt64.toNat_sub]
        have := x.toNat_lt
        have := sp.toNat_lt
        omega

theorem Stacked.push {m : Mem} {sp : UInt64} {ws : List UInt64} (h : Stacked m sp ws)
    (hlen : ws.length < 2 ^ 60) (w : UInt64) :
    Stacked (storeWord m (sp - 8) w) (sp - 8) (w :: ws) := by
  have hbelow : (sp - (sp - 8)).toNat = 8 := by
    have h8 : (8 : UInt64).toNat = 8 := rfl
    rw [UInt64.toNat_sub, UInt64.toNat_sub, h8]
    have := sp.toNat_lt
    omega
  refine ⟨loadWord_storeWord_same .., ?_⟩
  rw [UInt64.sub_add_cancel]
  exact h.store hbelow.ge (by rw [hbelow]; omega) w

/-! ## The machine -/

inductive Reg
  | rax | rbx | rcx | rdx | rsi | rdi | rbp | rsp | r8 | r9 | r10 | r11 | r12 | r13 | r14 | r15
deriving DecidableEq

structure Cpu where
  regs : Reg → UInt64
  rip : UInt64
  cs : UInt16
  rflags : UInt64
  ss : UInt16
  mem : Mem

/-- The instructions between jumps and calls. -/
inductive Instr
  | push (r : Reg)
  | pushImm (v : UInt64)
  /-- `push disp(r)` -/
  | pushMem (disp : UInt64) (r : Reg)
  | pop (r : Reg)
  | mov (dst src : Reg)
  | movImm (dst : Reg) (v : UInt64)
  /-- `add` of a constant; the flags it sets are not kept, since `iretq`
  loads all of them -/
  | addImm (dst : Reg) (v : UInt64)
  | iretq

namespace Cpu

def set (c : Cpu) (r : Reg) (v : UInt64) : Cpu := { c with regs := Function.update c.regs r v }

def pushWord (c : Cpu) (v : UInt64) : Cpu :=
  { c.set .rsp (c.regs .rsp - 8) with mem := storeWord c.mem (c.regs .rsp - 8) v }

def top (c : Cpu) : UInt64 := loadWord c.mem (c.regs .rsp)

def drop (c : Cpu) : Cpu := c.set .rsp (c.regs .rsp + 8)

/-- `iretq` takes five words in 64-bit mode. -/
def iret (c : Cpu) : Cpu :=
  let sp := c.regs .rsp
  { c.set .rsp (loadWord c.mem (sp + 8 + 8 + 8)) with
    rip := loadWord c.mem sp
    cs := (loadWord c.mem (sp + 8)).toUInt16
    rflags := loadWord c.mem (sp + 8 + 8)
    ss := (loadWord c.mem (sp + 8 + 8 + 8 + 8)).toUInt16 }

end Cpu

/-- One instruction. The value pushed from `rsp` is the one before the push,
and `pop %rsp` leaves the popped word in it. -/
def step (c : Cpu) : Instr → Cpu
  | .push r => c.pushWord (c.regs r)
  | .pushImm v => c.pushWord v
  | .pushMem disp r => c.pushWord (loadWord c.mem (c.regs r + disp))
  | .pop r => c.drop.set r c.top
  | .mov dst src => c.set dst (c.regs src)
  | .movImm dst v => c.set dst v
  | .addImm dst v => c.set dst (c.regs dst + v)
  | .iretq => c.iret

def exec (c : Cpu) (code : List Instr) : Cpu := code.foldl step c

/-- `call`: the callee starts with the return address on its stack, and its
`ret` takes it off again. -/
def call (callee : Cpu → Cpu) (returnAddress : UInt64) (c : Cpu) : Cpu :=
  (callee (c.pushWord returnAddress)).drop

/-- The frame the processor pushes for an interrupt that does not change the
privilege level: on the stack of the interrupted code, aligned down to 16
bytes. -/
def interrupt (c : Cpu) (error : Option UInt64) : Cpu :=
  let sp := c.regs .rsp
  let c' := c.set .rsp (sp &&& ~~~15)
  let c' := c'.pushWord c.ss.toUInt64
  let c' := c'.pushWord sp
  let c' := c'.pushWord c.rflags
  let c' := c'.pushWord c.cs.toUInt64
  let c' := c'.pushWord c.rip
  match error with
  | some e => c'.pushWord e
  | none => c'

/-! ## Blocks of pushes and pops -/

/-- The words on the stack of `c` begin with `ws`. -/
def Cpu.Holds (c : Cpu) (ws : List UInt64) : Prop := Stacked c.mem (c.regs .rsp) ws

theorem Cpu.set_regs (c : Cpu) {r r' : Reg} (h : r' ≠ r) (v : UInt64) :
    (c.set r v).regs r' = c.regs r' := Function.update_of_ne h ..

theorem Cpu.set_regs_same (c : Cpu) (r : Reg) (v : UInt64) : (c.set r v).regs r = v :=
  Function.update_self ..

theorem Cpu.pushWord_regs (c : Cpu) {r : Reg} (h : r ≠ .rsp) (v : UInt64) :
    (c.pushWord v).regs r = c.regs r := c.set_regs h _

theorem Cpu.pushWord_rsp (c : Cpu) (v : UInt64) : (c.pushWord v).regs .rsp = c.regs .rsp - 8 :=
  c.set_regs_same .rsp _

theorem Cpu.pushWord_rsp_add (c : Cpu) (v : UInt64) :
    (c.pushWord v).regs .rsp + 8 = c.regs .rsp := by
  rw [c.pushWord_rsp, UInt64.sub_add_cancel]

theorem Cpu.Holds.pushWord {c : Cpu} {ws : List UInt64} (h : c.Holds ws)
    (hlen : ws.length < 2 ^ 60) (v : UInt64) : (c.pushWord v).Holds (v :: ws) :=
  Stacked.push h hlen v

theorem Cpu.Holds.top_eq {c : Cpu} {w : UInt64} {ws : List UInt64} (h : c.Holds (w :: ws)) :
    c.top = w := h.1

theorem Cpu.Holds.drop {c : Cpu} {w : UInt64} {ws : List UInt64} (h : c.Holds (w :: ws)) :
    c.drop.Holds ws := h.2

theorem Cpu.Holds.set {c : Cpu} {ws : List UInt64} (h : c.Holds ws) {r : Reg} (hr : r ≠ .rsp)
    (v : UInt64) : (c.set r v).Holds ws := by
  have hsp : (c.set r v).regs .rsp = c.regs .rsp := c.set_regs hr.symm v
  unfold Cpu.Holds
  rw [hsp]
  exact h

theorem Cpu.drop_rsp (c : Cpu) : c.drop.regs .rsp = c.regs .rsp + 8 := c.set_regs_same .rsp _

theorem Cpu.Holds.popRsp {c : Cpu} {ws : List UInt64} (h : c.Holds ((c.regs .rsp + 8) :: ws)) :
    (step c (.pop .rsp)).Holds ws := by
  have hrsp : (step c (.pop .rsp)).regs .rsp = c.regs .rsp + 8 :=
    (c.drop.set_regs_same .rsp _).trans h.top_eq
  unfold Cpu.Holds
  rw [hrsp]
  exact h.2

theorem Cpu.Holds.skip {c : Cpu} {v w : UInt64} {ws : List UInt64} (h : c.Holds (v :: w :: ws)) :
    (step c (.addImm .rsp 16)).Holds ws := by
  have hrsp : (step c (.addImm .rsp 16)).regs .rsp = c.regs .rsp + 8 + 8 := by
    rw [UInt64.add_assoc]
    exact c.set_regs_same .rsp _
  unfold Cpu.Holds
  rw [hrsp]
  exact h.2.2

theorem exec_nil (c : Cpu) : exec c [] = c := rfl

theorem exec_cons (c : Cpu) (i : Instr) (code : List Instr) :
    exec c (i :: code) = exec (step c i) code := rfl

theorem exec_append (c : Cpu) (code code' : List Instr) :
    exec c (code ++ code') = exec (exec c code) code' := List.foldl_append ..

/-- A block of pushes of general registers stores their values, the last one
on top, and changes no register but `rsp`. -/
theorem exec_pushes {c : Cpu} (rs : List Reg) {ws : List UInt64} (hrsp : .rsp ∉ rs)
    (h : c.Holds ws) (hlen : rs.length + ws.length < 2 ^ 60) :
    (exec c (rs.map .push)).Holds ((rs.map c.regs).reverse ++ ws) ∧
      ∀ r ≠ .rsp, (exec c (rs.map .push)).regs r = c.regs r := by
  induction rs generalizing c ws with
  | nil => exact ⟨h, fun _ _ => rfl⟩
  | cons r rs ih =>
      rw [List.length_cons] at hlen
      have hkeep : ∀ r' ≠ .rsp, (c.pushWord (c.regs r)).regs r' = c.regs r' :=
        fun _ hr' => c.pushWord_regs hr' _
      obtain ⟨hheld, hregs⟩ := ih (c := c.pushWord (c.regs r))
        (fun hr => hrsp (List.mem_cons_of_mem _ hr)) (h.pushWord (by omega) (c.regs r))
        (by rw [List.length_cons]; omega)
      have hmap : rs.map (c.pushWord (c.regs r)).regs = rs.map c.regs :=
        List.map_congr_left fun r' hr' => hkeep r' fun hsp =>
          hrsp (List.mem_cons_of_mem _ (hsp ▸ hr'))
      refine ⟨?_, fun r' hr' => (hregs r' hr').trans (hkeep r' hr')⟩
      rw [hmap] at hheld
      rw [List.map_cons (f := c.regs), List.reverse_cons, List.append_assoc]
      exact hheld

/-- A block of pops of different registers loads the words on the stack, the
top one first. -/
theorem exec_pops {c : Cpu} (rs : List Reg) {f : Reg → UInt64} {ws : List UInt64}
    (hrsp : .rsp ∉ rs) (hnodup : rs.Nodup) (h : c.Holds (rs.map f ++ ws)) :
    (exec c (rs.map .pop)).Holds ws ∧ ∀ r ∈ rs, (exec c (rs.map .pop)).regs r = f r := by
  -- a register popped once is not written again
  suffices hstep : (exec c (rs.map .pop)).Holds ws ∧
      (∀ r ∈ rs, (exec c (rs.map .pop)).regs r = f r) ∧
      ∀ r ∉ rs, r ≠ .rsp → (exec c (rs.map .pop)).regs r = c.regs r from ⟨hstep.1, hstep.2.1⟩
  induction rs generalizing c with
  | nil => exact ⟨h, fun r hr => absurd hr List.not_mem_nil, fun _ _ _ => rfl⟩
  | cons r rs ih =>
      obtain ⟨hr, hnodup⟩ := List.nodup_cons.mp hnodup
      have hne : r ≠ .rsp := fun hsp => hrsp (hsp ▸ List.mem_cons_self)
      obtain ⟨hheld, hin, hout⟩ := ih (c := c.drop.set r c.top)
        (fun hr => hrsp (List.mem_cons_of_mem _ hr)) hnodup (h.drop.set hne _)
      refine ⟨hheld, fun r' hr' => ?_, fun r' hr' hne' => ?_⟩
      · rcases List.mem_cons.mp hr' with rfl | hr'
        · exact (hout _ hr hne).trans ((Cpu.set_regs_same ..).trans h.top_eq)
        · exact hin r' hr'
      · have hrest := List.not_mem_of_not_mem_cons hr'
        have hne'' := List.ne_of_not_mem_cons hr'
        refine (hout r' hrest hne').trans ((Cpu.set_regs _ hne'' _).trans ?_)
        exact Cpu.set_regs _ hne' _

/-- The frame of an interrupt, and the registers it leaves as they are. -/
theorem interrupt_holds (c : Cpu) :
    (interrupt c none).Holds [c.rip, c.cs.toUInt64, c.rflags, c.regs .rsp, c.ss.toUInt64] ∧
      ∀ r ≠ .rsp, (interrupt c none).regs r = c.regs r := by
  unfold interrupt
  dsimp only
  have hnil : (c.set .rsp (c.regs .rsp &&& ~~~15)).Holds [] := trivial
  have hkeep : ∀ r ≠ .rsp, (c.set .rsp (c.regs .rsp &&& ~~~15)).regs r = c.regs r :=
    fun r hr => c.set_regs hr _
  generalize c.set .rsp (c.regs .rsp &&& ~~~15) = c₀ at hnil hkeep ⊢
  refine ⟨?_, fun r hr => ?_⟩
  · exact ((((hnil.pushWord (by decide) _).pushWord (by simp) _).pushWord (by simp) _).pushWord
      (by simp) _).pushWord (by simp) _
  · simp only [Cpu.pushWord_regs _ hr, hkeep r hr]

theorem interrupt_rsp (c : Cpu) :
    (interrupt c none).regs .rsp = (c.regs .rsp &&& ~~~15) - 8 - 8 - 8 - 8 - 8 := by
  unfold interrupt
  simp only [Cpu.pushWord_rsp, Cpu.set_regs_same]

theorem interrupt_error (c : Cpu) (e : UInt64) :
    interrupt c (some e) = (interrupt c none).pushWord e := rfl

/-- The `n` words at the address in `r` pushed, the last one first. -/
def copyBlock (r : Reg) : Nat → List Instr
  | 0 => []
  | n + 1 => .pushMem (8 * UInt64.ofNat n) r :: copyBlock r n

/-- A block of `n` words that ends `gap` above a stack pointer can be copied
to the stack word by word: what is written never reaches what is left. -/
theorem copy_apart {src sp : UInt64} {n : Nat} (hpos : 0 < n) (hn : n < 2 ^ 32)
    (hgap : (src + 8 * UInt64.ofNat (n + 1) - sp).toNat = 0 ∨
      8 * (n + 1) ≤ (src + 8 * UInt64.ofNat (n + 1) - sp).toNat) :
    8 ≤ (src - (sp - 8)).toNat ∧ (src - (sp - 8)).toNat + 8 * n ≤ 2 ^ 64 := by
  have h8 : (8 : UInt64).toNat = 8 := rfl
  rw [UInt64.toNat_sub, UInt64.toNat_add, UInt64.toNat_mul, UInt64.toNat_ofNat', h8] at hgap
  rw [UInt64.toNat_sub, UInt64.toNat_sub, h8]
  have := src.toNat_lt
  have := sp.toNat_lt
  omega

theorem exec_copyBlock {c : Cpu} {r : Reg} {block ws : List UInt64} (h : c.Holds ws)
    (hlen : block.length + ws.length < 2 ^ 32) (hr : r ≠ .rsp)
    (hblock : Stacked c.mem (c.regs r) block)
    (hgap : (c.regs r + 8 * UInt64.ofNat block.length - c.regs .rsp).toNat = 0 ∨
      8 * block.length ≤ (c.regs r + 8 * UInt64.ofNat block.length - c.regs .rsp).toNat) :
    (exec c (copyBlock r block.length)).Holds (block ++ ws) ∧
      ∀ r' ≠ .rsp, (exec c (copyBlock r block.length)).regs r' = c.regs r' := by
  induction block using List.reverseRecOn generalizing c ws with
  | nil => exact ⟨h, fun _ _ => rfl⟩
  | append_singleton vs w ih =>
      rw [List.length_append, List.length_singleton] at hlen hgap ⊢
      obtain ⟨hvs, hw, -⟩ := Stacked.append_iff.mp hblock
      have hleft : Stacked (c.pushWord w).mem (c.regs r) vs := by
        rcases Nat.eq_zero_or_pos vs.length with hnil | hpos
        · rw [List.length_eq_zero_iff.mp hnil]
          exact trivial
        · obtain ⟨hlow, hroom⟩ := copy_apart hpos (by omega) hgap
          exact hvs.store hlow hroom w
      rw [copyBlock, exec_cons]
      have hstep : step c (.pushMem (8 * UInt64.ofNat vs.length) r) = c.pushWord w :=
        congrArg c.pushWord hw
      have hsrc : (c.pushWord w).regs r = c.regs r := c.pushWord_regs hr w
      have hend : c.regs r + 8 * UInt64.ofNat vs.length - (c.regs .rsp - 8) =
          c.regs r + 8 * UInt64.ofNat (vs.length + 1) - c.regs .rsp := by
        rw [UInt64.ofNat_add]
        grind
      rw [hstep, List.append_assoc]
      obtain ⟨hheld, hregs⟩ := ih (c := c.pushWord w) (h.pushWord (by omega) w)
        (by rw [List.length_cons]; omega) (by rwa [hsrc])
        (by rw [hsrc, c.pushWord_rsp, hend]; omega)
      exact ⟨hheld, fun r' hr' => (hregs r' hr').trans (c.pushWord_regs hr' w)⟩

theorem iret_eq {c : Cpu} {rip cs rflags rsp ss : UInt64} (h : c.Holds [rip, cs, rflags, rsp, ss]) :
    c.iret.rip = rip ∧ c.iret.cs = cs.toUInt16 ∧ c.iret.rflags = rflags ∧
      c.iret.regs .rsp = rsp ∧ c.iret.ss = ss.toUInt16 ∧
      ∀ r ≠ .rsp, c.iret.regs r = c.regs r := by
  unfold Cpu.Holds at h
  simp only [Stacked] at h
  obtain ⟨hrip, hcs, hrflags, hrsp, hss, -⟩ := h
  unfold Cpu.iret
  dsimp only
  rw [hrip, hcs, hrflags, hrsp, hss]
  exact ⟨rfl, rfl, rfl, c.set_regs_same .., rfl, fun r hr => c.set_regs hr _⟩

end X64
