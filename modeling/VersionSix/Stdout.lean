import Mathlib.Data.List.Basic
import VersionSix.CInt

/-!
# Standard output

`stdout_write` puts the bytes of a buffer on the console, or hands them to the
device that stdout is redirected to. The loop for the console takes its byte
from the start of the buffer at every turn and counts in an `int`, so the
console gets what the serial device gets only if all bytes are the same and not
too many (`stdout_same_iff`).

The two loops are run on the same buffer and memory. The serial one compares
pointers and sends each byte once; the console's counts turns in an `int`, and
compares it with the count as an unsigned number, so that from 2^31 on it goes
on below 0. Fuel stands for the time the loop has (`consoleLoop_enough`): a
theorem about a result says how much of it is needed.
-/

namespace VersionSix.Stdout

open CInt

/-! ## Functions -/

/-- The bytes that were put on the main console and written to `COM3`. -/
structure Output where
  console : List UInt8
  com3 : List UInt8
  deriving DecidableEq

/-- A `device`, as far as it is written to. The buffer is the memory from `buff` on. -/
structure Device where
  write : (Nat → UInt8) → UInt64 → Output

/-- The loop of `serial3_write` from `char_buff` on, `left` bytes before `char_buff_end`. -/
def serialLoop (buff : Nat → UInt8) (charBuff : Nat) : Nat → List UInt8
  | 0 => []
  | left + 1 => buff charBuff :: serialLoop buff (charBuff + 1) left

def serial3Write (buff : Nat → UInt8) (count : UInt64) : Output :=
  ⟨[], serialLoop buff 0 count.toNat⟩

def serial3 : Device := ⟨serial3Write⟩

/-- The loop of `stdout_write`; `none` is one that does not end in `fuel` turns. `c_ptr` is
set in each turn. -/
def consoleLoop (buff : Nat → UInt8) (count : UInt64) : Nat → Int → Option (List UInt8)
  | 0, _ => none
  | fuel + 1, i =>
      if uint64 i < count.toNat then
        let cPtr := 0
        (consoleLoop buff count fuel (int32 (i + 1))).map (buff cPtr :: ·)
      else some []

def stdoutWrite (fuel : Nat) (useAsStdout : Option Device) (buff : Nat → UInt8)
    (count : UInt64) : Option Output :=
  match useAsStdout with
  | none => (consoleLoop buff count fuel 0).map fun console => ⟨console, []⟩
  | some device => some (device.write buff count)

/-! ## Statement -/

def bytesOf (buff : Nat → UInt8) (count : UInt64) : List UInt8 :=
  (List.range count.toNat).map buff

def SameOnEverySink (buff : Nat → UInt8) (count : UInt64) : Prop :=
  ∃ fuel shown sent, stdoutWrite fuel none buff count = some shown ∧
    stdoutWrite fuel (some serial3) buff count = some sent ∧
    shown.console = bytesOf buff count ∧ sent.com3 = bytesOf buff count

/-! ## The serial device -/

variable {buff : Nat → UInt8} {count : UInt64}

theorem serialLoop_eq (start left : Nat) :
    serialLoop buff start left = (List.range' start left).map buff := by
  induction left generalizing start with
  | zero => rfl
  | succ left ih => rw [serialLoop, List.range'_succ, List.map_cons, ih]

theorem serial3Write_bytes (buff : Nat → UInt8) (count : UInt64) :
    (serial3Write buff count).com3 = bytesOf buff count := by
  rw [bytesOf, List.range_eq_range']
  exact serialLoop_eq 0 count.toNat

/-! ## The console -/

/-- The turns from `i` on. A count above 2^31 is reached, if at all, with `i` below 0. -/
def turnsFrom (count : UInt64) (i : Int) : Nat :=
  if 0 ≤ i ∧ 2 ^ 31 < count.toNat then
    (2 ^ 31 - i).toNat + (count.toNat - (2 ^ 64 - 2 ^ 31))
  else count.toNat - uint64 i

theorem turnsFrom_done {i : Int} (hlt : i < 2 ^ 31) (h : ¬ uint64 i < count.toNat) :
    turnsFrom count i = 0 := by
  unfold uint64 at h
  unfold turnsFrom uint64
  split
  · omega
  · omega

theorem turnsFrom_turn {i : Int} (hge : -2 ^ 31 ≤ i) (hlt : i < 2 ^ 31)
    (h : uint64 i < count.toNat) : turnsFrom count i = turnsFrom count (int32 (i + 1)) + 1 := by
  have hcount := count.toNat_lt
  unfold uint64 at h
  unfold turnsFrom uint64
  by_cases hlast : i + 1 < 2 ^ 31
  · rw [int32_eq (by omega) hlast]
    split <;> split <;> omega
  · rw [int32_over (by omega) (by omega)]
    split <;> split <;> omega

/-- Fuel enough gives as many copies of the first byte as there are turns. -/
theorem consoleLoop_enough {n : Nat} {i : Int} (hge : -2 ^ 31 ≤ i) (hlt : i < 2 ^ 31)
    (hn : turnsFrom count i = n) :
    consoleLoop buff count (n + 1) i = some (List.replicate n (buff 0)) := by
  induction n generalizing i with
  | zero =>
      rw [consoleLoop, if_neg]
      · rfl
      · intro h
        have hturn := turnsFrom_turn hge hlt h
        omega
  | succ n ih =>
      have h : uint64 i < count.toNat := by
        by_contra h
        have hdone := turnsFrom_done hlt h
        omega
      have hturn := turnsFrom_turn hge hlt h
      rw [consoleLoop, if_pos h, ih (int32_ge _) (int32_lt _) (by omega)]
      rfl

theorem consoleLoop_some {fuel : Nat} {i : Int} {out : List UInt8} (hge : -2 ^ 31 ≤ i)
    (hlt : i < 2 ^ 31) (h : consoleLoop buff count fuel i = some out) :
    out = List.replicate (turnsFrom count i) (buff 0) := by
  induction fuel generalizing i out with
  | zero => cases h
  | succ fuel ih =>
      rw [consoleLoop] at h
      split at h
      case isTrue hturn =>
        obtain ⟨rest, hrest, rfl⟩ := Option.map_eq_some_iff.mp h
        rw [ih (int32_ge _) (int32_lt _) hrest, turnsFrom_turn hge hlt hturn]
        rfl
      case isFalse hdone =>
        obtain rfl := Option.some.inj h
        rw [turnsFrom_done hlt hdone]
        rfl

theorem turnsFrom_zero_iff : turnsFrom count 0 = count.toNat ↔ count.toNat ≤ 2 ^ 31 := by
  have hcount := count.toNat_lt
  have hzero : uint64 0 = 0 := rfl
  rw [turnsFrom, hzero]
  split
  · omega
  · omega

/-! ## Main result -/

theorem replicate_eq_iff :
    List.replicate (turnsFrom count 0) (buff 0) = bytesOf buff count ↔
      count.toNat ≤ 2 ^ 31 ∧ ∀ k < count.toNat, buff k = buff 0 := by
  rw [← turnsFrom_zero_iff, eq_comm, List.eq_replicate_iff, bytesOf, List.length_map,
    List.length_range, eq_comm]
  simp

/-- **Standard output.** The console and the serial device both get the bytes
of the buffer exactly if these are all the same and there are at most 2^31 of
them. The serial device gets them for any buffer; on the console each one is
the first, and beyond 2^31 the counter is below 0. -/
theorem stdout_same_iff (buff : Nat → UInt8) (count : UInt64) :
    SameOnEverySink buff count ↔
      count.toNat ≤ 2 ^ 31 ∧ ∀ k < count.toNat, buff k = buff 0 := by
  rw [← replicate_eq_iff]
  constructor
  · rintro ⟨fuel, shown, sent, hshown, -, hbytes, -⟩
    obtain ⟨out, hout, rfl⟩ := Option.map_eq_some_iff.mp hshown
    rw [← consoleLoop_some (by omega) (by omega) hout]
    exact hbytes
  · intro h
    refine ⟨turnsFrom count 0 + 1, ⟨_, []⟩, serial3Write buff count, ?_, rfl, h,
      serial3Write_bytes buff count⟩
    rw [stdoutWrite, consoleLoop_enough (by omega) (by omega) rfl]
    rfl

/-- The bytes `a` and `b`. -/
def twoBytes : Nat → UInt8 := fun k => if k = 0 then 97 else 98

/-- They arrive as `ab` at the serial device, and as `aa` on the console. -/
theorem two_bytes_differ :
    stdoutWrite 3 none twoBytes 2 = some ⟨[97, 97], []⟩ ∧
      stdoutWrite 3 (some serial3) twoBytes 2 = some ⟨[], [97, 98]⟩ ∧
      ¬ SameOnEverySink twoBytes 2 := by
  refine ⟨rfl, rfl, ?_⟩
  rintro ⟨fuel, shown, sent, hshown, -, hbytes, -⟩
  obtain ⟨out, hout, rfl⟩ := Option.map_eq_some_iff.mp hshown
  rw [consoleLoop_some (by omega) (by omega) hout] at hbytes
  exact absurd hbytes (by decide)

end VersionSix.Stdout
