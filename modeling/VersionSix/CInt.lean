import Mathlib.Algebra.Group.Int.Defs
import Mathlib.Algebra.Group.Nat.Defs

/-!
# Integers of a machine

The values that a wrapping `int` and the unsigned types of 16, 32 and 64 bits
take of an integer. They are total functions on `Int`: an expression of C is
computed exactly and cut where the program stores it or converts it, so that
each conversion of the source is one application here and can be compared with
it.

A comparison of an `int` with an unsigned long is one of the unsigned values,
so a negative number is above all bounds in use (`uint64_neg`). This is where
loops with an `int` counter and an unsigned bound differ from what they look
like.

Inside its range a value is itself (`int32_eq`), one bound further it is off by
a power of two (`int32_over`); with these two, `omega` does the rest of an
argument.
-/

namespace CInt

def int32 (n : Int) : Int := n.bmod (2 ^ 32)

def uint16 (n : Int) : Nat := (n % 2 ^ 16).toNat

def uint32 (n : Int) : Nat := (n % 2 ^ 32).toNat

def uint64 (n : Int) : Nat := (n % 2 ^ 64).toNat

variable {n : Int}

theorem int32_eq (hle : -2 ^ 31 ≤ n) (hlt : n < 2 ^ 31) : int32 n = n := by
  rw [int32, Int.bmod_def]
  split <;> omega

theorem int32_over (hle : 2 ^ 31 ≤ n) (hlt : n < 3 * 2 ^ 31) : int32 n = n - 2 ^ 32 := by
  rw [int32, Int.bmod_def]
  split <;> omega

theorem int32_add (a b : Int) : int32 (int32 a + b) = int32 (a + b) := Int.bmod_add_bmod

theorem int32_lt (n : Int) : int32 n < 2 ^ 31 := by
  rw [int32, Int.bmod_def]
  split <;> omega

theorem int32_ge (n : Int) : -2 ^ 31 ≤ int32 n := by
  rw [int32, Int.bmod_def]
  split <;> omega

theorem uint64_natCast {k : Nat} (h : k < 2 ^ 64) : uint64 k = k := by
  rw [uint64]
  omega

theorem uint64_neg (hle : -2 ^ 63 ≤ n) (hlt : n < 0) : 2 ^ 63 ≤ uint64 n := by
  rw [uint64]
  omega

end CInt
