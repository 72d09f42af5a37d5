import Mathlib.Data.List.Induction
import VersionSix.Execve

/-!
# The arguments of a new program

The part of `execve_syscall_handler` that copies `argv`. It counts the strings,
asks for an array of `argc` pointers and for `kstrlen` bytes a string, and
stores `kstrlen + 1` bytes in each: there is no room for the entry after the
last string, nor for the terminators.

What is copied arrives (`copyArgs_strings`) as long as the blocks are apart by
more than was asked for. So a program finds its arguments as a rule, and it is
not them that are damaged but whatever stands behind the blocks.

`execve_args_never` puts the two together: there is no vector for which the new
program gets what it should, an array of its own with a `NULL` at its end. Two
of the parts have a condition of their own. The number of arguments arrives
unless it is 20, which is taken for 0, and no byte is written beside the blocks
only if no string is copied.
-/

namespace VersionSix.Execve

open ByteStore (Bytes Region)
open Process

/-! ## Blocks and stores -/

/-- The block `kmalloc( argc * sizeof(char *) )`. -/
def arrayBlock (env : ExecEnv) : Region := ⟨env.argvNew, 8 * countArgs env⟩

/-- The store to `argv_new[i]`. -/
def entryStore (env : ExecEnv) (i : Nat) : Region := ⟨env.argvNew + 8 * i, 8⟩

/-- The block `kmalloc( kstrlen( argv[i] ) )`. -/
def stringBlock (env : ExecEnv) (i : Nat) (arg : List UInt8) : Region :=
  ⟨env.argBlock i, arg.length⟩

/-- The bytes `kstrcpy` stores there. -/
def stringStore (env : ExecEnv) (i : Nat) (arg : List UInt8) : Region :=
  ⟨env.argBlock i, arg.length + 1⟩

def stringAt (k : Kernel) (n addr : Nat) : Option (List UInt8) :=
  ByteStore.cstr n k.memory (kernelPhysical k addr)

def pointerAt (k : Kernel) (addr : Nat) : Nat := ByteStore.le 8 k.memory (kernelPhysical k addr)

/-- What the program `execve` has started in `k'` has to find. -/
structure ArgsPassed (env : ExecEnv) (k' : Kernel) : Prop where
  argc : k'.frame.rdi = UInt64.ofNat env.args.length
  argv : k'.frame.rsi = UInt64.ofNat env.argvNew
  /-- the array is the program's own, from the first entry to the `NULL` -/
  array : ∀ i ≤ env.args.length, (entryStore env i).Within (arrayBlock env)
  strings : ∀ i arg, env.args[i]? = some arg →
    stringAt k' (arg.length + 1) (pointerAt k' (env.argvNew + 8 * i)) = some arg
  null : pointerAt k' (env.argvNew + 8 * env.args.length) = 0
  /-- no copy leaves the block it was made for -/
  inside : ∀ i arg, (env.args.take (countArgs env))[i]? = some arg →
    (entryStore env i).Within (arrayBlock env) ∧
      (stringStore env i arg).Within (stringBlock env i arg)

/-! ## The copies -/

variable {env : ExecEnv} {k k' : Kernel}

theorem copyArg_physical (i : Nat) (arg : List UInt8) (k : Kernel) (v : Nat) :
    kernelPhysical (copyArg env i arg k) v = kernelPhysical k v := by
  unfold copyArg kernelPhysical
  rfl

theorem copyArg_memory (i : Nat) (arg : List UInt8) (k : Kernel) :
    (copyArg env i arg k).memory = ByteStore.putStr
      (ByteStore.setLe 8 k.memory (kernelPhysical k (env.argvNew + 8 * i)) (env.argBlock i))
      (kernelPhysical k (env.argBlock i)) arg := by
  rw [copyArg]

theorem copyArgs_append (args : List (List UInt8)) (arg : List UInt8) (k : Kernel) :
    copyArgs env (args ++ [arg]) k = copyArg env args.length arg (copyArgs env args k) := by
  unfold copyArgs
  rw [List.zipIdx_append, List.foldl_append]
  simp

theorem copyArgs_physical (args : List (List UInt8)) (k : Kernel) (v : Nat) :
    kernelPhysical (copyArgs env args k) v = kernelPhysical k v := by
  induction args using List.reverseRecOn with
  | nil => rfl
  | append_singleton args arg ih => rw [copyArgs_append, copyArg_physical, ih]

def physicalRegion (k : Kernel) (r : Region) : Region := ⟨kernelPhysical k r.start, r.size⟩

theorem apart_entry {r : Region} {i : Nat}
    (h : (physicalRegion k r).Apart (physicalRegion k (entryStore env i))) :
    kernelPhysical k r.start + r.size ≤ kernelPhysical k (env.argvNew + 8 * i) ∨
      kernelPhysical k (env.argvNew + 8 * i) + 8 ≤ kernelPhysical k r.start := by
  rw [Region.Apart, physicalRegion, physicalRegion, entryStore] at h
  exact h

theorem apart_string {r : Region} {i : Nat} {arg : List UInt8}
    (h : (physicalRegion k r).Apart (physicalRegion k (stringStore env i arg))) :
    kernelPhysical k r.start + r.size ≤ kernelPhysical k (env.argBlock i) ∨
      kernelPhysical k (env.argBlock i) + (arg.length + 1) ≤ kernelPhysical k r.start := by
  rw [Region.Apart, physicalRegion, physicalRegion, stringStore] at h
  exact h

/-- All stores of the copies are apart in memory. -/
structure CopiesApart (env : ExecEnv) (k : Kernel) (args : List (List UInt8)) : Prop where
  entries : ∀ i j, i < args.length → j < args.length → i ≠ j →
    (physicalRegion k (entryStore env i)).Apart (physicalRegion k (entryStore env j))
  strings : ∀ i j s t, i ≠ j → args[i]? = some s → args[j]? = some t →
    (physicalRegion k (stringStore env i s)).Apart (physicalRegion k (stringStore env j t))
  mixed : ∀ i j t, i < args.length → args[j]? = some t →
    (physicalRegion k (entryStore env i)).Apart (physicalRegion k (stringStore env j t))

theorem CopiesApart.init {args : List (List UInt8)} {arg : List UInt8}
    (h : CopiesApart env k (args ++ [arg])) : CopiesApart env k args := by
  have hmem : ∀ (i : Nat) s, args[i]? = some s → (args ++ [arg])[i]? = some s := by
    intro i s hs
    rw [List.getElem?_append_left (List.getElem?_eq_some_iff.mp hs).1, hs]
  have hlen : (args ++ [arg]).length = args.length + 1 := List.length_append
  refine ⟨fun i j hi hj => ?_, fun i j s t hij hs ht => ?_, fun i j t hi ht => ?_⟩
  · exact h.entries i j (by omega) (by omega)
  · exact h.strings i j s t hij (hmem i s hs) (hmem j t ht)
  · exact h.mixed i j t (by omega) (hmem j t ht)

theorem copyArg_out {i : Nat} {arg : List UInt8} {r : Region}
    (hentry : (physicalRegion k r).Apart (physicalRegion k (entryStore env i)))
    (hstring : (physicalRegion k r).Apart (physicalRegion k (stringStore env i arg))) {j : Nat}
    (hj : j < r.size) : (copyArg env i arg k).memory (kernelPhysical k r.start + j)
      = k.memory (kernelPhysical k r.start + j) := by
  have hentry' := apart_entry hentry
  have hstring' := apart_string hstring
  rw [copyArg_memory, ByteStore.putStr_out (by omega), ByteStore.setLe_out (by omega)]

theorem copyArg_pointerAt {i : Nat} {arg : List UInt8} {v : Nat}
    (hentry : (physicalRegion k ⟨v, 8⟩).Apart (physicalRegion k (entryStore env i)))
    (hstring : (physicalRegion k ⟨v, 8⟩).Apart (physicalRegion k (stringStore env i arg))) :
    pointerAt (copyArg env i arg k) v = pointerAt k v := by
  unfold pointerAt
  rw [copyArg_physical]
  exact ByteStore.le_congr fun j hj => copyArg_out hentry hstring hj

theorem copyArg_stringAt {i n : Nat} {arg : List UInt8} {v : Nat}
    (hentry : (physicalRegion k ⟨v, n⟩).Apart (physicalRegion k (entryStore env i)))
    (hstring : (physicalRegion k ⟨v, n⟩).Apart (physicalRegion k (stringStore env i arg))) :
    stringAt (copyArg env i arg k) n v = stringAt k n v := by
  unfold stringAt
  rw [copyArg_physical]
  exact ByteStore.cstr_congr fun j hj => copyArg_out hentry hstring hj

theorem copyArg_stored {i : Nat} {arg : List UInt8} (hchars : ∀ c ∈ arg, c ≠ 0)
    (hapart : (physicalRegion k (entryStore env i)).Apart
      (physicalRegion k (stringStore env i arg))) :
    pointerAt (copyArg env i arg k) (env.argvNew + 8 * i) = env.argBlock i % 2 ^ 64 ∧
      stringAt (copyArg env i arg k) (arg.length + 1) (env.argBlock i) = some arg := by
  have hapart' : kernelPhysical k (env.argvNew + 8 * i) + 8 ≤ kernelPhysical k (env.argBlock i) ∨
      kernelPhysical k (env.argBlock i) + (arg.length + 1)
        ≤ kernelPhysical k (env.argvNew + 8 * i) := by
    rw [Region.Apart, physicalRegion, physicalRegion, entryStore, stringStore] at hapart
    exact hapart
  constructor
  · unfold pointerAt
    rw [copyArg_physical, copyArg_memory, ByteStore.le_putStr (by omega), ByteStore.le_setLe_same]
    norm_num
  · unfold stringAt
    rw [copyArg_physical, copyArg_memory]
    exact ByteStore.cstr_putStr hchars (Nat.lt_succ_self _)

/-- **The strings arrive**, as far as they are counted, if all stores are apart. -/
theorem copyArgs_strings {args : List (List UInt8)} (hapart : CopiesApart env k args)
    (hchars : ∀ s ∈ args, ∀ c ∈ s, c ≠ 0) {i : Nat} {s : List UInt8} (hs : args[i]? = some s) :
    pointerAt (copyArgs env args k) (env.argvNew + 8 * i) = env.argBlock i % 2 ^ 64 ∧
      stringAt (copyArgs env args k) (s.length + 1) (env.argBlock i) = some s := by
  induction args using List.reverseRecOn with
  | nil => simp at hs
  | append_singleton args arg ih =>
      have hlen : (args ++ [arg]).length = args.length + 1 := List.length_append
      have hlast : (args ++ [arg])[args.length]? = some arg := List.getElem?_concat_length
      have hi := (List.getElem?_eq_some_iff.mp hs).1
      have hphysical : ∀ r : Region,
          physicalRegion (copyArgs env args k) r = physicalRegion k r := by
        intro r
        unfold physicalRegion
        rw [copyArgs_physical]
      rw [copyArgs_append]
      rcases Nat.lt_or_ge i args.length with hlt | hge
      · rw [List.getElem?_append_left hlt] at hs
        obtain ⟨hpointer, hstring⟩ :=
          ih hapart.init (fun t ht => hchars t (List.mem_append_left _ ht)) hs
        have hs' : (args ++ [arg])[i]? = some s := by rw [List.getElem?_append_left hlt, hs]
        have hne : i ≠ args.length := Nat.ne_of_lt hlt
        refine ⟨?_, ?_⟩
        · rw [copyArg_pointerAt, hpointer]
          · rw [hphysical, hphysical]
            exact hapart.entries i _ hi (by omega) hne
          · rw [hphysical, hphysical]
            exact hapart.mixed i _ arg hi hlast
        · rw [copyArg_stringAt, hstring]
          · rw [hphysical, hphysical]
            exact (hapart.mixed _ i s (by omega) hs').symm
          · rw [hphysical, hphysical]
            exact hapart.strings i _ s arg hne hs' hlast
      · obtain rfl : i = args.length := by omega
        obtain rfl : arg = s := Option.some.inj (hlast.symm.trans hs)
        have harg : arg ∈ args ++ [arg] := List.mem_append_right _ (List.mem_singleton_self arg)
        refine copyArg_stored (hchars arg harg) ?_
        rw [hphysical, hphysical]
        exact hapart.mixed _ _ arg hi hlast

/-! ## The new program -/

theorem countArgs_le (env : ExecEnv) : countArgs env ≤ env.args.length := by
  unfold countArgs
  split
  · exact Nat.zero_le _
  · split
    · exact Nat.zero_le _
    · exact Nat.le_refl _

theorem entry_not_within (env : ExecEnv) :
    ¬ (entryStore env env.args.length).Within (arrayBlock env) := by
  rintro ⟨-, hend⟩
  have hcount := countArgs_le env
  unfold entryStore arrayBlock at hend
  dsimp only at hend
  omega

theorem string_not_within (env : ExecEnv) (i : Nat) (arg : List UInt8) :
    ¬ (stringStore env i arg).Within (stringBlock env i arg) := by
  rintro ⟨-, hend⟩
  unfold stringStore stringBlock at hend
  dsimp only at hend
  omega

theorem execve_frame {r : Option Int} (hattr : env.getattr = 0)
    (h : execveSyscallHandler env k = some (r, k')) :
    k'.frame.rdi = UInt64.ofNat (countArgs env) ∧ k'.frame.rsi = UInt64.ofNat env.argvNew := by
  obtain ⟨-, p', hentered⟩ := execve_enters hattr h
  rw [hentered.frame, hentered.context]
  exact ⟨rfl, rfl⟩

theorem execve_argc_iff {r : Option Int} (hargv : env.argv ≠ 0) (hattr : env.getattr = 0)
    (h : execveSyscallHandler env k = some (r, k')) :
    k'.frame.rdi = UInt64.ofNat env.args.length ↔ env.args.length ≠ 20 := by
  rw [(execve_frame hattr h).1, countArgs, if_neg hargv]
  by_cases htwenty : env.args.length = 20
  · rw [if_pos htwenty, htwenty]
    decide
  · rw [if_neg htwenty]
    exact iff_of_true rfl htwenty

theorem copies_inside_iff (hargv : env.argv ≠ 0) :
    (∀ i arg, (env.args.take (countArgs env))[i]? = some arg →
      (stringStore env i arg).Within (stringBlock env i arg)) ↔
    env.args.length = 0 ∨ env.args.length = 20 := by
  unfold countArgs
  rw [if_neg hargv]
  constructor
  · intro h
    by_contra hne
    rw [not_or] at hne
    rw [if_neg hne.2, List.take_length] at h
    have hpos : 0 < env.args.length := Nat.pos_of_ne_zero hne.1
    exact string_not_within env 0 _ (h 0 _ (List.getElem?_eq_getElem hpos))
  · intro h i arg harg
    have hnone : (if env.args.length = 20 then 0 else env.args.length) = 0 := by
      split
      · rfl
      · omega
    rw [hnone, List.take_zero] at harg
    cases harg

/-- **Arguments are never passed faithfully**: whatever the vector, the new
program has no array of its own with a last entry for the `NULL`. Their number
arrives unless it is 20, and no byte is written beside the blocks only if no
string is copied. -/
theorem execve_args_never {r : Option Int} (hargv : env.argv ≠ 0) (hattr : env.getattr = 0)
    (h : execveSyscallHandler env k = some (r, k')) : ¬ ArgsPassed env k' ∧
      (k'.frame.rdi = UInt64.ofNat env.args.length ↔ env.args.length ≠ 20) ∧
      ((∀ i arg, (env.args.take (countArgs env))[i]? = some arg →
        (stringStore env i arg).Within (stringBlock env i arg)) ↔
          env.args.length = 0 ∨ env.args.length = 20) := by
  refine ⟨fun hpassed => ?_, execve_argc_iff hargv hattr h, copies_inside_iff hargv⟩
  exact entry_not_within env (hpassed.array _ (Nat.le_refl _))

/-- A call with one argument for the file of four zero bytes. -/
def lsFile : ExecEnv := { zeroFile 0 with argv := 0x5000, args := [chars "ls"] }

theorem lsFile_runs : (execveSyscallHandler lsFile shellKernel).isSome := rfl

def lsKernel : Kernel := ((execveSyscallHandler lsFile shellKernel).get lsFile_runs).2

theorem lsKernel_started : execveSyscallHandler lsFile shellKernel
    = some (((execveSyscallHandler lsFile shellKernel).get lsFile_runs).1, lsKernel) :=
  (Option.some_get lsFile_runs).symm

theorem execve_args_never_ls : ¬ ArgsPassed lsFile lsKernel ∧
    (lsKernel.frame.rdi = 1 ↔ lsFile.args.length ≠ 20) ∧
    ((∀ i arg, (lsFile.args.take (countArgs lsFile))[i]? = some arg →
      (stringStore lsFile i arg).Within (stringBlock lsFile i arg)) ↔
        lsFile.args.length = 0 ∨ lsFile.args.length = 20) :=
  execve_args_never (by decide) rfl lsKernel_started

/-- One argument of two characters: the array has 8 bytes, of which the first entry takes all,
and the string has two, of which three are written. -/
theorem ls_overruns : execveSyscallHandler lsFile shellKernel = some (none, lsKernel) ∧
    arrayBlock lsFile = ⟨0x20000, 8⟩ ∧ entryStore lsFile 1 = ⟨0x20008, 8⟩ ∧
    stringBlock lsFile 0 (chars "ls") = ⟨0x30000, 2⟩ ∧
    stringStore lsFile 0 (chars "ls") = ⟨0x30000, 3⟩ ∧ ¬ ArgsPassed lsFile lsKernel := by
  refine ⟨rfl, rfl, rfl, rfl, rfl, fun hpassed => ?_⟩
  obtain ⟨-, hend⟩ := hpassed.array 1 (Nat.le_refl 1)
  exact absurd hend (by decide)

end VersionSix.Execve
