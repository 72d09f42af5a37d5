import Mathlib.Data.List.Induction
import VersionSix.ElfSymbols

/-!
# The symbols of the kernel

What `symbols_get_symbol` and `elf_loader_get_ksym_addr` (`ksymbols.c`,
`elf_loader.c`) find in the collection of the kernel, on a list of names with
their addresses. The search does not stop at a hit, so it is the last symbol
with the name that counts, and a symbol at the address 0 is the same as none.

`symbolsGetSymbol_refines` leads from the collection in the memory
(`ElfSymbols`) to the list. The relocation of libraries and the lazy linking of
programs speak of the list only.
-/

namespace VersionSix.Elf

open ByteStore (Bytes cstr le)

structure Symbol where
  name : List UInt8
  addr : UInt64
deriving DecidableEq

/-- `symbols_get_symbol`: the last symbol with the name. -/
def symbolNamed (ksyms : List Symbol) (name : List UInt8) : Option Symbol :=
  ksyms.foldl
    (fun ret s => if s.name = [] then ret else if s.name = name then some s else ret) none

/-- `elf_loader_get_ksym_addr`; 0 is `NULL`. -/
def elfLoaderGetKsymAddr (ksyms : List Symbol) (name : List UInt8) : Nat :=
  match symbolNamed ksyms name with
  | none => 0
  | some sym => sym.addr.toNat

/-- The kernel has a symbol with the name at `a`. -/
def KernelHas (ksyms : List Symbol) (name : List UInt8) (a : Nat) : Prop :=
  name ≠ [] ∧ ∃ s ∈ ksyms, s.name = name ∧ s.addr.toNat = a

/-- A collection in the memory that holds the list. -/
structure HoldsSymbols (m : Bytes) (syms : Nat) (ksyms : List Symbol) : Prop where
  top : symbolsTop m syms = ksyms.length
  name : ∀ (i : Nat) s, ksyms[i]? = some s →
    ∃ off, cstr off m (le 8 m (symbolField syms i 0)) = some s.name
  addr : ∀ (i : Nat) s, ksyms[i]? = some s → le 8 m (symbolField syms i 8) = s.addr.toNat

/-! ## The last symbol with a name -/

variable {ksyms : List Symbol} {name : List UInt8}

theorem symbolNamed_concat (ksyms : List Symbol) (s : Symbol) (name : List UInt8) :
    symbolNamed (ksyms ++ [s]) name =
      if s.name = name ∧ name ≠ [] then some s else symbolNamed ksyms name := by
  rw [symbolNamed, List.foldl_append, List.foldl_cons, List.foldl_nil, ← symbolNamed]
  by_cases hempty : s.name = []
  · rw [if_pos hempty, if_neg]
    rintro ⟨rfl, hne⟩
    exact hne hempty
  · rw [if_neg hempty]
    by_cases hname : s.name = name
    · rw [if_pos hname, if_pos ⟨hname, hname ▸ hempty⟩]
    · rw [if_neg hname, if_neg fun h => hname h.1]

theorem symbolNamed_some {s : Symbol} (h : symbolNamed ksyms name = some s) :
    s ∈ ksyms ∧ s.name = name ∧ name ≠ [] := by
  induction ksyms using List.reverseRecOn with
  | nil => cases h
  | append_singleton ksyms t ih =>
      rw [symbolNamed_concat] at h
      split_ifs at h with ht
      · obtain rfl := Option.some.inj h
        exact ⟨List.mem_append_right _ List.mem_cons_self, ht⟩
      · obtain ⟨hmem, hs⟩ := ih h
        exact ⟨List.mem_append_left _ hmem, hs⟩

theorem symbolNamed_none (h : symbolNamed ksyms name = none) (hname : name ≠ []) :
    ∀ s ∈ ksyms, s.name ≠ name := by
  induction ksyms using List.reverseRecOn with
  | nil => exact fun s hs => absurd hs List.not_mem_nil
  | append_singleton ksyms t ih =>
      rw [symbolNamed_concat] at h
      split_ifs at h with ht
      intro s hs
      rcases List.mem_append.mp hs with hs | hs
      · exact ih h s hs
      · obtain rfl := List.mem_singleton.mp hs
        exact fun heq => ht ⟨heq, hname⟩

/-- A name that the kernel has is found, with an address the kernel has for it. -/
theorem kernelHas_ksymAddr (h : ∃ a, KernelHas ksyms name a) :
    KernelHas ksyms name (elfLoaderGetKsymAddr ksyms name) := by
  rw [elfLoaderGetKsymAddr]
  cases hfound : symbolNamed ksyms name with
  | none =>
      obtain ⟨a, hne, s, hmem, hname, -⟩ := h
      exact absurd hname (symbolNamed_none hfound hne s hmem)
  | some s =>
      obtain ⟨hmem, hname, hne⟩ := symbolNamed_some hfound
      exact ⟨hne, s, hmem, hname, rfl⟩

/-! ## The collection in the memory -/

theorem symbolField_addr (syms i : Nat) :
    (symbolField syms i 0 + 8) % 2 ^ 64 = symbolField syms i 8 := by
  unfold symbolField
  omega

/-- The search in the memory leads to the address that the search in the list gives. -/
theorem symbolsGetSymbol_refines {m : Bytes} {syms : Nat} (h : HoldsSymbols m syms ksyms)
    (name : List UInt8) :
    (symbolsGetSymbol m syms name).map (fun p => le 8 m ((p + 8) % 2 ^ 64)) =
      (symbolNamed ksyms name).map fun s => s.addr.toNat := by
  have hturns : ∀ n ≤ ksyms.length,
      ((List.range n).foldl
        (fun ret i =>
          let p := le 8 m (symbolField syms i 0)
          if m p = 0 then ret
          else if sameString name m p then some (symbolField syms i 0) else ret) none).map
            (fun p => le 8 m ((p + 8) % 2 ^ 64)) =
      (symbolNamed (ksyms.take n) name).map fun s => s.addr.toNat := by
    intro n hn
    induction n with
    | zero => rfl
    | succ n ih =>
        have hlt := List.getElem?_eq_getElem (Nat.lt_of_succ_le hn)
        obtain ⟨off, hoff⟩ := h.name n _ hlt
        rw [List.range_succ, List.foldl_append, List.foldl_cons, List.foldl_nil,
          List.take_succ_eq_append_getElem (Nat.lt_of_succ_le hn), symbolNamed_concat]
        dsimp only
        rw [searchTurn_eq hoff]
        split_ifs with hfound
        · rw [Option.map_some, Option.map_some, symbolField_addr, h.addr n _ hlt]
        · exact ih (Nat.le_of_succ_le hn)
  have hall := hturns ksyms.length (Nat.le_refl _)
  rw [List.take_length] at hall
  rw [symbolsGetSymbol, h.top]
  exact hall

end VersionSix.Elf
