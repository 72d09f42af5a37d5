import VersionSix.AvsRefines
import VersionSix.PathText

/-!
# Mount points

`vfs_get_mount_point_from_path` of `vfs.c`, over the list of mount points. It
first splits the path into `path_elements`, with `"/"` as element 0, then
rebuilds the path element by element in `path_to_test` and looks up every
prefix. The last prefix found wins.

A C string is the list of its bytes before the NUL. An array index out of range
does not return: the rows of the split and the buffer for the prefixes have
their sizes, and the results are for paths that fit.

The two splitting loops are proved to leave the names of the path, each in its
row (`elementsOf`); the third loop then goes through the prefixes and remembers
what it found (`farthestBelow`). That the last one found is the longest
registered prefix, and of two with the same root the one that was mounted
first, is what `FirstLongest` asks for. The list of mount points is one of
`list.c`, and its search is that of `AvsRefines`.
-/

namespace VersionSix.Vfs

open Linked Avs PathText

/-! ## Strings -/

abbrev slash : UInt8 := 47

/-- `kstrcmp`; the NUL is below every other byte. -/
def kstrcmp : List UInt8 → List UInt8 → Int
  | [], [] => 0
  | [], _ :: _ => -1
  | _ :: _, [] => 1
  | c1 :: cs, c2 :: ct => if c1 ≠ c2 then (if c1 < c2 then -1 else 1) else kstrcmp cs ct

theorem kstrcmp_eq_zero_iff {cs ct : List UInt8} : kstrcmp cs ct = 0 ↔ cs = ct := by
  induction cs generalizing ct with
  | nil => cases ct <;> simp [kstrcmp]
  | cons c1 cs ih =>
      cases ct with
      | nil => simp [kstrcmp]
      | cons c2 ct =>
          by_cases hne : c1 = c2
          · simp only [kstrcmp, hne, ne_eq, not_true_eq_false, if_false, ih, List.cons.injEq,
              true_and]
          · simp only [kstrcmp, ne_eq, hne, not_false_eq_true, if_true, List.cons.injEq, false_and,
              iff_false]
            split <;> decide

/-- The character `n` behind the start of a string, up to its NUL. -/
def charAt (s : List UInt8) (n : Nat) : UInt8 := (s[n]?).getD 0

/-! ## Splitting -/

/-- The variables of the two splitting loops. The next character of a name
goes behind the ones stored before it, so a row is as long as `name_index`. -/
structure Split where
  pathElements : Nat → List UInt8
  currentPathEleIndex : Nat
  pathIndex : Nat
  c : Nat
  keepGoingMain : Bool

/-- `path_elements[row][name_index++] = ch`. A row filled to its end has no
NUL, so that is out of range too. -/
def Split.store (s : Split) (ch : UInt8) : Option Split :=
  if s.currentPathEleIndex < 25 ∧ (s.pathElements s.currentPathEleIndex).length < 255 then
    some { s with
      pathElements := Function.update s.pathElements s.currentPathEleIndex
        (s.pathElements s.currentPathEleIndex ++ [ch])
      c := s.c + 1
      pathIndex := s.pathIndex + 1 }
  else none

/-- The branch that ends a name. At `path_index` 0 nothing is stored yet, so
row 0 becomes `"/"`. -/
def Split.close (s : Split) (pathLength : Nat) : Split :=
  { s with
    pathElements := if s.pathIndex = 0 then Function.update s.pathElements 0 [slash]
      else s.pathElements
    keepGoingMain := s.keepGoingMain && s.pathIndex != pathLength
    currentPathEleIndex := s.currentPathEleIndex + 1 }

/-- The inner loop, one round for each unit of fuel. -/
def splitElement (pathname : List UInt8) : Nat → Split → Option Split
  | 0, _ => none
  | fuel + 1, s =>
      if charAt pathname s.c = slash ∨ charAt pathname s.c = 0 ∨ s.pathIndex = pathname.length then
        some (s.close pathname.length)
      else (s.store (charAt pathname s.c)).bind (splitElement pathname fuel)

/-- The outer loop. A name is at most as long as the path. -/
def splitLoop (pathname : List UInt8) : Nat → Split → Option Split
  | 0, _ => none
  | fuel + 1, s =>
      (splitElement pathname (pathname.length + 1) s).bind fun s =>
        let s := { s with pathIndex := s.pathIndex + 1 }
        if s.pathIndex ≥ pathname.length then some s
        else if s.keepGoingMain then splitLoop pathname fuel { s with c := s.c + 1 }
        else some s

def splitPath (pathname : List UInt8) : Option Split :=
  splitLoop pathname (pathname.length + 1) ⟨fun _ => [], 0, 0, 0, true⟩

/-! ## Lookup -/

structure VfsMountPoint where
  fsType : List UInt8
  root : List UInt8
  driveId : Int
  fs : Nat

def avsListCompareMountPointRoots (pathToTest : List UInt8) (mp : VfsMountPoint) : Int :=
  kstrcmp pathToTest mp.root

/-- `avs_list_find_data( mount_points, path, avs_list_compare_mount_point_roots )`
and the `data` of the node found. -/
def findMountPoint (points : Avs.State VfsMountPoint) (path : List UInt8) :
    Option (Option VfsMountPoint) :=
  (findLoop points.nodes (fun mp => avsListCompareMountPointRoots path mp = 0)
    points.list.size.toNat points.list.head).bind fun n =>
      if n = 0 then some none else (points.nodes n).map fun node => some node.data

/-- The next `path_to_test`; the buffer holds 254 characters. -/
def nextPathToTest (pathElements : Nat → List UInt8) (n : Nat) (pathToTest : List UInt8) :
    Option (List UInt8) :=
  let path := (if n > 0 then pathToTest ++ [slash] else pathToTest) ++ pathElements (n + 1)
  if path.length < 255 then some path else none

/-- The loop over the elements, from element `n` on with `left` to go. -/
def mountLoop (points : Avs.State VfsMountPoint) (pathElements : Nat → List UInt8) :
    (left n : Nat) → (pathToTest : List UInt8) → (farthest : Option VfsMountPoint) →
      Option (Option VfsMountPoint)
  | 0, _, _, farthest => some farthest
  | left + 1, n, pathToTest, farthest =>
      let atRoot := n = 0 ∧ charAt pathToTest 0 = slash
      (findMountPoint points (if atRoot then [slash] else pathToTest)).bind fun found =>
        if atRoot ∧ found.isNone then some none
        else if left = 0 then some (found.or farthest)
        else (nextPathToTest pathElements n pathToTest).bind fun pathToTest =>
          mountLoop points pathElements left (n + 1) pathToTest (found.or farthest)

/-- Returns the mount point, or NULL. -/
def vfsGetMountPointFromPath (points : Avs.State VfsMountPoint) (pathname : List UInt8) :
    Option (Option VfsMountPoint) :=
  (splitPath pathname).bind fun s =>
    if (s.pathElements 0).length < 255 then
      mountLoop points s.pathElements s.currentPathEleIndex 0 (s.pathElements 0) none
    else none

/-! ## What is split

The names of a canonical path are C strings of their own. -/

def Strings (cs : List (List UInt8)) : Prop := ∀ c ∈ cs, (0 : UInt8) ∉ c

theorem charAt_append (p : List UInt8) (x : UInt8) (t : List UInt8) :
    charAt (p ++ x :: t) p.length = x := by
  simp [charAt]

/-- The inner loop at the rest `name` of a name; a separator or the end of the
path is behind it. -/
theorem splitElement_name (fuel : Nat) {pathname pre name tail : List UInt8}
    {els : Nat → List UInt8} {cur : Nat} (hpath : pathname = pre ++ (name ++ tail))
    (hpre : pre ≠ [])
    (hsep : slash ∉ name) (hnul : (0 : UInt8) ∉ name)
    (htail : tail = [] ∨ ∃ t, tail = slash :: t) (hrow : (els cur).length + name.length ≤ 255)
    (hcur : cur < 25) (hfuel : name.length < fuel) :
    splitElement pathname fuel ⟨els, cur, pre.length, pre.length, true⟩ =
      some ⟨Function.update els cur (els cur ++ name), cur + 1, pre.length + name.length,
        pre.length + name.length, !tail.isEmpty⟩ := by
  obtain ⟨fuel, rfl⟩ : ∃ f, fuel = f + 1 := ⟨fuel - 1, by omega⟩
  induction name generalizing pre els fuel with
  | nil =>
      rw [List.nil_append] at hpath
      have hpos : pre.length ≠ 0 := fun h => hpre (List.eq_nil_of_length_eq_zero h)
      have hstop : charAt pathname pre.length = slash ∨ charAt pathname pre.length = 0 ∨
          pre.length = pathname.length := by
        obtain rfl | ⟨t, rfl⟩ := htail
        · exact .inr (.inr (by rw [hpath, List.append_nil]))
        · exact .inl (by rw [hpath, charAt_append])
      have hkeep : (pre.length != pathname.length) = !tail.isEmpty := by
        rw [hpath, List.length_append]
        cases tail <;> simp
      rw [splitElement, if_pos hstop]
      simp only [Split.close, if_neg hpos, hkeep, Bool.true_and, List.append_nil,
        Function.update_eq_self, List.length_nil, Nat.add_zero]
  | cons x name ih =>
      rw [List.mem_cons, not_or] at hsep hnul
      rw [List.length_cons] at hrow hfuel
      have hchar : charAt pathname pre.length = x := by
        rw [hpath, List.cons_append, charAt_append]
      have hgo : ¬ (x = slash ∨ x = 0 ∨ pre.length = pathname.length) := by
        rintro (h | h | h)
        · exact hsep.1 h.symm
        · exact hnul.1 h.symm
        · rw [hpath] at h
          simp at h
      obtain ⟨fuel, rfl⟩ : ∃ f, fuel = f + 1 := ⟨fuel - 1, by omega⟩
      have hpath' : pathname = pre ++ [x] ++ (name ++ tail) := by
        rw [hpath, List.append_assoc, List.singleton_append, List.cons_append]
      have hrow' : (Function.update els cur (els cur ++ [x]) cur).length + name.length ≤ 255 := by
        rw [Function.update_self, List.length_append, List.length_singleton]
        omega
      have hnext := ih hpath' (List.append_ne_nil_of_right_ne_nil _ (List.cons_ne_nil x []))
        hsep.2 hnul.2 hrow' fuel (by omega)
      rw [splitElement]
      simp only [hchar, if_neg hgo, Split.store]
      rw [if_pos ⟨hcur, by omega⟩, Option.bind_some]
      simpa only [List.length_append, List.length_cons, List.length_nil, Nat.zero_add,
        Function.update_self, Function.update_idem, List.append_assoc, List.singleton_append,
        Nat.add_assoc, Nat.add_comm 1] using hnext

/-- `path_elements` from row `cur` on, once the names `cs` are split. -/
def rows (els : Nat → List UInt8) (cur : Nat) (cs : List (List UInt8)) : Nat → List UInt8 :=
  fun i => if i < cur then els i else (cs[i - cur]?).getD []

theorem rows_nil {els : Nat → List UInt8} {cur : Nat} (h : ∀ i, cur ≤ i → els i = []) :
    rows els cur [] = els := by
  funext i
  unfold rows
  split
  · rfl
  · exact (h i (by omega)).symm

theorem rows_cons {els : Nat → List UInt8} {cur : Nat} (c : List UInt8) (cs : List (List UInt8)) :
    rows (Function.update els cur c) (cur + 1) cs = rows els cur (c :: cs) := by
  funext i
  unfold rows
  rcases Nat.lt_trichotomy i cur with h | rfl | h
  · rw [if_pos (by omega), if_pos h, Function.update_of_ne (by omega)]
  · rw [if_pos (by omega), if_neg (by omega), Function.update_self, Nat.sub_self]
    rfl
  · rw [if_neg (by omega), if_neg (by omega), show i - cur = i - (cur + 1) + 1 by omega]
    rfl

/-- The outer loop from the start of a name on, `cs` behind it. -/
theorem splitLoop_names (fuel : Nat) {pathname pre c : List UInt8} {cs : List (List UInt8)}
    {els : Nat → List UInt8} {cur : Nat} (hpath : pathname = pre ++ (c ++ joined slash cs))
    (hpre : pre ≠ []) (hnames : Names slash (c :: cs)) (hstr : Strings (c :: cs))
    (hels : ∀ i, cur ≤ i → els i = []) (hlen : pathname.length ≤ 255)
    (hcur : cur + cs.length < 25) (hfuel : cs.length < fuel) :
    ∃ s, splitLoop pathname fuel ⟨els, cur, pre.length, pre.length, true⟩ = some s ∧
      s.currentPathEleIndex = cur + 1 + cs.length ∧ s.pathElements = rows els cur (c :: cs) := by
  obtain ⟨fuel, rfl⟩ : ∃ f, fuel = f + 1 := ⟨fuel - 1, by omega⟩
  induction cs generalizing pre c els cur fuel with
  | nil =>
      obtain ⟨⟨-, hsep⟩, -⟩ := hnames.cons
      have hplen : pathname.length = pre.length + c.length := by simp [hpath, joined]
      have hrow : (els cur).length + c.length ≤ 255 := by
        rw [hels cur (Nat.le_refl _), List.length_nil]
        omega
      have hname := splitElement_name (pathname.length + 1) hpath hpre hsep
        (hstr c List.mem_cons_self) (joined_head []) hrow hcur (by omega)
      rw [splitLoop, hname, Option.bind_some, if_pos (show pre.length + c.length + 1 ≥ _ by omega)]
      refine ⟨_, rfl, rfl, ?_⟩
      rw [hels cur (Nat.le_refl _), List.nil_append, ← rows_cons, rows_nil]
      intro i hi
      rw [Function.update_of_ne (by omega), hels i (by omega)]
  | cons d ds ih =>
      obtain ⟨⟨-, hsep⟩, hrest⟩ := hnames.cons
      rw [List.length_cons] at hcur hfuel
      have hd : d.length ≠ 0 := fun h => hrest.cons.1.1 (List.eq_nil_of_length_eq_zero h)
      have hplen : pathname.length =
        pre.length + c.length + (d.length + 1 + (joined slash ds).length) := by
        simp only [hpath, joined, List.length_append, List.length_cons]
        omega
      have hrow : (els cur).length + c.length ≤ 255 := by
        rw [hels cur (Nat.le_refl _), List.length_nil]
        omega
      have hname := splitElement_name (pathname.length + 1) hpath hpre hsep
        (hstr c List.mem_cons_self) (joined_head (d :: ds)) hrow (by omega) (by omega)
      have hpath' : pathname = pre ++ (c ++ [slash]) ++ (d ++ joined slash ds) := by
        simp [hpath, joined]
      obtain ⟨fuel, rfl⟩ : ∃ f, fuel = f + 1 := ⟨fuel - 1, by omega⟩
      have hempty : ∀ i, cur + 1 ≤ i → Function.update els cur c i = [] := fun i hi => by
        rw [Function.update_of_ne (by omega), hels i (by omega)]
      obtain ⟨s, hs, hcount, hels'⟩ := ih hpath' (List.append_ne_nil_of_left_ne_nil hpre _) hrest
        (fun x hx => hstr x (List.mem_cons_of_mem c hx)) hempty (by omega) fuel (by omega)
      refine ⟨s, ?_, by rw [hcount, List.length_cons]; omega, by rw [hels', rows_cons]⟩
      have hgo : (!(joined slash (d :: ds)).isEmpty) = true := rfl
      rw [splitLoop, hname, Option.bind_some]
      dsimp only
      rw [if_neg (show ¬ pre.length + c.length + 1 ≥ pathname.length by omega), hgo, if_pos rfl,
        ← hs, hels cur (Nat.le_refl _)]
      simp only [List.length_append, List.length_singleton, List.nil_append, Nat.add_assoc]

/-- `path_elements` of a whole path: the root, and every name. -/
def elementsOf (cs : List (List UInt8)) : Nat → List UInt8 := rows (fun _ => []) 0 ([slash] :: cs)

theorem splitPath_render {cs : List (List UInt8)} (hnames : Names slash cs) (hstr : Strings cs)
    (hcount : cs.length ≤ 24) (hlen : (render slash cs).length < 255) :
    ∃ s, splitPath (render slash cs) = some s ∧ s.currentPathEleIndex = cs.length + 1 ∧
      s.pathElements = elementsOf cs := by
  have hroot : rows (Function.update (fun _ : Nat => []) 0 [slash]) 1 cs = elementsOf cs :=
    rows_cons [slash] cs
  have hels : ∀ i, 1 ≤ i → Function.update (fun _ : Nat => ([] : List UInt8)) 0 [slash] i = [] :=
    fun i hi => Function.update_of_ne (by omega) ..
  rw [← hroot]
  cases cs with
  | nil => exact ⟨_, rfl, rfl, (rows_nil hels).symm⟩
  | cons c cs =>
      have hc : c.length ≠ 0 := fun h => hnames.cons.1.1 (List.eq_nil_of_length_eq_zero h)
      have hnum := length_le_joined slash cs
      obtain ⟨p, hp⟩ : ∃ p, render slash (c :: cs) = p := ⟨_, rfl⟩
      have hpath : p = [slash] ++ (c ++ joined slash cs) := by rw [← hp, render_cons]; rfl
      have hplen : p.length = c.length + (joined slash cs).length + 1 := by simp [hpath]
      rw [hp] at hlen ⊢
      obtain ⟨s, hs, hindex, hrows⟩ := splitLoop_names p.length hpath
        (List.cons_ne_nil _ _) hnames hstr hels (by omega)
        (by rw [List.length_cons] at hcount; omega) (by omega)
      refine ⟨s, ?_, by rw [hindex, List.length_cons]; omega, hrows⟩
      have hfirst : charAt p 0 = slash := by rw [hpath]; rfl
      have hkeep : (0 != p.length) = true := by simp [hplen]
      rw [splitPath, splitLoop, splitElement, if_pos (.inl hfirst), Option.bind_some]
      dsimp only [Split.close]
      rw [if_neg (show ¬ 0 + 1 ≥ p.length by omega), hkeep, Bool.true_and, if_pos rfl, ← hs]
      rfl

theorem elementsOf_succ {cs : List (List UInt8)} {n : Nat} (h : n < cs.length) :
    elementsOf cs (n + 1) = cs[n] := by
  simp [elementsOf, rows, h]

/-! ## What is found -/

variable {points : Avs.State VfsMountPoint} {cells : List (Cell VfsMountPoint)}

/-- The mount points in the order they were registered. -/
def mounts (cells : List (Cell VfsMountPoint)) : List VfsMountPoint := cells.map Prod.snd

def registered (cells : List (Cell VfsMountPoint)) (path : List UInt8) : Option VfsMountPoint :=
  (mounts cells).find? fun mp => path = mp.root

theorem findMountPoint_spec (h : Rep points cells) (path : List UInt8) :
    findMountPoint points path = some (registered cells path) := by
  have hloop := findLoop_seg h.chain.seg fun mp => avsListCompareMountPointRoots path mp = 0
  rw [findMountPoint, h.size, Int.toNat_natCast, h.head, hloop, Option.bind_some]
  simp only [avsListCompareMountPointRoots, kstrcmp_eq_zero_iff]
  rw [registered, mounts, List.find?_map]
  rcases hc : cells.find? ((fun mp => decide (path = mp.root)) ∘ Prod.snd) with _ | c
  · have hc' : cells.find? (fun c => decide (path = c.2.root)) = none := hc
    simp only [hc, hc', addr, Option.map_none, Option.getD_none, if_true]
  · have hc' : cells.find? (fun c => decide (path = c.2.root)) = some c := hc
    have hmem : c ∈ cells := List.mem_of_find?_eq_some hc
    obtain ⟨l, r, rfl⟩ := List.append_of_mem hmem
    simp only [hc, hc', addr, Option.map_some, Option.getD_some, if_neg (h.chain.nonnull c hmem),
      h.chain.seg.node]

/-- The last mount point found among the first `n` prefixes of the path, the
empty prefix first. -/
def farthestBelow (cells : List (Cell VfsMountPoint)) (cs : List (List UInt8)) :
    Nat → Option VfsMountPoint
  | 0 => none
  | n + 1 => (registered cells (render slash (cs.take n))).or (farthestBelow cells cs n)

/-- One round: the special case of the root looks up the same string. -/
theorem mountLoop_succ (h : Rep points cells) (els : Nat → List UInt8) {cs : List (List UInt8)}
    (hroot : (registered cells [slash]).isSome) (left n : Nat) (farthest : Option VfsMountPoint) :
    mountLoop points els (left + 1) n (render slash (cs.take n)) farthest =
      if left = 0 then some ((registered cells (render slash (cs.take n))).or farthest)
      else (nextPathToTest els n (render slash (cs.take n))).bind fun path =>
        mountLoop points els left (n + 1) path
          ((registered cells (render slash (cs.take n))).or farthest) := by
  have hzero : n = 0 → render slash (cs.take n) = [slash] := by
    rintro rfl
    rfl
  rw [mountLoop]
  split
  · next hn =>
    rw [hzero hn.1, findMountPoint_spec h, Option.bind_some,
      if_neg fun hnone => by simp [Option.isNone_iff_eq_none.mp hnone.2] at hroot]
  · next hn =>
    rw [findMountPoint_spec h, Option.bind_some, if_neg fun hroot => hn hroot.1]

theorem mountLoop_spec (h : Rep points cells) {cs : List (List UInt8)}
    (hlen : (render slash cs).length < 255) (hroot : (registered cells [slash]).isSome)
    (left n : Nat) (hn : n + left = cs.length) :
    mountLoop points (elementsOf cs) (left + 1) n (render slash (cs.take n))
      (farthestBelow cells cs n) = some (farthestBelow cells cs (cs.length + 1)) := by
  induction left generalizing n with
  | zero =>
      obtain rfl : n = cs.length := hn
      rw [mountLoop_succ h _ hroot, if_pos rfl, farthestBelow]
  | succ left ih =>
      have hlt : n < cs.length := by omega
      have hnext : nextPathToTest (elementsOf cs) n (render slash (cs.take n)) =
          some (render slash (cs.take (n + 1))) := by
        have hfits := length_render_le slash (List.take_prefix (n + 1) cs)
        simp only [nextPathToTest, elementsOf_succ hlt, gt_iff_lt, render_take_succ hlt]
        rw [if_pos (by omega)]
      rw [mountLoop_succ h _ hroot, if_neg (Nat.succ_ne_zero left), hnext, Option.bind_some]
      exact ih (n + 1) (by omega)

/-- It is the last one: no longer prefix among the first `n` is registered. -/
theorem farthestBelow_eq_some {cs : List (List UInt8)} {n : Nat} {mp : VfsMountPoint}
    (h : farthestBelow cells cs n = some mp) :
    ∃ k < n, registered cells (render slash (cs.take k)) = some mp ∧
      ∀ j, k < j → j < n → registered cells (render slash (cs.take j)) = none := by
  induction n with
  | zero => exact absurd h (Option.some_ne_none mp).symm
  | succ n ih =>
      rw [farthestBelow, Option.or_eq_some_iff] at h
      obtain hfound | ⟨hnone, hbelow⟩ := h
      · exact ⟨n, Nat.lt_succ_self n, hfound, fun j hj hjn => by omega⟩
      · obtain ⟨k, hk, hfound, hlast⟩ := ih hbelow
        refine ⟨k, by omega, hfound, fun j hj hjn => ?_⟩
        obtain rfl | hjn' := Nat.eq_or_lt_of_le (Nat.le_of_lt_succ hjn)
        · exact hnone
        · exact hlast j hj hjn'

theorem farthestBelow_isSome (cs : List (List UInt8)) (n : Nat)
    (h : (registered cells [slash]).isSome) : (farthestBelow cells cs (n + 1)).isSome := by
  induction n with
  | zero =>
      have hnil : render slash (cs.take 0) = [slash] := rfl
      rw [farthestBelow, hnil, Option.isSome_or, h, Bool.true_or]
  | succ n ih =>
      rw [farthestBelow, Option.isSome_or, ih, Bool.or_true]

/-! ## The mount point of a path -/

/-- `mp` is the first of `ms` whose root is the longest prefix of the path
`cs`, name by name. -/
def FirstLongest (ms : List VfsMountPoint) (cs : List (List UInt8)) (mp : VfsMountPoint) : Prop :=
  ∃ earlier later root, ms = earlier ++ mp :: later ∧ mp.root = render slash root ∧ root <+: cs ∧
    (∀ m ∈ earlier, m.root ≠ mp.root) ∧
    ∀ m ∈ ms, ∀ r, m.root = render slash r → r <+: cs → r.length ≤ root.length

/-- What is registered under a path is the first with that root. -/
theorem registered_eq_some {path : List UInt8} {mp : VfsMountPoint}
    (h : registered cells path = some mp) :
    mp.root = path ∧ ∃ earlier later, mounts cells = earlier ++ mp :: later ∧
      ∀ m ∈ earlier, m.root ≠ mp.root := by
  obtain ⟨hroot, earlier, later, hsplit, hnot⟩ := List.find?_eq_some_iff_append.mp h
  have hpath : path = mp.root := of_decide_eq_true hroot
  refine ⟨hpath.symm, earlier, later, hsplit, fun m hm heq => ?_⟩
  have hne := hnot m hm
  simp [hpath, heq] at hne

theorem registered_isSome {path : List UInt8} {mp : VfsMountPoint} (hmem : mp ∈ mounts cells)
    (hroot : mp.root = path) : (registered cells path).isSome := by
  rw [registered, List.find?_isSome]
  exact ⟨mp, hmem, decide_eq_true hroot.symm⟩

/-- For every path that fits the buffers and every list of mount points with
`/` among them the function returns a mount point: of those whose root is a
prefix of the path, name by name, one with the longest root, and of two with
the same root the one that was registered first. -/
theorem mount_point_longest_prefix (h : Rep points cells)
    (hslash : ∃ mp ∈ mounts cells, mp.root = [slash]) {cs : List (List UInt8)}
    (hnames : Names slash cs) (hstr : Strings cs) (hcount : cs.length ≤ 24)
    (hlen : (render slash cs).length < 255) :
    ∃ mp, vfsGetMountPointFromPath points (render slash cs) = some (some mp) ∧
      FirstLongest (mounts cells) cs mp := by
  obtain ⟨root, hmem, hroot⟩ := hslash
  have hfound : (registered cells [slash]).isSome := registered_isSome hmem hroot
  obtain ⟨s, hs, hindex, hels⟩ := splitPath_render hnames hstr hcount hlen
  have hloop := mountLoop_spec h hlen hfound cs.length 0 (Nat.zero_add _)
  obtain ⟨mp, hmp⟩ := Option.isSome_iff_exists.mp (farthestBelow_isSome cs
    cs.length hfound)
  refine ⟨mp, ?_, ?_⟩
  · have hrow : elementsOf cs 0 = [slash] := rfl
    rw [vfsGetMountPointFromPath, hs, Option.bind_some, hindex, hels, hrow,
      if_pos (show [slash].length < 255 by decide), ← hmp]
    exact hloop
  · obtain ⟨k, hk, hfirst, hlast⟩ := farthestBelow_eq_some hmp
    obtain ⟨hpath, earlier, later, hsplit, hearlier⟩ := registered_eq_some hfirst
    refine ⟨earlier, later, cs.take k, hsplit, hpath, List.take_prefix k cs, hearlier, ?_⟩
    intro m hm r hr hpre
    have hkeep : r = cs.take r.length := List.prefix_iff_eq_take.mp hpre
    have hsome := registered_isSome hm hr
    rw [List.length_take, Nat.min_eq_left (by omega)]
    by_contra hlonger
    have hle := hpre.length_le
    have hnone := hlast r.length (by omega) (by omega)
    rw [← hkeep] at hnone
    rw [hnone] at hsome
    exact Bool.false_ne_true hsome

/-- The table of the running system: `/` and `/dev`. -/
def bootMounts : Avs.State VfsMountPoint where
  nodes := fun a =>
    if a = 1 then some ⟨⟨[], [47], 0, 0⟩, 0, 2⟩
    else if a = 2 then some ⟨⟨[], [47, 100, 101, 118], 0, 1⟩, 1, 0⟩ else none
  list := { head := 1, tail := 2, size := 2 }

theorem bootMounts_rep :
    Rep bootMounts [(1, ⟨[], [47], 0, 0⟩), (2, ⟨[], [47, 100, 101, 118], 0, 1⟩)] :=
  ⟨⟨⟨rfl, rfl, trivial⟩, by decide, by decide⟩, rfl, rfl, rfl⟩

theorem mount_point_longest_prefix_com1 :
    ∃ mp, vfsGetMountPointFromPath bootMounts
        (render slash [[100, 101, 118], [99, 111, 109, 49]]) = some (some mp) ∧
      FirstLongest (mounts [(1, ⟨[], [47], 0, 0⟩), (2, ⟨[], [47, 100, 101, 118], 0, 1⟩)])
        [[100, 101, 118], [99, 111, 109, 49]] mp :=
  mount_point_longest_prefix bootMounts_rep ⟨⟨[], [47], 0, 0⟩, List.mem_cons_self, rfl⟩
    (by unfold Names; decide) (by unfold Strings; decide) (by decide) (by decide)

end VersionSix.Vfs
