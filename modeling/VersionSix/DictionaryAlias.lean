import VersionSix.DictionaryMap

/-!
# Keys of the dictionary

`dictionary.c` never compares two keys: search, update and membership know an
item by its hash. What a run of adds builds is therefore a finite map from
hashes to values (`Slots`), whatever `vi_hash` is, and two keys are apart
exactly if their hashes are (`keys_apart_iff`).

Two directions make that an equivalence. If the hashes differ, adding one key
cannot be seen through the other: the items on the chain have different hashes,
and a search takes the one with its own. If they are equal, the second key is
found before it was ever added, with the value of the first.

The hash of the kernel is computed here as well, so that two names with the
same hash can be shown (`colliding_names`). No theorem depends on what it is.
-/

namespace VersionSix.Dictionary

open Linked OrderedMap

/-! ## The hash -/

def rotl32 (k r : UInt32) : UInt32 := (k <<< r) ||| (k >>> (32 - r))

/-- What a word of the data is turned into before it goes into `h`. -/
def murmurMix (k : UInt32) : UInt32 := rotl32 (k * 0xcc9e2d51) 15 * 0x1b873593

/-- The loop over the blocks, and the `switch` over the tail. -/
def murmurBody : List UInt8 → UInt32 → UInt32
  | a :: b :: c :: d :: rest, h =>
      let k := a.toUInt32 ||| b.toUInt32 <<< 8 ||| c.toUInt32 <<< 16 ||| d.toUInt32 <<< 24
      murmurBody rest (rotl32 (h ^^^ murmurMix k) 13 * 5 + 0xe6546b64)
  | [a, b, c], h => h ^^^ murmurMix (c.toUInt32 <<< 16 ^^^ b.toUInt32 <<< 8 ^^^ a.toUInt32)
  | [a, b], h => h ^^^ murmurMix (b.toUInt32 <<< 8 ^^^ a.toUInt32)
  | [a], h => h ^^^ murmurMix a.toUInt32
  | [], h => h

/-- `qhashmurmur3_32`, the `vi_hash` of `lib/hash.h`. -/
def qhashmurmur3 (data : Key) : UInt32 :=
  if data.length = 0 then 0
  else
    let h := murmurBody data 0 ^^^ UInt32.ofNat data.length
    let h := (h ^^^ h >>> 16) * 0x85ebca6b
    let h := (h ^^^ h >>> 13) * 0xc2b2ae35
    h ^^^ h >>> 16

/-! ## Statement -/

/-- A call of `vi_dictionary_add`, with the block it gets for a new item. -/
structure AddCall where
  key : Key
  value : Nat
  item : Nat
  modified : UInt32

section Law

variable (viHash : Key → UInt32) (fuel : Nat)

def addStep (s : State) (x : AddCall) : Option State :=
  viDictionaryAdd viHash fuel s x.key x.value x.item x.modified

/-- Adding or updating `b` leaves what the dictionary reports of `a`, and `a`
is found only if it was added. -/
structure Apart (s : State) (added : List Key) (a b : Key) (item : Nat) : Prop where
  kept : ∀ value modified, ∃ s', viDictionaryAdd viHash fuel s b value item modified = some s' ∧
    viDictionaryGetValue viHash fuel s' a = viDictionaryGetValue viHash fuel s a ∧
    viDictionaryHasKey viHash fuel s' a = viDictionaryHasKey viHash fuel s a
  value : ∀ v, viDictionaryGetValue viHash fuel s a = some v → v ≠ 0 → a ∈ added
  has : viDictionaryHasKey viHash fuel s a = some true → a ∈ added

end Law

/-! ## Search -/

variable {viHash : Key → UInt32} {fuel : Nat} {s s' : State} {cs l r : List (Cell Item)}
  {c : Cell Item} {key : Key}

/-- The items of a dictionary, with different hashes. -/
structure Slots (s : State) (cs : List (Cell Item)) : Prop extends Listed s cs where
  distinct : (cs.map fun c => c.2.hash).Nodup

def byHash (cs : List (Cell Item)) : List (UInt32 × Nat) := cs.map fun c => (c.2.hash, c.2.value)

theorem keys_byHash (cs : List (Cell Item)) : keys (byHash cs) = cs.map fun c => c.2.hash := by
  rw [keys, byHash, List.map_map]
  rfl

theorem get_byHash (hash : UInt32) (cs : List (Cell Item)) :
    get hash (byHash cs) = (cs.find? fun c => c.2.hash = hash).map fun c => c.2.value := by
  rw [OrderedMap.get, byHash, List.find?_map, Option.map_map]
  rfl

theorem mem_byHash {hash : UInt32} :
    hash ∈ keys (byHash cs) ↔ (cs.find? fun c => c.2.hash = hash).isSome := by
  rw [keys_byHash, List.find?_isSome]
  simp

theorem Listed.found (h : Listed s cs) {p : Cell Item → Bool} (hc : cs.find? p = some c) :
    c.1 ≠ 0 ∧ p c = true ∧ ∃ l r, cs = l ++ c :: r := by
  have hmem := List.mem_of_find?_eq_some hc
  exact ⟨h.chain.nonnull c hmem, List.find?_some hc, List.append_of_mem hmem⟩

theorem Listed.getValue (h : Listed s cs) (hfuel : cs.length ≤ fuel) (key : Key) :
    viDictionaryGetValue viHash fuel s key = some ((get (viHash key) (byHash cs)).getD 0) := by
  unfold viDictionaryGetValue
  rw [h.getItem hfuel, get_byHash]
  by_cases hcs : cs = []
  · rw [if_pos (h.head_eq_zero.mpr hcs), hcs]
    rfl
  · rw [if_neg (h.head_eq_zero.not.mpr hcs), Option.bind_eq_bind, Option.bind_some]
    cases hfind : cs.find? fun c => c.2.hash = viHash key with
    | none => rfl
    | some c =>
        obtain ⟨hc, -, l, r, rfl⟩ := h.found hfind
        have haddr : addr (some c) ≠ 0 := hc
        have hnode : s.nodes (addr (some c)) = _ := h.chain.seg.node
        rw [if_neg haddr, hnode]
        rfl

theorem Listed.hasKey (h : Listed s cs) (hfuel : cs.length ≤ fuel) (key : Key) :
    viDictionaryHasKey viHash fuel s key = some (decide (viHash key ∈ keys (byHash cs))) := by
  unfold viDictionaryHasKey
  by_cases hcs : cs = []
  · rw [if_pos (h.head_eq_zero.mpr hcs), hcs]
    rfl
  · rw [if_neg (h.head_eq_zero.not.mpr hcs), h.loop hcs hfuel, Option.map_some]
    congr 1
    rw [decide_eq_decide, mem_byHash]
    cases hfind : cs.find? fun c => c.2.hash = viHash key with
    | none => simp [addr]
    | some c => simpa [addr] using (h.found hfind).1

/-! ## Adding -/

theorem Slots.hash_apart (h : Slots s (l ++ c :: r)) : c.2.hash ∉ keys (byHash l) := by
  have hd := h.distinct
  rw [List.map_append, List.map_cons, List.nodup_append] at hd
  obtain ⟨-, -, hne⟩ := hd
  rw [keys_byHash]
  exact fun hl => hne _ hl _ (List.mem_cons_self ..) rfl

/-- `add` is `put`, on hashes. -/
theorem Slots.add (viHash : Key → UInt32) (h : Slots s cs) (hfuel : cs.length ≤ fuel) (key : Key)
    (value : Nat) {item : Nat} (modified : UInt32) (hitem : Fresh s item) :
    ∃ s' cs', viDictionaryAdd viHash fuel s key value item modified = some s' ∧ Slots s' cs' ∧
      byHash cs' = put (viHash key) value (byHash cs) ∧ cs'.length ≤ cs.length + 1 := by
  have hget : viDictionaryGetItem viHash fuel s key = _ := h.getItem hfuel key
  cases hfind : cs.find? fun c => c.2.hash = viHash key with
  | none =>
      have hnot : viHash key ∉ keys (byHash cs) := by
        rw [mem_byHash, hfind]
        exact Bool.false_ne_true
      rw [hfind] at hget
      obtain ⟨s', hs', -, hlist⟩ := h.toListed.add_fresh hget value modified hitem
      refine ⟨s', _, hs', ⟨hlist, ?_⟩, ?_, by simp⟩
      · rw [keys_byHash] at hnot
        rw [List.map_append, List.map_singleton]
        exact List.nodup_append_comm.mp (List.nodup_cons.mpr ⟨hnot, h.distinct⟩)
      · rw [put_of_not_mem value hnot, byHash, List.map_append]
        rfl
  | some c =>
      obtain ⟨-, hhash, l, r, rfl⟩ := h.found hfind
      have hhash' : c.2.hash = viHash key := of_decide_eq_true hhash
      rw [hfind] at hget
      obtain ⟨s', hs', -, hlist⟩ := h.toListed.add_found hget value item modified
      refine ⟨s', _, hs', ⟨hlist, ?_⟩, ?_, by simp⟩
      · simpa using h.distinct
      · have hcs : byHash (l ++ c :: r) = byHash l ++ (c.2.hash, c.2.value) :: byHash r := by
          simp [byHash]
        rw [hcs, ← hhash', put_split c.2.value value h.hash_apart]
        simp [byHash]

/-- What a run of adds means for the map from hashes to values. -/
def putAll (viHash : Key → UInt32) (calls : List AddCall) (t : List (UInt32 × Nat)) :
    List (UInt32 × Nat) :=
  calls.foldl (fun t x => put (viHash x.key) x.value t) t

theorem mem_putAll {hash : UInt32} {calls : List AddCall} {t : List (UInt32 × Nat)} :
    hash ∈ keys (putAll viHash calls t) ↔
      hash ∈ keys t ∨ ∃ k ∈ calls.map AddCall.key, viHash k = hash := by
  induction calls generalizing t with
  | nil => simp [putAll]
  | cons x calls ih =>
      have hput : hash ∈ keys (put (viHash x.key) x.value t) ↔
          hash ∈ keys t ∨ viHash x.key = hash := by
        rw [keys_put]
        split
        · next hmem =>
            refine ⟨Or.inl, fun h => h.elim id ?_⟩
            rintro rfl
            exact hmem
        · rw [List.mem_append, List.mem_singleton, eq_comm]
      have hnext : putAll viHash (x :: calls) t =
          putAll viHash calls (put (viHash x.key) x.value t) := rfl
      rw [hnext, ih, hput]
      simp [or_assoc]

theorem Slots.run {calls : List AddCall} (h : Slots s cs)
    (hfuel : cs.length + calls.length ≤ fuel)
    (hfresh : Run.Along (addStep viHash fuel) (fun s x => Fresh s x.item) s calls) :
    ∃ s' cs', Run.exec (addStep viHash fuel) s calls = some s' ∧ Slots s' cs' ∧
      byHash cs' = putAll viHash calls (byHash cs) ∧ cs'.length ≤ cs.length + calls.length := by
  induction calls generalizing s cs with
  | nil => exact ⟨s, cs, rfl, h, rfl, Nat.le_refl _⟩
  | cons x calls ih =>
      rw [List.length_cons] at hfuel
      have hnow : cs.length ≤ fuel := by omega
      obtain ⟨s₁, cs₁, hs₁, hslots, hmap, hlen⟩ :=
        h.add viHash hnow x.key x.value x.modified hfresh.1
      obtain ⟨s₂, cs₂, hs₂, hslots₂, hmap₂, hlen₂⟩ := ih hslots (by omega) (hfresh.2 s₁ hs₁)
      refine ⟨s₂, cs₂, ?_, hslots₂, ?_, ?_⟩
      · rw [Run.exec, addStep, hs₁, Option.bind_some, hs₂]
      · rw [hmap₂, hmap]
        rfl
      · rw [List.length_cons]
        omega

/-! ## Different keys -/

theorem Slots.reports_after {item : Nat} (h : Slots s cs) (viHash : Key → UInt32)
    (hfuel : cs.length + 1 ≤ fuel) (hitem : Fresh s item) (a b : Key) (value : Nat)
    (modified : UInt32) :
    ∃ s', viDictionaryAdd viHash fuel s b value item modified = some s' ∧
      viDictionaryGetValue viHash fuel s' a = some ((if viHash a = viHash b then some value
        else get (viHash a) (byHash cs)).getD 0) ∧
      (viHash a ≠ viHash b → viDictionaryHasKey viHash fuel s' a =
        some (decide (viHash a ∈ keys (byHash cs)))) := by
  obtain ⟨s', cs', hs', hslots, hmap, hlen⟩ :=
    h.add viHash (Nat.le_of_succ_le hfuel) b value modified hitem
  have hfuel' : cs'.length ≤ fuel := Nat.le_trans hlen hfuel
  refine ⟨s', hs', ?_, fun hne => ?_⟩
  · rw [hslots.getValue hfuel', hmap, get_put]
  · rw [hslots.hasKey hfuel', hmap, keys_put]
    congr 1
    rw [decide_eq_decide]
    split
    · exact Iff.rfl
    · rw [List.mem_append, List.mem_singleton]
      exact or_iff_left hne

theorem Slots.apart_iff {added : List Key} {a b : Key} {item : Nat} (h : Slots s cs)
    (hfuel : cs.length + 1 ≤ fuel) (hitem : Fresh s item)
    (hadded : ∀ hash, hash ∈ keys (byHash cs) ↔ ∃ k ∈ added, viHash k = hash) :
    Apart viHash fuel s added a b item ↔
      viHash a ≠ viHash b ∧ (a ∈ added ∨ ∀ k ∈ added, viHash k ≠ viHash a) := by
  have hnow : cs.length ≤ fuel := Nat.le_of_succ_le hfuel
  have hafter := h.reports_after viHash hfuel hitem a b
  constructor
  · intro hapart
    refine ⟨fun heq => ?_, ?_⟩
    · -- two values for `b` give two values for `a`
      have hvalue : ∀ value, some value = viDictionaryGetValue viHash fuel s a := by
        intro value
        obtain ⟨s', hs', hget, -⟩ := hapart.kept value 0
        obtain ⟨s₁, hs₁, hget₁, -⟩ := hafter value 0
        obtain rfl := Option.some.inj (hs'.symm.trans hs₁)
        rw [← hget, hget₁, if_pos heq]
        rfl
      cases Option.some.inj ((hvalue 0).trans (hvalue 1).symm)
    · by_cases hmem : viHash a ∈ keys (byHash cs)
      · refine .inl (hapart.has ?_)
        rw [h.hasKey hnow, decide_eq_true hmem]
      · exact .inr fun k hk heq => hmem ((hadded _).mpr ⟨k, hk, heq⟩)
  · rintro ⟨hne, hfound⟩
    have hmem : viHash a ∈ keys (byHash cs) → a ∈ added := by
      intro hmem
      obtain ⟨k, hk, heq⟩ := (hadded _).mp hmem
      exact hfound.resolve_right fun hno => hno k hk heq
    refine ⟨fun value modified => ?_, fun v hv hv0 => ?_, fun hhas => ?_⟩
    · obtain ⟨s', hs', hget, hhas⟩ := hafter value modified
      refine ⟨s', hs', ?_, ?_⟩
      · rw [hget, if_neg hne, h.getValue hnow]
      · rw [hhas hne, h.hasKey hnow]
    · refine hmem ?_
      by_contra hno
      rw [h.getValue hnow, get_of_not_mem hno] at hv
      exact hv0 (Option.some.inj hv).symm
    · rw [h.hasKey hnow] at hhas
      exact hmem (of_decide_eq_true (Option.some.inj hhas))

theorem slots_create (m : Nodes Item) : Slots (viDictionaryCreate m) [] :=
  ⟨⟨chain_nil m, rfl, rfl⟩, List.nodup_nil⟩

/-- **Keys.** In a dictionary that was built by adds, two keys are apart
exactly if their hashes are, and no key with the hash of the first was added in
its place. Both parts are about the hashes alone, since no two keys are ever
compared. -/
theorem keys_apart_iff {calls : List AddCall} (m : Nodes Item)
    (hfuel : calls.length + 1 ≤ fuel)
    (hfresh : Run.Along (addStep viHash fuel) (fun s x => Fresh s x.item)
      (viDictionaryCreate m) calls) :
    ∃ s, Run.exec (addStep viHash fuel) (viDictionaryCreate m) calls = some s ∧
      ∀ a b item, a ≠ b → Fresh s item →
        (Apart viHash fuel s (calls.map AddCall.key) a b item ↔ viHash a ≠ viHash b ∧
          (a ∈ calls.map AddCall.key ∨
            ∀ k ∈ calls.map AddCall.key, viHash k ≠ viHash a)) := by
  obtain ⟨s, cs, hs, hslots, hmap, hlen⟩ := (slots_create m).run (by simp; omega) hfresh
  rw [List.length_nil, Nat.zero_add] at hlen
  refine ⟨s, hs, fun a b item _ hitem => hslots.apart_iff (by omega) hitem fun hash => ?_⟩
  rw [hmap, mem_putAll]
  simp [byHash, keys]

theorem keys_apart_iff_added :
    ∃ s, Run.exec (addStep qhashmurmur3 2) (viDictionaryCreate fun _ => none)
        [⟨[80], 7, 1, 0⟩] = some s ∧ Apart qhashmurmur3 2 s [[80]] [80] [81] 2 := by
  have hfresh : Run.Along (addStep qhashmurmur3 2) (fun s x => Fresh s x.item)
      (viDictionaryCreate fun _ => none) [⟨[80], 7, 1, 0⟩] :=
    ⟨⟨Nat.one_ne_zero, rfl⟩, fun _ _ => trivial⟩
  obtain ⟨s, hs, hiff⟩ := keys_apart_iff _ (Nat.le_refl 2) hfresh
  have hdone : Run.exec (addStep qhashmurmur3 2) (viDictionaryCreate fun _ => none)
      [⟨[80], 7, 1, 0⟩] = some _ := rfl
  obtain rfl := Option.some.inj (hdone.symm.trans hs)
  refine ⟨_, hs, (hiff [80] [81] 2 (by decide) ⟨Nat.two_pos.ne', rfl⟩).mpr ⟨by decide, ?_⟩⟩
  exact .inl (List.mem_singleton.mpr rfl)

/-- Two names with one hash, `aavjr` and `abrul`. -/
def aavjr : Key := [97, 97, 118, 106, 114]

def abrul : Key := [97, 98, 114, 117, 108]

/-- The dictionary after `aavjr` was added with the value 7. -/
def withAavjr : State :=
  ⟨Function.update (fun _ => none) 1 (some ⟨⟨aavjr, 7, qhashmurmur3 aavjr, 0⟩, 0, 0⟩), ⟨1, 1, 1⟩⟩

/-- `abrul` is found before it was added, and adding it replaces the value of
`aavjr`. -/
theorem colliding_names :
    aavjr ≠ abrul ∧ Run.exec (addStep qhashmurmur3 3) (viDictionaryCreate fun _ => none)
        [⟨aavjr, 7, 1, 0⟩] = some withAavjr ∧ Fresh withAavjr 2 ∧
      viDictionaryHasKey qhashmurmur3 3 withAavjr abrul = some true ∧
      viDictionaryGetValue qhashmurmur3 3 withAavjr aavjr = some 7 ∧
      ((viDictionaryAdd qhashmurmur3 3 withAavjr abrul 9 2 0).bind fun s =>
        viDictionaryGetValue qhashmurmur3 3 s aavjr) = some 9 ∧
      ¬ Apart qhashmurmur3 3 withAavjr [aavjr] aavjr abrul 2 ∧
      ¬ Apart qhashmurmur3 3 withAavjr [aavjr] abrul aavjr 2 := by
  have hhas : viDictionaryHasKey qhashmurmur3 3 withAavjr abrul = some true := by decide +kernel
  have hvalue : viDictionaryGetValue qhashmurmur3 3 withAavjr aavjr = some 7 := by decide +kernel
  have hafter : ((viDictionaryAdd qhashmurmur3 3 withAavjr abrul 9 2 0).bind fun s =>
      viDictionaryGetValue qhashmurmur3 3 s aavjr) = some 9 := by decide +kernel
  refine ⟨by decide, rfl, ⟨Nat.two_pos.ne', rfl⟩, hhas, hvalue, hafter, fun h => ?_, fun h => ?_⟩
  · obtain ⟨s', hs', hget, -⟩ := h.kept 9 0
    rw [hs', Option.bind_some, hget, hvalue] at hafter
    cases hafter
  · exact absurd (h.has hhas) (by decide)

end VersionSix.Dictionary
