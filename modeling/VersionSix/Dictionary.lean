import VersionSix.Linked
import VersionSix.OrderedMap
import VersionSix.Run

/-!
# The dictionary

`dictionary.c`, over the items in memory. A pointer is an address, NULL is 0;
following a pointer to memory that was never allocated does not return, and
neither does a loop that takes more than `fuel` turns. `vi_hash` is a
parameter. The string of a key is kept as the item's key (`kmalloc` leaves at
least one spare byte behind a block, where `strcpy` puts the terminator). In
the kernel `vfree` is the empty macro of `vit.h`, so an item that was taken out
stays in memory as it was left.

`Rep` relates a dictionary to the items on its chain. `mapStep` is what the
calls mean for a finite map in the order of insertion, and `MapLaw` that a run
of calls does just that.
-/

namespace VersionSix.Dictionary

open Linked OrderedMap

abbrev Key := List UInt8

structure Item where
  key : Key
  value : Nat
  hash : UInt32
  modified : UInt32

structure ViDictionary where
  head : Nat
  tail : Nat
  count : UInt32

/-- The items in memory, and one dictionary. -/
structure State where
  nodes : Nodes Item
  dict : ViDictionary

/-- `#define vfree ;` -/
def vfree (m : Nodes Item) (_item : Nat) : Nodes Item := m

def viDictionaryCreate (m : Nodes Item) : State := ⟨m, { head := 0, tail := 0, count := 0 }⟩

/-! ## Search -/

section Calls

variable (viHash : Key → UInt32) (fuel : Nat)

/-- The loop of `vi_dictionary_get_item`, at an item. -/
def getItemLoop (m : Nodes Item) (hash : UInt32) : Nat → Nat → Option Nat
  | 0, _ => none
  | fuel + 1, item => (m item).bind fun n =>
      if n.data.hash = hash then some item
      else if n.next = 0 then some 0
      else getItemLoop m hash fuel n.next

def viDictionaryGetItem (s : State) (key : Key) : Option Nat :=
  if s.dict.head = 0 then some 0 else getItemLoop s.nodes (viHash key) fuel s.dict.head

def viDictionaryGetValue (s : State) (key : Key) : Option Nat := do
  if s.dict.head = 0 then some 0
  else
    let item ← viDictionaryGetItem viHash fuel s key
    if item = 0 then some 0
    else
      let n ← s.nodes item
      some n.data.value

/-- Its loop is the one of `vi_dictionary_get_item`. -/
def viDictionaryHasKey (s : State) (key : Key) : Option Bool :=
  if s.dict.head = 0 then some false
  else (getItemLoop s.nodes (viHash key) fuel s.dict.head).map fun item => decide (item ≠ 0)

/-! ## Adding -/

/-- `vi_dictionary_add`; `item` is the block `vmalloc` hands out for a new
item, and `modified` what it contains in that place. -/
def viDictionaryAdd (s : State) (key : Key) (value item : Nat) (modified : UInt32) :
    Option State := do
  let oldItem ← viDictionaryGetItem viHash fuel s key
  if oldItem ≠ 0 then
    let m ← s.nodes.modifyData oldItem fun d =>
      { d with value := value, modified := d.modified + 1 }
    some { s with nodes := m }
  else
    let data : Item := { key := key, value := value, hash := viHash key, modified := modified }
    if s.dict.tail = 0 then
      let m : Nodes Item := Function.update s.nodes item (some ⟨data, 0, 0⟩)
      some ⟨m, { head := item, tail := item, count := 1 }⟩
    else
      let m : Nodes Item := Function.update s.nodes item (some ⟨data, s.dict.tail, 0⟩)
      let m ← m.setNext s.dict.tail item
      some ⟨m, { s.dict with tail := item, count := s.dict.count + 1 }⟩

/-! ## Removal -/

/-- `if( a != NULL ) { a->next = v; }` -/
def linkNext (m : Nodes Item) (a v : Nat) : Option (Nodes Item) :=
  if a ≠ 0 then m.setNext a v else some m

/-- `if( a != NULL ) { a->prev = v; }` -/
def linkPrev (m : Nodes Item) (a v : Nat) : Option (Nodes Item) :=
  if a ≠ 0 then m.setPrev a v else some m

def viDictionaryRemoveKey (s : State) (key : Key) : Option State := do
  let item ← viDictionaryGetItem viHash fuel s key
  if item = 0 then some s
  else
    let n ← s.nodes item
    let m ← linkNext s.nodes n.prev n.next
    let n ← m item
    let m ← linkPrev m n.next n.prev
    some ⟨vfree m item, { s.dict with count := s.dict.count - 1 }⟩

/-- The loop of `vi_dictionary_destroy`. -/
def destroyLoop : Nat → State → Option State
  | 0, _ => none
  | fuel + 1, s => (s.nodes s.dict.head).bind fun n =>
      let s' : State := ⟨vfree s.nodes s.dict.head,
        { s.dict with head := n.next, count := s.dict.count - 1 }⟩
      if n.next ≠ 0 then destroyLoop fuel s' else some s'

def viDictionaryDestroy (s : State) : Option State :=
  if s.dict.head = 0 then some s else destroyLoop fuel s

/-! ## Iteration -/

/-- The callbacks of the loop of `vi_dictionary_for_each`, at an item. -/
def forEachLoop (m : Nodes Item) : Nat → Nat → Option (List (Key × Nat))
  | 0, _ => none
  | fuel + 1, item => (m item).bind fun n =>
      if n.next = 0 then some [(n.data.key, n.data.value)]
      else (forEachLoop m fuel n.next).map ((n.data.key, n.data.value) :: ·)

def viDictionaryForEach (s : State) : Option (List (Key × Nat)) :=
  if s.dict.head = 0 then some [] else forEachLoop s.nodes fuel s.dict.head

/-! ## Calls -/

inductive Op
  | add (key : Key) (value item : Nat) (modified : UInt32)
  | removeKey (key : Key)
  | getValue (key : Key)
  | hasKey (key : Key)
  | forEach
  | destroy

/-- What a call returns; `add`, `remove_key` and `destroy` return nothing of
use, and `for_each` is known by its callbacks. -/
inductive Result
  | void
  | value (v : Nat)
  | has (b : Bool)
  | visited (xs : List (Key × Nat))
deriving DecidableEq

def step (s : State) : Op → Option (State × Result)
  | .add key value item modified =>
      (viDictionaryAdd viHash fuel s key value item modified).map (·, .void)
  | .removeKey key => (viDictionaryRemoveKey viHash fuel s key).map (·, .void)
  | .getValue key => (viDictionaryGetValue viHash fuel s key).map fun v => (s, .value v)
  | .hasKey key => (viDictionaryHasKey viHash fuel s key).map fun b => (s, .has b)
  | .forEach => (viDictionaryForEach fuel s).map fun xs => (s, .visited xs)
  | .destroy => (viDictionaryDestroy fuel s).map (·, .void)

end Calls

/-! ## The finite map -/

abbrev Entries := List (Key × Nat)

def mapStep (t : Entries) : Op → Entries × Result
  | .add key value _ _ => (put key value t, .void)
  | .removeKey key => (remove key t, .void)
  | .getValue key => (t, .value ((get key t).getD 0))
  | .hasKey key => (t, .has (decide (key ∈ keys t)))
  | .forEach => (t, .visited t)
  | .destroy => ([], .void)

end VersionSix.Dictionary
