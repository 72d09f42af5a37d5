import VersionSix.Linked
import VersionSix.Run

/-!
# The doubly linked list

`list.c`, over the nodes in memory. A pointer is an address, NULL is 0; using a
pointer to memory that is not allocated does not return. Which address
`avs_allocate` hands out is part of the call, so that no allocator has to be
made up.

The functions are taken over with their pointer stores, one after the other; a
store that goes through a freed node has no result, and so has a loop over a
chain that does not end. `Rep`, in the module behind this one, relates a list
in memory to the cells on it, in order. What every function is to do to the
cells is `seqStep`, the sequence the list stands for: insertion in front,
behind and between, removal, and the two ways to take an element off.
-/

namespace VersionSix.Avs

open Linked

variable {D : Type}

/-! ## State -/

structure AvsList where
  head : Nat
  tail : Nat
  size : Int

/-- The nodes in memory, and one list. -/
structure State (D : Type) where
  nodes : Nodes D
  list : AvsList

/-- `avs_allocate`, and the fields the caller sets first. -/
def allocate (m : Nodes D) (a : Nat) (n : Node D) : Nodes D := Function.update m a (some n)

def avsFree (m : Nodes D) (a : Nat) : Nodes D := Function.update m a none

/-- `avs_list_init`, after the list itself was allocated. -/
def avsListInit (m : Nodes D) : State D := ⟨m, { head := 0, tail := 0, size := 0 }⟩

/-! ## Insertion -/

def avsListInsertBefore (s : State D) (beforeNode : Nat) (data : D) (node : Nat) :
    Option (State D) := do
  let m := allocate s.nodes node ⟨data, 0, beforeNode⟩
  if beforeNode = 0 then
    some ⟨m, { head := node, tail := node, size := s.list.size + 1 }⟩
  else if beforeNode = s.list.head then
    let tail := if s.list.tail = 0 then node else s.list.tail
    let m ← m.setPrev beforeNode node
    some ⟨m, { head := node, tail := tail, size := s.list.size + 1 }⟩
  else
    let before ← m beforeNode
    let m ← m.setPrev node before.prev
    let m ← m.setPrev beforeNode node
    let n ← m node
    let m ← m.setNext n.prev node
    some ⟨m, { s.list with size := s.list.size + 1 }⟩

def avsListInsertAfter (s : State D) (afterNode : Nat) (data : D) (node : Nat) :
    Option (State D) := do
  let m := allocate s.nodes node ⟨data, 0, 0⟩
  if afterNode = 0 ∨ afterNode = s.list.tail then
    if s.list.tail = 0 then
      some ⟨m, { head := node, tail := node, size := s.list.size + 1 }⟩
    else
      let m ← m.setNext s.list.tail node
      let m ← m.setPrev node s.list.tail
      some ⟨m, { s.list with tail := node, size := s.list.size + 1 }⟩
  else
    let after ← m afterNode
    let m ← m.setNext node after.next
    let n ← m node
    let m ← m.setPrev n.next node
    let m ← m.setPrev node afterNode
    let m ← m.setNext afterNode node
    some ⟨m, { s.list with size := s.list.size + 1 }⟩

def avsListAppend (s : State D) (data : D) (node : Nat) : Option (State D) :=
  avsListInsertAfter s 0 data node

def avsListPrepend (s : State D) (data : D) (node : Nat) : Option (State D) :=
  avsListInsertBefore s s.list.head data node

def avsListPush (s : State D) (data : D) (node : Nat) : Option (State D) :=
  avsListPrepend s data node

def avsListEnqueue (s : State D) (data : D) (node : Nat) : Option (State D) :=
  avsListPrepend s data node

/-! ## Removal -/

def avsListRemove (s : State D) (node : Nat) : Option (State D) := do
  let n ← s.nodes node
  if n.prev = 0 ∧ n.next = 0 then
    some ⟨s.nodes, { head := 0, tail := 0, size := s.list.size - 1 }⟩
  else if n.prev = 0 then
    let m ← if n.next ≠ 0 then s.nodes.setPrev n.next 0 else some s.nodes
    some ⟨m, { s.list with head := n.next, size := s.list.size - 1 }⟩
  else if n.next = 0 then
    let m ← s.nodes.setNext n.prev 0
    some ⟨m, { s.list with tail := n.prev, size := s.list.size - 1 }⟩
  else
    let m ← s.nodes.setPrev n.next n.prev
    let n ← m node
    let m ← m.setNext n.prev n.next
    some ⟨m, { s.list with size := s.list.size - 1 }⟩

def avsListFree (s : State D) (node : Nat) : Option (State D) := do
  let s ← avsListRemove s node
  some ⟨avsFree s.nodes node, s.list⟩

/-- The end of `avs_list_pop` and `avs_list_dequeue`: the node is taken out
and freed, and its data returned. -/
def avsListTake (s : State D) (node : Nat) : Option (State D × Option D) := do
  let s ← avsListRemove s node
  let n ← s.nodes node
  some (⟨avsFree s.nodes node, s.list⟩, some n.data)

def avsListPop (s : State D) : Option (State D × Option D) :=
  if s.list.head = 0 then some (s, none) else avsListTake s s.list.head

def avsListDequeue (s : State D) : Option (State D × Option D) := avsListTake s s.list.tail

/-- The loop of `avs_list_empty`, for at most `fuel` turns. -/
def avsListEmptyLoop : Nat → State D → Option (State D)
  | 0, s => if s.list.head = 0 then some s else none
  | fuel + 1, s =>
      if s.list.head = 0 then some s else (avsListFree s s.list.head).bind (avsListEmptyLoop fuel)

/-- A list of `size` nodes is empty after `size` turns. -/
def avsListEmpty (s : State D) : Option (State D) := do
  let s ← avsListEmptyLoop s.list.size.toNat s
  some { s with list := { s.list with size := 0 } }

/-! ## Search -/

/-- `node->next`, `n` times. -/
def walk (m : Nodes D) : Nat → Nat → Option Nat
  | 0, a => some a
  | n + 1, a => (m a).bind fun node => walk m n node.next

def avsListAtIndexNode (s : State D) (index : Int) : Option Nat :=
  if index > s.list.size - 1 then some 0
  else if index < 0 then some 0
  else walk s.nodes index.toNat s.list.head

def avsListAtIndexData (s : State D) (index : Int) : Option (Option D) := do
  let node ← avsListAtIndexNode s index
  if node = 0 then some none
  else
    let n ← s.nodes node
    some (some n.data)

/-- The loop of `avs_list_find_data`. -/
def findLoop (m : Nodes D) (found : D → Bool) : Nat → Nat → Option Nat
  | 0, _ => some 0
  | n + 1, a => (m a).bind fun node =>
    if found node.data then some a else findLoop m found n node.next

def avsListFindData (s : State D) (dataToFind : D) (compare : D → D → Int) : Option Nat :=
  findLoop s.nodes (fun d => compare dataToFind d = 0) s.list.size.toNat s.list.head

/-! ## Calls -/

inductive Op (D : Type)
  | append (data : D) (new : Nat)
  | prepend (data : D) (new : Nat)
  | insertBefore (node : Nat) (data : D) (new : Nat)
  | insertAfter (node : Nat) (data : D) (new : Nat)
  | push (data : D) (new : Nat)
  | pop
  | enqueue (data : D) (new : Nat)
  | dequeue
  | remove (node : Nat)
  | free (node : Nat)
  | empty
  | atIndexNode (index : Int)
  | atIndexData (index : Int)
  | findData (data : D) (compare : D → D → Int)

/-- What a call returns: the list, a node (0 for NULL), data, or nothing. -/
inductive Result (D : Type)
  | list
  | node (a : Nat)
  | data (d : Option D)
  | void

def step (s : State D) : Op D → Option (State D × Result D)
  | .append d a => (avsListAppend s d a).map (·, .list)
  | .prepend d a => (avsListPrepend s d a).map (·, .list)
  | .insertBefore n d a => (avsListInsertBefore s n d a).map (·, .list)
  | .insertAfter n d a => (avsListInsertAfter s n d a).map (·, .list)
  | .push d a => (avsListPush s d a).map (·, .list)
  | .pop => (avsListPop s).map fun x => (x.1, .data x.2)
  | .enqueue d a => (avsListEnqueue s d a).map (·, .list)
  | .dequeue => (avsListDequeue s).map fun x => (x.1, .data x.2)
  | .remove n => (avsListRemove s n).map (·, .node n)
  | .free n => (avsListFree s n).map (·, .list)
  | .empty => (avsListEmpty s).map (·, .void)
  | .atIndexNode i => (avsListAtIndexNode s i).map fun a => (s, .node a)
  | .atIndexData i => (avsListAtIndexData s i).map fun d => (s, .data d)
  | .findData d compare => (avsListFindData s d compare).map fun a => (s, .node a)

/-! ## Sequences -/

def seqInsertBefore (node : Nat) (c : Cell D) : List (Cell D) → List (Cell D)
  | [] => [c]
  | x :: cs => if x.1 = node then c :: x :: cs else x :: seqInsertBefore node c cs

def seqInsertAfter (node : Nat) (c : Cell D) : List (Cell D) → List (Cell D)
  | [] => [c]
  | x :: cs => if x.1 = node then x :: c :: cs else x :: seqInsertAfter node c cs

def seqRemove (node : Nat) (cs : List (Cell D)) : List (Cell D) := cs.eraseP (·.1 = node)

/-- The address of a cell, if there is one. -/
def addr (c : Option (Cell D)) : Nat := (c.map Prod.fst).getD 0

def seqAt (cs : List (Cell D)) (index : Int) : Option (Cell D) :=
  if index < 0 then none else cs[index.toNat]?

/-- What each call means for the sequence of cells. -/
def seqStep (cs : List (Cell D)) : Op D → List (Cell D) × Result D
  | .append d a => (cs ++ [(a, d)], .list)
  | .prepend d a => ((a, d) :: cs, .list)
  | .insertBefore n d a => (seqInsertBefore n (a, d) cs, .list)
  | .insertAfter n d a => (seqInsertAfter n (a, d) cs, .list)
  | .push d a => ((a, d) :: cs, .list)
  | .pop => (cs.tail, .data (cs.head?.map Prod.snd))
  | .enqueue d a => ((a, d) :: cs, .list)
  | .dequeue => (cs.dropLast, .data (cs.getLast?.map Prod.snd))
  | .remove n => (seqRemove n cs, .node n)
  | .free n => (seqRemove n cs, .list)
  | .empty => ([], .void)
  | .atIndexNode i => (cs, .node (addr (seqAt cs i)))
  | .atIndexData i => (cs, .data ((seqAt cs i).map Prod.snd))
  | .findData d compare => (cs, .node (addr (cs.find? fun c => compare d c.2 = 0)))

end VersionSix.Avs
