import TDB.Lib.Exec
import TDB.Lib.LinkedNodes

namespace TDB

open Exec LinkedNodes

variable {K V S : Type}

/-! ## The LRU list -/

/-- `ListNode`; the item is `key_` with `value_`. -/
abbrev ListNode (K V : Type) := Node (K × V)

/-- `LruCache`.  `fresh` is the address of the next node, and `searcher` holds the nodes of the hash
set: no two of them have equal keys. -/
structure LruCache (K V : Type) where
  heap : Heap (K × V)
  fresh : ℕ
  searcher : List ℕ
  lruFront : Option ℕ
  lruTail : Option ℕ

/-- A node that is read after it was deleted, or a list that does not end. -/
inductive LruFault where
  | dangling | endless
  deriving DecidableEq, Repr

abbrev LruM (K V : Type) := StateT (LruCache K V) (Except LruFault)

namespace LruCache

def new : LruCache K V := ⟨fun _ => none, 0, [], none, none⟩

def count (c : LruCache K V) : ℕ := c.searcher.length

def node (p : ℕ) : LruM K V (ListNode K V) := fun c =>
  match c.heap p with
  | some n => .ok (n, c)
  | none => .error .dangling

def setNode (p : ℕ) (f : ListNode K V → ListNode K V) : LruM K V Unit := do
  let n ← node p
  modify fun c => { c with heap := Function.update c.heap p (some (f n)) }

def setNext (p : ℕ) (q : Option ℕ) : LruM K V Unit := setNode p fun n => { n with next := q }

def setPrev (p : ℕ) (q : Option ℕ) : LruM K V Unit := setNode p fun n => { n with prev := q }

def linkNext : Option ℕ → Option ℕ → LruM K V Unit
  | some p, q => setNext p q
  | none, _ => return

def linkPrev : Option ℕ → Option ℕ → LruM K V Unit
  | some p, q => setPrev p q
  | none, _ => return

/-- Puts a node in front of the list; the end of `lru_touch` and of `lru_push`. -/
def linkFront (p : ℕ) : LruM K V Unit := do
  let c ← get
  setPrev p none
  setNext p c.lruFront
  linkPrev c.lruFront (some p)
  modify fun c => { c with lruFront := some p }

def unlink (n : ListNode K V) : LruM K V Unit := do
  linkNext n.prev n.next
  linkPrev n.next n.prev

def lruTouch (p : ℕ) : LruM K V Unit := do
  let n ← node p
  if n.prev = none then return
  unlink n
  modify fun c => if n.next = none then { c with lruTail := n.prev } else c
  linkFront p

section Searcher

variable [DecidableEq K]

def findNode (key : K) : List ℕ → LruM K V (Option ℕ)
  | [] => return none
  | p :: ps => do
    let n ← node p
    if n.item.1 = key then return some p else findNode key ps

def find (key : K) : LruM K V (Option ℕ) := do findNode key (← get).searcher

def lruPush (p : ℕ) : LruM K V Unit := do
  modify fun c => if c.lruTail = none then { c with lruTail := some p } else c
  linkFront p
  let n ← node p
  let found ← find n.item.1
  modify fun c => if found = none then { c with searcher := p :: c.searcher } else c

def lruRemove (p : ℕ) : LruM K V Unit := do
  let n ← node p
  unlink n
  modify fun c => { c with
    lruFront := if c.lruFront = some p then n.next else c.lruFront
    lruTail := if c.lruTail = some p then n.prev else c.lruTail }
  let found ← find n.item.1
  modify fun c => { c with
    searcher := c.searcher.filter fun q => some q ≠ found
    heap := Function.update c.heap p none }

protected def get (key : K) : LruM K V (Option V) := do
  match ← find key with
  | none => return none
  | some p =>
    lruTouch p
    let n ← node p
    return some n.item.2

def put (key : K) (value : V) : LruM K V Unit := do
  match ← find key with
  | some p =>
    setNode p fun n => { n with item := (n.item.1, value) }
    lruTouch p
  | none =>
    let c ← get
    modify fun c => { c with
      heap := Function.update c.heap c.fresh (some ⟨(key, value), none, none⟩)
      fresh := c.fresh + 1 }
    lruPush c.fresh

def remove (key : K) : LruM K V Unit := do
  match ← find key with
  | none => return
  | some p => lruRemove p

end Searcher

/-- The loop of `foreach`; `func` works on a state of its own. -/
def foreachLoop (func : K → V → S → Bool × S) : ℕ → Option ℕ → S → LruM K V S
  | _, none, s => return s
  | 0, some _, _ => throw .endless
  | fuel + 1, some p, s => do
    let n ← node p
    let r := func n.item.1 n.item.2 s
    if r.1 then foreachLoop func fuel n.next r.2 else return r.2

def foreach (func : K → V → S → Bool × S) (s : S) : LruM K V S := do
  let c ← get
  foreachLoop func c.searcher.length c.lruFront s

def foreachReverseLoop (func : K → V → S → Bool × S) : ℕ → Option ℕ → S → LruM K V S
  | _, none, s => return s
  | 0, some _, _ => throw .endless
  | fuel + 1, some p, s => do
    let n ← node p
    let r := func n.item.1 n.item.2 s
    if r.1 then foreachReverseLoop func fuel n.prev r.2 else return r.2

def foreachReverse (func : K → V → S → Bool × S) (s : S) : LruM K V S := do
  let c ← get
  foreachReverseLoop func c.searcher.length c.lruTail s

end LruCache

end TDB
