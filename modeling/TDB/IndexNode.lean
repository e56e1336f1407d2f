import Mathlib.Data.List.Basic
import Mathlib.Data.Int.Order.Basic
import Mathlib.Algebra.Ring.Nat
import Mathlib.Algebra.Ring.Int.Defs
import TDB.BufferPool

namespace TDB

/-! ## Keys -/

/-- `RID`.  Page and slot numbers are non-negative `int32_t`. -/
structure RID where
  pageNum : Fin (2 ^ 31)
  slotNum : Fin (2 ^ 31)
  deriving DecidableEq, Repr

namespace RID

/-- `RID::compare`; the differences of non-negative numbers do not overflow. -/
def compare (rid1 rid2 : RID) : ℤ :=
  let pageDiff : ℤ := rid1.pageNum.val - rid2.pageNum.val
  if pageDiff ≠ 0 then pageDiff else rid1.slotNum.val - rid2.slotNum.val

def min : RID := ⟨0, 0⟩

def max : RID := ⟨⟨2 ^ 31 - 1, by decide⟩, ⟨2 ^ 31 - 1, by decide⟩⟩

end RID

/-- A key of the tree: the attribute bytes followed by the record's `RID`. -/
structure Key (A : Type) where
  attr : A
  rid : RID
  deriving DecidableEq, Repr

structure KeyComparator (A : Type) where
  attrComparator : A → A → ℤ

def KeyComparator.compare {A : Type} (c : KeyComparator A) (v1 v2 : Key A) : ℤ :=
  let result := c.attrComparator v1.attr v2.attr
  if result ≠ 0 then result else RID.compare v1.rid v2.rid

/-- `IndexFileHeader` together with the comparator made from it: all that `create` and `open` fix
for the life of a handler.  `zeroAttr` is the attribute whose bytes are all zero. -/
structure IndexFileHeader (A : Type) where
  internalMaxSize : ℕ
  leafMaxSize : ℕ
  attrsLength : ℕ
  zeroAttr : A
  keyComparator : KeyComparator A

namespace IndexFileHeader

variable {A : Type}

/-- The key `create_new_root` writes with `memset`. -/
def zeroKey (h : IndexFileHeader A) : Key A := ⟨h.zeroAttr, RID.min⟩

def compare (h : IndexFileHeader A) (v1 v2 : Key A) : ℤ := h.keyComparator.compare v1 v2

end IndexFileHeader

def sizeofRID : ℕ := 8
def sizeofPageNum : ℕ := 4

/-- `HEADER_SIZE` of the two node layouts. -/
def internalHeaderSize : ℕ := 12
def leafHeaderSize : ℕ := internalHeaderSize + 4

/-- The value of an `int` after arithmetic in 32 bits. -/
def toInt32 (n : ℕ) : ℤ := ((n : ℤ) + 2 ^ 31) % 2 ^ 32 - 2 ^ 31

/-- `calc_internal_page_capacity`, with the `int` arithmetic of the source. -/
def calcInternalPageCapacity (attrLength : ℕ) : ℕ :=
  (((pageDataSize - internalHeaderSize : ℕ) : ℤ).tdiv
    (toInt32 (attrLength + sizeofRID + sizeofPageNum))).toNat

def calcLeafPageCapacity (attrLength : ℕ) : ℕ :=
  (((pageDataSize - leafHeaderSize : ℕ) : ℤ).tdiv
    (toInt32 (attrLength + sizeofRID + sizeofRID))).toNat

/-! ## Pages of an index file -/

/-- The content of a page: a `LeafIndexNode`, an `InternalIndexNode`, the index header page (its
`root_page`), or a page that was never read. -/
inductive Page (A : Type) where
  | leaf (parent nextBrother : PageNum) (items : List (Key A × RID))
  | internal (parent : PageNum) (items : List (Key A × PageNum))
  | header (rootPage : PageNum)
  | unread
  deriving DecidableEq

/-- Zero bytes read as an internal node without items. -/
instance {A : Type} : PageData (Page A) := ⟨.internal 0 [], .unread⟩

namespace Page

variable {A : Type}

/-- The common part of the two layouts, `nullopt` for a page that is no node. -/
def isLeaf : Page A → Option Bool
  | leaf .. => some true
  | internal .. => some false
  | _ => none

def keys : Page A → List (Key A)
  | leaf _ _ items => items.map Prod.fst
  | internal _ items => items.map Prod.fst
  | _ => []

def size (page : Page A) : ℕ := page.keys.length

def parent : Page A → PageNum
  | leaf p _ _ => p
  | internal p _ => p
  | _ => invalidPageNum

def setParent (p : PageNum) : Page A → Page A
  | leaf _ next items => leaf p next items
  | internal _ items => internal p items
  | page => page

def maxSize (h : IndexFileHeader A) : Page A → ℕ
  | leaf .. => h.leafMaxSize
  | _ => h.internalMaxSize

def minSize (h : IndexFileHeader A) (page : Page A) : ℕ := page.maxSize h - page.maxSize h / 2

def usedBytes (h : IndexFileHeader A) : Page A → ℕ
  | leaf _ _ items => leafHeaderSize + items.length * (h.attrsLength + sizeofRID + sizeofRID)
  | internal _ items =>
    internalHeaderSize + items.length * (h.attrsLength + sizeofRID + sizeofPageNum)
  | _ => 0

end Page

/-! ## Searching the items of a node -/

/-- The loop of `common::lower_bound` over `xs`, with `comp x` the comparison of an element with
the searched value.  `fuel` bounds the rounds; every round makes `lastCount` smaller. -/
def lowerBoundLoop {α : Type} (comp : α → ℤ) (xs : List α) : ℕ → ℕ → ℕ → ℕ × Bool
  | 0, first, _ => (first, false)
  | fuel + 1, first, lastCount =>
    if lastCount = 0 then (first, false)
    else
      let step := lastCount / 2
      match xs[first + step]? with
      | none => (first, false)
      | some x =>
        if comp x = 0 then (first + step, true)
        else if comp x < 0 then
          lowerBoundLoop comp xs fuel (first + step + 1) (lastCount - (step + 1))
        else lowerBoundLoop comp xs fuel first step

/-- `common::lower_bound`: the position and the `found` flag. -/
def lowerBound {α : Type} (comp : α → ℤ) (xs : List α) : ℕ × Bool :=
  lowerBoundLoop comp xs xs.length 0 xs.length

variable {A : Type}

def leafLookup (h : IndexFileHeader A) (items : List (Key A × RID)) (key : Key A) : ℕ × Bool :=
  lowerBound (fun item => h.compare item.1 key) items

/-- The insert position that `InternalIndexNodeHandler::lookup` reports. -/
def internalPosition (h : IndexFileHeader A) (items : List (Key A × PageNum)) (key : Key A) : ℕ :=
  if items = [] then 1
  else (lowerBound (fun item => h.compare item.1 key) items.tail).1 + 1

/-- `InternalIndexNodeHandler::lookup`: the index of the child to descend to. -/
def internalLookup (h : IndexFileHeader A) (items : List (Key A × PageNum)) (key : Key A) : ℕ :=
  if items = [] then 0
  else
    let ret := internalPosition h items key
    match items[ret]? with
    | none => ret - 1
    | some item => if h.compare key item.1 < 0 then ret - 1 else ret

def valueIndex (items : List (Key A × PageNum)) (p : PageNum) : Option ℕ :=
  items.findIdx? fun item => item.2 = p

end TDB
