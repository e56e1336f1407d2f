import TDB.BplusTree

namespace TDB

/-- `BplusTreeScanner` without its tree. -/
structure BplusTreeScanner (A : Type) where
  inited : Bool
  currentFrame : Option PageNum
  rightKey : Option (Key A)
  iterIndex : ℕ
  firstEmitted : Bool

namespace BplusTreeScanner

open BplusTreeHandler

variable {A : Type}

def new : BplusTreeScanner A := ⟨false, none, none, 0, false⟩

/-- A bound of a scan: the user key and whether it belongs to the range.  The key has exactly
`attrs_length` bytes, so `fix_user_key` only copies it. -/
structure Bound (A : Type) where
  userKey : A
  inclusive : Bool

def badRange (h : IndexFileHeader A) (left right : Option (Bound A)) : Bool :=
  match left, right with
  | some l, some r =>
    let result := h.keyComparator.attrComparator l.userKey r.userKey
    decide (result > 0) || (decide (result = 0) && (!l.inclusive || !r.inclusive))
  | _, _ => false

/-- The key of the left bound: below or above every entry with its attribute. -/
def leftKey (l : Bound A) : Key A := ⟨l.userKey, if l.inclusive then RID.min else RID.max⟩

/-- The key `right_key_` of the right bound. -/
def rightKeyOf (r : Bound A) : Key A := ⟨r.userKey, if r.inclusive then RID.max else RID.min⟩

def touchEnd (h : IndexFileHeader A) (sc : BplusTreeScanner A) (frame : PageNum) :
    TreeM A Bool := do
  match sc.rightKey with
  | none => return false
  | some rightKey =>
    let (_, _, items) ← leafNode frame
    let item ← itemAt items sc.iterIndex
    return decide (h.compare item.1 rightKey > 0)

/-- The rest of `open` once the left end is in `frame` at `index`. -/
def openRight (h : IndexFileHeader A) (frame : PageNum) (index : ℕ) (rightKey : Option (Key A)) :
    TreeM A (RC × BplusTreeScanner A) := do
  let sc : BplusTreeScanner A := ⟨true, some frame, rightKey, index, false⟩
  if ← touchEnd h sc frame then
    unpinPage frame
    return (.success, { sc with currentFrame := none })
  return (.success, sc)

/-- `open` behind its checks, with the keys made of the bounds.  A left key behind the last item
of its leaf moves on to the next leaf without giving back the pin of the first. -/
def openKeys (h : IndexFileHeader A) (sc : BplusTreeScanner A)
    (left right : Option (Key A)) : TreeM A (RC × BplusTreeScanner A) := do
  match left with
  | none =>
    let (rc, frame) ← leftMostPage
    if rc.fail then return (rc, { sc with currentFrame := none })
    openRight h frame 0 right
  | some key =>
    let (rc, frame) ← findLeaf h key
    if rc = .empty then return (.success, { sc with currentFrame := none })
    if rc.fail then return (rc, { sc with currentFrame := none })
    let (_, next, items) ← leafNode frame
    let leftIndex := (leafLookup h items key).1
    if items.length ≤ leftIndex then
      if next = invalidPageNum then
        unpinPage frame
        return (.success, { sc with currentFrame := none })
      let rc ← getThisPage next
      if rc.fail then return (rc, { sc with currentFrame := none })
      openRight h next 0 right
    else openRight h frame leftIndex right

def openScan (h : IndexFileHeader A) (sc : BplusTreeScanner A) (left right : Option (Bound A)) :
    TreeM A (RC × BplusTreeScanner A) := do
  if sc.inited then return (.internal, sc)
  let sc := { sc with inited := true, firstEmitted := false }
  if badRange h left right then return (.invalidArgument, sc)
  openKeys h sc (left.map leftKey) (right.map rightKeyOf)

/-- `next_entry` while the current leaf has an item left, or when none was emitted yet. -/
def emit (sc : BplusTreeScanner A) (frame : PageNum) (isDelete : Bool) :
    TreeM A (RC × Option RID × BplusTreeScanner A) := do
  let (_, _, items) ← leafNode frame
  let item ← itemAt items sc.iterIndex
  return (.success, some item.2, { sc with
    firstEmitted := true
    iterIndex := if isDelete then sc.iterIndex else sc.iterIndex + 1 })

/-- `next_entry`, which calls itself after it moved to the next leaf. -/
def nextEntryLoop (h : IndexFileHeader A) (isDelete : Bool) :
    ℕ → BplusTreeScanner A → TreeM A (RC × Option RID × BplusTreeScanner A)
  | 0, _ => throw .endless
  | fuel + 1, sc => do
    match sc.currentFrame with
    | none => return (.recordEof, none, sc)
    | some frame =>
      if !sc.firstEmitted then return ← emit sc frame isDelete
      let (_, next, items) ← leafNode frame
      if sc.iterIndex < items.length then
        if ← touchEnd h sc frame then return (.recordEof, none, sc)
        return ← emit sc frame isDelete
      if invalidPageNum = next then return (.recordEof, none, sc)
      unpinPage frame
      let rc ← getThisPage next
      if rc.fail then return (rc, none, { sc with currentFrame := none })
      nextEntryLoop h isDelete fuel { sc with currentFrame := some next, iterIndex := 0 }

def nextEntry (h : IndexFileHeader A) (sc : BplusTreeScanner A) (isDelete : Bool) :
    TreeM A (RC × Option RID × BplusTreeScanner A) := do
  nextEntryLoop h isDelete ((← linkBound) + 1) sc

def closeScan (sc : BplusTreeScanner A) : TreeM A (BplusTreeScanner A) := do
  match sc.currentFrame with
  | some frame => unpinPage frame
  | none => pure ()
  return { sc with currentFrame := none, inited := false }

/-- Calls `next_entry(rid, false)` until it does not succeed. -/
def drain (h : IndexFileHeader A) :
    ℕ → BplusTreeScanner A → TreeM A (RC × List RID × BplusTreeScanner A)
  | 0, _ => throw .endless
  | fuel + 1, sc => do
    let (rc, rid, sc) ← nextEntry h sc false
    match rid with
    | some rid =>
      let (rc, rids, sc) ← drain h fuel sc
      return (rc, rid :: rids, sc)
    | none => return (rc, [], sc)

/-- `BplusTreeHandler::get_entry`.  The scanner is destroyed, and with it closed, on every path. -/
def getEntry (h : IndexFileHeader A) (attr : A) : TreeM A (RC × List RID) := do
  let bound : Bound A := ⟨attr, true⟩
  let (rc, sc) ← openScan h new (some bound) (some bound)
  if rc.fail then
    let _ ← closeScan sc
    return (rc, [])
  let (rc, rids, sc) ← drain h ((← linkBound) * (h.leafMaxSize + 1) + 1) sc
  let _ ← closeScan sc
  return (if rc = .recordEof then .success else rc, rids)

end BplusTreeScanner

end TDB
