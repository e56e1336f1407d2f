import TDB.IndexNode

namespace TDB

/-- The ways a call can leave the behaviour the source defines: an index outside a node's items
(`key_at`, `value_at`, `set_key_at`, `remove`, or a read behind the items), the failed `ASSERT` of
`coalesce_or_redistribute`, a page used as a node of the other layout, and a loop or recursion
along page links that did not end within the number of pages of the file. -/
inductive Fault where
  | itemIndex
  | parentLookup
  | notANode
  | endless
  deriving DecidableEq, Repr

/-- `BplusTreeHandler`: the pool, `file_header_.root_page`, and `header_dirty_`. -/
structure BplusTreeHandler (A : Type) where
  fileBufferPool : FileBufferPool (Page A)
  rootPage : PageNum
  headerDirty : Bool

/-- Code of the handler: it changes the handler and may run into a fault. -/
abbrev TreeM (A : Type) := StateT (BplusTreeHandler A) (Except Fault)

/-- Which of the two node handlers a template is instantiated with. -/
inductive NodeType where
  | leaf | internal
  deriving DecidableEq, Repr

namespace BplusTreeHandler

variable {A : Type}

/-! ## Frames and nodes -/

def page (s : BplusTreeHandler A) (p : PageNum) : Option (Page A) :=
  (s.fileBufferPool.frame p).map Frame.data

def onPool (f : FileBufferPool (Page A) → FileBufferPool (Page A)) (s : BplusTreeHandler A) :
    BplusTreeHandler A :=
  { s with fileBufferPool := f s.fileBufferPool }

def getThisPage (p : PageNum) : TreeM A RC := fun s =>
  let (rc, bp) := s.fileBufferPool.getThisPage p
  .ok (rc, s.onPool fun _ => bp)

def allocatePage : TreeM A (RC × PageNum) := fun s =>
  let (r, bp) := s.fileBufferPool.allocatePage
  .ok (r, s.onPool fun _ => bp)

def disposePage (p : PageNum) : TreeM A RC := fun s =>
  let (rc, bp) := s.fileBufferPool.disposePage p
  .ok (rc, s.onPool fun _ => bp)

def unpinPage (p : PageNum) : TreeM A Unit := fun s =>
  .ok ((), s.onPool (FileBufferPool.unpinPage p))

def markDirty (p : PageNum) : TreeM A Unit := fun s =>
  .ok ((), s.onPool (FileBufferPool.modify p Frame.markDirty))

def setPage (p : PageNum) (page : Page A) : TreeM A Unit := fun s =>
  .ok ((), s.onPool (FileBufferPool.modify p (Frame.setData page)))

def node (p : PageNum) : TreeM A (Page A) := fun s =>
  match s.page p with
  | some (.leaf par next items) => .ok (.leaf par next items, s)
  | some (.internal par items) => .ok (.internal par items, s)
  | _ => .error .notANode

def leafNode (p : PageNum) : TreeM A (PageNum × PageNum × List (Key A × RID)) := fun s =>
  match s.page p with
  | some (.leaf par next items) => .ok ((par, next, items), s)
  | _ => .error .notANode

/-- An `InternalIndexNodeHandler` over a frame: parent and items. -/
def internalNode (p : PageNum) : TreeM A (PageNum × List (Key A × PageNum)) := fun s =>
  match s.page p with
  | some (.internal par items) => .ok ((par, items), s)
  | _ => .error .notANode

/-- `key_at`, `value_at` and the other accesses that need an index of an item. -/
def itemAt {α : Type} (items : List α) (index : ℤ) : TreeM A α := fun s =>
  match if index < 0 then none else items[index.toNat]? with
  | some item => .ok (item, s)
  | none => .error .itemIndex

def setParentPageNum (p parent : PageNum) : TreeM A Unit := do
  let n ← node p
  setPage p (n.setParent parent)

def isEmpty (s : BplusTreeHandler A) : Bool := s.rootPage = invalidPageNum

def updateRootPageNum (rootPage : PageNum) : TreeM A Unit := fun s =>
  .ok ((), { s with rootPage := rootPage, headerDirty := true })

/-- The number of steps after which following page links has met some page twice. -/
def linkBound : TreeM A ℕ := fun s => .ok (s.fileBufferPool.fileHeader.pageCount, s)

/-! ## Moving items between nodes -/

/-- The loop of `copy_from`: every copied child gets `thisPage` as its parent. -/
def adoptChildren (thisPage : PageNum) : List (Key A × PageNum) → TreeM A RC
  | [] => pure .success
  | item :: rest => do
    let rc ← getThisPage item.2
    if rc.fail then return rc
    setParentPageNum item.2 thisPage
    markDirty item.2
    unpinPage item.2
    adoptChildren thisPage rest

/-- `InternalIndexNodeHandler::copy_from`; the items count only after `increase_size`. -/
def copyFrom (frame : PageNum) (items : List (Key A × PageNum)) : TreeM A RC := do
  let rc ← adoptChildren frame items
  if rc.fail then return rc
  let (par, own) ← internalNode frame
  setPage frame (.internal par (own ++ items))
  return rc

/-- `InternalIndexNodeHandler::preappend`. -/
def preappend (frame : PageNum) (item : Key A × PageNum) : TreeM A RC := do
  let rc ← getThisPage item.2
  if rc.fail then return rc
  setParentPageNum item.2 frame
  markDirty item.2
  unpinPage item.2
  let (par, own) ← internalNode frame
  setPage frame (.internal par (item :: own))
  return .success

def initEmpty : NodeType → PageNum → TreeM A Unit
  | .leaf, p => setPage p (.leaf invalidPageNum invalidPageNum [])
  | .internal, p => setPage p (.internal invalidPageNum [])

/-- `move_half_to` of the two node handlers. -/
def moveHalfTo : NodeType → PageNum → PageNum → TreeM A RC
  | .leaf, this, other => do
    let (par, next, items) ← leafNode this
    let (opar, onext, oitems) ← leafNode other
    let moveIndex := items.length / 2
    setPage other (.leaf opar onext (oitems ++ items.drop moveIndex))
    setPage this (.leaf par next (items.take moveIndex))
    return .success
  | .internal, this, other => do
    let (par, items) ← internalNode this
    let moveIndex := items.length / 2
    let rc ← copyFrom other (items.drop moveIndex)
    if rc.fail then return rc
    setPage this (.internal par (items.take moveIndex))
    return rc

/-- `move_to`: all items go to the end of the left node. -/
def moveTo : NodeType → PageNum → PageNum → TreeM A RC
  | .leaf, this, other => do
    let (par, next, items) ← leafNode this
    let (opar, _, oitems) ← leafNode other
    setPage other (.leaf opar next (oitems ++ items))
    setPage this (.leaf par next [])
    return .success
  | .internal, this, other => do
    let (par, items) ← internalNode this
    let rc ← copyFrom other items
    if rc.fail then return rc
    setPage this (.internal par [])
    return .success

def moveFirstToEnd : NodeType → PageNum → PageNum → TreeM A RC
  | .leaf, this, other => do
    let (par, next, items) ← leafNode this
    let (opar, onext, oitems) ← leafNode other
    let item ← itemAt items 0
    setPage other (.leaf opar onext (oitems ++ [item]))
    setPage this (.leaf par next items.tail)
    return .success
  | .internal, this, other => do
    let (par, items) ← internalNode this
    let item ← itemAt items 0
    let rc ← copyFrom other [item]
    if rc.fail then return rc
    setPage this (.internal par items.tail)
    return rc

def moveLastToFront : NodeType → PageNum → PageNum → TreeM A RC
  | .leaf, this, other => do
    let (par, next, items) ← leafNode this
    let (opar, onext, oitems) ← leafNode other
    let item ← itemAt items (items.length - 1 : ℤ)
    setPage other (.leaf opar onext (item :: oitems))
    setPage this (.leaf par next items.dropLast)
    return .success
  | .internal, this, other => do
    let (par, items) ← internalNode this
    let item ← itemAt items (items.length - 1 : ℤ)
    let rc ← preappend other item
    if rc.fail then return rc
    setPage this (.internal par items.dropLast)
    return rc

def insertItem {α : Type} (items : List α) (index : ℕ) (item : α) : TreeM A (List α) := fun s =>
  if index ≤ items.length then .ok (items.take index ++ item :: items.drop index, s)
  else .error .itemIndex

/-- `LeafIndexNodeHandler::insert`. -/
def leafInsert (p : PageNum) (index : ℕ) (key : Key A) (rid : RID) : TreeM A Unit := do
  let (par, next, items) ← leafNode p
  let items ← insertItem items index (key, rid)
  setPage p (.leaf par next items)

/-- `InternalIndexNodeHandler::insert`. -/
def internalInsert (h : IndexFileHeader A) (p : PageNum) (key : Key A) (pageNum : PageNum) :
    TreeM A Unit := do
  let (par, items) ← internalNode p
  let items ← insertItem items (internalPosition h items key) (key, pageNum)
  setPage p (.internal par items)

/-- `InternalIndexNodeHandler::remove`. -/
def internalRemove (p : PageNum) (index : ℕ) : TreeM A Unit := do
  let (par, items) ← internalNode p
  let _ ← itemAt items index
  setPage p (.internal par (items.eraseIdx index))

def setKeyAt (p : PageNum) (index : ℕ) (key : Key A) : TreeM A Unit := do
  let (par, items) ← internalNode p
  let item ← itemAt items index
  setPage p (.internal par (items.set index (key, item.2)))

/-! ## Finding a leaf -/

/-- The loop of `find_leaf_internal`. -/
def descend (childPageGetter : List (Key A × PageNum) → TreeM A PageNum) :
    ℕ → PageNum → TreeM A (RC × PageNum)
  | 0, _ => throw .endless
  | fuel + 1, frame => do
    match ← node frame with
    | .internal _ items =>
      let nextPageId ← childPageGetter items
      unpinPage frame
      let rc ← getThisPage nextPageId
      if rc.fail then return (rc, invalidPageNum)
      descend childPageGetter fuel nextPageId
    | _ => return (.success, frame)

def findLeafInternal (childPageGetter : List (Key A × PageNum) → TreeM A PageNum) :
    TreeM A (RC × PageNum) := do
  let s ← get
  if s.isEmpty then return (.empty, invalidPageNum)
  let rc ← getThisPage s.rootPage
  if rc.fail then return (rc, invalidPageNum)
  descend childPageGetter (← linkBound) s.rootPage

def findLeaf (h : IndexFileHeader A) (key : Key A) : TreeM A (RC × PageNum) :=
  findLeafInternal fun items => do
    let item ← itemAt items (internalLookup h items key)
    return item.2

def leftMostPage : TreeM A (RC × PageNum) :=
  findLeafInternal fun items => do
    let item ← itemAt items 0
    return item.2

/-! ## Insertion -/

/-- `split`; the code of `move_half_to` is not looked at. -/
def split (T : NodeType) (frame : PageNum) : TreeM A (RC × PageNum) := do
  let (rc, newFrame) ← allocatePage
  if rc.fail then return (rc, newFrame)
  initEmpty T newFrame
  let old ← node frame
  setParentPageNum newFrame old.parent
  let _ ← moveHalfTo T frame newFrame
  markDirty frame
  markDirty newFrame
  return (.success, newFrame)

def insertEntryIntoParent (h : IndexFileHeader A) : ℕ → PageNum → PageNum → Key A → TreeM A RC
  | 0, _, _, _ => throw .endless
  | fuel + 1, frame, newFrame, key => do
    let parentPageNum := (← node frame).parent
    if parentPageNum = invalidPageNum then
      let (rc, rootFrame) ← allocatePage
      if rc.fail then return rc
      initEmpty .internal rootFrame
      -- create_new_root
      setPage rootFrame (.internal invalidPageNum [(h.zeroKey, frame), (key, newFrame)])
      setParentPageNum frame rootFrame
      setParentPageNum newFrame rootFrame
      markDirty frame
      markDirty newFrame
      unpinPage frame
      unpinPage newFrame
      updateRootPageNum rootFrame
      markDirty rootFrame
      unpinPage rootFrame
      return .success
    let rc ← getThisPage parentPageNum
    if rc.fail then return rc
    let (_, parentItems) ← internalNode parentPageNum
    if parentItems.length < h.internalMaxSize then
      internalInsert h parentPageNum key newFrame
      setParentPageNum newFrame parentPageNum
      markDirty frame
      markDirty newFrame
      markDirty parentPageNum
      unpinPage frame
      unpinPage newFrame
      unpinPage parentPageNum
      return .success
    let (rc, newParentFrame) ← split .internal parentPageNum
    if rc.fail then
      unpinPage frame
      unpinPage newFrame
      unpinPage parentPageNum
      return rc
    let (_, newItems) ← internalNode newParentFrame
    let first ← itemAt newItems 0
    if h.compare key first.1 > 0 then
      internalInsert h newParentFrame key newFrame
      setParentPageNum newFrame newParentFrame
    else
      internalInsert h parentPageNum key newFrame
      setParentPageNum newFrame parentPageNum
    unpinPage frame
    unpinPage newFrame
    let (_, newItems) ← internalNode newParentFrame
    let first ← itemAt newItems 0
    insertEntryIntoParent h fuel parentPageNum newParentFrame first.1

/-- `insert_entry_into_leaf_node`; a duplicate key returns with the leaf still pinned. -/
def insertEntryIntoLeafNode (h : IndexFileHeader A) (frame : PageNum) (key : Key A) (rid : RID) :
    TreeM A RC := do
  let (_, _, items) ← leafNode frame
  let (insertPosition, found) := leafLookup h items key
  if found then return .recordDuplicateKey
  if items.length < h.leafMaxSize then
    leafInsert frame insertPosition key rid
    markDirty frame
    unpinPage frame
    return .success
  let (rc, newFrame) ← split .leaf frame
  if rc.fail then return rc
  let (par, next, items) ← leafNode frame
  let (_, _, newItems) ← leafNode newFrame
  setPage newFrame (.leaf par next newItems)
  setPage frame (.leaf par newFrame items)
  if insertPosition < items.length then leafInsert frame insertPosition key rid
  else leafInsert newFrame (insertPosition - items.length) key rid
  let (_, _, newItems) ← leafNode newFrame
  let first ← itemAt newItems 0
  insertEntryIntoParent h (← linkBound) frame newFrame first.1

def createNewTree (key : Key A) (rid : RID) : TreeM A RC := do
  if (← get).rootPage ≠ invalidPageNum then return .internal
  let (rc, frame) ← allocatePage
  if rc.fail then return rc
  initEmpty .leaf frame
  leafInsert frame 0 key rid
  updateRootPageNum frame
  markDirty frame
  unpinPage frame
  return rc

def insertEntry (h : IndexFileHeader A) (attr : A) (rid : RID) : TreeM A RC := do
  let key : Key A := ⟨attr, rid⟩
  if (← get).isEmpty then return ← createNewTree key rid
  let (rc, frame) ← findLeaf h key
  if rc.fail then return rc
  insertEntryIntoLeafNode h frame key rid

/-! ## Deletion -/

/-- `adjust_root`; the new root's frame is not marked dirty. -/
def adjustRoot (rootFrame : PageNum) : TreeM A RC := do
  match ← node rootFrame with
  | .internal _ items =>
    let child ← itemAt items 0
    let rc ← getThisPage child.2
    if rc.fail then
      unpinPage rootFrame
      return rc
    setParentPageNum child.2 invalidPageNum
    unpinPage child.2
    updateRootPageNum child.2
    unpinPage rootFrame
    let _ ← disposePage rootFrame
    return .success
  | root =>
    if 0 < root.size then
      markDirty rootFrame
      unpinPage rootFrame
      return .success
    updateRootPageNum invalidPageNum
    unpinPage rootFrame
    let _ ← disposePage rootFrame
    return .success

def redistribute (T : NodeType) (neighborFrame frame parentFrame : PageNum) (index : ℕ) :
    TreeM A RC := do
  if index = 0 then
    let _ ← moveFirstToEnd T neighborFrame frame
    let first ← itemAt (← node neighborFrame).keys 0
    setKeyAt parentFrame (index + 1) first
  else
    let _ ← moveLastToFront T neighborFrame frame
    let first ← itemAt (← node frame).keys 0
    setKeyAt parentFrame index first
  markDirty neighborFrame
  markDirty frame
  markDirty parentFrame
  unpinPage neighborFrame
  unpinPage frame
  unpinPage parentFrame
  return .success

/-- `coalesce`, with the call of `coalesce_or_redistribute` on the parent as `recur`. -/
def coalesce (recur : PageNum → TreeM A RC) (T : NodeType)
    (neighborFrame frame parentFrame : PageNum) (index : ℕ) : TreeM A RC := do
  let (leftFrame, rightFrame, index) :=
    if index = 0 then (frame, neighborFrame, index + 1) else (neighborFrame, frame, index)
  internalRemove parentFrame index
  let rc ← moveTo T rightFrame leftFrame
  if rc.fail then
    unpinPage leftFrame
    unpinPage rightFrame
    unpinPage parentFrame
    return rc
  if T = .leaf then
    let (par, _, items) ← leafNode leftFrame
    let (_, next, _) ← leafNode rightFrame
    setPage leftFrame (.leaf par next items)
  markDirty leftFrame
  markDirty parentFrame
  unpinPage leftFrame
  unpinPage rightFrame
  let _ ← disposePage rightFrame
  recur parentFrame

def coalesceOrRedistribute (h : IndexFileHeader A) : ℕ → NodeType → PageNum → TreeM A RC
  | 0, _, _ => throw .endless
  | fuel + 1, T, frame => do
    let indexNode ← node frame
    if indexNode.minSize h ≤ indexNode.size then
      unpinPage frame
      return .success
    let parentPageNum := indexNode.parent
    if invalidPageNum = parentPageNum then
      if 1 < indexNode.size then
        unpinPage frame
        return .success
      return ← adjustRoot frame
    let rc ← getThisPage parentPageNum
    if rc.fail then
      unpinPage frame
      return rc
    let (_, parentItems) ← internalNode parentPageNum
    let lastKey ← itemAt indexNode.keys (indexNode.size - 1 : ℤ)
    let index := internalLookup h parentItems lastKey
    if (← itemAt parentItems index).2 ≠ frame then throw .parentLookup
    let neighbor ← if index = 0 then itemAt parentItems 1 else itemAt parentItems (index - 1 : ℤ)
    let neighborPageNum := neighbor.2
    let rc ← getThisPage neighborPageNum
    if rc.fail then
      unpinPage frame
      unpinPage parentPageNum
      return rc
    let neighborNode ← node neighborPageNum
    if indexNode.maxSize h < indexNode.size + neighborNode.size then
      redistribute T neighborPageNum frame parentPageNum index
    else
      coalesce (coalesceOrRedistribute h fuel .internal) T neighborPageNum frame parentPageNum
        index

def deleteEntryInternal (h : IndexFileHeader A) (leafFrame : PageNum) (key : Key A) :
    TreeM A RC := do
  let (par, next, items) ← leafNode leafFrame
  let (index, found) := leafLookup h items key
  if !found then
    unpinPage leafFrame
    return .recordNotExist
  let _ ← itemAt items index
  setPage leafFrame (.leaf par next (items.eraseIdx index))
  markDirty leafFrame
  let leaf ← node leafFrame
  if leaf.minSize h ≤ leaf.size then
    unpinPage leafFrame
    return .success
  coalesceOrRedistribute h (← linkBound) .leaf leafFrame

def deleteEntry (h : IndexFileHeader A) (attr : A) (rid : RID) : TreeM A RC := do
  let key : Key A := ⟨attr, rid⟩
  let (rc, leafFrame) ← findLeaf h key
  if rc = .empty then return .recordNotExist
  if rc.fail then return rc
  deleteEntryInternal h leafFrame key

/-! ## `validate_tree` -/

/-- The comparisons of neighbouring keys in the two `validate` functions. -/
def keysIncrease (h : IndexFileHeader A) : List (Key A) → Bool
  | k :: k' :: rest => decide (h.compare k k' < 0) && keysIncrease h (k' :: rest)
  | _ => true

/-- `IndexNodeHandler::validate`. -/
def validateRoot (page : Page A) : Bool :=
  if page.parent = invalidPageNum then
    decide (1 ≤ page.size) && (page.isLeaf != some false || decide (2 ≤ page.size))
  else true

/-- The last part of both `validate` functions: the node's keys against the separators around it
in the parent.  `low` is the index of the key that is compared with the left one. -/
def validateInParent (h : IndexFileHeader A) (p : PageNum) (page : Page A) (low : ℤ) :
    TreeM A Bool := do
  let rc ← getThisPage page.parent
  if rc.fail then return false
  let (_, parentItems) ← internalNode page.parent
  match valueIndex parentItems p with
  | none =>
    unpinPage page.parent
    return false
  | some indexInParent =>
    if 0 ≠ indexInParent then
      let key ← itemAt page.keys low
      let item ← itemAt parentItems indexInParent
      if h.compare key item.1 < 0 then
        unpinPage page.parent
        return false
    if indexInParent + 1 < parentItems.length then
      let key ← itemAt page.keys (page.size - 1 : ℤ)
      let item ← itemAt parentItems (indexInParent + 1 : ℤ)
      if 0 ≤ h.compare key item.1 then
        unpinPage page.parent
        return false
    unpinPage page.parent
    return true

/-- `LeafIndexNodeHandler::validate`. -/
def validateLeaf (h : IndexFileHeader A) (p : PageNum) : TreeM A Bool := do
  let page ← node p
  if !validateRoot page then return false
  if !keysIncrease h page.keys then return false
  if page.parent = invalidPageNum then return true
  validateInParent h p page 0

/-- The loop of `InternalIndexNodeHandler::validate` over the children; a child that cannot be
fetched is only logged. -/
def validateChildren (p : PageNum) : List (Key A × PageNum) → TreeM A Bool
  | [] => return true
  | item :: rest => do
    if item.2 < 0 then return ← validateChildren p rest
    let rc ← getThisPage item.2
    if rc.fail then return ← validateChildren p rest
    let child ← node item.2
    unpinPage item.2
    if child.parent ≠ p then return false
    validateChildren p rest

/-- `InternalIndexNodeHandler::validate`. -/
def validateInternal (h : IndexFileHeader A) (p : PageNum) : TreeM A Bool := do
  let page ← node p
  if !validateRoot page then return false
  if !keysIncrease h page.keys.tail then return false
  let (_, items) ← internalNode p
  if !(← validateChildren p items) then return false
  if page.parent = invalidPageNum then return true
  validateInParent h p page 1

/-- The loop of `validate_node_recursive` over the children, with the recursive call as `recur`. -/
def validateEach (recur : PageNum → TreeM A Bool) : List (Key A × PageNum) → TreeM A Bool
  | [] => return true
  | item :: rest => do
    let rc ← getThisPage item.2
    if rc.fail then return false
    if !(← recur item.2) then return false
    validateEach recur rest

def validateNodeRecursive (h : IndexFileHeader A) : ℕ → PageNum → TreeM A Bool
  | 0, _ => throw .endless
  | fuel + 1, frame => do
    match ← node frame with
    | .internal _ items =>
      let mut result ← validateInternal h frame
      if result then result ← validateEach (validateNodeRecursive h fuel) items
      unpinPage frame
      return result
    | _ =>
      let result ← validateLeaf h frame
      unpinPage frame
      return result

/-- The loop of `validate_leaf_link` from the leaf in `frame`. -/
def validateLinkFrom (h : IndexFileHeader A) : ℕ → PageNum → TreeM A Bool
  | 0, _ => throw .endless
  | fuel + 1, frame => do
    let (_, next, items) ← leafNode frame
    let prev ← itemAt items (items.length - 1 : ℤ)
    if next = invalidPageNum then
      unpinPage frame
      return true
    unpinPage frame
    let rc ← getThisPage next
    if rc.fail then return false
    let (_, _, nextItems) ← leafNode next
    let first ← itemAt nextItems 0
    if 0 ≤ h.compare prev.1 first.1 then
      unpinPage next
      return false
    validateLinkFrom h fuel next

def validateLeafLink (h : IndexFileHeader A) : TreeM A Bool := do
  if (← get).isEmpty then return true
  let (rc, frame) ← leftMostPage
  if rc.fail then return false
  validateLinkFrom h (← linkBound) frame

/-- `validate_tree`, without the printing of an invalid tree. -/
def validateTree (h : IndexFileHeader A) : TreeM A Bool := do
  let s ← get
  if s.isEmpty then return true
  let rc ← getThisPage s.rootPage
  if rc.fail then return false
  if !(← validateNodeRecursive h (← linkBound) s.rootPage) then return false
  validateLeafLink h

/-! ## Creating, closing and opening -/

/-- The file `BufferPoolManager::create_file` writes, opened. -/
def newFile : FileBufferPool (Page A) where
  fileHeader := ⟨1, 1, fun p => p = 0⟩
  hdrDirty := false
  frames := fun _ => none
  file := fun _ => none
  allocFailures := 0
  pinnedFrees := 0

/-- `create`: the first page of a new file becomes the index header.  `sync` finds the header
clean and flushes nothing. -/
def create : TreeM A Unit := do
  let (_, headerFrame) ← allocatePage
  setPage headerFrame (.header invalidPageNum)
  markDirty headerFrame
  unpinPage headerFrame

def created : BplusTreeHandler A :=
  match create ⟨newFile, invalidPageNum, false⟩ with
  | .ok (_, s) => s
  | .error _ => ⟨newFile, invalidPageNum, false⟩

/-- `sync`: the root page number reaches the header page only here.  `flush_all_pages` leaves the
frames as they are. -/
def sync : TreeM A RC := do
  if (← get).headerDirty then
    let rc ← getThisPage 1
    if !rc.fail then
      setPage 1 (.header (← get).rootPage)
      markDirty 1
      unpinPage 1
      modify fun s => { s with headerDirty := false }
  return .success

/-- `close_file` as documented: every dirty frame is written back and the frames are dropped.
Page 0 holds the file header then, as each of its changes marks `hdr_frame_` dirty. -/
def closeFile (bp : FileBufferPool (Page A)) : FileBufferPool (Page A) :=
  { bp with
    frames := fun _ => none
    file := fun p => match bp.frames p with
      | some f => if f.dirty then some f.data else bp.file p
      | none => bp.file p }

/-- `close`, which does not call `sync`. -/
def close (s : BplusTreeHandler A) : FileBufferPool (Page A) := closeFile s.fileBufferPool

/-- `open` of a closed file. -/
def openFile (bp : FileBufferPool (Page A)) : Except Fault (RC × BplusTreeHandler A) :=
  let (rc, bp) := bp.getThisPage 1
  if rc.fail then .ok (rc, ⟨bp, invalidPageNum, false⟩)
  else match (bp.frame 1).map Frame.data with
    | some (.header rootPage) => .ok (.success, ⟨bp.unpinPage 1, rootPage, false⟩)
    | _ => .error .notANode

end BplusTreeHandler

end TDB
