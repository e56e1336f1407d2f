import Mathlib.Data.Finset.Insert
import Mathlib.Data.Finset.Basic
import TDB.BufferPool
import TDB.LruEntries

namespace TDB

open Exec

/-! ## The memory pool -/

/-- `MemPoolSimple`: the address of the first item of each pool, the items in use and the free ones.
A new pool gets the addresses behind the items there are. -/
structure MemPoolSimple where
  pools : List ℕ
  used : Finset ℕ
  frees : List ℕ
  size : ℕ
  isDynamic : Bool
  itemNumPerPool : ℕ

namespace MemPoolSimple

def new : MemPoolSimple := ⟨[], ∅, [], 0, false, 0⟩

def cleanup (m : MemPoolSimple) : MemPoolSimple :=
  if m.pools = [] then m else { m with pools := [], used := ∅, frees := [], size := 0 }

def extend (m : MemPoolSimple) : ℤ × MemPoolSimple :=
  if m.isDynamic then (0, { m with
    pools := m.pools ++ [m.size]
    size := m.size + m.itemNumPerPool
    frees := m.frees ++ (List.range m.itemNumPerPool).map (m.size + ·) })
  else (-1, m)

def extendTimes : ℕ → MemPoolSimple → ℤ × MemPoolSimple
  | 0, m => (0, m)
  | n + 1, m => if m.extend.1 < 0 then (-1, m.extend.2.cleanup) else extendTimes n m.extend.2

def init (isDynamic : Bool) (poolNum itemNum : ℤ) (m : MemPoolSimple) : ℤ × MemPoolSimple :=
  if m.pools ≠ [] then (0, m)
  else if poolNum ≤ 0 ∨ itemNum ≤ 0 then (-1, m)
  else
    let r := extendTimes poolNum.toNat
      { m with itemNumPerPool := itemNum.toNat, isDynamic := true }
    if r.1 < 0 then r else (0, { r.2 with isDynamic := isDynamic })

def popFree (m : MemPoolSimple) : Option ℕ × MemPoolSimple :=
  match m.frees with
  | [] => (none, m)
  | f :: rest => (some f, { m with frees := rest, used := insert f m.used })

def alloc (m : MemPoolSimple) : Option ℕ × MemPoolSimple :=
  if m.frees = [] then
    if m.isDynamic then
      if m.extend.1 < 0 then (none, m.extend.2) else m.extend.2.popFree
    else (none, m)
  else m.popFree

def free (f : ℕ) (m : MemPoolSimple) : MemPoolSimple :=
  if f ∈ m.used then { m with used := m.used.erase f, frees := m.frees ++ [f] } else m

theorem extendTimes_spec : ∀ (n : ℕ) {m : MemPoolSimple}, m.isDynamic = true →
    m.frees = List.range m.size →
    (extendTimes n m).1 = 0 ∧
      (extendTimes n m).2.frees = List.range (m.size + n * m.itemNumPerPool) ∧
      (extendTimes n m).2.used = m.used
  | 0, m, _, hfrees => ⟨rfl, by rw [Nat.zero_mul, Nat.add_zero]; exact hfrees, rfl⟩
  | n + 1, m, hdynamic, hfrees => by
    have hextend : m.extend = (0, { m with
        pools := m.pools ++ [m.size]
        size := m.size + m.itemNumPerPool
        frees := List.range (m.size + m.itemNumPerPool) }) := by
      unfold extend
      rw [if_pos hdynamic, hfrees, List.range_add]
    unfold extendTimes
    rw [hextend]
    obtain ⟨hret, hfrees', hused⟩ := extendTimes_spec n (m := { m with
        pools := m.pools ++ [m.size]
        size := m.size + m.itemNumPerPool
        frees := List.range (m.size + m.itemNumPerPool) }) hdynamic rfl
    refine ⟨hret, hfrees'.trans ?_, hused⟩
    rw [Nat.succ_mul, Nat.add_assoc, Nat.add_comm (n * _)]

theorem init_spec {n k : ℕ} (hn : 1 ≤ n) (hk : 1 ≤ k) :
    (new.init false n k).1 = 0 ∧ (new.init false n k).2.frees = List.range (n * k) ∧
      (new.init false n k).2.used = ∅ ∧ (new.init false n k).2.isDynamic = false := by
  obtain ⟨hret, hfrees, hused⟩ := extendTimes_spec n
    (m := { new with itemNumPerPool := k, isDynamic := true }) rfl rfl
  unfold init
  rw [if_neg (show ¬new.pools ≠ [] from not_not_intro rfl), if_neg (by omega),
    Int.toNat_natCast, Int.toNat_natCast]
  dsimp only
  rw [if_neg (by rw [hret]; decide)]
  refine ⟨rfl, hfrees.trans ?_, hused, rfl⟩
  rw [show new.size = 0 from rfl, Nat.zero_add]

end MemPoolSimple

/-! ## The frame manager -/

structure FrameId where
  fileDesc : ℤ
  pageNum : PageNum
  deriving DecidableEq, Repr

/-- `Frame`, as far as the frame manager looks at it. -/
structure PooledFrame where
  pageNum : PageNum
  pinCount : ℤ

/-- `FrameManager`; `mem` holds the frames of the pool. -/
structure FrameManager where
  frames : LruCache FrameId ℕ
  allocator : MemPoolSimple
  mem : ℕ → PooledFrame

/-- An `ASSERT` that fails, or a list that is broken. -/
inductive FrameFault where
  | invalidFrame | notFreeable | notPinned
  | list (fault : LruFault)

abbrev FrameM := StateT FrameManager (Except FrameFault)

namespace FrameManager

def new : FrameManager := ⟨LruCache.new, MemPoolSimple.new, fun _ => ⟨invalidPageNum, 0⟩⟩

def defaultItemNumPerPool : ℕ := 128

def onFrames {α : Type} (m : LruM FrameId ℕ α) : FrameM α := fun fm =>
  match m fm.frames with
  | .ok (a, c) => .ok (a, { fm with frames := c })
  | .error fault => .error (.list fault)

def onAllocator {α : Type} (m : MemPoolSimple → α × MemPoolSimple) : FrameM α := fun fm =>
  .ok ((m fm.allocator).1, { fm with allocator := (m fm.allocator).2 })

def setFrame (f : ℕ) (g : PooledFrame → PooledFrame) : FrameM Unit :=
  modify fun fm => { fm with mem := Function.update fm.mem f (g (fm.mem f)) }

def pin (f : ℕ) : FrameM Unit := setFrame f fun fr => { fr with pinCount := fr.pinCount + 1 }

def unpin (f : ℕ) : FrameM Unit := do
  if ((← get).mem f).pinCount ≤ 0 then throw .notPinned
  setFrame f fun fr => { fr with pinCount := fr.pinCount - 1 }

def init (poolNum : ℤ) : FrameM RC := do
  let ret ← onAllocator (MemPoolSimple.init false poolNum defaultItemNumPerPool)
  return if ret = 0 then .success else .nomem

def getInternal (id : FrameId) : FrameM (Option ℕ) := do
  match ← onFrames (LruCache.get id) with
  | none => return none
  | some f =>
    pin f
    return some f

def place (id : FrameId) (f : ℕ) : FrameM Unit := do
  if ((← get).mem f).pinCount ≠ 0 then throw .invalidFrame
  setFrame f fun fr => { fr with pageNum := id.pageNum }
  pin f
  onFrames (LruCache.put id f)

def alloc (id : FrameId) : FrameM (Option ℕ) := do
  match ← getInternal id with
  | some f => return some f
  | none =>
    match ← onAllocator MemPoolSimple.alloc with
    | none => return none
    | some f =>
      place id f
      return some f

protected def get (id : FrameId) : FrameM (Option ℕ) := getInternal id

/-- The function that `find_list` gives to `foreach`; it works on the list and on the frames. -/
def fetcher (fileDesc : ℤ) (id : FrameId) (f : ℕ) (s : List ℕ × (ℕ → PooledFrame)) :
    Bool × List ℕ × (ℕ → PooledFrame) :=
  (true, if fileDesc = id.fileDesc then
    (s.1 ++ [f], Function.update s.2 f { s.2 f with pinCount := (s.2 f).pinCount + 1 }) else s)

def findList (fileDesc : ℤ) : FrameM (List ℕ) := do
  let fm ← get
  let r ← onFrames (LruCache.foreach (fetcher fileDesc) ([], fm.mem))
  modify fun fm => { fm with mem := r.2 }
  return r.1

def freeInternal (id : FrameId) (f : ℕ) : FrameM RC := do
  let frameSource ← onFrames (LruCache.get id)
  if ¬(frameSource = some f ∧ ((← get).mem f).pinCount = 1) then throw .notFreeable
  unpin f
  onFrames (LruCache.remove id)
  onAllocator fun m => ((), m.free f)
  return .success

def free (id : FrameId) (f : ℕ) : FrameM RC := freeInternal id f

def frameNum (fm : FrameManager) : ℕ := fm.frames.count

/-! ## The holders of frames -/

/-- A call; `unpin` is a call of a holder on its frame. -/
inductive Call where
  | alloc (id : FrameId)
  | get (id : FrameId)
  | findList (fileDesc : ℤ)
  | unpin (f : ℕ)
  | free (id : FrameId) (f : ℕ)

def Call.run : Call → FrameM (List ℕ)
  | .alloc id => do return (← FrameManager.alloc id).toList
  | .get id => do return (← FrameManager.get id).toList
  | .findList fileDesc => FrameManager.findList fileDesc
  | .unpin f => do
    FrameManager.unpin f
    return []
  | .free id f => do
    let _ ← FrameManager.free id f
    return []

/-- What the holders know: the pages they allocated and did not free, with their frames, and how
often they hold each frame. -/
structure Held where
  entries : List (FrameId × ℕ)
  pins : ℕ → ℕ

def Held.none : Held := ⟨[], fun _ => 0⟩

/-- A holder releases only what it holds, and frees only a frame that is held once. -/
def Call.Allowed (t : Held) : Call → Prop
  | .unpin f => 0 < t.pins f
  | .free id f => (id, f) ∈ t.entries ∧ t.pins f = 1
  | _ => True

def Held.after (t : Held) (c : Call) (fs : List ℕ) : Held :=
  match c with
  | .alloc id =>
    { entries := if id ∈ t.entries.map Prod.fst then t.entries else fs.map (id, ·) ++ t.entries
      pins := fun f => t.pins f + fs.count f }
  | .unpin f => { t with pins := Function.update t.pins f (t.pins f - 1) }
  | .free id f =>
    { entries := t.entries.erase (id, f), pins := Function.update t.pins f (t.pins f - 1) }
  | _ => { t with pins := fun f => t.pins f + fs.count f }

def Call.Right (size : ℕ) (t : Held) (fs : List ℕ) : Call → Prop
  | .alloc id =>
    (fs = [] ↔ id ∉ t.entries.map Prod.fst ∧ t.entries.length = size) ∧
      ∀ f ∈ fs, fs = [f] ∧ ((id, f) ∈ t.entries ∨
        id ∉ t.entries.map Prod.fst ∧ f ∉ t.entries.map Prod.snd)
  | .get id =>
    (∃ f, fs = [f] ∧ (id, f) ∈ t.entries) ∨ fs = [] ∧ id ∉ t.entries.map Prod.fst
  | .findList fileDesc =>
    fs.Nodup ∧ ∀ f, f ∈ fs ↔ ∃ pageNum, (⟨fileDesc, pageNum⟩, f) ∈ t.entries
  | _ => fs = []

inductive Run (start : FrameManager) : FrameManager → Held → Prop
  | refl : Run start start Held.none
  | step {fm fm' : FrameManager} {t : Held} {c : Call} {fs : List ℕ} : Run start fm t →
      c.Allowed t → c.run fm = .ok (fs, fm') → Run start fm' (t.after c fs)

/-- The cache, the pool and the pin counts agree with what the holders know. -/
structure Tracks (size : ℕ) (fm : FrameManager) (t : Held) : Prop where
  cached : ∃ order, fm.frames.Holds order ∧ order.Perm t.entries
  pool : (fm.allocator.frees ++ t.entries.map Prod.snd).Perm (List.range size)
  used : ∀ f, f ∈ fm.allocator.used ↔ f ∈ t.entries.map Prod.snd
  fixed : fm.allocator.isDynamic = false
  pins : ∀ f, (fm.mem f).pinCount = t.pins f
  unused : ∀ f, f ∉ t.entries.map Prod.snd → t.pins f = 0

theorem returns_onFrames {α : Type} {m : LruM FrameId ℕ α} {fm : FrameManager}
    {Q : α → FrameManager → Prop}
    (h : Returns m fm.frames fun a c => Q a { fm with frames := c }) : Returns
      (onFrames m) fm Q := by
  obtain ⟨a, c, hm, hQ⟩ := h
  have hrun : onFrames m fm = .ok (a, { fm with frames := c }) := by
    unfold onFrames
    rw [hm]
  exact (returns_of_eq hrun).mpr hQ

namespace Tracks

variable {size : ℕ} {fm : FrameManager} {t : Held} (ht : Tracks size fm t)

include ht

theorem keys_nodup : (t.entries.map Prod.fst).Nodup := by
  obtain ⟨order, hc, hperm⟩ := ht.cached
  exact (hperm.map _).nodup_iff.mp hc.keys_nodup

theorem frames_nodup : (t.entries.map Prod.snd).Nodup :=
  (List.nodup_append.mp (ht.pool.nodup_iff.mpr List.nodup_range)).2.1

theorem frameNum_eq : fm.frameNum = t.entries.length := by
  obtain ⟨order, hc, hperm⟩ := ht.cached
  exact hc.count_eq.trans hperm.length_eq

/-- The frames are handed out once more; the cache may have another order. -/
theorem handOut {fm' : FrameManager} {order : List (FrameId × ℕ)} (hc : fm'.frames.Holds order)
    (hperm : order.Perm t.entries) (hallocator : fm'.allocator = fm.allocator) {fs : List ℕ}
    (hfs : ∀ f ∈ fs, f ∈ t.entries.map Prod.snd)
    (hmem : ∀ f, (fm'.mem f).pinCount = (fm.mem f).pinCount + fs.count f) :
    Tracks size fm' { t with pins := fun f => t.pins f + fs.count f } where
  cached := ⟨order, hc, hperm⟩
  pool := hallocator ▸ ht.pool
  used := hallocator ▸ ht.used
  fixed := hallocator ▸ ht.fixed
  pins f := by
    rw [hmem, ht.pins, Int.natCast_add]
  unused f hf := by
    dsimp only
    rw [ht.unused f hf, List.count_eq_zero_of_not_mem fun h => hf (hfs f h)]

theorem returns_getInternal {id : FrameId} {f : ℕ} (hf : (id, f) ∈ t.entries) :
    Returns (getInternal id) fm fun r fm' => r = some f ∧
      Tracks size fm' { t with pins := fun g => t.pins g + [f].count g } := by
  obtain ⟨order, hc, hperm⟩ := ht.cached
  obtain ⟨e₁, e₂, rfl⟩ := List.append_of_mem (hperm.mem_iff.mpr hf)
  unfold getInternal
  rw [returns_bind]
  refine returns_onFrames (hc.returns_get.mono ?_)
  rintro r c ⟨rfl, hc'⟩
  dsimp only
  unfold pin setFrame
  rw [returns_bind, returns_modify, returns_pure]
  refine ⟨rfl, ?_⟩
  refine ht.handOut hc' (List.perm_middle.symm.trans hperm) ?_ ?_ fun g => ?_
  · rfl
  · rintro g hg
    rw [List.mem_singleton.mp hg]
    exact List.mem_map_of_mem hf
  · dsimp only
    by_cases hg : g = f
    · subst hg
      rw [Function.update_self, List.count_singleton_self]
      rfl
    · rw [Function.update_of_ne hg, List.count_eq_zero_of_not_mem (by simpa using hg)]
      exact (Int.add_zero _).symm

theorem getInternal_eq_none {id : FrameId} (hid : id ∉ t.entries.map Prod.fst) :
    getInternal id fm = .ok (none, fm) := by
  obtain ⟨order, hc, hperm⟩ := ht.cached
  have hget : onFrames (LruCache.get id) fm = .ok (none, fm) := by
    unfold onFrames
    rw [hc.get_eq_none fun h => hid ((hperm.map _).mem_iff.mp h)]
  unfold getInternal
  change (onFrames (LruCache.get id) fm >>= fun r => _) = _
  rw [hget]
  rfl

theorem length_le : t.entries.length ≤ size := by
  have hlen := ht.pool.length_eq
  rw [List.length_append, List.length_map, List.length_range] at hlen
  exact Nat.le_of_add_left_le (Nat.le_of_eq hlen)

theorem returns_alloc_absent {id : FrameId} (hid : id ∉ t.entries.map Prod.fst) :
    Returns (alloc id) fm fun r fm' =>
      (r = none ∧ t.entries.length = size ∧ fm' = fm) ∨
      ∃ f, r = some f ∧ t.entries.length ≠ size ∧ f ∉ t.entries.map Prod.snd ∧
        Tracks size fm' ⟨(id, f) :: t.entries, fun g => t.pins g + [f].count g⟩ := by
  have hlen := ht.pool.length_eq
  rw [List.length_append, List.length_map, List.length_range] at hlen
  unfold alloc
  rw [returns_bind, returns_of_eq (ht.getInternal_eq_none hid)]
  dsimp only
  rw [returns_bind]
  -- the pool is fixed: without a free frame there is no frame, else the first free one is taken
  cases hfrees : fm.allocator.frees with
  | nil =>
    have hrun : onAllocator MemPoolSimple.alloc fm = .ok (none, fm) := by
      unfold onAllocator MemPoolSimple.alloc
      rw [if_pos hfrees, ht.fixed]
      rfl
    rw [returns_of_eq hrun, returns_pure]
    rw [hfrees, List.length_nil, Nat.zero_add] at hlen
    exact .inl ⟨rfl, hlen, rfl⟩
  | cons f rest =>
    obtain ⟨allocator, hallocator⟩ : ∃ m : MemPoolSimple, m = { fm.allocator with
      frees := rest, used := insert f fm.allocator.used } := ⟨_, rfl⟩
    have hrun : onAllocator MemPoolSimple.alloc fm =
        .ok (some f, { fm with allocator := allocator }) := by
      unfold onAllocator MemPoolSimple.alloc MemPoolSimple.popFree
      rw [if_neg (by rw [hfrees]; exact List.cons_ne_nil _ _), hfrees, hallocator]
    have hpool := ht.pool
    rw [hfrees] at hpool hlen
    have hout : f ∉ t.entries.map Prod.snd := by
      have hnodup := hpool.nodup_iff.mpr List.nodup_range
      rw [List.cons_append, List.nodup_cons] at hnodup
      exact fun h => hnodup.1 (List.mem_append_right _ h)
    -- a frame out of use is not pinned, which is what the source asserts
    have hzero : (fm.mem f).pinCount = 0 := by
      rw [ht.pins, ht.unused f hout]
      rfl
    obtain ⟨order, hc, hperm⟩ := ht.cached
    rw [returns_of_eq hrun]
    dsimp only
    unfold place pin setFrame
    rw [returns_bind, returns_bind, Exec.returns_get, if_neg (not_not_intro hzero), returns_bind,
      returns_modify, returns_bind, returns_modify]
    refine returns_onFrames ((hc.returns_put (fun h => hid ((hperm.map _).mem_iff.mp h))
      f).mono ?_)
    rintro - c hc'
    rw [returns_pure]
    refine .inr ⟨f, rfl, ?_, hout, ⟨_, hc', hperm.cons _⟩, ?_, fun g => ?_, ?_, fun g => ?_,
      fun g hg => ?_⟩
    · rw [List.length_cons] at hlen
      omega
    · dsimp only
      rw [hallocator]
      exact List.perm_middle.trans hpool
    · dsimp only
      rw [hallocator, Finset.mem_insert, ht.used, List.map_cons, List.mem_cons]
    · dsimp only
      rw [hallocator]
      exact ht.fixed
    · dsimp only
      by_cases hg : g = f
      · subst hg
        rw [Function.update_self, Function.update_self, List.count_singleton_self, Int.natCast_add,
          ← ht.pins]
        rfl
      · rw [Function.update_of_ne hg, Function.update_of_ne hg,
          List.count_eq_zero_of_not_mem (by simpa using hg), ht.pins]
        rfl
    · rw [List.map_cons, List.mem_cons, not_or] at hg
      dsimp only
      rw [ht.unused g hg.2, List.count_eq_zero_of_not_mem (by simpa using hg.1)]

end Tracks

def ofFile (fileDesc : ℤ) (order : List (FrameId × ℕ)) : List ℕ :=
  (order.filter fun e => fileDesc = e.1.fileDesc).map Prod.snd

theorem ofFile_cons (fileDesc : ℤ) (id : FrameId) (f : ℕ) (order : List (FrameId × ℕ)) :
    ofFile fileDesc ((id, f) :: order) =
      if fileDesc = id.fileDesc then f :: ofFile fileDesc order else ofFile fileDesc order := by
  unfold ofFile
  rw [List.filter_cons]
  split <;> simp_all

theorem foldl_fetcher (fileDesc : ℤ) : ∀ (order : List (FrameId × ℕ)) (fs : List ℕ)
    (mem : ℕ → PooledFrame),
    (order.foldl (fun s e => (fetcher fileDesc e.1 e.2 s).2) (fs, mem)).1 =
        fs ++ ofFile fileDesc order ∧
      ∀ f, ((order.foldl (fun s e => (fetcher fileDesc e.1 e.2 s).2) (fs, mem)).2 f).pinCount =
        (mem f).pinCount + (ofFile fileDesc order).count f
  | [], fs, mem => ⟨(List.append_nil fs).symm, fun f => (Int.add_zero _).symm⟩
  | (id, g) :: rest, fs, mem => by
    rw [List.foldl_cons, ofFile_cons]
    by_cases hid : fileDesc = id.fileDesc
    · have hfetch : (fetcher fileDesc id g (fs, mem)).2 = (fs ++ [g],
          Function.update mem g { mem g with pinCount := (mem g).pinCount + 1 }) := if_pos hid
      obtain ⟨hlist, hpins⟩ := foldl_fetcher fileDesc rest (fs ++ [g])
        (Function.update mem g { mem g with pinCount := (mem g).pinCount + 1 })
      rw [if_pos hid, hfetch]
      refine ⟨hlist.trans (by rw [List.append_assoc]; rfl), fun f => (hpins f).trans ?_⟩
      rw [List.count_cons]
      by_cases hf : f = g
      · subst hf
        rw [Function.update_self, beq_self_eq_true, if_pos rfl]
        dsimp only
        omega
      · rw [Function.update_of_ne hf, if_neg (by simpa using Ne.symm hf)]
        rfl
    · have hfetch : (fetcher fileDesc id g (fs, mem)).2 = (fs, mem) := if_neg hid
      rw [if_neg hid, hfetch]
      exact foldl_fetcher fileDesc rest fs mem

namespace Tracks

variable {size : ℕ} {fm : FrameManager} {t : Held} (ht : Tracks size fm t)

include ht

theorem returns_findList (fileDesc : ℤ) : Returns (findList fileDesc) fm fun fs fm' =>
    (fs.Nodup ∧ ∀ f, f ∈ fs ↔ ∃ pageNum, (⟨fileDesc, pageNum⟩, f) ∈ t.entries) ∧
      Tracks size fm' { t with pins := fun f => t.pins f + fs.count f } := by
  obtain ⟨order, hc, hperm⟩ := ht.cached
  obtain ⟨hlist, hpins⟩ := foldl_fetcher fileDesc order [] fm.mem
  unfold findList
  rw [returns_bind, Exec.returns_get, returns_bind]
  refine returns_onFrames ((returns_of_eq (hc.foreach_eq (fun _ _ _ => rfl) ([], fm.mem))).mpr ?_)
  rw [returns_bind, returns_modify, returns_pure, hlist, List.nil_append]
  have hmem : ∀ f, f ∈ ofFile fileDesc order ↔
      ∃ pageNum, (⟨fileDesc, pageNum⟩, f) ∈ t.entries := by
    intro f
    unfold ofFile
    rw [List.mem_map]
    constructor
    · rintro ⟨⟨⟨file, pageNum⟩, g⟩, he, rfl⟩
      obtain ⟨hmem, hfile⟩ := List.mem_filter.mp he
      have hfile : fileDesc = file := of_decide_eq_true hfile
      rw [hfile]
      exact ⟨pageNum, hperm.mem_iff.mp hmem⟩
    · rintro ⟨pageNum, he⟩
      exact ⟨(⟨fileDesc, pageNum⟩, f), List.mem_filter.mpr
        ⟨hperm.mem_iff.mpr he, decide_eq_true rfl⟩, rfl⟩
  refine ⟨⟨?_, hmem⟩, ht.handOut ?_ hperm ?_ ?_ hpins⟩
  · have hnodup := (hperm.map Prod.snd).nodup_iff.mpr ht.frames_nodup
    exact hnodup.sublist (List.filter_sublist.map _)
  · exact hc
  · rfl
  · intro f hf
    obtain ⟨pageNum, he⟩ := (hmem f).mp hf
    exact List.mem_map_of_mem he

theorem returns_unpin {f : ℕ} (hf : 0 < t.pins f) : Returns (unpin f) fm fun _ fm' =>
    Tracks size fm' { t with pins := Function.update t.pins f (t.pins f - 1) } := by
  have hpins := ht.pins f
  unfold unpin setFrame
  rw [returns_bind, Exec.returns_get, if_neg (by omega)]
  dsimp only
  rw [returns_modify]
  refine ⟨ht.cached, ht.pool, ht.used, ht.fixed, fun g => ?_, fun g hg => ?_⟩
  · dsimp only
    by_cases hg : g = f
    · subst hg
      rw [Function.update_self, Function.update_self]
      dsimp only
      omega
    · rw [Function.update_of_ne hg, Function.update_of_ne hg]
      exact ht.pins g
  · have hne : g ≠ f := by
      rintro rfl
      exact absurd (ht.unused g hg) (Nat.ne_of_gt hf)
    dsimp only
    rw [Function.update_of_ne hne]
    exact ht.unused g hg

/-- A frame that nobody holds leaves the cache and goes back to the pool. -/
theorem returns_release {id : FrameId} {f : ℕ} (hf : (id, f) ∈ t.entries) (hzero : t.pins f = 0) :
    Returns (onFrames (LruCache.remove id)) fm fun _ fm₁ =>
      Returns (onAllocator fun m => ((), m.free f)) fm₁ fun _ fm' =>
        Tracks size fm' ⟨t.entries.erase (id, f), t.pins⟩ := by
  have hmem : f ∈ t.entries.map Prod.snd := List.mem_map_of_mem hf
  have hrest := List.perm_cons_erase hf
  obtain ⟨order, hc, hperm⟩ := ht.cached
  obtain ⟨e₁, e₂, rfl⟩ := List.append_of_mem (hperm.mem_iff.mpr hf)
  have hnodup := (hrest.map Prod.snd).nodup_iff.mp ht.frames_nodup
  rw [List.map_cons, List.nodup_cons] at hnodup
  have hout : ∀ g, g ∈ (t.entries.erase (id, f)).map Prod.snd ↔
      g ≠ f ∧ g ∈ t.entries.map Prod.snd := by
    intro g
    rw [(hrest.map Prod.snd).mem_iff, List.map_cons, List.mem_cons]
    constructor
    · intro hg
      refine ⟨?_, .inr hg⟩
      rintro rfl
      exact hnodup.1 hg
    · rintro ⟨hne, rfl | hg⟩
      · exact absurd rfl hne
      · exact hg
  refine returns_onFrames (hc.returns_remove.mono ?_)
  rintro - c' hc'
  -- the frame goes behind the free frames and is no longer in use
  obtain ⟨allocator, hallocator⟩ : ∃ m : MemPoolSimple, m = { fm.allocator with
    used := fm.allocator.used.erase f, frees := fm.allocator.frees ++ [f] } := ⟨_, rfl⟩
  have hfree : fm.allocator.free f = allocator := by
    unfold MemPoolSimple.free
    rw [if_pos ((ht.used f).mpr hmem), hallocator]
  unfold onAllocator
  rw [returns_of_eq rfl]
  refine ⟨⟨_, hc', ?_⟩, ?_, fun g => ?_, ?_, ht.pins, fun g hg => ?_⟩
  · have hmiddle : (e₁ ++ (id, f) :: e₂).Perm ((id, f) :: (e₁ ++ e₂)) := List.perm_middle
    exact (hmiddle.symm.trans (hperm.trans hrest)).cons_inv
  · dsimp only
    rw [hfree, hallocator]
    refine List.Perm.trans ?_ ht.pool
    rw [List.append_assoc]
    exact ((hrest.map Prod.snd).symm).append_left _
  · dsimp only
    rw [hfree, hallocator, Finset.mem_erase, ht.used, hout]
  · dsimp only
    rw [hfree, hallocator]
    exact ht.fixed
  · dsimp only
    by_cases hne : g = f
    · rw [hne, hzero]
    · exact ht.unused g fun h => hg ((hout g).mpr ⟨hne, h⟩)

/-- The holder of a frame that nobody else holds frees it. -/
theorem returns_free {id : FrameId} {f : ℕ} (hf : (id, f) ∈ t.entries) (hone : t.pins f = 1) :
    Returns (free id f) fm fun rc fm' => rc = .success ∧ Tracks size fm'
      ⟨t.entries.erase (id, f), Function.update t.pins f (t.pins f - 1)⟩ := by
  have hcount : (fm.mem f).pinCount = 1 := by
    rw [ht.pins, hone]
    rfl
  obtain ⟨order, hc, hperm⟩ := ht.cached
  obtain ⟨e₁, e₂, rfl⟩ := List.append_of_mem (hperm.mem_iff.mpr hf)
  unfold free freeInternal
  rw [returns_bind]
  refine returns_onFrames (hc.returns_get.mono ?_)
  rintro r c ⟨rfl, hc'⟩
  rw [returns_bind, Exec.returns_get, if_neg (not_not_intro ⟨rfl, hcount⟩), returns_bind]
  -- the lookup has only moved the frame to the front
  have ht' : Tracks size { fm with frames := c } t :=
    ⟨⟨_, hc', List.perm_middle.symm.trans hperm⟩, ht.pool, ht.used, ht.fixed, ht.pins, ht.unused⟩
  refine (ht'.returns_unpin (by omega)).mono ?_
  rintro - fm₁ ht₁
  rw [returns_bind]
  have hzero : Function.update t.pins f (t.pins f - 1) f = 0 := by
    rw [Function.update_self, hone]
  refine (ht₁.returns_release hf hzero).mono ?_
  rintro - fm₂ h₂
  rw [returns_bind]
  exact h₂.mono fun _ _ ht₂ => returns_pure.mpr ⟨rfl, ht₂⟩

theorem returns_run {c : Call} (hc : c.Allowed t) : Returns c.run fm fun fs fm' =>
    c.Right size t fs ∧ Tracks size fm' (t.after c fs) := by
  cases c with
  | alloc id =>
    have hlen := ht.length_le
    unfold Call.run Held.after Call.Right
    rw [returns_bind]
    -- a resident page is returned as it is; else `alloc` takes a free frame
    by_cases hid : id ∈ t.entries.map Prod.fst
    · obtain ⟨⟨id, f⟩, hf, rfl⟩ := List.mem_map.mp hid
      unfold alloc
      rw [returns_bind]
      refine (ht.returns_getInternal hf).mono ?_
      rintro r fm' ⟨rfl, ht'⟩
      dsimp only
      rw [returns_pure, returns_pure, if_pos hid]
      refine ⟨⟨⟨fun h => absurd h (List.cons_ne_nil _ _), fun h => absurd hid h.1⟩, ?_⟩, ht'⟩
      intro g hg
      rw [List.mem_singleton.mp hg]
      exact ⟨rfl, .inl hf⟩
    · refine (ht.returns_alloc_absent hid).mono ?_
      rintro r fm' (⟨rfl, hfull, rfl⟩ | ⟨f, rfl, hroom, hout, ht'⟩)
      · rw [returns_pure]
        dsimp only
        rw [if_neg hid]
        refine ⟨⟨⟨fun _ => ⟨hid, hfull⟩, fun _ => rfl⟩, ?_⟩, ht⟩
        intro g hg
        cases hg
      · rw [returns_pure]
        dsimp only
        rw [if_neg hid]
        refine ⟨⟨⟨fun h => absurd h (List.cons_ne_nil _ _), fun h => absurd h.2 hroom⟩, ?_⟩, ht'⟩
        intro g hg
        rw [List.mem_singleton.mp hg]
        exact ⟨rfl, .inr ⟨hid, hout⟩⟩
  | get id =>
    unfold Call.run Held.after Call.Right FrameManager.get
    rw [returns_bind]
    by_cases hid : id ∈ t.entries.map Prod.fst
    · obtain ⟨⟨id, f⟩, hf, rfl⟩ := List.mem_map.mp hid
      refine (ht.returns_getInternal hf).mono ?_
      rintro r fm' ⟨rfl, ht'⟩
      exact returns_pure.mpr ⟨.inl ⟨f, rfl, hf⟩, ht'⟩
    · rw [returns_of_eq (ht.getInternal_eq_none hid)]
      exact returns_pure.mpr ⟨.inr ⟨rfl, hid⟩, ht⟩
  | findList fileDesc => exact ht.returns_findList fileDesc
  | unpin f =>
    unfold Call.run Held.after Call.Right
    rw [returns_bind]
    refine (ht.returns_unpin hc).mono ?_
    rintro - fm' ht'
    exact returns_pure.mpr ⟨rfl, ht'⟩
  | free id f =>
    unfold Call.run Held.after Call.Right
    rw [returns_bind]
    refine (ht.returns_free hc.1 hc.2).mono ?_
    rintro rc fm' ⟨-, ht'⟩
    exact returns_pure.mpr ⟨rfl, ht'⟩

end Tracks

theorem returns_init {n : ℕ} (hn : 1 ≤ n) : Returns (init n) new fun rc fm =>
    rc = .success ∧ Tracks (n * defaultItemNumPerPool) fm Held.none := by
  obtain ⟨hret, hfrees, hused, hfixed⟩ :=
    MemPoolSimple.init_spec hn (show 1 ≤ defaultItemNumPerPool by decide)
  unfold init onAllocator
  rw [returns_bind, returns_of_eq rfl, returns_pure]
  refine ⟨if_pos hret, ⟨[], LruCache.holds_new, .refl _⟩, ?_, fun f => ?_, hfixed, fun _ => rfl,
    fun _ _ => rfl⟩
  · exact .of_eq ((List.append_nil _).trans hfrees)
  · rw [show Held.none.entries = [] from rfl, List.map_nil]
    refine iff_of_false ?_ (List.not_mem_nil)
    exact fun h => Finset.notMem_empty f (hused ▸ h)

/-- Every sequence of allowed calls keeps the table. -/
theorem Run.tracks {size : ℕ} {start fm : FrameManager} {t : Held} (hrun : Run start fm t)
    (hstart : Tracks size start Held.none) : Tracks size fm t := by
  induction hrun with
  | refl => exact hstart
  | step _ hc hstep ih => exact ((returns_of_eq hstep).mp (ih.returns_run hc)).2

structure Correct (size : ℕ) (fm : FrameManager) (t : Held) : Prop where
  oneFrame : (t.entries.map Prod.fst).Nodup
  otherFrames : (t.entries.map Prod.snd).Nodup
  frameNum : fm.frameNum = t.entries.length
  pins : ∀ f, (fm.mem f).pinCount = t.pins f
  answers : ∀ c : Call, c.Allowed t → Returns c.run fm fun fs _ => c.Right size t fs

/-- After `init` every sequence of allowed calls leaves a correct table: no page has two frames and
no frame two pages, and the next call finds, adds, lists and frees what it should. -/
theorem frameTable_correct {n : ℕ} (hn : 1 ≤ n) : Returns (init n) new fun rc start =>
    rc = .success ∧ ∀ fm t, Run start fm t → Correct (n * defaultItemNumPerPool) fm t := by
  refine (returns_init hn).mono ?_
  rintro rc start ⟨rfl, hstart⟩
  refine ⟨rfl, fun fm t hrun => ?_⟩
  have ht := hrun.tracks hstart
  exact ⟨ht.keys_nodup, ht.frames_nodup, ht.frameNum_eq, ht.pins, fun c hc =>
    (ht.returns_run hc).mono fun _ _ h => h.1⟩

theorem frameTable_correct_two : Returns (init (2 : ℕ)) new fun rc start =>
    rc = .success ∧ ∀ fm t, Run start fm t → Correct (2 * defaultItemNumPerPool) fm t :=
  frameTable_correct (by decide)

end FrameManager

end TDB
