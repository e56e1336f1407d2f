import TDB.BufferPool
import TDB.Lib.ByteBits

namespace TDB

open ByteBits

/-! ## The header page -/

/-- `FileHeader` as it lies in page 0: the counters and the bytes of the bitmap. -/
structure FileHeaderBytes where
  pageCount : ℕ
  allocatedPages : ℤ
  bitmap : ℕ → BitVec 8

namespace FileHeaderBytes

/-- The header that `create_file` writes: `memset`, both counters 1, and `bitmap[0] |= 0x01`. -/
def created : FileHeaderBytes := ⟨1, 1, ByteBits.setBit (fun _ => 0#8) 0⟩

/-- The loop of `allocate_page` over the pages of the file. -/
def freePage (h : FileHeaderBytes) : Option ℕ :=
  if h.allocatedPages < h.pageCount then
    (List.range h.pageCount).find? fun i => !test (h.bitmap (i / 8)) (i % 8)
  else none

/-- `allocated_pages++; bitmap[byte] |= (1 << bit)`. -/
def mark (i : ℕ) (h : FileHeaderBytes) : FileHeaderBytes :=
  { h with
    allocatedPages := h.allocatedPages + 1
    bitmap := Function.update h.bitmap (i / 8) (ByteBits.set (h.bitmap (i / 8)) (i % 8)) }

/-- The same for the page behind the last one, with `page_count++`. -/
def grow (h : FileHeaderBytes) : FileHeaderBytes :=
  { h.mark h.pageCount with pageCount := h.pageCount + 1 }

/-- The end of `dispose_page`. -/
def unmark (i : ℕ) (h : FileHeaderBytes) : FileHeaderBytes :=
  { h with
    allocatedPages := h.allocatedPages - 1
    bitmap := Function.update h.bitmap (i / 8) (clearChar (h.bitmap (i / 8)) (i % 8)) }

/-- The header with its bitmap as a function. -/
def view (h : FileHeaderBytes) : FileHeader :=
  ⟨h.pageCount, h.allocatedPages, fun p => decide (0 ≤ p) && bit h.bitmap p.toNat⟩

end FileHeaderBytes

/-! ## The file -/

structure DataFile (D : Type) where
  fileHeader : FileHeaderBytes
  hdrDirty : Bool
  frames : PageNum → Option (Frame D)
  file : PageNum → Option D

namespace DataFile

variable {D : Type} [PageData D]

/-- The pool, with its history fields reset. -/
def pool (df : DataFile D) : FileBufferPool D :=
  ⟨df.fileHeader.view, df.hdrDirty, df.frames, df.file, 0, 0⟩

/-- `get_this_page` only touches the frame table. -/
def getThisPage (p : PageNum) (df : DataFile D) : RC × DataFile D :=
  let (rc, bp) := df.pool.getThisPage p
  (rc, { df with frames := bp.frames })

/-- A change made through a `Frame *`, by `unpin_page` or by the holder of the page. -/
def modify (p : PageNum) (g : Frame D → Frame D) (df : DataFile D) : DataFile D :=
  { df with frames := (df.pool.modify p g).frames }

def clearedFrame (p : PageNum) (df : DataFile D) : Frame D :=
  match df.frames p with
  | some f => { f with data := PageData.cleared, pinCount := f.pinCount + 1 }
  | none => ⟨PageData.cleared, false, 1⟩

/-- `allocate_page`, over the bytes of the header. -/
def allocatePage (df : DataFile D) : (RC × PageNum) × DataFile D :=
  match df.fileHeader.freePage with
  | some i =>
    let (rc, df) := getThisPage i { df with fileHeader := df.fileHeader.mark i, hdrDirty := true }
    ((rc, i), df)
  | none =>
    if maxPageNum ≤ df.fileHeader.pageCount then ((.bufferpoolNobuf, invalidPageNum), df)
    else
      let p : PageNum := df.fileHeader.pageCount
      ((.success, p),
        { df with
          fileHeader := df.fileHeader.grow
          hdrDirty := true
          frames := Function.update df.frames p (some (df.clearedFrame p)) })

def disposePage (p : PageNum) (df : DataFile D) : RC × DataFile D :=
  match df.frames p with
  | none => (.notfound, df)
  | some _ => (.success,
      { df with
        fileHeader := df.fileHeader.unmark p.toNat
        hdrDirty := true
        frames := Function.update df.frames p none })

/-- A file that `open_file` opened after `create_file`: the header frame is loaded and pinned. -/
def created (hdr : D) : DataFile D where
  fileHeader := .created
  hdrDirty := false
  frames := Function.update (fun _ => none) 0 (some ⟨hdr, false, 1⟩)
  file := Function.update (fun _ => none) 0 (some hdr)

def allocated (df : DataFile D) (i : ℕ) : Bool := bit df.fileHeader.bitmap i

end DataFile

/-! ## The bytes and the bitmap -/

namespace FileHeaderBytes

variable {h : FileHeaderBytes}

theorem view_bitmap (h : FileHeaderBytes) (i : ℕ) : h.view.bitmap i = bit h.bitmap i := by
  simp [view]

theorem view_bitmap_eq (h : FileHeaderBytes) :
    (fun i : ℕ => h.view.bitmap i) = bit h.bitmap :=
  funext h.view_bitmap

/-- A bit of the bytes is changed as the bitmap of the view is. -/
theorem view_bitmap_update (f : ℕ → Bool) (i : ℕ) (b : Bool) (p : PageNum) :
    (decide (0 ≤ p) && Function.update f i b p.toNat) =
      Function.update (fun p : PageNum => decide (0 ≤ p) && f p.toNat) i b p := by
  by_cases hp : p = i
  · subst hp
    simp
  · rw [Function.update_of_ne hp]
    by_cases h0 : 0 ≤ p
    · rw [Function.update_of_ne]
      intro hi
      apply hp
      rw [← hi, Int.toNat_of_nonneg h0]
    · simp [h0]

theorem freePage_eq (h : FileHeaderBytes) (bp : FileBufferPool D) (hv : bp.fileHeader = h.view) :
    h.freePage = bp.freeBit := by
  unfold freePage FileBufferPool.freeBit
  rw [hv]
  have hfind : (fun i : ℕ => !test (h.bitmap (i / 8)) (i % 8)) = fun i : ℕ => !h.view.bitmap i := by
    funext i
    rw [view_bitmap]
    rfl
  rw [hfind]
  rfl

theorem view_mark (i : ℕ) (h : FileHeaderBytes) :
    (h.mark i).view =
      ⟨h.pageCount, h.allocatedPages + 1, Function.update h.view.bitmap i true⟩ := by
  have hbit : bit (h.mark i).bitmap = Function.update (bit h.bitmap) i true := bit_setBit _ _
  unfold view
  rw [hbit]
  congr 1
  funext p
  exact view_bitmap_update _ _ _ _

theorem view_grow (h : FileHeaderBytes) :
    h.grow.view = ⟨h.pageCount + 1, h.allocatedPages + 1,
      Function.update h.view.bitmap h.pageCount true⟩ := by
  have hmark := congrArg FileHeader.bitmap (view_mark h.pageCount h)
  change FileHeader.mk (h.pageCount + 1) (h.allocatedPages + 1) (h.mark h.pageCount).view.bitmap = _
  rw [hmark]

theorem view_unmark (i : ℕ) (h : FileHeaderBytes) :
    (h.unmark i).view =
      ⟨h.pageCount, h.allocatedPages - 1, Function.update h.view.bitmap i false⟩ := by
  have hbit : bit (h.unmark i).bitmap = Function.update (bit h.bitmap) i false := by
    unfold unmark
    rw [clearChar_eq_clear]
    exact bit_clearBit _ _
  unfold view
  rw [hbit]
  congr 1
  funext p
  exact view_bitmap_update _ _ _ _

end FileHeaderBytes

/-! ## The counters and the bitmap agree -/

structure FileHeader.Consistent (h : FileHeader) : Prop where
  allocatedPages : h.allocatedPages = popcount (fun i => h.bitmap i) maxPageNum
  unset : ∀ i : ℕ, h.pageCount ≤ i → h.bitmap i = false
  headerPage : h.bitmap 0 = true
  pageCount_le : h.pageCount ≤ maxPageNum

namespace FileHeader

variable {h : FileHeader} {i : ℕ}

theorem cast_ne {i j : ℕ} (h : j ≠ i) : (j : PageNum) ≠ i := fun e => h (Int.ofNat_inj.mp e)

theorem bitmap_update (f : PageNum → Bool) (i : ℕ) (b : Bool) :
    (fun j : ℕ => Function.update f i b j) = Function.update (fun j : ℕ => f j) i b := by
  funext j
  by_cases hj : j = i
  · subst hj
    simp
  · rw [Function.update_of_ne hj, Function.update_of_ne (cast_ne hj)]

theorem Consistent.lt_pageCount (hc : h.Consistent) (hi : h.bitmap i = true) :
    i < h.pageCount := by
  by_contra hle
  rw [hc.unset i (by omega)] at hi
  cases hi

/-- A free page of the file, or the one behind the last, becomes allocated. -/
theorem Consistent.mark {n : ℕ} (hc : h.Consistent) (hi : h.bitmap i = false)
    (hin : i < n) (hn : h.pageCount ≤ n) (hmax : n ≤ maxPageNum) :
    Consistent ⟨n, h.allocatedPages + 1, Function.update h.bitmap i true⟩ where
  allocatedPages := by
    rw [bitmap_update, popcount_set (by omega) hi, hc.allocatedPages]
    rfl
  unset j hj := by
    dsimp only at hj ⊢
    rw [Function.update_of_ne (cast_ne (by omega))]
    exact hc.unset j (by omega)
  headerPage := by
    have h0 : 0 ≠ i := by
      rintro rfl
      exact Bool.noConfusion (hi.symm.trans hc.headerPage)
    exact (Function.update_of_ne (cast_ne h0) _ _).trans hc.headerPage
  pageCount_le := hmax

theorem Consistent.unmark (hc : h.Consistent) (hi : h.bitmap i = true) (h0 : i ≠ 0) :
    Consistent ⟨h.pageCount, h.allocatedPages - 1, Function.update h.bitmap i false⟩ where
  allocatedPages := by
    have hlt := hc.lt_pageCount hi
    have hmax := hc.pageCount_le
    have hclear := popcount_clear (p := fun j : ℕ => h.bitmap j) (hlt.trans_le hmax) hi
    dsimp only
    rw [bitmap_update, hc.allocatedPages, ← hclear]
    omega
  unset j hj := by
    dsimp only at hj ⊢
    by_cases hji : j = i
    · subst hji
      simp
    · rw [Function.update_of_ne (cast_ne hji)]
      exact hc.unset j hj
  headerPage := (Function.update_of_ne (cast_ne h0.symm) _ _).trans hc.headerPage
  pageCount_le := hc.pageCount_le

theorem Consistent.popcount_pageCount (hc : h.Consistent) :
    h.allocatedPages = popcount (fun i => h.bitmap i) h.pageCount := by
  rw [hc.allocatedPages, popcount_eq_of_le hc.pageCount_le fun j hj _ => hc.unset j hj]

end FileHeader

namespace FileBufferPool

variable {D : Type} {bp : FileBufferPool D} {i : ℕ}

/-- The search of the bitmap fails only if every page of the file is allocated: a smaller `allocated_pages` means that
some bit below `page_count` is not set. -/
theorem freeBit_eq_none (hc : bp.fileHeader.Consistent) (h : bp.freeBit = none) :
    ∀ j < bp.fileHeader.pageCount, bp.fileHeader.bitmap j = true := by
  unfold freeBit at h
  split at h
  · intro j hj
    have hfind := List.find?_range_eq_none.mp h j hj
    simpa using hfind
  · next hle =>
    apply popcount_eq_self_iff.mp
    have hcount := hc.popcount_pageCount
    have hpop := popcount_le (fun i : ℕ => bp.fileHeader.bitmap i) bp.fileHeader.pageCount
    omega

variable [PageData D]

@[simp] theorem fileHeader_getThisPage (bp : FileBufferPool D) (p : PageNum) :
    (bp.getThisPage p).2.fileHeader = bp.fileHeader := by
  unfold getThisPage
  split
  · exact fileHeader_modify _ _ _
  · rfl

/-- `allocate_page` reuses the lowest free page of the file, or grows a file that has none, or
fails because all the pages that the bitmap can hold are allocated. -/
theorem allocatePage_cases (hc : bp.fileHeader.Consistent) :
    (∃ i : ℕ, bp.freeBit = some i ∧ i < bp.fileHeader.pageCount ∧ bp.fileHeader.bitmap i = false ∧
      (∀ j < i, bp.fileHeader.bitmap j = true) ∧
      bp.allocatePage.1 = (((bp.setBit i).getThisPage i).1, (i : PageNum)) ∧
      bp.allocatePage.2.fileHeader = (bp.setBit i).fileHeader) ∨
    (bp.freeBit = none ∧ bp.fileHeader.pageCount < maxPageNum ∧
      (∀ j < bp.fileHeader.pageCount, bp.fileHeader.bitmap j = true) ∧
      bp.allocatePage = ((.success, (bp.fileHeader.pageCount : PageNum)), bp.extend)) ∨
    (bp.freeBit = none ∧ (∀ j < maxPageNum, bp.fileHeader.bitmap j = true) ∧
      bp.allocatePage = ((.bufferpoolNobuf, invalidPageNum), bp.noteFailure)) := by
  cases hfree : bp.freeBit with
  | some i =>
    obtain ⟨hlt, hbit, hlow⟩ := freeBit_eq_some hfree
    refine Or.inl ⟨i, rfl, hlt, hbit, hlow, ?_, ?_⟩
    · simp only [allocatePage, hfree]
    · simp only [allocatePage, hfree]
      split
      · exact fileHeader_getThisPage _ _
      · exact fileHeader_getThisPage _ _
  | none =>
    have hall := freeBit_eq_none hc hfree
    by_cases hmax : maxPageNum ≤ bp.fileHeader.pageCount
    · refine Or.inr (Or.inr ⟨rfl, fun j hj => hall j (by omega), ?_⟩)
      simp only [allocatePage, hfree, if_pos hmax]
    · refine Or.inr (Or.inl ⟨rfl, by omega, hall, ?_⟩)
      simp only [allocatePage, hfree, if_neg hmax]

theorem consistent_allocatePage (hc : bp.fileHeader.Consistent) :
    bp.allocatePage.2.fileHeader.Consistent := by
  rcases allocatePage_cases hc with ⟨i, -, hlt, hbit, -, -, hheader⟩ |
    ⟨-, hlt, -, heq⟩ | ⟨-, -, heq⟩
  · rw [hheader]
    exact hc.mark hbit hlt le_rfl hc.pageCount_le
  · rw [heq]
    exact hc.mark (hc.unset _ le_rfl) (Nat.lt_succ_self _) (Nat.le_succ _) hlt
  · rw [heq]
    exact hc

/-- A page that `allocate_page` hands out was free, and the lowest such. -/
theorem allocatePage_success (hc : bp.fileHeader.Consistent)
    (h : bp.allocatePage.1.1 = .success) :
    ∃ i : ℕ, bp.allocatePage.1.2 = i ∧ bp.fileHeader.bitmap i = false ∧
      ∀ j < i, bp.fileHeader.bitmap j = true := by
  rcases allocatePage_cases hc with ⟨i, -, -, hbit, hlow, heq, -⟩ | ⟨-, -, hall, heq⟩ | ⟨-, -, heq⟩
  · exact ⟨i, congrArg Prod.snd heq, hbit, hlow⟩
  · exact ⟨_, congrArg (fun r => r.1.2) heq, hc.unset _ le_rfl, hall⟩
  · rw [heq] at h
    cases h

/-- The pool after a page was handed out: its bit is set, its frame is there, and the frames of
the other pages are as they were. -/
structure HandsOut (bp bp' : FileBufferPool D) (i : ℕ) : Prop where
  free : bp.fileHeader.bitmap i = false
  bitmap : bp'.fileHeader.bitmap = Function.update bp.fileHeader.bitmap i true
  consistent : bp'.fileHeader.Consistent
  self : ∃ f, bp'.frame i = some f
  other : ∀ q : PageNum, q ≠ i → bp'.frame q = bp.frame q

theorem allocatePage_handsOut (hc : bp.fileHeader.Consistent)
    (h : bp.allocatePage.1.1 = .success) :
    ∃ i : ℕ, bp.allocatePage.1.2 = i ∧ HandsOut bp bp.allocatePage.2 i := by
  have hconsistent := consistent_allocatePage hc
  rcases allocatePage_cases hc with ⟨i, hfree, -, hbit, -, heq, hheader⟩ |
    ⟨-, -, -, heq⟩ | ⟨-, -, heq⟩
  · rw [heq] at h
    have hget : bp.allocatePage.2 = ((bp.setBit i).getThisPage i).2 := by
      unfold allocatePage
      rw [hfree]
      dsimp only at h ⊢
      rw [h]
      rfl
    obtain ⟨f, hf⟩ : ∃ f, (bp.setBit i).frame i = some f := by
      rw [← Option.ne_none_iff_exists']
      intro hnone
      rw [getThisPage, hnone] at h
      cases h
    have hmodify : bp.allocatePage.2 = (bp.setBit i).modify i Frame.pin := by
      rw [hget, getThisPage, hf]
    refine ⟨i, congrArg Prod.snd heq, hbit, by rw [hheader]; rfl, hconsistent, ?_, ?_⟩
    · rw [hmodify, frame_modify, if_pos rfl, hf]
      exact ⟨_, rfl⟩
    · intro q hq
      rw [hmodify, frame_modify, if_neg hq]
      rfl
  · refine ⟨bp.fileHeader.pageCount, congrArg (fun r => r.1.2) heq, hc.unset _ le_rfl, ?_,
      hconsistent, ?_, ?_⟩
    · rw [heq]
      rfl
    · rw [heq]
      exact ⟨_, frame_update_frames.trans (if_pos rfl)⟩
    · intro q hq
      rw [heq]
      exact frame_update_frames.trans (if_neg hq)
  · rw [heq] at h
    cases h

theorem allocatePage_nobuf (hc : bp.fileHeader.Consistent)
    (h : bp.allocatePage.1.1 = .bufferpoolNobuf) :
    bp.freeBit = none ∧ maxPageNum ≤ bp.fileHeader.pageCount ∧
      ∀ j < maxPageNum, bp.fileHeader.bitmap j = true := by
  rcases allocatePage_cases hc with ⟨i, -, -, -, -, heq, -⟩ | ⟨-, -, -, heq⟩ | ⟨hfree, hall, -⟩
  · rw [heq] at h
    unfold getThisPage at h
    split at h <;> cases h
  · rw [heq] at h
    cases h
  · refine ⟨hfree, ?_, hall⟩
    by_contra hlt
    have hlast := hall bp.fileHeader.pageCount (by omega)
    rw [hc.unset _ le_rfl] at hlast
    cases hlast

end FileBufferPool

/-! ## The file refines the pool -/

namespace DataFile

variable {D : Type}

/-- What a `FileBufferPool` and its bytes agree on; its history fields are not part of the file. -/
structure Refines (df : DataFile D) (bp : FileBufferPool D) : Prop where
  fileHeader : bp.fileHeader = df.fileHeader.view
  hdrDirty : bp.hdrDirty = df.hdrDirty
  frames : bp.frames = df.frames
  file : bp.file = df.file

theorem refines_pool (df : DataFile D) : Refines df df.pool := ⟨rfl, rfl, rfl, rfl⟩

namespace Refines

variable {df : DataFile D} {bp : FileBufferPool D}

theorem frame (h : Refines df bp) (p : PageNum) : bp.frame p = df.pool.frame p := by
  unfold FileBufferPool.frame
  rw [h.frames, h.file]
  rfl

theorem modify (h : Refines df bp) (p : PageNum) (g : Frame D → Frame D) :
    Refines (df.modify p g) (bp.modify p g) := by
  unfold DataFile.modify FileBufferPool.modify
  rw [h.frame]
  cases df.pool.frame p with
  | none => exact ⟨h.fileHeader, h.hdrDirty, h.frames, h.file⟩
  | some f => exact ⟨h.fileHeader, h.hdrDirty, by rw [h.frames]; rfl, h.file⟩

theorem disposePage (h : Refines df bp) {p : PageNum} (hp : 0 ≤ p) :
    (df.disposePage p).1 = (bp.disposePage p).1 ∧
      Refines (df.disposePage p).2 (bp.disposePage p).2 := by
  unfold DataFile.disposePage FileBufferPool.disposePage
  rw [h.frames]
  cases df.frames p with
  | none => exact ⟨rfl, h⟩
  | some f =>
    refine ⟨rfl, ?_, rfl, rfl, h.file⟩
    rw [FileHeaderBytes.view_unmark, h.fileHeader, Int.toNat_of_nonneg hp]
    rfl

variable [PageData D]

theorem getThisPage (h : Refines df bp) (p : PageNum) :
    (df.getThisPage p).1 = (bp.getThisPage p).1 ∧
      Refines (df.getThisPage p).2 (bp.getThisPage p).2 := by
  have hmodify := h.modify p Frame.pin
  unfold DataFile.getThisPage FileBufferPool.getThisPage
  rw [h.frame]
  cases df.pool.frame p with
  | none => exact ⟨rfl, h.fileHeader, h.hdrDirty, by rw [h.frames]; rfl, h.file⟩
  | some f => exact ⟨rfl, hmodify⟩

/-- The masks on the bytes of the header do what the pool does to its bitmap. -/
theorem allocatePage (h : Refines df bp) :
    df.allocatePage.1 = bp.allocatePage.1 ∧ Refines df.allocatePage.2 bp.allocatePage.2 := by
  unfold DataFile.allocatePage FileBufferPool.allocatePage
  rw [df.fileHeader.freePage_eq bp h.fileHeader]
  cases bp.freeBit with
  | some i =>
    have hset : Refines { df with fileHeader := df.fileHeader.mark i, hdrDirty := true }
        (bp.setBit i) := by
      refine ⟨?_, rfl, h.frames, h.file⟩
      rw [FileHeaderBytes.view_mark, FileBufferPool.setBit, h.fileHeader]
      rfl
    obtain ⟨hrc, hget⟩ := hset.getThisPage i
    dsimp only
    refine ⟨by rw [hrc], ?_⟩
    split
    · exact ⟨hget.fileHeader, hget.hdrDirty, hget.frames, hget.file⟩
    · exact hget
  | none =>
    have hcount : bp.fileHeader.pageCount = df.fileHeader.pageCount := by rw [h.fileHeader]; rfl
    dsimp only
    rw [hcount]
    by_cases hmax : maxPageNum ≤ df.fileHeader.pageCount
    · rw [if_pos hmax, if_pos hmax]
      exact ⟨rfl, h.fileHeader, h.hdrDirty, h.frames, h.file⟩
    · rw [if_neg hmax, if_neg hmax]
      refine ⟨rfl, ?_, rfl, ?_, h.file⟩
      · rw [FileHeaderBytes.view_grow]
        simp only [FileBufferPool.extend, FileBufferPool.setBit, h.fileHeader]
        rfl
      · cases hframe : df.frames df.fileHeader.pageCount with
        | none => simp only [FileBufferPool.extend, FileBufferPool.setBit, clearedFrame, h.frames,
            hcount, hframe]
        | some f => simp only [FileBufferPool.extend, FileBufferPool.setBit, clearedFrame,
            h.frames, hcount, hframe]

end Refines

end DataFile

/-! ## Runs of the file -/

/-- A call on an opened file.  `modify` stands for what the holders of a page do with its frame:
`unpin_page`, `mark_dirty` and changes of the data. -/
inductive PoolCall (D : Type) where
  | allocatePage
  | disposePage (p : PageNum)
  | getThisPage (p : PageNum)
  | modify (p : PageNum) (g : Frame D → Frame D)

namespace DataFile

variable {D : Type} [PageData D]

def call : PoolCall D → DataFile D → DataFile D
  | .allocatePage, df => df.allocatePage.2
  | .disposePage p, df => (df.disposePage p).2
  | .getThisPage p, df => (df.getThisPage p).2
  | .modify p g, df => df.modify p g

/-- `dispose_page` is called on an allocated page other than page 0, whose frame is cached and
held by nobody else. -/
def Allowed : PoolCall D → DataFile D → Prop
  | .disposePage p, df => 0 < p ∧ df.allocated p.toNat = true ∧ ∃ f, df.frames p = some f ∧
      f.pinCount = 0
  | _, _ => True

def run : List (PoolCall D) → DataFile D → DataFile D
  | [], df => df
  | c :: cs, df => run cs (call c df)

def Legal : List (PoolCall D) → DataFile D → Prop
  | [], _ => True
  | c :: cs, df => Allowed c df ∧ Legal cs (call c df)

def Consistent (df : DataFile D) : Prop := df.fileHeader.view.Consistent

theorem consistent_call {c : PoolCall D} {df : DataFile D} (hc : df.Consistent)
    (hallowed : Allowed c df) : (call c df).Consistent := by
  cases c with
  | allocatePage =>
    have hsim := (refines_pool df).allocatePage.2.fileHeader
    rw [Consistent, call, ← hsim]
    exact FileBufferPool.consistent_allocatePage hc
  | disposePage p =>
    obtain ⟨hp, hbit, f, hf, -⟩ := hallowed
    have hbit' : df.fileHeader.view.bitmap p.toNat = true := by
      rw [FileHeaderBytes.view_bitmap]
      exact hbit
    rw [Consistent, call, DataFile.disposePage, hf]
    dsimp only
    rw [FileHeaderBytes.view_unmark]
    exact hc.unmark hbit' (Int.pos_iff_toNat_pos.mp hp).ne'
  | getThisPage p => exact hc
  | modify p g => exact hc

theorem consistent_run {cs : List (PoolCall D)} {df : DataFile D} (hc : df.Consistent)
    (hlegal : Legal cs df) : (run cs df).Consistent := by
  induction cs generalizing df with
  | nil => exact hc
  | cons c cs ih => exact ih (consistent_call hc hlegal.1) hlegal.2

end DataFile

theorem FileHeaderBytes.consistent_created : created.view.Consistent where
  allocatedPages := by
    have hzero : popcount (bit fun _ => 0#8) maxPageNum = 0 := by
      apply popcount_eq_zero_iff.mpr
      intro i _
      exact test_zero (by omega)
    have hbit : bit (fun _ => 0#8) 0 = false := rfl
    rw [view_bitmap_eq]
    unfold created
    dsimp only
    rw [bit_setBit, popcount_set (by decide) hbit, hzero]
    rfl
  unset i hi := by
    have hi0 : i ≠ 0 := by
      rintro rfl
      exact absurd hi (by decide)
    rw [view_bitmap]
    unfold created
    dsimp only
    rw [bit_setBit, Function.update_of_ne hi0]
    exact test_zero (by omega)
  headerPage := by decide
  pageCount_le := by decide

namespace DataFile

variable {D : Type} [PageData D]

/-- From a file just created, or from any other whose header is consistent, no run of the file
breaks the header, and each `allocate_page` hands out the lowest free page or finds the file
full. -/
theorem page_allocation_invariant :
    (∀ hdr : D, (created hdr).Consistent) ∧
    ∀ (df : DataFile D) (calls : List (PoolCall D)), df.Consistent → Legal calls df →
      (run calls df).Consistent ∧
      ((run calls df).allocatePage.1.1 = .success →
        ∃ i : ℕ, (run calls df).allocatePage.1.2 = i ∧ (run calls df).allocated i = false ∧
          ∀ j < i, (run calls df).allocated j = true) ∧
      ((run calls df).allocatePage.1.1 = .bufferpoolNobuf →
        (run calls df).allocatePage.2 = run calls df ∧
          ∀ j < maxPageNum, (run calls df).allocated j = true) := by
  refine ⟨fun _ => FileHeaderBytes.consistent_created, fun df calls hstart hlegal => ?_⟩
  have hc : (run calls df).Consistent := consistent_run hstart hlegal
  generalize run calls df = df' at hc
  have hbit : ∀ i : ℕ, df'.pool.fileHeader.bitmap i = df'.allocated i := df'.fileHeader.view_bitmap
  have hrc := (refines_pool df').allocatePage.1
  have hpool : df'.pool.fileHeader.Consistent := hc
  refine ⟨hc, fun hsuccess => ?_, fun hnobuf => ?_⟩
  · rw [hrc] at hsuccess ⊢
    obtain ⟨i, hi, hfree, hlow⟩ := FileBufferPool.allocatePage_success hpool hsuccess
    exact ⟨i, hi, hbit i ▸ hfree, fun j hj => hbit j ▸ hlow j hj⟩
  · rw [hrc] at hnobuf
    obtain ⟨hfree, hmax, hall⟩ := FileBufferPool.allocatePage_nobuf hpool hnobuf
    refine ⟨?_, fun j hj => hbit j ▸ hall j hj⟩
    unfold allocatePage
    rw [df'.fileHeader.freePage_eq df'.pool rfl, hfree]
    exact congrArg Prod.snd (if_pos hmax)

/-- Two pages are allocated in a new file, and the first is given back. -/
theorem page_allocation_created :
    let _ : PageData Unit := ⟨(), ()⟩
    let calls := [.allocatePage, .allocatePage, .modify 1 Frame.unpin, .disposePage 1]
    Legal calls (created ()) ∧ (run calls (created ())).Consistent := by
  intro _ calls
  have hlegal : Legal calls (created ()) := by
    refine ⟨trivial, trivial, trivial, ⟨by decide, by decide, ?_⟩, trivial⟩
    exact ⟨_, rfl, rfl⟩
  exact ⟨hlegal, (page_allocation_invariant.2 (created ()) calls
    (page_allocation_invariant.1 ()) hlegal).1⟩

end DataFile

end TDB
