import TDB.PageAllocation

namespace TDB

open ByteBits

/-! ## Runs that allocate, dispose and flush pages -/

/-- A call on a file.  `holder` is what the holder of a cached page does with its frame. -/
inductive ReuseCall (D : Type) where
  | allocatePage
  | disposePage (p : PageNum)
  | flushPage (p : PageNum) (hole : D)
  | holder (p : PageNum) (g : Frame D → Frame D)

namespace DataFile

variable {D : Type}

/-- A page is written to its place in the file, as the comments of `flush_page_internal` ask for.
The file then reaches at least to this page; `hole` is what it reads as where nothing has been
written. -/
def flushPage (p : PageNum) (hole : D) (df : DataFile D) : DataFile D :=
  match df.frames p with
  | none => df
  | some f => { df with
      frames := Function.update df.frames p (some { f with dirty := false })
      file := fun q => if q = p then some f.data
        else if 0 ≤ q ∧ q < p then some ((df.file q).getD hole) else df.file q }

def holder (p : PageNum) (g : Frame D → Frame D) (df : DataFile D) : DataFile D :=
  { df with frames := Function.update df.frames p ((df.frames p).map g) }

/-- The lowest page of the file that is not allocated, if there is one, can be read: it lies
within the length that flushes have given to the file. -/
def LowestFreeOnDisk (df : DataFile D) : Prop :=
  ∀ i < df.fileHeader.pageCount, df.allocated i = false → (∀ j < i, df.allocated j = true) →
    (df.file i).isSome = true

/-! ## Cached pages are allocated -/

/-- A consistent file in whose frames only allocated pages stand. -/
structure Settled (df : DataFile D) : Prop where
  consistent : df.Consistent
  cached : ∀ p f, df.frames p = some f → 0 ≤ p ∧ df.allocated p.toNat = true

variable {df : DataFile D} {p q : PageNum} {i : ℕ}

theorem freePage_eq_some (h : df.fileHeader.freePage = some i) :
    i < df.fileHeader.pageCount ∧ df.allocated i = false ∧ ∀ j < i, df.allocated j = true := by
  rw [df.fileHeader.freePage_eq df.pool rfl] at h
  have hbit : ∀ j : ℕ, df.pool.fileHeader.bitmap j = df.allocated j := df.fileHeader.view_bitmap
  obtain ⟨hlt, hfree, hlow⟩ := FileBufferPool.freeBit_eq_some h
  exact ⟨hlt, hbit i ▸ hfree, fun j hj => hbit j ▸ hlow j hj⟩

theorem Consistent.freePage_eq_none (hc : df.Consistent) (h : df.fileHeader.freePage = none) :
    ∀ j < df.fileHeader.pageCount, df.allocated j = true := by
  rw [df.fileHeader.freePage_eq df.pool rfl] at h
  have hbit : ∀ j : ℕ, df.pool.fileHeader.bitmap j = df.allocated j := df.fileHeader.view_bitmap
  have hpool : df.pool.fileHeader.Consistent := hc
  exact fun j hj => hbit j ▸ FileBufferPool.freeBit_eq_none hpool h j hj

/-- A page whose frame was already there, or is the one that is marked. -/
theorem Settled.mark {df' : DataFile D} (h : Settled df) (hc : df'.Consistent)
    (hbits : bit df'.fileHeader.bitmap = Function.update (bit df.fileHeader.bitmap) i true)
    (hframes : ∀ q : PageNum, q ≠ i → df'.frames q = df.frames q) : Settled df' := by
  refine ⟨hc, fun q f hf => ?_⟩
  unfold allocated
  rw [hbits]
  by_cases hq : q = i
  · subst hq
    exact ⟨Int.natCast_nonneg i, Function.update_self _ _ _⟩
  · rw [hframes q hq] at hf
    obtain ⟨hnonneg, hbit⟩ := h.cached q f hf
    refine ⟨hnonneg, ?_⟩
    rw [Function.update_of_ne fun heq : q.toNat = i => hq
      (heq ▸ (Int.toNat_of_nonneg hnonneg).symm)]
    exact hbit

theorem Settled.disposePage (h : Settled df) (hp : p ≠ 0) : Settled (df.disposePage p).2 := by
  unfold DataFile.disposePage
  cases hf : df.frames p with
  | none => exact h
  | some f =>
    obtain ⟨hnonneg, hbit⟩ := h.cached p f hf
    have hview : df.fileHeader.view.bitmap p.toNat = true :=
      (FileHeaderBytes.view_bitmap _ _).trans hbit
    have hbits : bit (df.fileHeader.unmark p.toNat).bitmap =
        Function.update (bit df.fileHeader.bitmap) p.toNat false := by
      unfold FileHeaderBytes.unmark
      rw [clearChar_eq_clear]
      exact bit_clearBit _ _
    have hpos : p.toNat ≠ 0 := fun hzero =>
      hp ((Int.toNat_of_nonneg hnonneg).symm.trans (congrArg Int.ofNat hzero))
    refine ⟨?_, fun q g hg => ?_⟩
    · unfold DataFile.Consistent
      dsimp only
      rw [FileHeaderBytes.view_unmark]
      exact FileHeader.Consistent.unmark h.consistent hview hpos
    · dsimp only at hg
      have hq : q ≠ p := by
        rintro rfl
        rw [Function.update_self] at hg
        cases hg
      rw [Function.update_of_ne hq] at hg
      obtain ⟨hq0, hqbit⟩ := h.cached q g hg
      refine ⟨hq0, ?_⟩
      unfold allocated
      rw [hbits, Function.update_of_ne fun heq => hq ?_]
      · exact hqbit
      · rw [← Int.toNat_of_nonneg hq0, ← Int.toNat_of_nonneg hnonneg, heq]

/-- The header stays as it is, and no other page gets a frame. -/
theorem Settled.of_frames {df' : DataFile D} (h : Settled df)
    (hheader : df'.fileHeader = df.fileHeader)
    (hframes : ∀ q, (df'.frames q).isSome = (df.frames q).isSome) : Settled df' := by
  refine ⟨?_, fun q f hf => ?_⟩
  · unfold DataFile.Consistent
    rw [hheader]
    exact h.consistent
  · have hsome := hframes q
    rw [hf, Option.isSome_some] at hsome
    obtain ⟨g, hg⟩ := Option.isSome_iff_exists.mp hsome.symm
    unfold allocated
    rw [hheader]
    exact h.cached q g hg

theorem Settled.flushPage (h : Settled df) (p : PageNum) (hole : D) :
    Settled (df.flushPage p hole) := by
  unfold DataFile.flushPage
  split
  · exact h
  · next f hf =>
    refine h.of_frames rfl fun q => ?_
    dsimp only
    by_cases hq : q = p
    · subst hq
      rw [hf, Function.update_self]
      rfl
    · rw [Function.update_of_ne hq]

theorem Settled.holder (h : Settled df) (p : PageNum) (g : Frame D → Frame D) :
    Settled (df.holder p g) := by
  refine h.of_frames rfl fun q => ?_
  unfold DataFile.holder
  dsimp only
  by_cases hq : q = p
  · subst hq
    rw [Function.update_self, Option.isSome_map]
  · rw [Function.update_of_ne hq]

theorem settled_created (hdr : D) : Settled (created hdr) := by
  refine ⟨FileHeaderBytes.consistent_created, fun q f hf => ?_⟩
  have hq : q = 0 := by
    by_contra hne
    unfold created at hf
    dsimp only at hf
    rw [Function.update_of_ne hne] at hf
    cases hf
  subst hq
  have hbit : bit FileHeaderBytes.created.bitmap 0 = true := by decide
  exact ⟨le_rfl, hbit⟩

theorem Settled.not_cached (h : Settled df) (hfree : df.allocated i = false) :
    df.frames i = none := by
  by_contra hne
  obtain ⟨f, hf⟩ := Option.ne_none_iff_exists'.mp hne
  exact Bool.noConfusion (hfree.symm.trans (h.cached i f hf).2)

/-! ## Runs -/

section runs

variable [PageData D]

def reuseCall : ReuseCall D → DataFile D → DataFile D
  | .allocatePage, df => df.allocatePage.2
  | .disposePage p, df => (df.disposePage p).2
  | .flushPage p hole, df => df.flushPage p hole
  | .holder p g, df => df.holder p g

def reuseRun (calls : List (ReuseCall D)) (df : DataFile D) : DataFile D :=
  calls.foldl (fun df c => reuseCall c df) df

/-- Nobody disposes the header page. -/
def KeepsHeaderPage (calls : List (ReuseCall D)) : Prop :=
  ∀ c ∈ calls, ∀ p, c = .disposePage p → p ≠ 0

/-- `allocate_page` succeeds unless all pages are allocated, and an error leaves the counters and
the bitmap as they were. -/
structure AllocatesOrKeeps (df : DataFile D) : Prop where
  success : (∃ i < maxPageNum, df.allocated i = false) → df.allocatePage.1.1 = .success
  error : df.allocatePage.1.1 ≠ .success → df.allocatePage.2.fileHeader = df.fileHeader

theorem frames_getThisPage (h : q ≠ p) : (df.getThisPage p).2.frames q = df.frames q := by
  have hpool : (df.pool.getThisPage p).2.frames q = df.pool.frames q := by
    unfold FileBufferPool.getThisPage
    split
    · exact (FileBufferPool.frames_modify _ _ _ _).trans (if_neg h)
    · exact Function.update_of_ne h _ _
  exact hpool

theorem Settled.allocatePage (h : Settled df) : Settled df.allocatePage.2 := by
  have hc : df.allocatePage.2.Consistent :=
    consistent_call (c := .allocatePage) h.consistent trivial
  revert hc
  unfold DataFile.allocatePage
  split
  · next i hfree =>
    intro hc
    refine h.mark (i := i) hc (bit_setBit _ _) fun q hq => ?_
    exact frames_getThisPage hq
  · split_ifs
    · exact fun _ => h
    · intro hc
      refine h.mark (i := df.fileHeader.pageCount) hc (bit_setBit _ _) fun q hq => ?_
      exact Function.update_of_ne hq _ _

theorem Settled.reuseCall {c : ReuseCall D} (h : Settled df)
    (hc : ∀ p, c = .disposePage p → p ≠ 0) : Settled (reuseCall c df) := by
  cases c with
  | allocatePage => exact h.allocatePage
  | disposePage p => exact h.disposePage (hc p rfl)
  | flushPage p hole => exact h.flushPage p hole
  | holder p g => exact h.holder p g

theorem Settled.reuseRun {calls : List (ReuseCall D)} (h : Settled df)
    (hcalls : KeepsHeaderPage calls) : Settled (reuseRun calls df) := by
  induction calls generalizing df with
  | nil => exact h
  | cons c calls ih =>
    exact ih (h.reuseCall (hcalls c List.mem_cons_self)) fun c' hc' =>
      hcalls c' (List.mem_cons_of_mem _ hc')

/-! ## When `allocate_page` succeeds -/

/-- The lowest free page is marked first, and then read: it is not cached. -/
theorem Settled.allocatePage_of_free (h : Settled df) (hfree : df.fileHeader.freePage = some i) :
    df.allocatePage.1.1 = (if (df.file i).isSome then .success else .ioerrRead) ∧
      df.allocatePage.2.fileHeader = df.fileHeader.mark i := by
  obtain ⟨-, hbit, -⟩ := freePage_eq_some hfree
  have hframe : df.frames i = none := h.not_cached hbit
  unfold DataFile.allocatePage DataFile.getThisPage FileBufferPool.getThisPage
  rw [hfree]
  unfold FileBufferPool.frame pool
  dsimp only
  rw [hframe]
  dsimp only
  cases df.file i with
  | none => exact ⟨rfl, rfl⟩
  | some d => exact ⟨rfl, rfl⟩

/-- In a file whose pages are all allocated `allocate_page` grows the file, or finds it full. -/
theorem Settled.allocatePage_of_full (h : Settled df) (hfree : df.fileHeader.freePage = none) :
    AllocatesOrKeeps df := by
  have hall := h.consistent.freePage_eq_none hfree
  by_cases hmax : maxPageNum ≤ df.fileHeader.pageCount
  · have heq : df.allocatePage = ((.bufferpoolNobuf, invalidPageNum), df) := by
      unfold DataFile.allocatePage
      rw [hfree]
      exact if_pos hmax
    refine ⟨?_, fun _ => by rw [heq]⟩
    rintro ⟨i, hi, hbit⟩
    exact Bool.noConfusion (hbit.symm.trans (hall i (hi.trans_le hmax)))
  · have hrc : df.allocatePage.1.1 = .success := by
      unfold DataFile.allocatePage
      rw [hfree]
      dsimp only
      rw [if_neg hmax]
    exact ⟨fun _ => hrc, fun herr => absurd hrc herr⟩

/-- The reuse of a free page fails when the page cannot be read, and the page is marked already. -/
theorem Settled.allocatesOrKeeps_iff (h : Settled df) :
    AllocatesOrKeeps df ↔ LowestFreeOnDisk df := by
  cases hfree : df.fileHeader.freePage with
  | some i =>
    obtain ⟨hlt, hbit, hlow⟩ := freePage_eq_some hfree
    obtain ⟨hrc, hheader⟩ := h.allocatePage_of_free hfree
    constructor
    · intro hmeets j hj hjfree hjlow
      have hcount : df.fileHeader.pageCount ≤ maxPageNum :=
        FileHeader.Consistent.pageCount_le h.consistent
      have hij : j = i := by
        rcases lt_trichotomy j i with hlt' | heq | hgt
        · exact Bool.noConfusion (hjfree.symm.trans (hlow j hlt'))
        · exact heq
        · exact Bool.noConfusion (hbit.symm.trans (hjlow i hgt))
      have hsuccess := hmeets.success ⟨i, hlt.trans_le hcount, hbit⟩
      rw [hrc] at hsuccess
      rw [hij]
      by_contra hdisk
      rw [if_neg hdisk] at hsuccess
      cases hsuccess
    · intro hdisk
      rw [if_pos (hdisk i hlt hbit hlow)] at hrc
      exact ⟨fun _ => hrc, fun herr => absurd hrc herr⟩
  | none =>
    have hall := h.consistent.freePage_eq_none hfree
    exact iff_of_true (h.allocatePage_of_full hfree) fun i hi hbit _ =>
      Bool.noConfusion (hbit.symm.trans (hall i hi))

/-- In every state that a run of a new file, or of any settled one, reaches. -/
theorem allocatesOrKeeps_reuse :
    (∀ hdr : D, Settled (created hdr)) ∧
    ∀ (df : DataFile D) (calls : List (ReuseCall D)), Settled df → KeepsHeaderPage calls →
      (AllocatesOrKeeps (reuseRun calls df) ↔ LowestFreeOnDisk (reuseRun calls df)) :=
  ⟨settled_created, fun _ _ hstart hcalls => (hstart.reuseRun hcalls).allocatesOrKeeps_iff⟩

/-- The lowest free page has been flushed before it was disposed. -/
theorem allocatesOrKeeps_flushed :
    let _ : PageData Unit := ⟨(), ()⟩
    let calls := [.allocatePage, .flushPage 1 (), .disposePage 1]
    KeepsHeaderPage calls ∧ AllocatesOrKeeps (reuseRun calls (created ())) := by
  intro _ calls
  have hcalls : KeepsHeaderPage calls := by
    intro c hc p hp
    simp only [calls, List.mem_cons, List.not_mem_nil, or_false] at hc
    rcases hc with rfl | rfl | rfl
    · cases hp
    · cases hp
    · cases hp
      decide
  refine ⟨hcalls, (allocatesOrKeeps_reuse.2 (created ()) calls (allocatesOrKeeps_reuse.1 ())
    hcalls).mpr ?_⟩
  unfold LowestFreeOnDisk
  decide +kernel

/-- A page that was never flushed is disposed and allocated again. -/
theorem not_allocatesOrKeeps_unflushed :
    let _ : PageData Unit := ⟨(), ()⟩
    let df := reuseRun [.allocatePage, .holder 1 Frame.unpin, .disposePage 1] (created ())
    df.allocatePage.1.1 = .ioerrRead ∧ df.allocatePage.2.allocated 1 = true ∧
      ¬AllocatesOrKeeps df := by
  intro _ df
  have hrc : df.allocatePage.1.1 = .ioerrRead := by decide +kernel
  refine ⟨hrc, by decide +kernel, fun h => ?_⟩
  rw [h.success ⟨1, by decide, by decide +kernel⟩] at hrc
  cases hrc

end runs

end DataFile

end TDB
