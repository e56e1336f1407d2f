import Mathlib.Order.Interval.Finset.Nat
import TDB.RecordFile

namespace TDB

open ByteBits

/-! ## The walk of `BufferPoolIterator` -/

namespace BufferPoolIterator

def visited (h : FileHeader) : ℕ → BufferPoolIterator → List ℕ
  | 0, _ => []
  | n + 1, it =>
    match it.next h with
    | none => []
    | some (p, it) => p :: visited h n it

/-- Behind an allocated page the loop visits the allocated pages that the bitmap's size covers. -/
theorem visited_eq {h : FileHeader} {n : ℕ} {it : BufferPoolIterator}
    (hbit : h.bitmap it.currentPageNum = true) (hn : it.size - (it.currentPageNum + 1) ≤ n) :
    visited h n it = indices (fun i => h.bitmap i) (it.currentPageNum + 1) it.size := by
  induction n generalizing it with
  | zero =>
    have hlen := length_indices_le (fun i : ℕ => h.bitmap i) (it.currentPageNum + 1) it.size
    exact (List.length_eq_zero_iff.mp (by omega)).symm
  | succ n ih =>
    rw [visited, next_eq hbit]
    cases hlow : lowest (fun i => h.bitmap i) (it.currentPageNum + 1) it.size with
    | none => exact (indices_eq_nil hlow).symm
    | some p =>
      obtain ⟨hle, hlt, hp, -⟩ := lowest_eq_some_iff.mp hlow
      rw [indices_eq_cons hlow]
      exact congrArg (p :: ·) (@ih { it with currentPageNum := p } hp (by dsimp only; omega))

end BufferPoolIterator

/-! ## `recover_page` -/

/-- `FileBufferPool::recover_page` on the header: all three change if the bit is not set. -/
def FileHeaderBytes.recover (i : ℕ) (h : FileHeaderBytes) : FileHeaderBytes :=
  if test (h.bitmap (i / 8)) (i % 8) then h
  else { h.mark i with pageCount := h.pageCount + 1 }

namespace DataFile

variable {D : Type}

/-- `FileBufferPool::recover_page`, which always returns `SUCCESS`. -/
def recoverPage (i : ℕ) (df : DataFile D) : RC × DataFile D :=
  if df.allocated i then (.success, df)
  else (.success, { df with fileHeader := df.fileHeader.recover i, hdrDirty := true })

def recoverPages : List ℕ → DataFile D → DataFile D
  | [], df => df
  | p :: pages, df => recoverPages pages (df.recoverPage p).2

def newPages (f : ℕ → Bool) (pages : List ℕ) : Finset ℕ :=
  pages.toFinset.filter fun p => f p = false

variable {df df' : DataFile D} {p : ℕ} {pages : List ℕ}

theorem newPages_cons_of_set {f : ℕ → Bool} (hp : f p = true) (pages : List ℕ) :
    newPages f (p :: pages) = newPages f pages := by
  ext q
  simp only [newPages, List.toFinset_cons, Finset.mem_filter, Finset.mem_insert,
    List.mem_toFinset]
  constructor
  · rintro ⟨rfl | hq, hf⟩
    · rw [hp] at hf
      cases hf
    · exact ⟨hq, hf⟩
  · rintro ⟨hq, hf⟩
    exact ⟨Or.inr hq, hf⟩

theorem newPages_cons {f : ℕ → Bool} (hp : f p = false) (pages : List ℕ) :
    newPages f (p :: pages) = insert p (newPages (Function.update f p true) pages) ∧
      p ∉ newPages (Function.update f p true) pages := by
  constructor
  · ext q
    simp only [newPages, List.toFinset_cons, Finset.mem_filter, Finset.mem_insert,
      List.mem_toFinset]
    by_cases hq : q = p
    · subst hq
      simp [hp]
    · simp [hq]
  · simp [newPages]

theorem recoverPage_of_not_allocated (hp : df.allocated p = false) :
    (df.recoverPage p).2 = { df with
      fileHeader := { df.fileHeader.mark p with pageCount := df.fileHeader.pageCount + 1 }
      hdrDirty := true } := by
  have htest : test (df.fileHeader.bitmap (p / 8)) (p % 8) = false := hp
  unfold recoverPage FileHeaderBytes.recover
  rw [hp, htest]
  rfl

/-- What a call leaves for a new page: the bit is set, and both counters have counted it. -/
theorem recoverPage_eq (hp : df.allocated p = false) :
    (df.recoverPage p).2.allocated = Function.update df.allocated p true ∧
    (df.recoverPage p).2.fileHeader.pageCount = df.fileHeader.pageCount + 1 ∧
    (df.recoverPage p).2.fileHeader.allocatedPages = df.fileHeader.allocatedPages + 1 := by
  rw [recoverPage_of_not_allocated hp]
  refine ⟨?_, rfl, rfl⟩
  unfold allocated
  exact bit_setBit _ _

theorem recoverPage_of_allocated (hp : df.allocated p = true) : (df.recoverPage p).2 = df := by
  unfold recoverPage
  rw [hp]
  rfl

structure Counts (df df' : DataFile D) (pages : List ℕ) : Prop where
  allocated : ∀ i, df'.allocated i = true ↔ df.allocated i = true ∨ i ∈ pages
  pageCount : df'.fileHeader.pageCount =
    df.fileHeader.pageCount + (newPages df.allocated pages).card
  allocatedPages : df'.fileHeader.allocatedPages =
    df.fileHeader.allocatedPages + (newPages df.allocated pages).card
  hdrDirty : df'.hdrDirty = (df.hdrDirty || decide (newPages df.allocated pages ≠ ∅))
  frames : df'.frames = df.frames
  file : df'.file = df.file

theorem counts_recoverPages (pages : List ℕ) (df : DataFile D) :
    Counts df (recoverPages pages df) pages := by
  induction pages generalizing df with
  | nil => exact ⟨by simp [recoverPages], rfl, by simp [recoverPages, newPages],
      by simp [recoverPages, newPages], rfl, rfl⟩
  | cons p pages ih =>
    have hrest := ih (df.recoverPage p).2
    rw [recoverPages]
    cases hp : df.allocated p with
    | true =>
      -- the bit is set already: the call changes nothing and adds no new page
      rw [recoverPage_of_allocated hp] at hrest ⊢
      refine ⟨fun i => ?_, ?_, ?_, ?_, hrest.frames, hrest.file⟩
      · rw [hrest.allocated, List.mem_cons]
        constructor
        · exact Or.imp_right Or.inr
        · rintro (hi | rfl | hi)
          · exact Or.inl hi
          · exact Or.inl hp
          · exact Or.inr hi
      · rw [newPages_cons_of_set hp, hrest.pageCount]
      · rw [newPages_cons_of_set hp, hrest.allocatedPages]
      · rw [newPages_cons_of_set hp, hrest.hdrDirty]
    | false =>
      -- once its bit is set, the page is no new page for the calls that follow
      obtain ⟨hbits, hcount, hallocated⟩ := recoverPage_eq hp
      obtain ⟨hnew, hmem⟩ := newPages_cons hp pages
      have hcard := Finset.card_insert_of_notMem hmem
      rw [← hnew] at hcard
      refine ⟨fun i => ?_, ?_, ?_, ?_, ?_, ?_⟩
      · rw [hrest.allocated, hbits, List.mem_cons]
        by_cases hi : i = p
        · subst hi
          simp
        · simp [hi]
      · rw [hrest.pageCount, hcount, hbits, hcard]
        omega
      · rw [hrest.allocatedPages, hallocated, hbits, hcard]
        push_cast
        omega
      · rw [hrest.hdrDirty, recoverPage_of_not_allocated hp, hnew]
        simp
      · rw [hrest.frames, recoverPage_of_not_allocated hp]
      · rw [hrest.file, recoverPage_of_not_allocated hp]

theorem newPages_congr {pages' : List ℕ} (f : ℕ → Bool) (h : ∀ p, p ∈ pages ↔ p ∈ pages') :
    newPages f pages = newPages f pages' := by
  ext p
  simp only [newPages, Finset.mem_filter, List.mem_toFinset, h]

theorem recoverPages_congr {pages' : List ℕ} (h : ∀ p, p ∈ pages ↔ p ∈ pages') :
    recoverPages pages df = recoverPages pages' df := by
  have hcounts := counts_recoverPages pages df
  have hcounts' := counts_recoverPages pages' df
  generalize recoverPages pages df = df₁ at *
  generalize recoverPages pages' df = df₂ at *
  have hbits : df₁.allocated = df₂.allocated := by
    funext i
    apply Bool.eq_iff_iff.mpr
    rw [hcounts.allocated, hcounts'.allocated, h]
  have hbitmap : df₁.fileHeader.bitmap = df₂.fileHeader.bitmap := by
    rw [← bytesOf_bit df₁.fileHeader.bitmap, ← bytesOf_bit df₂.fileHeader.bitmap]
    exact congrArg bytesOf hbits
  have hcount := hcounts.pageCount
  have hallocated := hcounts.allocatedPages
  have hdirty := hcounts.hdrDirty
  rw [newPages_congr _ h] at hcount hallocated hdirty
  rw [← hcounts'.pageCount] at hcount
  rw [← hcounts'.allocatedPages] at hallocated
  rw [← hcounts'.hdrDirty] at hdirty
  have hframes := hcounts.frames.trans hcounts'.frames.symm
  have hfile := hcounts.file.trans hcounts'.file.symm
  obtain ⟨⟨_, _, _⟩, _, _, _⟩ := df₁
  obtain ⟨⟨_, _, _⟩, _, _, _⟩ := df₂
  simp only at hbitmap hcount hallocated hdirty hframes hfile
  rw [hbitmap, hcount, hallocated, hdirty, hframes, hfile]

/-- The number of set bits grows by the number of new pages. -/
theorem popcount_recover {f g : ℕ → Bool} {n : ℕ} (hpages : ∀ p ∈ pages, p < n)
    (h : ∀ i, g i = true ↔ f i = true ∨ i ∈ pages) :
    popcount g n = popcount f n + (newPages f pages).card := by
  induction pages generalizing f with
  | nil =>
    have hfg : g = f := funext fun i => Bool.eq_iff_iff.mpr (by simpa using h i)
    rw [hfg]
    rfl
  | cons p pages ih =>
    have hrest : ∀ q ∈ pages, q < n := fun q hq => hpages q (List.mem_cons_of_mem _ hq)
    cases hp : f p with
    | true =>
      rw [newPages_cons_of_set hp]
      refine ih hrest fun i => ?_
      rw [h, List.mem_cons]
      constructor
      · rintro (hi | rfl | hi)
        · exact Or.inl hi
        · exact Or.inl hp
        · exact Or.inr hi
      · exact Or.imp_right Or.inr
    | false =>
      obtain ⟨hnew, hmem⟩ := newPages_cons hp pages
      rw [hnew, Finset.card_insert_of_notMem hmem, ← Nat.add_assoc, Nat.add_right_comm,
        ← popcount_set (hpages p List.mem_cons_self) hp]
      refine ih hrest fun i => ?_
      rw [h, List.mem_cons]
      by_cases hi : i = p
      · subst hi
        simp
      · simp [hi]

/-! ## What recovery is for -/

/-- The least page count that covers the pages of the file and the recovered ones. -/
def covering (df : DataFile D) (pages : List ℕ) : ℕ :=
  pages.foldr (fun p n => max (p + 1) n) df.fileHeader.pageCount

/-- The file after the calls: the pages are allocated and within the file, the counters and the
bitmap agree, the order of the calls is of no account, and a scan of the file meets the pages. -/
structure Recovered (df : DataFile D) (pages : List ℕ) : Prop where
  bits : ∀ p ∈ pages, (recoverPages pages df).allocated p = true
  below : ∀ p ∈ pages, p < (recoverPages pages df).fileHeader.pageCount
  counted : (recoverPages pages df).fileHeader.allocatedPages =
    popcount (recoverPages pages df).allocated maxPageNum
  least : IsLeast {n | df.fileHeader.pageCount ≤ n ∧ ∀ p ∈ pages, p < n}
    (recoverPages pages df).fileHeader.pageCount
  order : ∀ pages', pages'.Perm pages → recoverPages pages' df = recoverPages pages df
  visited : ∀ p ∈ pages, p ≠ 0 →
    p ∈ BufferPoolIterator.visited (recoverPages pages df).fileHeader.view
      (recoverPages pages df).fileHeader.pageCount
      (.init (recoverPages pages df).fileHeader.view)

/-- The recovered pages that were free pages of the file. -/
def filledGaps (df : DataFile D) (pages : List ℕ) : Finset ℕ :=
  pages.toFinset.filter fun p => p < df.fileHeader.pageCount ∧ df.allocated p = false

def skippedPages (df : DataFile D) (pages : List ℕ) : Finset ℕ :=
  (Finset.Ico df.fileHeader.pageCount (df.covering pages)).filter fun p => p ∉ pages

/-- As many pages are skipped as gaps are filled. -/
def Balanced (df : DataFile D) (pages : List ℕ) : Prop :=
  (df.filledGaps pages).card = (df.skippedPages pages).card

instance (df : DataFile D) (pages : List ℕ) : Decidable (df.Balanced pages) :=
  inferInstanceAs (Decidable (_ = _))

theorem isLeast_covering (df : DataFile D) (pages : List ℕ) :
    IsLeast {n | df.fileHeader.pageCount ≤ n ∧ ∀ p ∈ pages, p < n} (df.covering pages) := by
  induction pages with
  | nil => exact ⟨⟨le_rfl, by simp⟩, fun n hn => hn.1⟩
  | cons p pages ih =>
    obtain ⟨⟨hle, hlt⟩, hleast⟩ := ih
    change IsLeast _ (max (p + 1) (df.covering pages))
    refine ⟨⟨hle.trans (le_max_right _ _), fun q hq => ?_⟩, fun n hn => ?_⟩
    · rcases List.mem_cons.mp hq with rfl | hq
      · exact Nat.le_max_left _ _
      · exact (hlt q hq).trans_le (Nat.le_max_right _ _)
    · exact max_le (hn.2 p List.mem_cons_self)
        (hleast ⟨hn.1, fun q hq => hn.2 q (List.mem_cons_of_mem _ hq)⟩)

/-- The file needs as many pages more as there are new ones just if the gaps and the skipped pages
balance. -/
theorem balanced_iff (hc : df.Consistent) :
    df.Balanced pages ↔
      df.fileHeader.pageCount + (newPages df.allocated pages).card = df.covering pages := by
  have hcover := (isLeast_covering df pages).1
  have hbehind : ∀ p, df.fileHeader.pageCount ≤ p → df.allocated p = false := fun p hp => by
    have hbit := hc.unset p hp
    rwa [FileHeaderBytes.view_bitmap] at hbit
  -- below the page count the new pages fill gaps, from there on they are what is not skipped
  have hfilled : (newPages df.allocated pages).filter (· < df.fileHeader.pageCount) =
      df.filledGaps pages := by
    ext p
    simp only [newPages, filledGaps, Finset.mem_filter, List.mem_toFinset]
    tauto
  have hnew : (newPages df.allocated pages).filter (¬ · < df.fileHeader.pageCount) =
      (Finset.Ico df.fileHeader.pageCount (df.covering pages)).filter fun p => ¬ p ∉ pages := by
    ext p
    simp only [newPages, Finset.mem_filter, List.mem_toFinset, Finset.mem_Ico, not_lt, not_not]
    constructor
    · rintro ⟨⟨hp, -⟩, hle⟩
      exact ⟨⟨hle, hcover.2 p hp⟩, hp⟩
    · rintro ⟨⟨hle, -⟩, hp⟩
      exact ⟨⟨hp, hbehind p hle⟩, hle⟩
  have hsplit := Finset.card_filter_add_card_filter_not (s := newPages df.allocated pages)
    fun p => p < df.fileHeader.pageCount
  have hsplit' := Finset.card_filter_add_card_filter_not
    (s := Finset.Ico df.fileHeader.pageCount (df.covering pages)) fun p => p ∉ pages
  rw [hfilled, hnew] at hsplit
  rw [Nat.card_Ico] at hsplit'
  have hle : df.fileHeader.pageCount ≤ df.covering pages := hcover.1
  unfold Balanced skippedPages
  omega

theorem Consistent.counted (hc : df.Consistent) (hpages : ∀ p ∈ pages, p < maxPageNum) :
    (recoverPages pages df).fileHeader.allocatedPages =
      popcount (recoverPages pages df).allocated maxPageNum := by
  have hcounts := counts_recoverPages pages df
  have hbefore := hc.allocatedPages
  rw [FileHeaderBytes.view_bitmap_eq] at hbefore
  rw [hcounts.allocatedPages, popcount_recover hpages hcounts.allocated]
  change df.fileHeader.allocatedPages = _ at hbefore
  rw [hbefore]
  push_cast
  rfl

/-- The pages of a file are recovered just if as many are skipped as gaps are filled: the page
count is incremented for every new page, wherever it lies. -/
theorem recovered_iff_balanced (hc : df.Consistent) (hpages : ∀ p ∈ pages, p < maxPageNum) :
    Recovered df pages ↔ df.Balanced pages := by
  have hcounts := counts_recoverPages pages df
  have hcovering := isLeast_covering df pages
  rw [balanced_iff hc, ← hcounts.pageCount]
  constructor
  · intro h
    exact h.least.unique hcovering
  · intro heq
    have hleast := hcovering
    rw [← heq] at hleast
    refine ⟨fun p hp => (hcounts.allocated p).mpr (Or.inr hp), hleast.1.2, hc.counted hpages,
      hleast, fun pages' hperm => recoverPages_congr fun p => hperm.mem_iff, fun p hp hp0 => ?_⟩
    generalize recoverPages pages df = df' at *
    -- the iterator starts on the header page and goes up to the page count
    have hzero : df'.fileHeader.view.bitmap 0 = true := by
      have hheader := hc.headerPage
      rw [show (0 : PageNum) = (0 : ℕ) from rfl, FileHeaderBytes.view_bitmap] at hheader ⊢
      exact (hcounts.allocated 0).mpr (Or.inl hheader)
    have hvisited := @BufferPoolIterator.visited_eq df'.fileHeader.view df'.fileHeader.pageCount
      (.init df'.fileHeader.view) hzero (Nat.sub_le _ _)
    rw [hvisited]
    refine mem_indices.mpr ⟨Nat.pos_of_ne_zero hp0, hleast.1.2 p hp, ?_⟩
    rw [FileHeaderBytes.view_bitmap]
    exact (hcounts.allocated p).mpr (Or.inr hp)

/-- A recovery of pages keeps the header consistent. -/
theorem Consistent.recoverPages (hc : df.Consistent) (hpages : ∀ p ∈ pages, p < maxPageNum)
    (hbalanced : df.Balanced pages) : (recoverPages pages df).Consistent := by
  have hcounts := counts_recoverPages pages df
  obtain ⟨⟨hle, hlt⟩, hleast⟩ := isLeast_covering df pages
  have hcount := hcounts.pageCount
  rw [(balanced_iff hc).mp hbalanced] at hcount
  refine ⟨?_, fun i hi => ?_, ?_, ?_⟩
  · rw [FileHeaderBytes.view_bitmap_eq]
    exact hc.counted hpages
  · change (DataFile.recoverPages pages df).fileHeader.pageCount ≤ i at hi
    rw [FileHeaderBytes.view_bitmap]
    apply Bool.eq_false_iff.mpr
    intro hbit
    rcases (hcounts.allocated i).mp hbit with hold | hnew
    · have hlt' := hc.lt_pageCount ((FileHeaderBytes.view_bitmap _ i).trans hold)
      change i < df.fileHeader.pageCount at hlt'
      omega
    · have hlt' := hlt i hnew
      omega
  · have hheader := hc.headerPage
    rw [show (0 : PageNum) = (0 : ℕ) from rfl, FileHeaderBytes.view_bitmap] at hheader ⊢
    exact (hcounts.allocated 0).mpr (Or.inl hheader)
  · change (DataFile.recoverPages pages df).fileHeader.pageCount ≤ maxPageNum
    rw [hcount]
    exact hleast ⟨hc.pageCount_le, hpages⟩

/-! ## Runs with recoveries -/

/-- A call on an opened file, or the recovery of some of its pages. -/
inductive FileCall (D : Type) where
  | pool (c : PoolCall D)
  | recover (pages : List ℕ)

variable [PageData D]

def fileCall : FileCall D → DataFile D → DataFile D
  | .pool c, df => df.call c
  | .recover pages, df => recoverPages pages df

/-- The calls under consideration; a recovery fills as many gaps as it skips pages. -/
def FileCall.Allowed : FileCall D → DataFile D → Prop
  | .pool c, df => df.Allowed c
  | .recover pages, df => (∀ p ∈ pages, p < maxPageNum) ∧ df.Balanced pages

def fileRun : List (FileCall D) → DataFile D → DataFile D
  | [], df => df
  | c :: cs, df => fileRun cs (fileCall c df)

def FileLegal : List (FileCall D) → DataFile D → Prop
  | [], _ => True
  | c :: cs, df => c.Allowed df ∧ FileLegal cs (fileCall c df)

theorem consistent_fileRun {cs : List (FileCall D)} (hc : df.Consistent)
    (hlegal : FileLegal cs df) :
    (fileRun cs df).Consistent := by
  induction cs generalizing df with
  | nil => exact hc
  | cons c cs ih =>
    refine ih ?_ hlegal.2
    cases c with
    | pool c => exact consistent_call hc hlegal.1
    | recover pages => exact hc.recoverPages hlegal.1.1 hlegal.1.2

/-- In every file that a new one can become, a recovery does what it is for just if it fills as many
gaps as it skips pages. -/
theorem recovered_iff (hdr : D) (calls : List (FileCall D)) (hlegal : FileLegal calls (created hdr))
    (pages : List ℕ) (hpages : ∀ p ∈ pages, p < maxPageNum) :
    Recovered (fileRun calls (created hdr)) pages ↔
      (fileRun calls (created hdr)).Balanced pages :=
  recovered_iff_balanced (consistent_fileRun FileHeaderBytes.consistent_created hlegal) hpages

/-- A redo of two pages behind each other, in any order, after a recovery of page 1. -/
theorem recovered_iff_appended :
    let _ : PageData Unit := ⟨(), ()⟩
    let df := fileRun [.recover [1]] (created ())
    Recovered df [3, 2, 3] := by
  intro _ df
  have hlegal : FileLegal [.recover [1]] (created ()) := ⟨⟨by decide, by decide +kernel⟩, trivial⟩
  exact (recovered_iff () [.recover [1]] hlegal [3, 2, 3] (by decide)).mpr (by decide +kernel)

/-- Page 5 of a new file is recovered, and lies behind its page count of 2. -/
theorem not_recovered_skipped :
    ¬ ∀ (hdr : Unit) (pages : List ℕ), (∀ p ∈ pages, p < maxPageNum) →
      Recovered (created hdr) pages := by
  intro h
  have hbelow := (h () [5] (by decide)).below 5 (by decide)
  revert hbelow
  decide +kernel

end DataFile

end TDB
