import TDB.FrameManager

namespace TDB

open Exec

namespace FrameManager

/-! ## Eviction -/

/-- A page whose frame nobody holds and for whose frame the action succeeds. -/
def Held.Evictable (t : Held) (evictAction : ℕ → RC) (e : FrameId × ℕ) : Prop :=
  t.pins e.2 = 0 ∧ evictAction e.2 = .success

/-- What is documented of `evict_frames`: it evicts pages whose frames nobody holds, after the
action, as many as it was asked for or else all there are, and returns how many. -/
def EvictsFrames (size : ℕ) (evictFrames : ℤ → (ℕ → RC) → FrameM ℤ) : Prop :=
  ∀ (count : ℕ) (evictAction : ℕ → RC) (fm : FrameManager) (t : Held), Tracks size fm t →
    Returns (evictFrames count evictAction) fm fun n fm' => ∃ evicted rest,
      t.entries.Perm (evicted ++ rest) ∧ (∀ e ∈ evicted, t.Evictable evictAction e) ∧
      n = evicted.length ∧ evicted.length ≤ count ∧
      (evicted.length < count → ∀ e ∈ rest, ¬t.Evictable evictAction e) ∧
      Tracks size fm' ⟨rest, t.pins⟩

def release : List (FrameId × ℕ) → FrameM Unit
  | [] => return
  | e :: rest => do
    onFrames (LruCache.remove e.1)
    onAllocator fun m => ((), m.free e.2)
    release rest

def evictable (fm : FrameManager) (evictAction : ℕ → RC) (order : List (FrameId × ℕ)) :
    List (FrameId × ℕ) :=
  order.filter fun e => (fm.mem e.2).pinCount = 0 ∧ evictAction e.2 = .success

/-- An `evict_frames` that does what is documented, in the order of the cache. -/
def evictInOrder (count : ℤ) (evictAction : ℕ → RC) : FrameM ℤ := do
  let fm ← get
  let order ← onFrames (LruCache.foreach (fun id f es => (true, es ++ [(id, f)])) [])
  let victims := (fm.evictable evictAction order).take count.toNat
  release victims
  return victims.length

theorem foldl_append : ∀ order es : List (FrameId × ℕ),
    order.foldl (fun s e => s ++ [(e.1, e.2)]) es = es ++ order
  | [], es => (List.append_nil es).symm
  | e :: rest, es => by
    rw [List.foldl_cons, foldl_append rest, List.append_assoc]
    rfl

namespace Tracks

variable {size : ℕ} {fm : FrameManager} {t : Held}

theorem reorder {es : List (FrameId × ℕ)} (ht : Tracks size fm t) (hperm : t.entries.Perm es) :
    Tracks size fm ⟨es, t.pins⟩ := by
  obtain ⟨order, hc, horder⟩ := ht.cached
  refine ⟨⟨order, hc, horder.trans hperm⟩, ?_, fun f => ?_, ht.fixed, ht.pins, fun f hf => ?_⟩
  · exact ((hperm.map Prod.snd).symm.append_left _).trans ht.pool
  · exact (ht.used f).trans (hperm.map Prod.snd).mem_iff
  · exact ht.unused f fun h => hf ((hperm.map Prod.snd).mem_iff.mp h)

theorem returns_releaseAll (evicted : List (FrameId × ℕ)) :
    ∀ {fm : FrameManager} {rest : List (FrameId × ℕ)} {pins : ℕ → ℕ},
    Tracks size fm ⟨evicted ++ rest, pins⟩ → (∀ e ∈ evicted, pins e.2 = 0) →
    Returns (release evicted) fm fun _ fm' => Tracks size fm' ⟨rest, pins⟩ := by
  induction evicted with
  | nil =>
    intro fm rest pins ht _
    exact returns_pure.mpr ht
  | cons e es ih =>
    intro fm rest pins ht hzero
    unfold release
    rw [returns_bind]
    have hfirst := ht.returns_release (List.mem_cons_self ..) (hzero e (List.mem_cons_self ..))
    refine hfirst.mono ?_
    rintro - fm₁ h₁
    rw [returns_bind]
    refine h₁.mono fun _ fm₂ ht₂ => ?_
    have hes : (e :: es ++ rest).erase e = es ++ rest := List.erase_cons_head ..
    exact ih (hes ▸ ht₂) fun e' he' => hzero e' (List.mem_cons_of_mem _ he')

end Tracks

theorem evictsFrames_evictInOrder (size : ℕ) : EvictsFrames size evictInOrder := by
  intro count evictAction fm t ht
  obtain ⟨order, hc, hperm⟩ := ht.cached
  have hlist : Returns (onFrames (LruCache.foreach (fun id f es => (true, es ++ [(id, f)])) []))
      fm fun es fm' => es = order ∧ fm' = fm :=
    returns_onFrames ((returns_of_eq (hc.foreach_eq (fun _ _ _ => rfl) [])).mpr
      ⟨foldl_append order [], rfl⟩)
  unfold evictInOrder
  rw [returns_bind, Exec.returns_get, returns_bind]
  refine hlist.mono ?_
  rintro _ _ ⟨rfl, rfl⟩
  rename_i order fm
  obtain ⟨victims, hvictims⟩ : ∃ v, v = (fm.evictable evictAction order).take count := ⟨_, rfl⟩
  have hevictable : ∀ e, e ∈ fm.evictable evictAction order ↔
      e ∈ order ∧ t.Evictable evictAction e := by
    intro e
    unfold evictable Held.Evictable
    rw [List.mem_filter, decide_eq_true_iff, ht.pins, Int.natCast_eq_zero]
  have hsub : victims.Sublist order := hvictims ▸ (List.take_sublist ..).trans List.filter_sublist
  obtain ⟨rest, hrest⟩ := hsub.exists_perm_append
  have hall := hperm.symm.trans hrest
  have hmem : ∀ e ∈ victims, t.Evictable evictAction e := by
    intro e he
    rw [hvictims] at he
    exact ((hevictable e).mp (List.mem_of_mem_take he)).2
  rw [Int.toNat_natCast, ← hvictims, returns_bind]
  refine ((ht.reorder hall).returns_releaseAll victims fun e he => (hmem e he).1).mono ?_
  rintro - fm' ht'
  rw [returns_pure]
  refine ⟨victims, rest, hall, hmem, rfl, ?_, fun hless e he hev => ?_, ht'⟩
  · rw [hvictims]
    exact List.length_take_le ..
  · -- fewer victims than asked for: the list of evictable pages has been used up
    have hwhole : victims = fm.evictable evictAction order := by
      rw [hvictims, List.length_take] at hless
      rw [hvictims, List.take_of_length_le (by omega)]
    have hvictim : e ∈ victims := by
      rw [hwhole]
      exact (hevictable e).mpr ⟨hrest.mem_iff.mpr (List.mem_append_right _ he), hev⟩
    have hnodup := (hrest.nodup_iff.mp hc.keys_nodup.of_map)
    exact (List.nodup_append.mp hnodup).2.2 e hvictim e he rfl

/-- Where nothing can be evicted the table stays as it is, up to the order of the cache. -/
theorem EvictsFrames.returns_none {size : ℕ} {evictFrames : ℤ → (ℕ → RC) → FrameM ℤ}
    (hevict : EvictsFrames size evictFrames) {fm : FrameManager} {t : Held}
    (ht : Tracks size fm t) {evictAction : ℕ → RC}
    (hnone : ∀ e ∈ t.entries, ¬t.Evictable evictAction e) (count : ℕ) :
    Returns (evictFrames count evictAction) fm fun _ fm' => Tracks size fm' t := by
  refine (hevict count evictAction fm t ht).mono ?_
  rintro n fm' ⟨evicted, rest, hperm, hmem, -, -, -, ht'⟩
  have hnil : evicted = [] := by
    refine List.eq_nil_iff_forall_not_mem.mpr fun e he => ?_
    exact hnone e (hperm.mem_iff.mpr (List.mem_append_left _ he)) (hmem e he)
  rw [hnil] at hperm
  exact ht'.reorder hperm.symm

/-- One page is evicted when one can be. -/
theorem EvictsFrames.returns_one {size : ℕ} {evictFrames : ℤ → (ℕ → RC) → FrameM ℤ}
    (hevict : EvictsFrames size evictFrames) {fm : FrameManager} {t : Held}
    (ht : Tracks size fm t) {evictAction : ℕ → RC} {e : FrameId × ℕ} (he : e ∈ t.entries)
    (hev : t.Evictable evictAction e) :
    Returns (evictFrames 1 evictAction) fm fun _ fm' => ∃ victim rest,
      t.entries.Perm (victim :: rest) ∧ Tracks size fm' ⟨rest, t.pins⟩ := by
  refine (hevict 1 evictAction fm t ht).mono ?_
  rintro n fm' ⟨evicted, rest, hperm, -, -, hle, hless, ht'⟩
  obtain _ | ⟨victim, _ | ⟨second, others⟩⟩ := evicted
  · -- no page was evicted though one could be
    exact absurd hev (hless Nat.one_pos e (hperm.mem_iff.mp he))
  · exact ⟨victim, rest, hperm, ht'⟩
  · exact absurd hle (by simp)

/-! ## `allocate_frame` -/

/-- What `evict_action` meets at each frame while `evict_frames` runs: the mark, the file, and what
the flush by this pool and the one by the manager return. -/
structure FlushView where
  dirty : ℕ → Bool
  fileDesc : ℕ → ℤ
  flushPageInternal : ℕ → RC
  flushPage : ℕ → RC

def evictAction (fileDesc : ℤ) (view : FlushView) (f : ℕ) : RC :=
  if ¬view.dirty f then .success
  else if view.fileDesc f = fileDesc then view.flushPageInternal f
  else view.flushPage f

/-- `allocate_frame`, at most `fuel` times around its loop; `none` stands for a call that is still
in the loop.  The `BUFFERPOOL_NOBUF` behind the loop is never reached. -/
def allocateFrame (evictFrames : ℤ → (ℕ → RC) → FrameM ℤ) (fileDesc : ℤ) (pageNum : PageNum) :
    ℕ → (ℕ → FlushView) → FrameM (Option (RC × Option ℕ))
  | 0, _ => return none
  | fuel + 1, views => do
    match ← alloc ⟨fileDesc, pageNum⟩ with
    | some f => return some (.success, some f)
    | none =>
      -- how many frames were evicted is not looked at
      let _ ← evictFrames 1 (evictAction fileDesc (views 0))
      allocateFrame evictFrames fileDesc pageNum fuel fun k => views (k + 1)

def FrameHeld (size : ℕ) (id : FrameId) (f : ℕ) (fm : FrameManager) : Prop :=
  ∃ t, Tracks size fm t ∧ (id, f) ∈ t.entries ∧ 0 < t.pins f

/-- The call comes back: with a frame that the caller holds for the page, or with `BUFFERPOOL_NOBUF`
where no page can ever be evicted. -/
def Answers (size : ℕ) (evictFrames : ℤ → (ℕ → RC) → FrameM ℤ) (fileDesc : ℤ) (pageNum : PageNum)
    (views : ℕ → FlushView) (fm : FrameManager) (t : Held) : Prop :=
  ∃ fuel, Returns (allocateFrame evictFrames fileDesc pageNum fuel views) fm fun r fm' =>
    (∃ f, r = some (.success, some f) ∧ FrameHeld size ⟨fileDesc, pageNum⟩ f fm') ∨
    (r = some (.bufferpoolNobuf, none) ∧
      ∀ k, ∀ e ∈ t.entries, ¬t.Evictable (evictAction fileDesc (views k)) e)

/-- The page is in the table, or the table has room, or at some time around the loop a page can be
evicted. -/
def FrameToBeHad (size : ℕ) (fileDesc : ℤ) (pageNum : PageNum) (views : ℕ → FlushView)
    (t : Held) : Prop :=
  ⟨fileDesc, pageNum⟩ ∈ t.entries.map Prod.fst ∨ t.entries.length ≠ size ∨
    ∃ k, ∃ e ∈ t.entries, t.Evictable (evictAction fileDesc (views k)) e

section Loop

variable {size : ℕ} {evictFrames : ℤ → (ℕ → RC) → FrameM ℤ} {fileDesc : ℤ} {pageNum : PageNum}

theorem Tracks.returns_alloc {fm : FrameManager} {t : Held} (ht : Tracks size fm t) {id : FrameId}
    (hroom : id ∈ t.entries.map Prod.fst ∨ t.entries.length ≠ size) :
    Returns (alloc id) fm fun r fm' => ∃ f, r = some f ∧ FrameHeld size id f fm' := by
  by_cases hid : id ∈ t.entries.map Prod.fst
  · obtain ⟨⟨id, f⟩, hf, rfl⟩ := List.mem_map.mp hid
    unfold alloc
    rw [returns_bind]
    refine (ht.returns_getInternal hf).mono ?_
    rintro r fm' ⟨rfl, ht'⟩
    refine returns_pure.mpr ⟨f, rfl, _, ht', hf, ?_⟩
    dsimp only
    rw [List.count_singleton_self]
    exact Nat.succ_pos _
  · refine (ht.returns_alloc_absent hid).mono ?_
    rintro r fm' (⟨-, hfull, -⟩ | ⟨f, rfl, -, -, ht'⟩)
    · exact absurd hfull (hroom.resolve_left hid)
    · refine ⟨f, rfl, _, ht', List.mem_cons_self .., ?_⟩
      dsimp only
      rw [List.count_singleton_self]
      exact Nat.succ_pos _

/-- A full table without the page gives no frame and stays as it is. -/
theorem Tracks.alloc_eq_none {fm : FrameManager} {t : Held} (ht : Tracks size fm t) {id : FrameId}
    (hid : id ∉ t.entries.map Prod.fst) (hfull : t.entries.length = size) :
    Returns (alloc id) fm fun r fm' => r = none ∧ fm' = fm := by
  refine (ht.returns_alloc_absent hid).mono ?_
  rintro r fm' (⟨rfl, -, rfl⟩ | ⟨f, -, hroom, -⟩)
  · exact ⟨rfl, rfl⟩
  · exact absurd hfull hroom

/-- With no frame to be had the loop goes around for ever. -/
theorem returns_allocateFrame_none (hevict : EvictsFrames size evictFrames) : ∀ (fuel : ℕ)
    {views : ℕ → FlushView} {fm : FrameManager} {t : Held}, Tracks size fm t →
    ¬FrameToBeHad size fileDesc pageNum views t →
    Returns (allocateFrame evictFrames fileDesc pageNum fuel views) fm fun r _ => r = none
  | 0, _, _, _, _, _ => returns_pure.mpr rfl
  | fuel + 1, views, fm, t, ht, hnone => by
    obtain ⟨hid, hfull, hstuck⟩ := not_or.mp hnone |>.imp_right not_or.mp
    have hround : ∀ k, ∀ e ∈ t.entries, ¬t.Evictable (evictAction fileDesc (views k)) e :=
      fun k e he hev => hstuck ⟨k, e, he, hev⟩
    unfold allocateFrame
    rw [returns_bind]
    refine (ht.alloc_eq_none hid (not_not.mp hfull)).mono ?_
    rintro r fm₁ ⟨rfl, rfl⟩
    dsimp only
    rw [returns_bind]
    refine (hevict.returns_none ht (hround 0) 1).mono fun _ fm' ht' => ?_
    refine returns_allocateFrame_none hevict fuel ht' ?_
    rintro (h | h | ⟨k, e, he, hev⟩)
    · exact hid h
    · exact hfull h
    · exact hround (k + 1) e he hev

/-- A page that is in the table, or for which there is room, gets its frame at once. -/
theorem Tracks.returns_allocateFrame {fm : FrameManager} {t : Held} (ht : Tracks size fm t)
    (hroom : ⟨fileDesc, pageNum⟩ ∈ t.entries.map Prod.fst ∨ t.entries.length ≠ size) (fuel : ℕ)
    (views : ℕ → FlushView) :
    Returns (allocateFrame evictFrames fileDesc pageNum (fuel + 1) views) fm fun r fm' =>
      ∃ f, r = some (.success, some f) ∧ FrameHeld size ⟨fileDesc, pageNum⟩ f fm' := by
  unfold allocateFrame
  rw [returns_bind]
  refine (ht.returns_alloc hroom).mono ?_
  rintro r fm' ⟨f, rfl, hheld⟩
  exact returns_pure.mpr ⟨f, rfl, hheld⟩

/-- The page evicted in the first round makes room for the second. -/
theorem returns_allocateFrame_evict (hevict : EvictsFrames size evictFrames)
    {views : ℕ → FlushView} {fm : FrameManager} {t : Held} (ht : Tracks size fm t)
    (hroom : ¬(⟨fileDesc, pageNum⟩ ∈ t.entries.map Prod.fst ∨ t.entries.length ≠ size))
    (hev : ∃ e ∈ t.entries, t.Evictable (evictAction fileDesc (views 0)) e) (fuel : ℕ) :
    Returns (allocateFrame evictFrames fileDesc pageNum (fuel + 2) views) fm fun r fm' =>
      ∃ f, r = some (.success, some f) ∧ FrameHeld size ⟨fileDesc, pageNum⟩ f fm' := by
  obtain ⟨hid, hfull⟩ := not_or.mp hroom
  obtain ⟨e, he, hev⟩ := hev
  have hsize : t.entries.length = size := not_not.mp hfull
  unfold allocateFrame
  rw [returns_bind]
  refine (ht.alloc_eq_none hid hsize).mono ?_
  rintro r fm₁ ⟨rfl, rfl⟩
  dsimp only
  rw [returns_bind]
  refine (hevict.returns_one ht he hev).mono ?_
  rintro n fm' ⟨victim, rest, hperm, ht'⟩
  have hlen := hperm.length_eq
  rw [List.length_cons] at hlen
  exact ht'.returns_allocateFrame (.inr (show rest.length ≠ size by omega)) fuel _

/-- With a page to evict the loop ends; the induction is on the time around the loop at which it
can be evicted. -/
theorem returns_allocateFrame_some (hevict : EvictsFrames size evictFrames) : ∀ (k : ℕ)
    {views : ℕ → FlushView} {fm : FrameManager} {t : Held}, Tracks size fm t →
    (∃ e ∈ t.entries, t.Evictable (evictAction fileDesc (views k)) e) →
    Returns (allocateFrame evictFrames fileDesc pageNum (k + 2) views) fm fun r fm' =>
      ∃ f, r = some (.success, some f) ∧ FrameHeld size ⟨fileDesc, pageNum⟩ f fm' := by
  intro k
  induction k with
  | zero =>
    intro views fm t ht hev
    by_cases hroom : ⟨fileDesc, pageNum⟩ ∈ t.entries.map Prod.fst ∨ t.entries.length ≠ size
    · exact ht.returns_allocateFrame hroom 1 views
    · exact returns_allocateFrame_evict hevict ht hroom hev 0
  | succ k ih =>
    intro views fm t ht hev
    by_cases hroom : ⟨fileDesc, pageNum⟩ ∈ t.entries.map Prod.fst ∨ t.entries.length ≠ size
    · exact ht.returns_allocateFrame hroom (k + 2) views
    by_cases hfirst : ∃ e ∈ t.entries, t.Evictable (evictAction fileDesc (views 0)) e
    · exact returns_allocateFrame_evict hevict ht hroom hfirst (k + 1)
    have hround : ∀ e ∈ t.entries, ¬t.Evictable (evictAction fileDesc (views 0)) e :=
      fun e he hev => hfirst ⟨e, he, hev⟩
    unfold allocateFrame
    rw [returns_bind]
    obtain ⟨hid, hfull⟩ := not_or.mp hroom
    refine (ht.alloc_eq_none hid (not_not.mp hfull)).mono ?_
    rintro r fm₁ ⟨rfl, rfl⟩
    dsimp only
    rw [returns_bind]
    -- nothing goes in this round, and the table comes into the next one as it is
    exact (hevict.returns_none ht hround 1).mono fun _ _ ht' => ih ht' hev

theorem not_answers (hevict : EvictsFrames size evictFrames) {fm : FrameManager} {t : Held}
    (ht : Tracks size fm t) {views : ℕ → FlushView}
    (hnone : ¬FrameToBeHad size fileDesc pageNum views t) :
    ¬Answers size evictFrames fileDesc pageNum views fm t := by
  rintro ⟨fuel, r, fm', hrun, hans⟩
  have hr := (returns_of_eq hrun).mp (returns_allocateFrame_none hevict fuel ht hnone)
  rw [hr] at hans
  rcases hans with ⟨f, h, -⟩ | ⟨h, -⟩
  · cases h
  · cases h

/-- `allocate_frame` comes back with a frame, or with an error where no page can be evicted, exactly
when there is a frame to be had: else it never comes back. -/
theorem answers_iff (hevict : EvictsFrames size evictFrames) {fm : FrameManager} {t : Held}
    (ht : Tracks size fm t) (views : ℕ → FlushView) :
    Answers size evictFrames fileDesc pageNum views fm t ↔
      FrameToBeHad size fileDesc pageNum views t := by
  constructor
  · exact fun hans => by_contra fun hnone => not_answers hevict ht hnone hans
  · rintro (hid | hroom | ⟨k, hev⟩)
    · exact ⟨1, (ht.returns_allocateFrame (.inl hid) 0 views).mono fun _ _ h => .inl h⟩
    · exact ⟨1, (ht.returns_allocateFrame (.inr hroom) 0 views).mono fun _ _ h => .inl h⟩
    · exact ⟨k + 2, (returns_allocateFrame_some hevict k ht hev).mono fun _ _ h => .inl h⟩

end Loop

def FlushView.clean : FlushView :=
  ⟨fun _ => false, fun _ => 3, fun _ => .success, fun _ => .success⟩

theorem answers_iff_init : Returns (init (1 : ℕ)) new fun _ fm =>
    Answers 128 evictInOrder 3 0 (fun _ => .clean) fm Held.none :=
  (returns_init (Nat.le_refl 1)).mono fun _ _ h =>
    (answers_iff (evictsFrames_evictInOrder 128) h.2 _).mpr (.inr (.inl (by decide)))

/-- Allocates frames for the first `n` pages of file 3. -/
def allocFirst : ℕ → FrameM Unit
  | 0 => return
  | n + 1 => do
    allocFirst n
    let _ ← alloc ⟨3, n⟩

structure AllHeld (size n : ℕ) (fm : FrameManager) (t : Held) : Prop where
  tracks : Tracks size fm t
  length : t.entries.length = n
  pageNum : ∀ e ∈ t.entries, e.1.pageNum < n
  held : ∀ e ∈ t.entries, 0 < t.pins e.2

theorem returns_allocFirst {size : ℕ} {start : FrameManager}
    (hstart : Tracks size start Held.none) :
    ∀ n ≤ size, Returns (allocFirst n) start fun _ fm => ∃ t, AllHeld size n fm t
  | 0, _ => returns_pure.mpr ⟨Held.none, hstart, rfl, fun _ he => absurd he List.not_mem_nil,
      fun _ he => absurd he List.not_mem_nil⟩
  | n + 1, hn => by
    unfold allocFirst
    rw [returns_bind]
    refine (returns_allocFirst hstart n (Nat.le_of_succ_le hn)).mono ?_
    rintro - fm ⟨t, ht⟩
    have hid : ⟨3, n⟩ ∉ t.entries.map Prod.fst := by
      intro h
      obtain ⟨e, he, hid⟩ := List.mem_map.mp h
      have hlt := ht.pageNum e he
      rw [hid] at hlt
      exact absurd hlt (lt_irrefl _)
    rw [returns_bind]
    refine (ht.tracks.returns_alloc_absent hid).mono ?_
    rintro r fm' (⟨-, hfull, -⟩ | ⟨f, rfl, -, -, ht'⟩)
    · have hlen := ht.length
      omega
    · refine returns_pure.mpr ⟨_, ht', congrArg (· + 1) ht.length, ?_, ?_⟩
      · intro e he
        rcases List.mem_cons.mp he with rfl | he
        · exact Int.ofNat_lt.mpr (Nat.lt_succ_self n)
        · exact (ht.pageNum e he).trans (Int.ofNat_lt.mpr (Nat.lt_succ_self n))
      · intro e he
        dsimp only
        rcases List.mem_cons.mp he with rfl | he
        · rw [List.count_singleton_self]
          exact Nat.succ_pos _
        · exact Nat.add_pos_left (ht.held e he) _

/-- With all 128 frames held, a call for one more page never comes back. -/
theorem not_answers_allHeld : EvictsFrames 128 evictInOrder ∧
    Returns (do let _ ← init (1 : ℕ); allocFirst 128) new fun _ fm => ∃ t, AllHeld 128 128 fm t ∧
      ¬Answers 128 evictInOrder 3 128 (fun _ => .clean) fm t := by
  refine ⟨evictsFrames_evictInOrder 128, ?_⟩
  rw [returns_bind]
  refine (returns_init (Nat.le_refl 1)).mono fun _ start hstart => ?_
  refine (returns_allocFirst hstart.2 128 (Nat.le_refl _)).mono ?_
  rintro - fm ⟨t, ht⟩
  have hnone : ¬FrameToBeHad 128 3 128 (fun _ => FlushView.clean) t := by
    rintro (hid | hroom | ⟨-, e, he, hzero, -⟩)
    · obtain ⟨e, he, hid⟩ := List.mem_map.mp hid
      have hlt := ht.pageNum e he
      rw [hid] at hlt
      exact absurd hlt (lt_irrefl _)
    · exact hroom ht.length
    · exact absurd hzero (Nat.ne_of_gt (ht.held e he))
  exact ⟨t, ht, not_answers (evictsFrames_evictInOrder 128) ht.tracks hnone⟩

end FrameManager

end TDB
