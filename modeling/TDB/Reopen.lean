import TDB.DirtyMarks
import TDB.PageCapacity

namespace TDB

open BplusTreeHandler Exec Relation

variable {A : Type}

/-! ## The tree in the closed file -/

namespace BplusTreeHandler

variable {s s' : BplusTreeHandler A} {root p : PageNum}

/-- What a walk that reads the entries under a child as `walk` finds on a page. -/
def entriesOn (walk : PageNum → List (Key A × RID)) : Page A → List (Key A × RID)
  | .leaf _ _ items => items
  | .internal _ items => items.flatMap fun item => walk item.2
  | _ => []

theorem entriesUnder_succ (s : BplusTreeHandler A) (fuel : ℕ) (p : PageNum) :
    entriesUnder s (fuel + 1) p = entriesOn (entriesUnder s fuel) (kept (s.page p)) := by
  rw [entriesUnder]
  cases s.page p with
  | none => rfl
  | some page => cases page <;> rfl

theorem entriesUnder_congr (hkept : ∀ p, kept (s'.page p) = kept (s.page p)) :
    ∀ (fuel : ℕ), entriesUnder s' fuel = entriesUnder s fuel
  | 0 => rfl
  | fuel + 1 => by
    funext p
    rw [entriesUnder_succ, entriesUnder_succ, hkept, entriesUnder_congr hkept fuel]

theorem eq_header_of_kept {page : Option (Page A)} (hkept : kept page = .header root) :
    page = some (.header root) := by
  unfold kept at hkept
  cases page with
  | none => cases hkept
  | some page =>
    cases page with
    | header => exact congrArg some hkept
    | leaf | internal | unread => cases hkept

/-- Closing and opening brings back the root of the header page, and every page up to its parent. -/
theorem Keeps.openFile_close (hk : Keeps root [] [] [] s) : ∃ s',
    openFile (close s) = .ok (.success, s') ∧ s'.rootPage = root ∧
      s'.fileBufferPool.fileHeader = s.fileBufferPool.fileHeader ∧
      ∀ p, kept (s'.page p) = kept (s.page p) := by
  have hfile : (close s).file 1 = some (.header root) := by
    refine eq_header_of_kept (hk.header_saved.trans ?_)
    rw [hk.header]
    rfl
  have hframe : (close s).frame 1 = some ⟨.header root, false, 0⟩ := by
    unfold FileBufferPool.frame
    rw [hfile]
    rfl
  have hpage : ∀ p, (⟨close s, root, false⟩ : BplusTreeHandler A).page p = (close s).file p :=
    fun p => page_of_frames_none rfl
  refine ⟨((⟨close s, root, false⟩ : BplusTreeHandler A).update 1 Frame.pin).update 1 Frame.unpin,
    ?_, rfl, ?_, fun p => ?_⟩
  · unfold openFile FileBufferPool.getThisPage
    rw [hframe]
    simp only [fail_success, Bool.false_eq_true, ↓reduceIte]
    rw [FileBufferPool.frame_modify, if_pos rfl, hframe]
    rfl
  · rw [fileHeader_update, fileHeader_update]
    rfl
  · rw [page_unpin, page_pin, hpage]
    exact hk.saved p (List.not_mem_nil)

end BplusTreeHandler

/-- Closing the handler and opening the file again brings back the root page and the entries. -/
def Reopens (s : BplusTreeHandler A) : Prop :=
  ∃ s', openFile (close s) = .ok (.success, s') ∧ s'.rootPage = s.rootPage ∧
    entrySet s' = entrySet s

/-- The handler as `create` and `open` leave it: the root page number stands on the header page,
and closing the file would write every page back that is not in it as it is. -/
def Saved (s : BplusTreeHandler A) : Prop := Keeps s.rootPage [] [] [] s

theorem BplusTreeHandler.Keeps.reopens_iff {s : BplusTreeHandler A} {root : PageNum}
    (hk : Keeps root [] [] [] s) : Reopens s ↔ s.rootPage = root := by
  obtain ⟨s', hopen, hroot, hheader, hkept⟩ := hk.openFile_close
  constructor
  · rintro ⟨s'', hopen', hroot', -⟩
    rw [hopen] at hopen'
    cases hopen'
    exact hroot'.symm.trans hroot
  · intro hsame
    refine ⟨s', hopen, hroot.trans hsame.symm, ?_⟩
    have hentries : entries s' = entries s := by
      unfold entries isEmpty
      rw [hroot, hsame, hheader, entriesUnder_congr hkept]
    unfold entrySet
    rw [hentries]

/-! ## Every run of calls -/

variable [LinearOrder (Key A)] {h : IndexFileHeader A} {s s' : BplusTreeHandler A}
  {es : List (Key A × RID)} {positive : Bool} {root : PageNum}

/-- A spared call marks every page that it changes, and leaves the header page alone. -/
theorem Index.keeps_of_spared (hh : h.Orders) (hc : h.Computed) (hlen : h.attrsLength ≤ 4068)
    (hi : Index h (sparedKeys h positive) (h.internalMaxSize / 2) (h.leafMaxSize / 2) s es)
    (hk : Keeps root [] [] [] s) {u : Update A} {rc : RC} (hu : u.Spared h positive s)
    (hcall : u.run h s = .ok (rc, s')) : Keeps root [] [] [] s' := by
  cases u with
  | insertEntry attr rid => exact ensures_insertEntry hk attr rid rc s' hcall
  | deleteEntry attr rid =>
    have hs := (hi.returns_spared hh hc hlen hu).ensures rc s' hcall
    refine (ensures_deleteEntry hk attr rid rc s' hcall).resolve_left ?_
    have hserved : s'.fileBufferPool.allocFailures = s.fileBufferPool.allocFailures := by
      by_contra hne
      obtain ⟨-, _, _, heq, -⟩ := hs.unserved hne
      cases heq
    obtain ⟨es', -, happ⟩ := hs.served hserved
    cases happ <;> rintro ⟨⟩

/-- After every run of spared calls, closing and opening brings the index back exactly when the root
page is the one that the handler was opened with: its number never reaches the header page. -/
theorem reopens_iff_of_spared (hh : h.Orders) (hc : h.Computed) (hlen : h.attrsLength ≤ 4068)
    (positive : Bool) {s₀ : BplusTreeHandler A} {es₀ : List (Key A × RID)}
    (hi : Index h (sparedKeys h positive) (h.internalMaxSize / 2) (h.leafMaxSize / 2) s₀ es₀)
    (hsaved : Saved s₀) (hrun : ReflTransGen (Allowed h (Update.Spared h positive)) s₀ s) :
    Reopens s ↔ s.rootPage = s₀.rootPage := by
  have hkeeps : Keeps s₀.rootPage [] [] [] s ∧ ∃ es, Index h (sparedKeys h positive)
      (h.internalMaxSize / 2) (h.leafMaxSize / 2) s es := by
    induction hrun with
    | refl => exact ⟨hsaved, es₀, hi⟩
    | tail _ hstep ih =>
      obtain ⟨hk, es, hi⟩ := ih
      obtain ⟨u, rc, hu, hcall⟩ := hstep
      exact ⟨hi.keeps_of_spared hh hc hlen hk hu hcall,
        ((hi.returns_spared hh hc hlen hu).ensures rc _ hcall).stands⟩
  exact hkeeps.1.reopens_iff

omit [LinearOrder (Key A)] in
theorem created_saved : Saved (created : BplusTreeHandler A) := by
  have hdirty : (created : BplusTreeHandler A).dirtyAt 1 := ⟨⟨.header (-1), true, 0⟩, rfl, rfl⟩
  have hcount : (1 : ℤ) < (2 : ℕ) := by decide
  refine ⟨rfl, hdirty.savedAt, ⟨by decide, hcount, rfl⟩, by simp, by simp, fun p _ => ?_⟩
  by_cases hp : p = 1
  · exact hp ▸ hdirty.savedAt
  · exact savedAt_of_frames_none (frames_created_of_ne hp)

theorem reopens_iff_insert : ∃ rc s,
    Update.run (computedIndex 4) (.insertEntry 7 recordOne) created = .ok (rc, s) ∧
    (Reopens s ↔ s.rootPage = (created : BplusTreeHandler ℤ).rootPage) := by
  have hok : (Update.run (computedIndex 4) (.insertEntry 7 recordOne) created).isOk = true := by
    decide +kernel
  cases hcall : Update.run (computedIndex 4) (.insertEntry 7 recordOne) created with
  | error fault =>
    rw [hcall] at hok
    cases hok
  | ok result =>
    have hspared : Update.Spared (computedIndex 4) false created (.insertEntry 7 recordOne) :=
      fun hfalse => absurd hfalse (by decide)
    exact ⟨result.1, result.2, rfl, reopens_iff_of_spared (columnIndex_orders _ _ _)
      (computedIndex_computed 4) (by decide) false (.inl ⟨rfl, rfl⟩) created_saved
      (.single ⟨_, result.1, hspared, hcall⟩)⟩

/-- One insertion into a new index is lost: `close` does not call `sync`. -/
theorem not_reopens_insert : ∃ s,
    runServed (computedIndex 4) [.insertEntry 7 recordOne] created = some s ∧ ¬Reopens s := by
  have hrun : (runServed (computedIndex 4) [.insertEntry 7 recordOne] created).any (fun s =>
      decide (s.rootPage = 2 ∧
        (openFile (close s)).toOption.map (fun r => r.2.rootPage) = some (-1))) = true := by
    decide +kernel
  obtain ⟨s, hs, hcond⟩ := (Option.any_eq_true _ _).mp hrun
  obtain ⟨hroot, hopened⟩ := of_decide_eq_true hcond
  refine ⟨s, hs, ?_⟩
  rintro ⟨s', hopen, hsame, -⟩
  rw [hopen] at hopened
  rw [hroot] at hsame
  have hlost : s'.rootPage = -1 := Option.some.inj hopened
  rw [hsame] at hlost
  exact absurd hlost (by decide)

end TDB
