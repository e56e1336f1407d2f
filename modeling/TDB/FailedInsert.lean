import TDB.EntryLookup

namespace TDB

open BplusTreeHandler BplusTreeScanner Exec Relation

variable {A : Type}

/-! ## Insertions that fail -/

def Found (h : IndexFileHeader A) (s : BplusTreeHandler A) (e : A × RID) : Prop :=
  Returns (getEntry h e.1) s fun res _ => res.1 = .success ∧ e.2 ∈ res.2

/-- A call from `s` that returns an error has left the set of entries as it was, and every entry is
still found. -/
def KeepsEntries (h : IndexFileHeader A) (s : BplusTreeHandler A) (rc : RC)
    (s' : BplusTreeHandler A) : Prop :=
  rc.fail = true → entrySet s' = entrySet s ∧ ∀ e ∈ entrySet s, Found h s' e

/-- The first page that the insertion asks for is given out, and a later one is not. -/
def breaksOff (h : IndexFileHeader A) (s : BplusTreeHandler A) (key : Key A) : Bool :=
  s.fileBufferPool.canAllocate 1 && !s.fileBufferPool.canAllocate (insertPagesNeeded h s key)

variable [LinearOrder (Key A)] {h : IndexFileHeader A} {r : Regime A} {s s' : BplusTreeHandler A}
  {lo leafLo : ℕ} {es es' : List (Key A × RID)}

theorem Index.found (hh : h.Orders) (hc : r.chained) (hpos : 1 ≤ leafLo)
    (hi : Index h r lo leafLo s es) {e : A × RID} (he : e ∈ entrySet s) : Found h s e := by
  rw [hi.entrySet_eq] at he
  refine (hi.returns_getEntry hh hc hpos e.1).mono ?_
  rintro res s' ⟨rfl, -⟩
  exact ⟨rfl, List.mem_map.mpr ⟨_, List.mem_filter.mpr
    ⟨he, (betweenKeys_attr hh _ _).mpr rfl⟩, rfl⟩⟩

theorem Index.keepsEntries (hh : h.Orders) (hc : r.chained) (hpos : 1 ≤ leafLo)
    (hi : Index h r lo leafLo s es) (hi' : Index h r lo leafLo s' es) (rc : RC) :
    KeepsEntries h s rc s' := by
  have hsame : entrySet s' = entrySet s := by
    rw [hi'.entrySet_eq, hi.entrySet_eq]
  exact fun _ => ⟨hsame, fun e he => hi'.found hh hc hpos (hsame ▸ he)⟩

/-- An entry that got lost is missing in the set. -/
theorem Index.not_keepsEntries (hi : Index h r lo leafLo s es) {r' : Regime A}
    (hi' : Index h r' lo leafLo s' es') {x : Key A × RID} (hx : x ∈ es) (hx' : x ∉ es') {rc : RC}
    (hrc : rc.fail = true) : ¬ KeepsEntries h s rc s' := by
  intro hkeeps
  have hrid := hi.value x hx
  have hmem : (x.1.attr, x.1.rid) ∈ entrySet s := by
    rw [hi.entrySet_eq]
    change (x.1, x.1.rid) ∈ es
    rwa [← hrid]
  rw [← (hkeeps hrc).1, hi'.entrySet_eq] at hmem
  change (x.1, x.1.rid) ∈ es' at hmem
  rw [← hrid] at hmem
  exact hx' hmem

def nearlyFull (n : ℕ) (s : BplusTreeHandler A) : BplusTreeHandler A :=
  s.onPool fun bp => { bp with fileHeader := ⟨maxPageNum - n, maxPageNum - n, fun _ => true⟩ }

theorem Index.nearlyFull {n : ℕ} (hn : s.fileBufferPool.fileHeader.pageCount ≤ maxPageNum - n)
    (hi : Index h r lo leafLo s es) : Index h r lo leafLo (nearlyFull n s) es := by
  refine hi.congr rfl (fun _ _ => rfl) ?_
  rintro p ⟨hpos, hlt, -⟩
  have hle : (s.fileBufferPool.fileHeader.pageCount : ℤ) ≤ (maxPageNum - n : ℕ) :=
    Int.ofNat_le.mpr hn
  exact ⟨hpos, hlt.trans_le hle, rfl⟩

/-- An insertion that fails keeps every entry, and `get_entry` still finds it, exactly when it is
not broken off between two allocations. -/
theorem insertEntry_keepsEntries_iff (hh : h.Orders) (hz : Sizes h lo leafLo)
    (hi : Index h anyKeys lo leafLo s es) (attr : A) (rid : RID) :
    Returns (insertEntry h attr rid) s (KeepsEntries h s) ↔ breaksOff h s ⟨attr, rid⟩ = false := by
  have hc : (anyKeys : Regime A).chained := trivial
  by_cases hmem : (⟨attr, rid⟩, rid) ∈ es
  · obtain ⟨rc, s', hrun, -, p, hr⟩ := hi.returns_insertEntry_present hh hmem
    rw [returns_of_eq hrun]
    refine iff_of_true (hi.keepsEntries hh hc hz.pos (hi.reaches hr) rc) ?_
    unfold breaksOff
    rw [hi.insertPagesNeeded_present hh hmem]
    exact Bool.and_false _
  · have habs : ∀ x ∈ es, x.1 ≠ ⟨attr, rid⟩ := fun x hx he =>
      hmem ((hi.mem_iff attr rid).mpr ⟨x, hx, he⟩)
    obtain ⟨rc, s', hrun, -, hserved, hdone, hfailed⟩ :=
      hi.returns_insertEntry_absent hh habs trivial hz.two_le hz.lo_le hz.pos hz.leafLo_le
    rw [returns_of_eq hrun]
    by_cases he : s'.fileBufferPool.allocFailures = s.fileBufferPool.allocFailures
    · obtain ⟨rfl, -⟩ := hdone he
      refine iff_of_true (fun hfail => absurd hfail (by decide)) ?_
      unfold breaksOff
      rw [hserved.mp he]
      exact Bool.and_false _
    · have hneed : s.fileBufferPool.canAllocate (insertPagesNeeded h s ⟨attr, rid⟩) = false :=
        Bool.eq_false_iff.mpr fun hcan => he (hserved.mpr hcan)
      unfold breaksOff
      rw [hneed]
      obtain ⟨hrc, ⟨hcan, hi'⟩ | ⟨hcan, es', hi', x, hx, hx'⟩⟩ := hfailed he
      · rw [hcan]
        exact iff_of_true (hi.keepsEntries hh hc hz.pos hi' rc) rfl
      · rw [hcan]
        exact iff_of_false (hi.not_keepsEntries hi' hx hx' hrc) (by decide)

/-- No page is left for the second half of the full root: the insertion fails and keeps all. -/
theorem insertEntry_keepsEntries_full : ∃ s,
    runServed (columnIndex 4 6 4) (insertNegatives 4) created = some s ∧
      (Returns (insertEntry (columnIndex 4 6 4) (-5) recordOne) (nearlyFull 0 s)
        (KeepsEntries (columnIndex 4 6 4) (nearlyFull 0 s)) ↔
          breaksOff (columnIndex 4 6 4) (nearlyFull 0 s) ⟨-5, recordOne⟩ = false) := by
  have hrun : (runServed (columnIndex 4 6 4) (insertNegatives 4) created).any (fun s =>
      decide (s.fileBufferPool.fileHeader.pageCount ≤ maxPageNum - 0)) = true := by
    decide +kernel
  obtain ⟨s, hs, hcond⟩ := (Option.any_eq_true _ _).mp hrun
  have hh := columnIndex_orders 4 6 4
  have hf : Fanout (columnIndex 4 6 4) anyKeys 3 2 := fanout_of_sizes (by decide) (by decide)
  obtain ⟨es, hi⟩ := index_of_served hh hf rfl (reflTransGen_runServed hs)
  exact ⟨s, hs, insertEntry_keepsEntries_iff hh hf.sizes
    (hi.nearlyFull (of_decide_eq_true hcond)) _ _⟩

/-- One page is left, and the second half of the root gets it; the new root gets none, and half of
the entries is lost. -/
theorem not_insertEntry_keepsEntries : ¬ ∀ (s : BplusTreeHandler ℤ) (es : List (Key ℤ × RID)),
    Index (columnIndex 4 6 4) anyKeys 3 2 s es → ∀ attr rid,
      Returns (insertEntry (columnIndex 4 6 4) attr rid) s
        (KeepsEntries (columnIndex 4 6 4) s) := by
  intro hall
  have hrun : (runServed (columnIndex 4 6 4) (insertNegatives 4) created).any (fun s =>
      decide (s.fileBufferPool.fileHeader.pageCount ≤ maxPageNum - 1 ∧
        (⟨-1, recordOne⟩, recordOne) ∈ entries s ∧
        Returns (insertEntry (columnIndex 4 6 4) (-5) recordOne) (nearlyFull 1 s)
          fun rc s' => rc = .bufferpoolNobuf ∧ (⟨-1, recordOne⟩, recordOne) ∉ entries s')) =
      true := by
    decide +kernel
  obtain ⟨s, hs, hcond⟩ := (Option.any_eq_true _ _).mp hrun
  obtain ⟨hcount, hmem, rc, s', hcall, rfl, hlost⟩ := of_decide_eq_true hcond
  have hf : Fanout (columnIndex 4 6 4) anyKeys 3 2 := fanout_of_sizes (by decide) (by decide)
  obtain ⟨es, hi⟩ := index_of_served (columnIndex_orders 4 6 4) hf rfl (reflTransGen_runServed hs)
  have hi₁ := hi.nearlyFull hcount
  have hkeeps := hall _ es hi₁ (-5) recordOne
  rw [returns_of_eq hcall] at hkeeps
  have hsame := (hkeeps rfl).1
  rw [hi₁.entrySet_eq, ← hi.entries_eq] at hsame
  have hin : ((-1 : ℤ), recordOne) ∈ entrySet s' := by
    rw [hsame]
    exact hmem
  exact hlost hin

end TDB
