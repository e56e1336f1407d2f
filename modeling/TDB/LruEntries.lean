import Mathlib.Data.List.Induction
import Mathlib.Data.List.Perm.Basic
import TDB.LruCache

namespace TDB

open Exec LinkedNodes

variable {K V S : Type}

namespace LruCache

/-! ## The list and the set hold the same nodes -/

/-- The nodes of the cache, the most recently used one first. -/
structure Represents (c : LruCache K V) (nodes : List (ℕ × K × V)) : Prop where
  linked : Linked c.heap none none nodes
  front : c.lruFront = firstOf none nodes
  tail : c.lruTail = lastOf none nodes
  keys : (nodes.map fun n => n.2.1).Nodup
  addresses : (nodes.map Prod.fst).Nodup
  fresh : ∀ n ∈ nodes, n.1 < c.fresh
  searcher : c.searcher.Perm (nodes.map Prod.fst)

theorem represents_new : Represents (new : LruCache K V) [] :=
  ⟨trivial, rfl, rfl, List.nodup_nil, List.nodup_nil, by simp, List.Perm.refl _⟩

/-- Only the links of the nodes at these addresses have changed. -/
def Relinked (c c' : LruCache K V) (ps : List ℕ) : Prop :=
  c' = { c with heap := c'.heap } ∧ ∀ p, p ∉ ps → c'.heap p = c.heap p

theorem node_eq {c : LruCache K V} {p : ℕ} {n : ListNode K V} (h : c.heap p = some n) :
    node p c = .ok (n, c) := by
  unfold node
  rw [h]

theorem setNode_eq {c : LruCache K V} {p : ℕ} {n : ListNode K V} (h : c.heap p = some n)
    (f : ListNode K V → ListNode K V) : setNode p f c =
      .ok ((), { c with heap := Function.update c.heap p (some (f n)) }) := by
  change (node p c >>= fun r => _) = _
  rw [node_eq h]
  rfl

/-- Joins the last node of a list with another node behind it. -/
theorem returns_linkNext {c : LruCache K V} {next next' : Option ℕ} {l : List (ℕ × K × V)}
    (hl : Linked c.heap next none l) (hnodup : (l.map Prod.fst).Nodup) :
    Returns (linkNext (lastOf none l) next') c fun _ c' =>
      Linked c'.heap next' none l ∧ Relinked c c' (l.map Prod.fst) := by
  by_cases hnil : l = []
  · subst hnil
    unfold linkNext
    exact returns_pure.mpr ⟨trivial, rfl, fun _ _ => rfl⟩
  · obtain ⟨front, ⟨p, a⟩, rfl⟩ := (List.eq_nil_or_concat' _).resolve_left hnil
    rw [List.map_append, List.nodup_append] at hnodup
    have hp : p ∉ front.map Prod.fst := fun hmem =>
      hnodup.2.2 p hmem p (List.mem_singleton_self p) rfl
    obtain ⟨hheap, hlinked⟩ := hl.setNext hp
    rw [lastOf_append]
    unfold lastOf lastOf linkNext setNext
    rw [returns_of_eq (setNode_eq hheap _)]
    refine ⟨hlinked, rfl, fun q hq => Function.update_of_ne ?_ ..⟩
    rintro rfl
    exact hq (List.mem_map_of_mem (List.mem_append_right _ (List.mem_singleton_self _)))

/-- Joins the first node of a list with another node in front of it. -/
theorem returns_linkPrev {c : LruCache K V} {prev prev' : Option ℕ} {l : List (ℕ × K × V)}
    (hl : Linked c.heap none prev l) (hnodup : (l.map Prod.fst).Nodup) :
    Returns (linkPrev (firstOf none l) prev') c fun _ c' =>
      Linked c'.heap none prev' l ∧ Relinked c c' (l.map Prod.fst) := by
  cases l with
  | nil =>
    unfold firstOf linkPrev
    exact returns_pure.mpr ⟨trivial, rfl, fun _ _ => rfl⟩
  | cons n rest =>
    obtain ⟨p, a⟩ := n
    rw [List.map_cons, List.nodup_cons] at hnodup
    obtain ⟨hheap, hlinked⟩ := hl.setPrev hnodup.1
    unfold firstOf linkPrev setPrev
    rw [returns_of_eq (setNode_eq hheap _)]
    refine ⟨hlinked, rfl, fun q hq => Function.update_of_ne ?_ ..⟩
    rintro rfl
    exact hq (List.mem_cons_self ..)

theorem lastOf_of_ne_nil {α : Type} {l : List (ℕ × α)} (h : l ≠ []) (prev prev' : Option ℕ) :
    lastOf prev l = lastOf prev' l := by
  cases l with
  | nil => exact absurd rfl h
  | cons n rest => rfl

theorem returns_linkFront {c : LruCache K V} {nodes : List (ℕ × K × V)} {p : ℕ} {n : ListNode K V}
    (hl : Linked c.heap none none nodes) (hfront : c.lruFront = firstOf none nodes)
    (hnodup : (nodes.map Prod.fst).Nodup) (hp : p ∉ nodes.map Prod.fst) (hn : c.heap p = some n) :
    Returns (linkFront p) c fun _ c' => Linked c'.heap none none ((p, n.item) :: nodes) ∧
      c' = { c with heap := c'.heap, lruFront := some p } := by
  have hout : ∀ m ∈ nodes, m.1 ≠ p := by
    rintro m hm rfl
    exact hp (List.mem_map_of_mem hm)
  unfold linkFront setPrev setNext
  rw [returns_bind, returns_get, returns_bind, returns_of_eq (setNode_eq hn _), returns_bind,
    returns_of_eq (setNode_eq (Function.update_self ..) _), hfront, returns_bind]
  refine (@returns_linkPrev _ _ _ _ (some p) _ (hl.congr fun m hm => ?_) hnodup).mono ?_
  · dsimp only
    rw [Function.update_of_ne (hout m hm), Function.update_of_ne (hout m hm)]
  · rintro - c' ⟨hlinked, hsame, hheap⟩
    rw [returns_modify]
    refine ⟨⟨?_, hlinked⟩, ?_⟩
    · dsimp only
      rw [hheap p hp]
      exact Function.update_self ..
    · rw [hsame]

theorem returns_unlink {c : LruCache K V} {l₁ l₂ : List (ℕ × K × V)} {p : ℕ} {a : K × V}
    (hl : Linked c.heap none none (l₁ ++ (p, a) :: l₂))
    (hnodup : ((l₁ ++ (p, a) :: l₂).map Prod.fst).Nodup) :
    Returns (unlink ⟨a, lastOf none l₁, firstOf none l₂⟩) c fun _ c' =>
      Linked c'.heap none none (l₁ ++ l₂) ∧ Relinked c c' ((l₁ ++ l₂).map Prod.fst) := by
  obtain ⟨hfront, -, hbehind⟩ := linked_append.mp hl
  rw [List.map_append, List.map_cons, List.nodup_append, List.nodup_cons] at hnodup
  obtain ⟨hnodup₁, ⟨-, hnodup₂⟩, hdisjoint⟩ := hnodup
  have hout : ∀ q ∈ l₁.map Prod.fst, q ∉ l₂.map Prod.fst := fun q hq hq' =>
    hdisjoint q hq q (List.mem_cons_of_mem _ hq') rfl
  unfold unlink
  rw [returns_bind]
  refine (returns_linkNext hfront hnodup₁).mono ?_
  rintro - c₁ ⟨hfront₁, hsame₁, hheap₁⟩
  have hbehind₁ : Linked c₁.heap none (some p) l₂ := hbehind.congr fun n hn =>
    hheap₁ n.1 fun hmem => hout n.1 hmem (List.mem_map_of_mem hn)
  refine (returns_linkPrev hbehind₁ hnodup₂).mono ?_
  rintro - c₂ ⟨hbehind₂, hsame₂, hheap₂⟩
  refine ⟨linked_append.mpr ⟨hfront₁.congr fun n hn => ?_, hbehind₂⟩, ?_, fun q hq => ?_⟩
  · exact hheap₂ n.1 (hout n.1 (List.mem_map_of_mem hn))
  · rw [hsame₂, hsame₁]
  · rw [List.map_append, List.mem_append, not_or] at hq
    rw [hheap₂ q hq.2, hheap₁ q hq.1]

theorem Represents.heap_eq {c : LruCache K V} {l₁ l₂ : List (ℕ × K × V)} {p : ℕ} {a : K × V}
    (hr : Represents c (l₁ ++ (p, a) :: l₂)) :
    c.heap p = some ⟨a, lastOf none l₁, firstOf none l₂⟩ :=
  (linked_append.mp hr.linked).2.1

theorem Represents.length_searcher {c : LruCache K V} {nodes : List (ℕ × K × V)}
    (hr : Represents c nodes) : c.searcher.length = nodes.length := by
  rw [hr.searcher.length_eq, List.length_map]

def Stand (c : LruCache K V) (nodes : List (ℕ × K × V)) : Prop :=
  ∀ n ∈ nodes, ∃ before behind, c.heap n.1 = some ⟨n.2, before, behind⟩

theorem Represents.stand {c : LruCache K V} {nodes : List (ℕ × K × V)} (hr : Represents c nodes) :
    Stand c nodes :=
  fun _ hn => hr.linked.exists_node hn

/-- The other nodes of the list have other addresses. -/
theorem Represents.notMem {c : LruCache K V} {l₁ l₂ : List (ℕ × K × V)} {p : ℕ} {a : K × V}
    (hr : Represents c (l₁ ++ (p, a) :: l₂)) : p ∉ (l₁ ++ l₂).map Prod.fst := by
  have hnodup := hr.addresses
  rw [List.map_append, List.map_cons, List.nodup_middle, List.nodup_cons] at hnodup
  rw [List.map_append]
  exact hnodup.1

theorem lastOf_eq_none {α : Type} {l : List (ℕ × α)} (h : lastOf none l = none) : l = [] := by
  by_contra hne
  obtain ⟨front, last, rfl⟩ := (List.eq_nil_or_concat' _).resolve_left hne
  rw [lastOf_append] at h
  cases h

theorem Represents.reorder {c c' : LruCache K V} {nodes nodes' : List (ℕ × K × V)}
    (hr : Represents c nodes) (hperm : nodes.Perm nodes')
    (hlinked : Linked c'.heap none none nodes') (hfront : c'.lruFront = firstOf none nodes')
    (htail : c'.lruTail = lastOf none nodes') (hfresh : c'.fresh = c.fresh)
    (hsearcher : c'.searcher = c.searcher) : Represents c' nodes' where
  linked := hlinked
  front := hfront
  tail := htail
  keys := (hperm.map _).nodup_iff.mp hr.keys
  addresses := (hperm.map _).nodup_iff.mp hr.addresses
  fresh n hn := by
    rw [hfresh]
    exact hr.fresh n (hperm.mem_iff.mpr hn)
  searcher := by
    rw [hsearcher]
    exact hr.searcher.trans (hperm.map _)

theorem Represents.setValue {c : LruCache K V} {l₁ l₂ : List (ℕ × K × V)} {p : ℕ} {key : K}
    {old : V} (hr : Represents c (l₁ ++ (p, key, old) :: l₂)) (value : V) :
    Represents { c with
      heap := Function.update c.heap p (some ⟨(key, value), lastOf none l₁, firstOf none l₂⟩) }
      (l₁ ++ (p, key, value) :: l₂) := by
  have haddresses : (l₁ ++ (p, key, value) :: l₂).map Prod.fst =
      (l₁ ++ (p, key, old) :: l₂).map Prod.fst := by
    rw [List.map_append, List.map_append]
    rfl
  have hkeys : (l₁ ++ (p, key, value) :: l₂).map (fun n => n.2.1) =
      (l₁ ++ (p, key, old) :: l₂).map fun n => n.2.1 := by
    rw [List.map_append, List.map_append]
    rfl
  refine ⟨hr.linked.setItem hr.notMem, ?_, ?_, ?_, ?_, fun n hn => ?_, ?_⟩
  · exact hr.front.trans (by rw [firstOf_append, firstOf_append]; rfl)
  · exact hr.tail.trans (by rw [lastOf_append, lastOf_append]; rfl)
  · rw [hkeys]
    exact hr.keys
  · rw [haddresses]
    exact hr.addresses
  · have hmem : n.1 ∈ (l₁ ++ (p, key, value) :: l₂).map Prod.fst := List.mem_map_of_mem hn
    rw [haddresses] at hmem
    obtain ⟨m, hm, heq⟩ := List.mem_map.mp hmem
    rw [← heq]
    exact hr.fresh m hm
  · rw [haddresses]
    exact hr.searcher

theorem Represents.returns_lruTouch {c : LruCache K V} {l₁ l₂ : List (ℕ × K × V)} {p : ℕ}
    {a : K × V} (hr : Represents c (l₁ ++ (p, a) :: l₂)) :
    Returns (lruTouch p) c fun _ c' => Represents c' ((p, a) :: (l₁ ++ l₂)) := by
  unfold lruTouch
  rw [returns_bind, returns_of_eq (node_eq hr.heap_eq)]
  dsimp only
  -- a node without a predecessor is the front already
  split
  · next hnone =>
    obtain rfl := lastOf_eq_none hnone
    exact returns_pure.mpr hr
  · next hsome =>
    have hne : l₁ ≠ [] := by
      rintro rfl
      exact hsome rfl
    have hmiddle : (l₁ ++ (p, a) :: l₂).Perm ((p, a) :: (l₁ ++ l₂)) := List.perm_middle
    rw [returns_bind]
    refine (returns_unlink hr.linked hr.addresses).mono ?_
    rintro - c₁ ⟨hlinked, hsame, hheap⟩
    have htouched : c₁.heap p = some ⟨a, lastOf none l₁, firstOf none l₂⟩ :=
      (hheap p hr.notMem).trans hr.heap_eq
    have hfront : c₁.lruFront = firstOf none (l₁ ++ l₂) := by
      rw [hsame, hr.front]
      cases l₁ with
      | nil => exact absurd rfl hne
      | cons n rest => rfl
    have hnodup : ((l₁ ++ l₂).map Prod.fst).Nodup :=
      (List.nodup_cons.mp ((hmiddle.map Prod.fst).nodup_iff.mp hr.addresses)).2
    -- the tail moves to the predecessor only if the touched node was the tail
    have htail : (if firstOf none l₂ = none then { c₁ with lruTail := lastOf none l₁ } else c₁) =
        { c₁ with lruTail := lastOf (some p) (l₁ ++ l₂) } := by
      rw [lastOf_append, lastOf_of_ne_nil hne (some p) none]
      cases l₂ with
      | nil => rfl
      | cons n rest =>
        rw [if_neg (by simp [firstOf]), hsame, hr.tail, lastOf_append]
        rfl
    rw [returns_bind, returns_modify, htail]
    refine (returns_linkFront (c := { c₁ with lruTail := lastOf (some p) (l₁ ++ l₂) }) hlinked
      hfront hnodup hr.notMem htouched).mono ?_
    rintro - c₃ ⟨hlinked₃, hsame₃⟩
    refine hr.reorder hmiddle hlinked₃ ?_ ?_ ?_ ?_
    · rw [hsame₃]
      rfl
    · rw [hsame₃]
      rfl
    · rw [hsame₃, hsame]
    · rw [hsame₃, hsame]

section Searcher

variable [DecidableEq K]

theorem findNode_eq {c : LruCache K V} {nodes : List (ℕ × K × V)} (hs : Stand c nodes)
    (hkeys : (nodes.map fun n => n.2.1).Nodup) (haddresses : (nodes.map Prod.fst).Nodup) {p : ℕ}
    {key : K} {value : V} (hp : (p, key, value) ∈ nodes) :
    ∀ {ps : List ℕ}, (∀ q ∈ ps, q ∈ nodes.map Prod.fst) → p ∈ ps →
      findNode key ps c = .ok (some p, c)
  | [], _, hmem => by cases hmem
  | q :: qs, hall, hmem => by
    obtain ⟨⟨q', k, v⟩, hq, rfl⟩ := List.mem_map.mp (hall q (List.mem_cons_self ..))
    obtain ⟨before, behind, hheap⟩ := hs _ hq
    unfold findNode
    change (node q' c >>= fun r => _) = _
    rw [node_eq hheap]
    change (if k = key then (pure (some q') : LruM K V (Option ℕ)) else findNode key qs) c = _
    split
    · next hkey =>
      have hsame := List.inj_on_of_nodup_map hkeys hq hp hkey
      rw [Prod.mk.injEq] at hsame
      rw [hsame.1]
      rfl
    · next hkey =>
      refine findNode_eq hs hkeys haddresses hp
        (fun r hr => hall r (List.mem_cons_of_mem _ hr)) ?_
      refine (List.mem_cons.mp hmem).resolve_left ?_
      rintro rfl
      have hsame := List.inj_on_of_nodup_map haddresses hq hp rfl
      rw [Prod.mk.injEq, Prod.mk.injEq] at hsame
      exact hkey hsame.2.1

theorem findNode_eq_none {c : LruCache K V} {nodes : List (ℕ × K × V)} (hs : Stand c nodes)
    {key : K} (hkey : key ∉ nodes.map fun n => n.2.1) :
    ∀ {ps : List ℕ}, (∀ q ∈ ps, q ∈ nodes.map Prod.fst) → findNode key ps c = .ok (none, c)
  | [], _ => rfl
  | q :: qs, hall => by
    obtain ⟨⟨q', k, v⟩, hq, rfl⟩ := List.mem_map.mp (hall q (List.mem_cons_self ..))
    obtain ⟨before, behind, hheap⟩ := hs _ hq
    unfold findNode
    change (node q' c >>= fun r => _) = _
    rw [node_eq hheap]
    change (if k = key then (pure (some q') : LruM K V (Option ℕ)) else findNode key qs) c = _
    rw [if_neg]
    · exact findNode_eq_none hs hkey fun r hr => hall r (List.mem_cons_of_mem _ hr)
    · rintro rfl
      exact hkey (List.mem_map_of_mem hq)

theorem Represents.find_eq {c : LruCache K V} {nodes : List (ℕ × K × V)}
    (hr : Represents c nodes) {p : ℕ} {key : K} {value : V} (hp : (p, key, value) ∈ nodes) :
    find key c = .ok (some p, c) :=
  findNode_eq hr.stand hr.keys hr.addresses hp (fun _ hq => hr.searcher.mem_iff.mp hq)
    (hr.searcher.mem_iff.mpr (List.mem_map_of_mem hp))

theorem Represents.find_eq_none {c : LruCache K V} {nodes : List (ℕ × K × V)}
    (hr : Represents c nodes) {key : K} (hkey : key ∉ nodes.map fun n => n.2.1) :
    find key c = .ok (none, c) :=
  findNode_eq_none hr.stand hkey fun _ hq => hr.searcher.mem_iff.mp hq

theorem Represents.returns_lruPush {c : LruCache K V} {nodes : List (ℕ × K × V)}
    (hr : Represents c nodes) {p : ℕ} {key : K} {value : V} {before behind : Option ℕ}
    (hheap : c.heap p = some ⟨(key, value), before, behind⟩) (hp : p ∉ nodes.map Prod.fst)
    (hlt : p < c.fresh) (hkey : key ∉ nodes.map fun n => n.2.1) :
    Returns (lruPush p) c fun _ c' => Represents c' ((p, key, value) :: nodes) := by
  have htail : (if c.lruTail = none then { c with lruTail := some p } else c) =
      { c with lruTail := lastOf (some p) nodes } := by
    rw [hr.tail]
    split
    · next hnone => rw [lastOf_eq_none hnone]; rfl
    · next hsome =>
      have hne : nodes ≠ [] := by
        rintro rfl
        exact hsome rfl
      rw [lastOf_of_ne_nil hne (some p) none, ← hr.tail]
  unfold lruPush
  rw [returns_bind, returns_modify, htail, returns_bind]
  refine (returns_linkFront (c := { c with lruTail := lastOf (some p) nodes }) hr.linked hr.front
    hr.addresses hp hheap).mono ?_
  rintro - c₁ ⟨hlinked, hsame⟩
  have hsearcher : c₁.searcher = c.searcher := by rw [hsame]
  have hstand : Stand c₁ nodes := fun n hn => hlinked.2.exists_node hn
  -- the new node is linked, but not in the hash set yet: its key is not found
  have hfind : find key c₁ = .ok (none, c₁) := findNode_eq_none hstand hkey fun q hq => by
    rw [hsearcher] at hq
    exact hr.searcher.mem_iff.mp hq
  rw [returns_bind, returns_of_eq (node_eq hlinked.1), returns_bind, returns_of_eq hfind,
    returns_modify, if_pos rfl]
  refine ⟨hlinked, ?_, ?_, ?_, ?_, ?_, ?_⟩
  · dsimp only
    rw [hsame]
    rfl
  · dsimp only
    rw [hsame]
    rfl
  · exact List.nodup_cons.mpr ⟨hkey, hr.keys⟩
  · exact List.nodup_cons.mpr ⟨hp, hr.addresses⟩
  · intro n hn
    dsimp only
    rw [hsame]
    rcases List.mem_cons.mp hn with rfl | hn
    · exact hlt
    · exact hr.fresh n hn
  · dsimp only
    rw [hsearcher]
    exact hr.searcher.cons p

theorem Represents.returns_lruRemove {c : LruCache K V} {l₁ l₂ : List (ℕ × K × V)} {p : ℕ}
    {a : K × V} (hr : Represents c (l₁ ++ (p, a) :: l₂)) :
    Returns (lruRemove p) c fun _ c' => Represents c' (l₁ ++ l₂) := by
  have hmiddle : (l₁ ++ (p, a) :: l₂).Perm ((p, a) :: (l₁ ++ l₂)) := List.perm_middle
  have hkeys := (hmiddle.map fun n => n.2.1).nodup_iff.mp hr.keys
  have haddresses := (hmiddle.map Prod.fst).nodup_iff.mp hr.addresses
  have hout := hr.notMem
  rw [List.map_append, List.mem_append, not_or] at hout
  unfold lruRemove
  rw [returns_bind, returns_of_eq (node_eq hr.heap_eq), returns_bind]
  refine (returns_unlink hr.linked hr.addresses).mono ?_
  rintro - c₁ ⟨hlinked, hsame, hheap⟩
  rw [returns_bind, returns_modify]
  obtain ⟨c₂, hc₂⟩ : ∃ c₂ : LruCache K V, c₂ = { c₁ with
    lruFront := if c₁.lruFront = some p then firstOf none l₂ else c₁.lruFront
    lruTail := if c₁.lruTail = some p then lastOf none l₁ else c₁.lruTail } := ⟨_, rfl⟩
  have hheap₂ : c₂.heap = c₁.heap := by rw [hc₂]
  have hstand : Stand c₂ ((p, a) :: (l₁ ++ l₂)) := by
    intro n hn
    rw [hheap₂]
    rcases List.mem_cons.mp hn with rfl | hn
    · exact ⟨_, _, (hheap p hr.notMem).trans hr.heap_eq⟩
    · exact hlinked.exists_node hn
  have hsearcher : c₂.searcher.Perm (p :: (l₁ ++ l₂).map Prod.fst) := by
    rw [hc₂, hsame]
    exact hr.searcher.trans (hmiddle.map _)
  -- the node is already out of the list, but still in the hash set, which finds it by its key
  have hfind : find a.1 c₂ = .ok (some p, c₂) :=
    findNode_eq hstand hkeys haddresses (List.mem_cons_self ..)
      (fun q hq => hsearcher.mem_iff.mp hq) (hsearcher.mem_iff.mpr (List.mem_cons_self ..))
  rw [← hc₂, returns_bind, returns_of_eq hfind, returns_modify]
  refine ⟨?_, ?_, ?_, (List.nodup_cons.mp hkeys).2, (List.nodup_cons.mp haddresses).2, ?_, ?_⟩
  · refine hlinked.congr fun n hn => ?_
    dsimp only
    rw [hheap₂, Function.update_of_ne]
    rintro rfl
    exact hr.notMem (List.mem_map_of_mem hn)
  · dsimp only
    rw [hc₂, hsame]
    dsimp only
    rw [hr.front]
    cases l₁ with
    | nil => exact if_pos rfl
    | cons n rest =>
      refine if_neg fun h => hout.1 ?_
      rw [← Option.some.inj h]
      exact List.mem_cons_self ..
  · dsimp only
    rw [hc₂, hsame]
    dsimp only
    rw [hr.tail, lastOf_append, lastOf_append]
    by_cases hnil : l₂ = []
    · subst hnil
      exact if_pos rfl
    · obtain ⟨front, last, rfl⟩ := (List.eq_nil_or_concat' _).resolve_left hnil
      rw [← List.cons_append, lastOf_append, lastOf_append]
      refine if_neg fun h => hout.2 ?_
      rw [← Option.some.inj h]
      exact List.mem_map_of_mem (List.mem_append_right _ (List.mem_singleton_self _))
  · intro n hn
    dsimp only
    rw [hc₂, hsame]
    exact hr.fresh n (hmiddle.mem_iff.mpr (List.mem_cons_of_mem _ hn))
  · have hfilter := hsearcher.filter fun q => some q ≠ some p
    rw [List.filter_cons_of_neg (by simp)] at hfilter
    refine hfilter.trans (List.Perm.of_eq (List.filter_eq_self.mpr fun q hq => ?_))
    refine decide_eq_true fun h => hr.notMem ?_
    rw [← Option.some.inj h]
    exact hq

/-! ## The entries -/

/-- The cache holds these entries, the most recently used one first. -/
def Holds (c : LruCache K V) (entries : List (K × V)) : Prop :=
  ∃ nodes, Represents c nodes ∧ nodes.map Prod.snd = entries

end Searcher

theorem holds_new : Holds (new : LruCache K V) [] := ⟨[], represents_new, rfl⟩

theorem Holds.count_eq {c : LruCache K V} {entries : List (K × V)} (hc : Holds c entries) :
    c.count = entries.length := by
  obtain ⟨nodes, hr, rfl⟩ := hc
  rw [count, hr.length_searcher, List.length_map]

theorem Holds.keys_nodup {c : LruCache K V} {entries : List (K × V)} (hc : Holds c entries) :
    (entries.map Prod.fst).Nodup := by
  obtain ⟨nodes, hr, rfl⟩ := hc
  rw [List.map_map]
  exact hr.keys

section Searcher

variable [DecidableEq K]

theorem Holds.exists_node {c : LruCache K V} {e₁ e₂ : List (K × V)} {key : K} {value : V}
    (hc : Holds c (e₁ ++ (key, value) :: e₂)) :
    ∃ l₁ p l₂, Represents c (l₁ ++ (p, key, value) :: l₂) ∧ find key c = .ok (some p, c) ∧
      l₁.map Prod.snd = e₁ ∧ l₂.map Prod.snd = e₂ := by
  obtain ⟨nodes, hr, hnodes⟩ := hc
  obtain ⟨l₁, l₂', rfl, rfl, hrest⟩ := List.map_eq_append_iff.mp hnodes
  obtain ⟨⟨p, a⟩, l₂, rfl, rfl, rfl⟩ := List.map_eq_cons_iff.mp hrest
  exact ⟨l₁, p, l₂, hr, hr.find_eq (List.mem_append_right _ (List.mem_cons_self ..)), rfl, rfl⟩

theorem Holds.returns_get {c : LruCache K V} {e₁ e₂ : List (K × V)} {key : K} {value : V}
    (hc : Holds c (e₁ ++ (key, value) :: e₂)) :
    Returns (LruCache.get key) c fun r c' =>
      r = some value ∧ Holds c' ((key, value) :: (e₁ ++ e₂)) := by
  obtain ⟨l₁, p, l₂, hr, hfind, rfl, rfl⟩ := hc.exists_node
  unfold LruCache.get
  rw [returns_bind, returns_of_eq hfind]
  dsimp only
  rw [returns_bind]
  refine hr.returns_lruTouch.mono ?_
  rintro - c' hr'
  obtain ⟨before, behind, hheap⟩ := hr'.stand _ (List.mem_cons_self ..)
  rw [returns_bind, returns_of_eq (node_eq hheap), returns_pure]
  refine ⟨rfl, _, hr', ?_⟩
  rw [List.map_cons, List.map_append]

theorem Holds.get_eq_none {c : LruCache K V} {entries : List (K × V)} (hc : Holds c entries)
    {key : K} (hkey : key ∉ entries.map Prod.fst) : LruCache.get key c = .ok (none, c) := by
  obtain ⟨nodes, hr, rfl⟩ := hc
  rw [List.map_map] at hkey
  unfold LruCache.get
  change (find key c >>= fun r => _) = _
  rw [hr.find_eq_none hkey]
  rfl

theorem Holds.remove_eq {c : LruCache K V} {entries : List (K × V)} (hc : Holds c entries)
    {key : K} (hkey : key ∉ entries.map Prod.fst) : remove key c = .ok ((), c) := by
  obtain ⟨nodes, hr, rfl⟩ := hc
  rw [List.map_map] at hkey
  unfold remove
  change (find key c >>= fun r => _) = _
  rw [hr.find_eq_none hkey]
  rfl

theorem Holds.returns_put_present {c : LruCache K V} {e₁ e₂ : List (K × V)} {key : K} {old : V}
    (hc : Holds c (e₁ ++ (key, old) :: e₂)) (value : V) :
    Returns (put key value) c fun _ c' => Holds c' ((key, value) :: (e₁ ++ e₂)) := by
  obtain ⟨l₁, p, l₂, hr, hfind, rfl, rfl⟩ := hc.exists_node
  unfold put
  rw [returns_bind, returns_of_eq hfind]
  dsimp only
  rw [returns_bind, returns_of_eq (setNode_eq hr.heap_eq _)]
  refine (hr.setValue value).returns_lruTouch.mono ?_
  rintro - c' hr'
  refine ⟨_, hr', ?_⟩
  rw [List.map_cons, List.map_append]

theorem Holds.returns_put {c : LruCache K V} {entries : List (K × V)} (hc : Holds c entries)
    {key : K} (hkey : key ∉ entries.map Prod.fst) (value : V) :
    Returns (put key value) c fun _ c' => Holds c' ((key, value) :: entries) := by
  obtain ⟨nodes, hr, rfl⟩ := hc
  rw [List.map_map] at hkey
  have hfresh : c.fresh ∉ nodes.map Prod.fst := by
    intro hmem
    obtain ⟨n, hn, heq⟩ := List.mem_map.mp hmem
    exact absurd heq (Nat.ne_of_lt (hr.fresh n hn))
  unfold put
  rw [returns_bind, returns_of_eq (hr.find_eq_none hkey)]
  dsimp only
  rw [returns_bind, Exec.returns_get, returns_bind, returns_modify]
  have hr' : Represents { c with
      heap := Function.update c.heap c.fresh (some ⟨(key, value), none, none⟩)
      fresh := c.fresh + 1 } nodes := by
    refine ⟨hr.linked.congr fun n hn => Function.update_of_ne (Nat.ne_of_lt (hr.fresh n hn)) ..,
      hr.front, hr.tail, hr.keys, hr.addresses, fun n hn => ?_, hr.searcher⟩
    exact Nat.lt_succ_of_lt (hr.fresh n hn)
  refine (hr'.returns_lruPush (Function.update_self ..) hfresh (Nat.lt_succ_self _) hkey).mono ?_
  rintro - c' hr''
  exact ⟨_, hr'', rfl⟩

theorem Holds.returns_remove {c : LruCache K V} {e₁ e₂ : List (K × V)} {key : K} {value : V}
    (hc : Holds c (e₁ ++ (key, value) :: e₂)) :
    Returns (remove key) c fun _ c' => Holds c' (e₁ ++ e₂) := by
  obtain ⟨l₁, p, l₂, hr, hfind, rfl, rfl⟩ := hc.exists_node
  unfold remove
  rw [returns_bind, returns_of_eq hfind]
  refine hr.returns_lruRemove.mono ?_
  rintro - c' hr'
  exact ⟨_, hr', by rw [List.map_append]⟩

end Searcher

/-- The call of a function on the entries in turn, until it stops. -/
def visit (func : K → V → S → Bool × S) : List (K × V) → S → S
  | [], s => s
  | e :: rest, s => if (func e.1 e.2 s).1 then visit func rest (func e.1 e.2 s).2
    else (func e.1 e.2 s).2

theorem visit_eq_foldl {func : K → V → S → Bool × S}
    (hfunc : ∀ key value s, (func key value s).1 = true) (entries : List (K × V)) (s : S) :
    visit func entries s = entries.foldl (fun s e => (func e.1 e.2 s).2) s := by
  induction entries generalizing s with
  | nil => rfl
  | cons e rest ih =>
    rw [visit, if_pos (hfunc e.1 e.2 s), ih]
    rfl

theorem foreachLoop_eq_visit {c : LruCache K V} {func : K → V → S → Bool × S}
    {nodes : List (ℕ × K × V)} {prev : Option ℕ} {fuel : ℕ} {s : S}
    (hl : Linked c.heap none prev nodes) (hfuel : nodes.length ≤ fuel) :
    foreachLoop func fuel (firstOf none nodes) s c =
      .ok (visit func (nodes.map Prod.snd) s, c) := by
  induction nodes generalizing prev fuel s with
  | nil => cases fuel <;> rfl
  | cons n rest ih =>
    obtain ⟨p, a⟩ := n
    obtain ⟨fuel, rfl⟩ : ∃ m, fuel = m + 1 :=
      Nat.exists_eq_succ_of_ne_zero (Nat.ne_of_gt (Nat.lt_of_lt_of_le (Nat.succ_pos _) hfuel))
    unfold firstOf foreachLoop
    change (node p c >>= fun r => _) = _
    rw [node_eq hl.1]
    change (if (func a.1 a.2 s).1 then foreachLoop func fuel (firstOf none rest) (func a.1 a.2 s).2
      else (pure (func a.1 a.2 s).2 : LruM K V S)) c =
        .ok (visit func (a :: rest.map Prod.snd) s, c)
    unfold visit
    split
    · exact ih hl.2 (Nat.le_of_succ_le_succ hfuel)
    · rfl

theorem foreachReverseLoop_eq_visit {c : LruCache K V} {func : K → V → S → Bool × S}
    {nodes : List (ℕ × K × V)} {next : Option ℕ} {fuel : ℕ} {s : S}
    (hl : Linked c.heap next none nodes) (hfuel : nodes.length ≤ fuel) :
    foreachReverseLoop func fuel (lastOf none nodes) s c =
      .ok (visit func (nodes.map Prod.snd).reverse s, c) := by
  induction nodes using List.reverseRecOn generalizing next fuel s with
  | nil => cases fuel <;> rfl
  | append_singleton front n ih =>
    obtain ⟨p, a⟩ := n
    rw [List.length_append, List.length_singleton] at hfuel
    obtain ⟨fuel, rfl⟩ : ∃ m, fuel = m + 1 :=
      Nat.exists_eq_succ_of_ne_zero (Nat.ne_of_gt (Nat.lt_of_lt_of_le (Nat.succ_pos _) hfuel))
    obtain ⟨hfront, hlast⟩ := linked_append.mp hl
    rw [lastOf_append, List.map_append, List.reverse_append]
    change (node p c >>= fun r => _) = _
    rw [node_eq hlast.1]
    change (if (func a.1 a.2 s).1 then
      foreachReverseLoop func fuel (lastOf none front) (func a.1 a.2 s).2
      else (pure (func a.1 a.2 s).2 : LruM K V S)) c =
        .ok (visit func (a :: (front.map Prod.snd).reverse) s, c)
    unfold visit
    split
    · exact ih hfront (Nat.le_of_succ_le_succ hfuel)
    · rfl

/-- `foreach` visits the entries from the most to the least recently used one. -/
theorem Represents.foreach_eq {c : LruCache K V} {nodes : List (ℕ × K × V)}
    (hr : Represents c nodes) (func : K → V → S → Bool × S) (s : S) :
    foreach func s c = .ok (visit func (nodes.map Prod.snd) s, c) := by
  unfold foreach
  change foreachLoop func c.searcher.length c.lruFront s c = _
  rw [hr.front]
  exact foreachLoop_eq_visit hr.linked (Nat.le_of_eq hr.length_searcher.symm)

theorem Represents.foreachReverse_eq {c : LruCache K V} {nodes : List (ℕ × K × V)}
    (hr : Represents c nodes) (func : K → V → S → Bool × S) (s : S) :
    foreachReverse func s c = .ok (visit func (nodes.map Prod.snd).reverse s, c) := by
  unfold foreachReverse
  change foreachReverseLoop func c.searcher.length c.lruTail s c = _
  rw [hr.tail]
  exact foreachReverseLoop_eq_visit hr.linked (Nat.le_of_eq hr.length_searcher.symm)

theorem Holds.foreach_eq {c : LruCache K V} {entries : List (K × V)} (hc : Holds c entries)
    {func : K → V → S → Bool × S} (hfunc : ∀ key value s, (func key value s).1 = true) (s : S) :
    foreach func s c = .ok (entries.foldl (fun s e => (func e.1 e.2 s).2) s, c) := by
  obtain ⟨nodes, hr, rfl⟩ := hc
  rw [hr.foreach_eq, visit_eq_foldl hfunc]

end LruCache

end TDB
