import TDB.LruEntries

namespace TDB.LruCache

open Exec LinkedNodes

variable {K V : Type}

/-! ## Calls and their history -/

inductive Op (K V : Type) where
  | put (key : K) (value : V)
  | get (key : K)
  | remove (key : K)

variable [DecidableEq K]

def Op.run : Op K V → LruM K V Unit
  | put key value => LruCache.put key value
  | get key => do
    let _ ← LruCache.get key
  | remove key => LruCache.remove key

def runOps : List (Op K V) → LruM K V Unit
  | [] => return
  | op :: ops => do
    op.run
    runOps ops

def Op.uses (key : K) : Op K V → Bool
  | put k _ => k = key
  | get k => k = key
  | remove _ => false

def Op.assign (key : K) (old : Option V) : Op K V → Option V
  | put k value => if k = key then some value else old
  | get _ => old
  | remove k => if k = key then none else old

def lastPut (key : K) (ops : List (Op K V)) : Option V := ops.foldl (Op.assign key) none

/-- The number of calls up to the last one that puts or gets a key, 0 if there is none. -/
def lastUse (key : K) (ops : List (Op K V)) : ℕ :=
  ops.length - ops.reverse.findIdx (Op.uses key)

theorem lastPut_concat (key : K) (ops : List (Op K V)) (op : Op K V) :
    lastPut key (ops ++ [op]) = op.assign key (lastPut key ops) := by
  unfold lastPut
  rw [List.foldl_append]
  rfl

theorem lastUse_concat (key : K) (ops : List (Op K V)) (op : Op K V) :
    lastUse key (ops ++ [op]) = if op.uses key then ops.length + 1 else lastUse key ops := by
  unfold lastUse
  rw [List.reverse_append, List.reverse_singleton, List.singleton_append, List.findIdx_cons,
    List.length_append, List.length_singleton]
  cases op.uses key with
  | true => rfl
  | false => simp

theorem lastUse_le (key : K) (ops : List (Op K V)) : lastUse key ops ≤ ops.length :=
  Nat.sub_le ..

/-! ## Entries in the order of their last use -/

structure InRecencyOrder (ops : List (Op K V)) (entries : List (K × V)) : Prop where
  values : ∀ key value, (key, value) ∈ entries ↔ lastPut key ops = some value
  order : entries.Pairwise fun e₁ e₂ => lastUse e₂.1 ops < lastUse e₁.1 ops

def without (key : K) (entries : List (K × V)) : List (K × V) :=
  entries.filter fun e => e.1 ≠ key

theorem inRecencyOrder_nil : InRecencyOrder ([] : List (Op K V)) [] := by
  refine ⟨fun key value => ?_, List.Pairwise.nil⟩
  constructor
  · intro hmem
    cases hmem
  · intro hput
    cases hput

structure Op.Concerns (op : Op K V) (key : K) : Prop where
  uses : ∀ k, k ≠ key → op.uses k = false
  assign : ∀ k, k ≠ key → ∀ old, op.assign k old = old

theorem Op.concerns_put (key : K) (value : V) : (Op.put key value).Concerns key :=
  ⟨fun _ hk => decide_eq_false (Ne.symm hk), fun _ hk _ => if_neg (Ne.symm hk)⟩

theorem Op.concerns_get (key : K) : (Op.get key : Op K V).Concerns key :=
  ⟨fun _ hk => decide_eq_false (Ne.symm hk), fun _ _ _ => rfl⟩

theorem Op.concerns_remove (key : K) : (Op.remove key : Op K V).Concerns key :=
  ⟨fun _ _ => rfl, fun _ hk _ => if_neg (Ne.symm hk)⟩

section Step

variable {ops : List (Op K V)} {entries : List (K × V)} {op : Op K V} {key : K} {value : V}

theorem mem_without {k : K} {v : V} :
    (k, v) ∈ without key entries ↔ (k, v) ∈ entries ∧ k ≠ key := by
  simp [without]

theorem InRecencyOrder.others (ho : InRecencyOrder ops entries) (hop : op.Concerns key) :
    (∀ k v, k ≠ key → ((k, v) ∈ without key entries ↔ lastPut k (ops ++ [op]) = some v)) ∧
      (without key entries).Pairwise fun e₁ e₂ =>
        lastUse e₂.1 (ops ++ [op]) < lastUse e₁.1 (ops ++ [op]) := by
  have hsame : ∀ e ∈ without key entries, lastUse e.1 (ops ++ [op]) = lastUse e.1 ops := by
    intro e he
    rw [lastUse_concat, hop.uses e.1 (mem_without.mp he).2, if_neg Bool.false_ne_true]
  constructor
  · intro k v hk
    rw [mem_without, ho.values, lastPut_concat, hop.assign k hk]
    exact and_iff_left hk
  · apply (ho.order.filter _).imp_of_mem
    intro e₁ e₂ he₁ he₂ hlt
    rw [hsame e₁ he₁, hsame e₂ he₂]
    exact hlt

/-- A call that puts or gets a key brings it to the front. -/
theorem InRecencyOrder.touch (ho : InRecencyOrder ops entries) (hop : op.Concerns key)
    (huses : op.uses key = true) (hvalue : op.assign key (lastPut key ops) = some value) :
    InRecencyOrder (ops ++ [op]) ((key, value) :: without key entries) := by
  obtain ⟨hvalues, horder⟩ := ho.others hop
  refine ⟨fun k v => ?_, List.pairwise_cons.mpr ⟨fun e he => ?_, horder⟩⟩
  · by_cases hk : k = key
    · subst hk
      rw [lastPut_concat, hvalue, List.mem_cons, mem_without]
      simp [eq_comm]
    · rw [List.mem_cons, ← hvalues k v hk]
      simp [hk]
  · have hother := (mem_without.mp he).2
    rw [lastUse_concat, lastUse_concat, huses, if_pos rfl, hop.uses e.1 hother,
      if_neg Bool.false_ne_true]
    exact Nat.lt_succ_of_le (lastUse_le e.1 ops)

/-- Behind a call that leaves a key without a value the others are in order. -/
theorem InRecencyOrder.drop (ho : InRecencyOrder ops entries) (hop : op.Concerns key)
    (hvalue : op.assign key (lastPut key ops) = none) :
    InRecencyOrder (ops ++ [op]) (without key entries) := by
  obtain ⟨hvalues, horder⟩ := ho.others hop
  refine ⟨fun k v => ?_, horder⟩
  by_cases hk : k = key
  · subst hk
    rw [lastPut_concat, hvalue, mem_without]
    simp
  · exact hvalues k v hk

end Step

/-! ## Runs of the cache -/

theorem exists_split {entries : List (K × V)} (hnodup : (entries.map Prod.fst).Nodup) (key : K) :
    (key ∉ entries.map Prod.fst ∧ without key entries = entries) ∨
      ∃ e₁ value e₂, entries = e₁ ++ (key, value) :: e₂ ∧ without key entries = e₁ ++ e₂ := by
  by_cases hmem : key ∈ entries.map Prod.fst
  · right
    obtain ⟨⟨k, value⟩, he, rfl⟩ := List.mem_map.mp hmem
    obtain ⟨e₁, e₂, rfl⟩ := List.append_of_mem he
    refine ⟨e₁, value, e₂, rfl, ?_⟩
    rw [List.map_append, List.map_cons, List.nodup_middle, List.nodup_cons, ← List.map_append]
      at hnodup
    have hkept : ∀ e ∈ e₁ ++ e₂, decide (e.1 ≠ k) = true := by
      intro e hmem'
      apply decide_eq_true
      intro heq
      exact hnodup.1 (List.mem_map.mpr ⟨e, hmem', heq⟩)
    rw [without, List.filter_append, List.filter_cons_of_neg (by simp), ← List.filter_append]
    exact List.filter_eq_self.mpr hkept
  · left
    refine ⟨hmem, List.filter_eq_self.mpr fun e he => decide_eq_true fun heq => ?_⟩
    exact hmem (List.mem_map.mpr ⟨e, he, heq⟩)

/-- The cache holds what the calls have left, in the order of its last use. -/
def Recent (ops : List (Op K V)) (c : LruCache K V) : Prop :=
  ∃ entries, Holds c entries ∧ InRecencyOrder ops entries

theorem recent_new : Recent ([] : List (Op K V)) new := ⟨[], holds_new, inRecencyOrder_nil⟩

variable {ops : List (Op K V)} {c : LruCache K V}

theorem InRecencyOrder.lastPut_eq_none {entries : List (K × V)} (ho : InRecencyOrder ops entries)
    {key : K} (hkey : key ∉ entries.map Prod.fst) : lastPut key ops = none := by
  by_contra hne
  obtain ⟨value, hvalue⟩ := Option.ne_none_iff_exists'.mp hne
  exact hkey (List.mem_map_of_mem ((ho.values key value).mpr hvalue))

theorem Recent.returns_get (hc : Recent ops c) (key : K) :
    Returns (LruCache.get key) c fun r c' =>
      r = lastPut key ops ∧ Recent (ops ++ [.get key]) c' := by
  obtain ⟨entries, hholds, ho⟩ := hc
  obtain ⟨hkey, hsame⟩ | ⟨e₁, value, e₂, rfl, hsame⟩ := exists_split hholds.keys_nodup key
  · have hnone := ho.lastPut_eq_none hkey
    rw [returns_of_eq (hholds.get_eq_none hkey)]
    refine ⟨hnone.symm, entries, hholds, ?_⟩
    rw [← hsame]
    exact ho.drop (Op.concerns_get key) hnone
  · have hvalue : lastPut key ops = some value :=
      (ho.values key value).mp (List.mem_append_right _ (List.mem_cons_self ..))
    refine hholds.returns_get.mono ?_
    rintro r c' ⟨rfl, hholds'⟩
    refine ⟨hvalue.symm, _, hholds', ?_⟩
    rw [← hsame]
    exact ho.touch (Op.concerns_get key) (decide_eq_true rfl) hvalue

theorem Recent.returns_put (hc : Recent ops c) (key : K) (value : V) :
    Returns (put key value) c fun _ c' => Recent (ops ++ [.put key value]) c' := by
  obtain ⟨entries, hholds, ho⟩ := hc
  have htouch : InRecencyOrder (ops ++ [.put key value]) ((key, value) :: without key entries) :=
    ho.touch (Op.concerns_put key value) (decide_eq_true rfl) (if_pos rfl)
  obtain ⟨hkey, hsame⟩ | ⟨e₁, old, e₂, rfl, hsame⟩ := exists_split hholds.keys_nodup key
  · rw [hsame] at htouch
    exact (hholds.returns_put hkey value).mono fun _ _ hholds' => ⟨_, hholds', htouch⟩
  · rw [hsame] at htouch
    exact (hholds.returns_put_present value).mono fun _ _ hholds' => ⟨_, hholds', htouch⟩

theorem Recent.returns_remove (hc : Recent ops c) (key : K) :
    Returns (remove key) c fun _ c' => Recent (ops ++ [.remove key]) c' := by
  obtain ⟨entries, hholds, ho⟩ := hc
  have hdrop : InRecencyOrder (ops ++ [.remove key]) (without key entries) :=
    ho.drop (Op.concerns_remove key) (if_pos rfl)
  obtain ⟨hkey, hsame⟩ | ⟨e₁, value, e₂, rfl, hsame⟩ := exists_split hholds.keys_nodup key
  · rw [hsame] at hdrop
    rw [returns_of_eq (hholds.remove_eq hkey)]
    exact ⟨_, hholds, hdrop⟩
  · rw [hsame] at hdrop
    exact hholds.returns_remove.mono fun _ _ hholds' => ⟨_, hholds', hdrop⟩

theorem Recent.returns_run (hc : Recent ops c) (op : Op K V) :
    Returns op.run c fun _ c' => Recent (ops ++ [op]) c' := by
  cases op with
  | put key value => exact hc.returns_put key value
  | get key =>
    unfold Op.run
    rw [returns_bind]
    exact (hc.returns_get key).mono fun _ _ h => returns_pure.mpr h.2
  | remove key => exact hc.returns_remove key

theorem Recent.returns_runOps (hc : Recent ops c) (more : List (Op K V)) :
    Returns (runOps more) c fun _ c' => Recent (ops ++ more) c' := by
  induction more generalizing ops c with
  | nil =>
    rw [List.append_nil]
    exact returns_pure.mpr hc
  | cons op more ih =>
    unfold runOps
    refine (hc.returns_run op).bind fun _ c' hc' => ?_
    have hrest := ih hc'
    rwa [List.append_assoc, List.singleton_append] at hrest

/-- After any calls the list is linked both ways from `lru_front_` to `lru_tail_` through the nodes
of the set, one for each key.  Its order is that of the last uses, in which `foreach` visits the
entries and against which `foreach_reverse` does, and its tail is the entry whose last use is the
longest ago. -/
theorem recencyOrder (ops : List (Op K V)) :
    Returns (runOps ops) (new : LruCache K V) fun _ c => ∃ nodes, Represents c nodes ∧
      InRecencyOrder ops (nodes.map Prod.snd) ∧
      (∀ key, Returns (LruCache.get key) c fun r _ => r = lastPut key ops) ∧
      (∀ {S : Type} (func : K → V → S → Bool × S) (s : S),
        foreach func s c = .ok (visit func (nodes.map Prod.snd) s, c) ∧
        foreachReverse func s c = .ok (visit func (nodes.map Prod.snd).reverse s, c)) ∧
      ∀ victim, nodes.getLast? = some victim → c.lruTail = some victim.1 ∧
        ∀ n ∈ nodes, n ≠ victim → lastUse victim.2.1 ops < lastUse n.2.1 ops := by
  refine (recent_new.returns_runOps ops).mono ?_
  rintro - c hc
  rw [List.nil_append] at hc
  obtain ⟨entries, ⟨nodes, hr, rfl⟩, ho⟩ := id hc
  refine ⟨nodes, hr, ho, fun key => ?_, fun func s => ?_, fun victim hlast => ?_⟩
  · exact (hc.returns_get key).mono fun _ _ h => h.1
  · exact ⟨hr.foreach_eq func s, hr.foreachReverse_eq func s⟩
  · obtain ⟨front, rfl⟩ := List.getLast?_eq_some_iff.mp hlast
    constructor
    · rw [hr.tail, lastOf_append]
      rfl
    · intro n hn hne
      have hfront : n ∈ front := by
        rw [List.mem_append, List.mem_singleton] at hn
        exact hn.resolve_right hne
      have horder := ho.order
      rw [List.map_append, List.pairwise_append] at horder
      exact horder.2.2 n.2 (List.mem_map_of_mem hfront) victim.2
        (List.mem_map_of_mem (List.mem_singleton_self _))

end TDB.LruCache
