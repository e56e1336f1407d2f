import TDB.FilteredStatements

namespace TDB.Where

/-! ## The clauses with a condition list -/

inductive JoinList (C : Type) where
  | empty
  | join (relation : String) (conditions : Option (ConditionList C)) (rest : JoinList C)

structure JoinSqlNode (C : Type) where
  relation : String
  joinConditions : List C

def optHaving {C : Type} : Option (ConditionList C) → Except Crash (Option (WhereConditions C))
  | none => .ok none
  | some tree => conditionList tree

def joinConditions {C : Type} :
    Option (ConditionList C) → Except Crash (Option (WhereConditions C))
  | none => .ok none
  | some tree => conditionList tree

/-- What the action of `select_stmt` does with `opt_having`. -/
def havingConditions {C : Type} : Option (WhereConditions C) → WhereConditions C
  | none => {}
  | some w => w

/-- What the action of `join_list` does with `join_conditions`: the order is put right. -/
def joinSqlNodeConditions {C : Type} : Option (WhereConditions C) → List C
  | none => []
  | some w => w.conditions.reverse

def joinList {C : Type} : JoinList C → Except Crash (Option (List (JoinSqlNode C)))
  | .empty => .ok none
  | .join relation conditions rest => do
    let w ← joinConditions conditions
    let tail ← joinList rest
    return some (tail.getD [] ++ [⟨relation, joinSqlNodeConditions w⟩])

/-- What the action of `select_stmt` does with `join_list`. -/
def selectionJoins {C : Type} : Option (List (JoinSqlNode C)) → List (JoinSqlNode C)
  | none => []
  | some joins => joins.reverse

inductive Clause (C : Type) where
  | deletion (conditions : Option (ConditionList C))
  | update (conditions : Option (ConditionList C))
  | selection (conditions : Option (ConditionList C))
  | having (conditions : Option (ConditionList C))
  | joins (list : JoinList C)

def Clause.parse {C : Type} : Clause C → Except Crash (List C)
  | .deletion conditions => return deletionConditions (← whereConditions conditions)
  | .update conditions => return updateConditions (← whereConditions conditions)
  | .selection conditions => return (selectionConditions (← whereConditions conditions)).conditions
  | .having conditions => return (havingConditions (← optHaving conditions)).conditions
  | .joins list => return (selectionJoins (← joinList list)).flatMap JoinSqlNode.joinConditions

/-! ## What the clauses derive -/

/-- The tokens of a clause, with each condition as one. -/
inductive Token (C : Type) where
  | where | having | on | innerJoin (relation : String)
  | connector (type : ConjunctionType)
  | condition (c : C)

def ConditionList.tokens {C : Type} : ConditionList C → List (Token C)
  | .empty => []
  | .condition c => [.condition c]
  | .and c rest => .condition c :: .connector .and :: rest.tokens
  | .or c rest => .condition c :: .connector .or :: rest.tokens

def optTokens {C : Type} (keyword : Token C) : Option (ConditionList C) → List (Token C)
  | none => []
  | some tree => keyword :: tree.tokens

def JoinList.tokens {C : Type} : JoinList C → List (Token C)
  | .empty => []
  | .join relation conditions rest =>
    .innerJoin relation :: optTokens .on conditions ++ rest.tokens

def Clause.tokens {C : Type} : Clause C → List (Token C)
  | .deletion conditions | .update conditions | .selection conditions =>
    optTokens .where conditions
  | .having conditions => optTokens .having conditions
  | .joins list => list.tokens

def conditionsOf {C : Type} : List (Token C) → List C
  | [] => []
  | .condition c :: ts => c :: conditionsOf ts
  | _ :: ts => conditionsOf ts

def startsWithCondition {C : Type} : List (Token C) → Bool
  | .condition _ :: _ => true
  | _ => false

/-- An `AND` or `OR` is not followed by a condition. -/
def dangling {C : Type} : List (Token C) → Bool
  | [] => false
  | .connector _ :: ts => !startsWithCondition ts || dangling ts
  | _ :: ts => dangling ts

variable {C : Type}

theorem conditionsOf_append (ts us : List (Token C)) :
    conditionsOf (ts ++ us) = conditionsOf ts ++ conditionsOf us := by
  induction ts with
  | nil => rfl
  | cons t ts ih => cases t <;> simp [conditionsOf, ih]

theorem dangling_append {ts us : List (Token C)} (hus : startsWithCondition us = false) :
    dangling (ts ++ us) = (dangling ts || dangling us) := by
  induction ts with
  | nil => rfl
  | cons t ts ih =>
    have hstart : startsWithCondition (ts ++ us) = startsWithCondition ts := by
      cases ts with
      | nil => exact hus
      | cons t ts => cases t <;> rfl
    cases t <;> simp [dangling, ih, hstart, Bool.or_assoc]

theorem startsWithCondition_tokens (tree : JoinList C) :
    startsWithCondition tree.tokens = false := by
  cases tree <;> rfl

/-! ## The lists that are parsed -/

/-- A list that ends in a connector: the list of its tail is a null pointer. -/
theorem conditionList_of_dangling {tree : ConditionList C} (h : dangling tree.tokens = true) :
    conditionList tree = .error .nullDereference := by
  induction tree with
  | empty => cases h
  | condition c => cases h
  | and c rest ih | or c rest ih =>
    unfold conditionList
    cases hrest : rest with
    | empty => rfl
    | condition d => rw [hrest] at h; cases h
    | and d rest' | or d rest' =>
      -- the tail begins with a condition, so the connector without one is in it
      rw [hrest] at h ih
      rw [ih h]
      rfl

theorem conditionList_of_not_dangling {tree : ConditionList C}
    (h : dangling tree.tokens = false) :
    ∃ w, conditionList tree = .ok w ∧
      w.elim [] WhereConditions.conditions = (conditionsOf tree.tokens).reverse ∧
      (w = none → tree = .empty) := by
  induction tree with
  | empty => exact ⟨none, rfl, rfl, fun _ => rfl⟩
  | condition c => exact ⟨_, rfl, rfl, fun hnone => by cases hnone⟩
  | and c rest ih | or c rest ih =>
    unfold conditionList
    have hparts : startsWithCondition rest.tokens = true ∧ dangling rest.tokens = false := by
      simpa [ConditionList.tokens, dangling] using h
    obtain ⟨w, hw, hconditions, hnone⟩ := ih hparts.2
    cases w with
    | none =>
      rw [hnone rfl] at hparts
      cases hparts.1
    | some w =>
      rw [hw]
      refine ⟨_, rfl, ?_, fun h => by cases h⟩
      change w.conditions ++ [c] = _
      rw [show w.conditions = (conditionsOf rest.tokens).reverse from hconditions,
        ← List.reverse_cons]
      rfl

theorem optHaving_eq (conditions : Option (ConditionList C)) :
    optHaving conditions = whereConditions conditions := by
  cases conditions <;> rfl

theorem joinConditions_eq (conditions : Option (ConditionList C)) :
    joinConditions conditions = whereConditions conditions := by
  cases conditions <;> rfl

def Token.isClauseKeyword : Token C → Bool
  | .where | .having | .on => true
  | _ => false

theorem whereConditions_of_dangling {keyword : Token C} (hkeyword : keyword.isClauseKeyword)
    {conditions : Option (ConditionList C)} (h : dangling (optTokens keyword conditions) = true) :
    whereConditions conditions = .error .nullDereference := by
  cases conditions with
  | none => cases h
  | some tree =>
    refine conditionList_of_dangling ?_
    cases keyword <;> first | exact h | cases hkeyword

theorem whereConditions_of_not_dangling (keyword : Token C) (hkeyword : keyword.isClauseKeyword)
    {conditions : Option (ConditionList C)} (h : dangling (optTokens keyword conditions) = false) :
    ∃ w, whereConditions conditions = .ok w ∧
      w.elim [] WhereConditions.conditions =
        (conditionsOf (optTokens keyword conditions)).reverse := by
  cases conditions with
  | none => exact ⟨none, rfl, rfl⟩
  | some tree =>
    have htree : dangling tree.tokens = false ∧
        conditionsOf (optTokens keyword (some tree)) = conditionsOf tree.tokens := by
      cases keyword <;> first | exact ⟨h, rfl⟩ | cases hkeyword
    obtain ⟨w, hw, hconditions, -⟩ := conditionList_of_not_dangling htree.1
    exact ⟨w, hw, by rw [htree.2]; exact hconditions⟩

def JoinList.nodes : JoinList C → List (JoinSqlNode C)
  | .empty => []
  | .join relation conditions rest =>
    ⟨relation, conditionsOf (optTokens .on conditions)⟩ :: rest.nodes

theorem flatMap_nodes (list : JoinList C) :
    list.nodes.flatMap JoinSqlNode.joinConditions = conditionsOf list.tokens := by
  induction list with
  | empty => rfl
  | join relation conditions rest ih =>
    unfold JoinList.nodes JoinList.tokens
    rw [List.flatMap_cons, ih, List.cons_append]
    exact (conditionsOf_append ..).symm

theorem dangling_join (relation : String) (conditions : Option (ConditionList C))
    (rest : JoinList C) : dangling (JoinList.join relation conditions rest).tokens =
      (dangling (optTokens .on conditions) || dangling rest.tokens) :=
  dangling_append (startsWithCondition_tokens rest)

theorem joinList_of_dangling {list : JoinList C} (h : dangling list.tokens = true) :
    joinList list = .error .nullDereference := by
  induction list with
  | empty => cases h
  | join relation conditions rest ih =>
    rw [dangling_join, Bool.or_eq_true] at h
    unfold joinList
    rw [joinConditions_eq]
    cases hconditions : dangling (optTokens .on conditions) with
    | true =>
      rw [whereConditions_of_dangling rfl hconditions]
      rfl
    | false =>
      obtain ⟨w, hw, -⟩ := whereConditions_of_not_dangling .on rfl hconditions
      rw [hw, ih (h.resolve_left (by rw [hconditions]; decide))]
      rfl

theorem joinList_of_not_dangling {list : JoinList C} (h : dangling list.tokens = false) :
    ∃ joins, joinList list = .ok joins ∧ joins.getD [] = list.nodes.reverse := by
  induction list with
  | empty => exact ⟨none, rfl, rfl⟩
  | join relation conditions rest ih =>
    rw [dangling_join, Bool.or_eq_false_iff] at h
    obtain ⟨w, hw, hconditions⟩ := whereConditions_of_not_dangling .on rfl h.1
    obtain ⟨joins, hjoins, hnodes⟩ := ih h.2
    have hnode : joinSqlNodeConditions w = conditionsOf (optTokens .on conditions) := by
      rw [← List.reverse_reverse (conditionsOf _), ← hconditions]
      cases w <;> rfl
    unfold joinList JoinList.nodes
    rw [joinConditions_eq, hw, hjoins]
    refine ⟨_, rfl, ?_⟩
    change joins.getD [] ++ [(⟨relation, joinSqlNodeConditions w⟩ : JoinSqlNode C)] = _
    rw [hnode, hnodes, List.reverse_cons]

theorem selectionJoins_eq (joins : Option (List (JoinSqlNode C))) :
    selectionJoins joins = (joins.getD []).reverse := by
  cases joins <;> rfl

theorem parse_of_dangling {clause : Clause C} (h : dangling clause.tokens = true) :
    clause.parse = .error .nullDereference := by
  cases clause with
  | deletion conditions | update conditions | selection conditions =>
    unfold Clause.parse
    dsimp only
    rw [whereConditions_of_dangling rfl h]
    rfl
  | having conditions =>
    unfold Clause.parse
    dsimp only
    rw [optHaving_eq, whereConditions_of_dangling rfl h]
    rfl
  | joins list =>
    unfold Clause.parse
    dsimp only
    rw [joinList_of_dangling h]
    rfl

theorem parse_of_not_dangling {clause : Clause C} (h : dangling clause.tokens = false) :
    ∃ cs, clause.parse = .ok cs ∧ cs.Perm (conditionsOf clause.tokens) := by
  cases clause with
  | deletion conditions | update conditions | selection conditions =>
    obtain ⟨w, hw, hconditions⟩ := whereConditions_of_not_dangling .where rfl h
    refine ⟨w.elim [] WhereConditions.conditions, ?_, ?_⟩
    · unfold Clause.parse
      dsimp only
      rw [hw]
      cases w <;> rfl
    · rw [hconditions]
      exact List.reverse_perm _
  | having conditions =>
    obtain ⟨w, hw, hconditions⟩ := whereConditions_of_not_dangling .having rfl h
    refine ⟨w.elim [] WhereConditions.conditions, ?_, ?_⟩
    · unfold Clause.parse
      dsimp only
      rw [optHaving_eq, hw]
      cases w <;> rfl
    · rw [hconditions]
      exact List.reverse_perm _
  | joins list =>
    -- the joins and their conditions are both put back into order
    obtain ⟨joins, hjoins, hnodes⟩ := joinList_of_not_dangling h
    refine ⟨conditionsOf list.tokens, ?_, .refl _⟩
    unfold Clause.parse
    dsimp only
    rw [hjoins]
    change Except.ok ((selectionJoins joins).flatMap JoinSqlNode.joinConditions) = _
    rw [selectionJoins_eq, hnodes, List.reverse_reverse, flatMap_nodes]

/-- A condition list, in whichever clause and statement, is parsed without touching a null pointer
and with every condition once, exactly when each of its connectors is followed by a condition. -/
theorem clause_parsed_iff (clause : Clause C) :
    (∃ cs, clause.parse = .ok cs ∧ cs.Perm (conditionsOf clause.tokens)) ↔
      dangling clause.tokens = false := by
  constructor
  · rintro ⟨cs, hparse, -⟩
    by_contra hdangling
    rw [parse_of_dangling (eq_true_of_ne_false hdangling)] at hparse
    cases hparse
  · exact parse_of_not_dangling

/-- `WHERE c AND`: the action of `AND` takes the null pointer of the empty list behind it. -/
theorem not_parsed_where : ¬ ∀ clause : Clause Unit,
    ∃ cs, clause.parse = .ok cs ∧ cs.Perm (conditionsOf clause.tokens) := by
  intro h
  obtain ⟨cs, hparse, -⟩ := h (.deletion (some (.and () .empty)))
  cases hparse

end TDB.Where
