import TDB.Expression
import TDB.OrderBy

namespace TDB

inductive AggrType where
  | count | min | max | avg | sum | undefined
  deriving DecidableEq, Repr

/-- One aggregate of an `AggrLogicalNode`; `field` is `none` for `*`. -/
structure AggrUnit (T : Type) where
  aliasName : String
  aggrType : AggrType
  field : Option (T → Except Failure Value)

/-- The logical nodes that work on the rows of one child.  A predicate node has one expression. -/
inductive NodeOp (T : Type) where
  | project (expressions : List (Expression T))
  | aggr (units : List (AggrUnit T))
  | order (orderUnits : List (OrderByUnit T))
  | predicate (expression : Expression T)

/-- Logical plans of these nodes; the planner gives each of them one child, and a rewrite rule may
take it away. -/
inductive LogicalNode (T : Type) where
  | tableGet (table : String) (predicates : List (Expression T))
  | childless (op : NodeOp T)
  | withChild (op : NodeOp T) (child : LogicalNode T)

end TDB
