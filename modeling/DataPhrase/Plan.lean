/-
# Plans

A plan splits a statement into what is done on the rows of the source and what is done on the rows
after aggregation. A calculation moves after aggregation when it reads a name that exists only
there, or when it stands after the first aggregate and nothing before aggregation needs it. A part
of the filter moves when it reads such a name.
-/
import DataPhrase.NameSet
import DataPhrase.Statement.Basic

namespace DataPhrase

/-! ## Parts -/

/-- A column that is computed from others. -/
structure Calc where
  aliasName : String
  expression : Expr
  deriving Repr, Inhabited

/-- A column that an aggregate computes. -/
structure Aggregate where
  aliasName : String
  function : AggregateFn
  field : Expr
  deriving Repr, Inhabited

/-- A column that a window function computes. -/
structure Window where
  aliasName : String
  function : WindowFn
  field : Option Expr
  partitionBy : List String
  orderBy : List OrderItem
  deriving Repr, Inhabited

/-- A source that is joined. -/
structure Join where
  source : String
  condition : Condition
  deriving Repr, Inhabited

/-! ## Plans -/

/-- A statement split into phases. -/
structure Plan where
  source : String
  target : Option String := none
  joins : List Join := []
  preCalcs : List Calc := []
  preFilter : List Condition := []
  period : Option Period := none
  group : List String := []
  aggregates : List Aggregate := []
  postCalcs : List Calc := []
  postFilter : List Condition := []
  windows : List Window := []
  select : Option (List String) := none
  order : List OrderItem := []
  limit : Option Nat := none
  deriving Repr, Inhabited

namespace Plan

/-- The rows are grouped or reduced. -/
def isAggregated (p : Plan) : Bool :=
  !p.aggregates.isEmpty || !p.group.isEmpty

/-- The aliases that exist only after aggregation. -/
def postAliases (p : Plan) : List String :=
  p.aggregates.map Aggregate.aliasName ++ p.postCalcs.map Calc.aliasName

/-- The names that aggregation reads: the group keys and the fields of the aggregates. -/
def namesNeeded (s : Statement) : List String :=
  s.group.getD [] ++ s.operations.flatMap fun
    | .aggregate _ e _ => e.fieldNames
    | _ => []

/-- The plan reads one of the names only after aggregation. -/
def readsPost (p : Plan) (names : List String) : Bool :=
  names.any p.postAliases.contains

/-- The calculation runs after aggregation. -/
def runsAfter (needed : List String) (p : Plan) (c : Calc) : Bool :=
  p.readsPost c.expression.fieldNames ||
    (!p.aggregates.isEmpty && !needed.contains c.aliasName)

/-- The plan with one more operation. -/
def add (needed : List String) (p : Plan) : Operation → Plan
  | .join source condition => { p with joins := p.joins ++ [⟨source, condition⟩] }
  | .aggregate function field aliasName =>
    { p with aggregates := p.aggregates ++ [⟨aliasName, function, field⟩] }
  | .calculate expression aliasName =>
    if p.runsAfter needed ⟨aliasName, expression⟩ then
      { p with postCalcs := p.postCalcs ++ [⟨aliasName, expression⟩] }
    else { p with preCalcs := p.preCalcs ++ [⟨aliasName, expression⟩] }
  | .window function field partitionBy orderBy aliasName =>
    { p with windows := p.windows ++ [⟨aliasName, function, field, partitionBy, orderBy⟩] }
  | .select fields => { p with select := some fields }

/-- The condition holds or fails only once the rows are aggregated. -/
def filtersAfter (p : Plan) (c : Condition) : Bool :=
  p.readsPost c.fieldNames && p.isAggregated

/-- The plan of a statement. -/
def ofStatement (s : Statement) : Plan :=
  let start : Plan :=
    { source := s.source
      target := s.target
      period := s.period
      group := s.group.getD []
      order := s.order
      limit := s.limit }
  let p := s.operations.foldl (add (namesNeeded s)) start
  let parts := (s.filter.map Condition.conjuncts).getD []
  { p with
    preFilter := parts.filter fun c => !p.filtersAfter c
    postFilter := parts.filter p.filtersAfter }

end Plan

end DataPhrase
