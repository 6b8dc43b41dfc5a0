/-
# Relational queries

One `SELECT` statement. An alias may not be used where the query has not computed it yet, so every
alias but those of windows is replaced by its definition, except in `ORDER BY`.
-/
import DataPhrase.Code.Resolve
import DataPhrase.Plan

namespace DataPhrase.Sql

open Code

/-! ## Spelling -/

/-- The reserved words, in capitals; a name spelled like one is quoted. -/
def reserved : List String :=
  ["ALL", "ANALYSE", "ANALYZE", "AND", "ANY", "ARRAY", "AS", "ASC", "ASYMMETRIC",
   "AUTHORIZATION", "BETWEEN", "BINARY", "BOTH", "CASE", "CAST", "CHECK", "COLLATE",
   "COLUMN", "CONCURRENTLY", "CONSTRAINT", "CREATE", "CROSS", "CURRENT_CATALOG",
   "CURRENT_DATE", "CURRENT_ROLE", "CURRENT_SCHEMA", "CURRENT_TIME", "CURRENT_TIMESTAMP",
   "CURRENT_USER", "DEFAULT", "DEFERRABLE", "DESC", "DISTINCT", "DO", "ELSE", "END",
   "EXCEPT", "FALSE", "FETCH", "FOR", "FOREIGN", "FREEZE", "FROM", "FULL", "GRANT",
   "GROUP", "HAVING", "ILIKE", "IN", "INITIALLY", "INNER", "INTERSECT", "INTO", "IS",
   "ISNULL", "JOIN", "LATERAL", "LEADING", "LEFT", "LIKE", "LIMIT", "LOCALTIME",
   "LOCALTIMESTAMP", "NATURAL", "NOT", "NOTNULL", "NULL", "OFFSET", "ON", "ONLY", "OR",
   "ORDER", "OUTER", "OVERLAPS", "PLACING", "PRIMARY", "REFERENCES", "RETURNING", "RIGHT",
   "SELECT", "SESSION_USER", "SIMILAR", "SOME", "SYMMETRIC", "TABLE", "TABLESAMPLE",
   "THEN", "TO", "TRAILING", "TRUE", "UNION", "UNIQUE", "USER", "USING", "VARIADIC",
   "VERBOSE", "WHEN", "WHERE", "WINDOW", "WITH"]

/-- A name, quoted when it is spelled like a reserved word. -/
def ident (name : String) : String :=
  if reserved.any fun w => Text.sameWord w.toList name.toList then "\"" ++ name ++ "\"" else name

/-- The parts of a dotted name. -/
def nameParts (name : String) : List String :=
  (name.toList.splitOn '.').map String.ofList

/-- A dotted name, spelled part by part. -/
def qualified (name : String) : String :=
  ".".intercalate ((nameParts name).map ident)

/-- A text in single quotes, a quote in it doubled. -/
def quoteText (s : String) : String :=
  "'" ++ String.ofList (s.toList.flatMap fun c => if c = '\'' then ['\'', '\''] else [c]) ++ "'"

/-- A constant. -/
def literal : Literal → String
  | .number x => String.ofList x.text
  | .text s => quoteText s
  | .boolean true => "TRUE"
  | .boolean false => "FALSE"
  | .null => "NULL"

/-- The sign of a comparison. -/
def compareSign : CompareOp → String
  | .eq => "="
  | .ne => "<>"
  | .lt => "<"
  | .le => "<="
  | .gt => ">"
  | .ge => ">="

/-- The call of an aggregate. -/
def aggregateCall (f : AggregateFn) (e : String) : String :=
  match f with
  | .sum => "SUM(" ++ e ++ ")"
  | .avg => "AVG(" ++ e ++ ")"
  | .count => "COUNT(" ++ e ++ ")"
  | .countDistinct => "COUNT(DISTINCT " ++ e ++ ")"
  | .min => "MIN(" ++ e ++ ")"
  | .max => "MAX(" ++ e ++ ")"
  | .median => "MEDIAN(" ++ e ++ ")"
  | .percentile x => "PERCENTILE(" ++ e ++ ", " ++ String.ofList x.text ++ ")"

/-- How queries spell terms and conditions. -/
def style : Style where
  literal := literal
  name := ident
  dotted := qualified
  operator := ArithOp.symbol
  countRows := "COUNT(*)"
  aggregate := aggregateCall
  isNull negated e := e ++ if negated then " IS NOT NULL" else " IS NULL"
  compare := compareSign
  connective
    | .and => " AND "
    | .or => " OR "
  negation := "NOT "

/-! ## Queries -/

/-- The call of a window function. -/
inductive WindowCall where
  | rowNumber
  | rank
  | denseRank
  | percentRank
  | sum (e : Term)
  | lag (e : Term) (n : Nat)
  | lead (e : Term) (n : Nat)

/-- A window function over its rows. -/
structure WindowTerm where
  call : WindowCall
  partitionBy : List Term
  orderBy : List (Term × Direction)

/-- A column of the result: all of the source, a name, or something computed under an alias. -/
inductive Column where
  | all
  | plain (name : String)
  | term (e : Term) (aliasName : String)
  | window (w : WindowTerm) (aliasName : String)

/-- A query. -/
structure Query where
  columns : List Column
  source : String
  joins : List (String × Cond)
  filters : List Cond
  period : Option (Term × Period)
  group : List Term
  having : List Cond
  order : List OrderItem
  limit : Option Nat

/-! ## Text -/

/-- The text of a term. -/
def termText (e : Term) : String := e.text style

/-- A key with its direction. -/
def keyText (key : String) : Direction → String
  | .asc => key
  | .desc => key ++ " DESC"

/-- The text of a call. -/
def WindowCall.text : WindowCall → String
  | .rowNumber => "ROW_NUMBER()"
  | .rank => "RANK()"
  | .denseRank => "DENSE_RANK()"
  | .percentRank => "PERCENT_RANK()"
  | .sum e => "SUM(" ++ termText e ++ ")"
  | .lag e n => "LAG(" ++ termText e ++ (if n = 1 then "" else ", " ++ toString n) ++ ")"
  | .lead e n => "LEAD(" ++ termText e ++ (if n = 1 then "" else ", " ++ toString n) ++ ")"

/-- The rows that a running sum covers. -/
def WindowCall.frame : WindowCall → List String
  | .sum _ => ["ROWS BETWEEN UNBOUNDED PRECEDING AND CURRENT ROW"]
  | _ => []

/-- The text of a window. -/
def WindowTerm.text (w : WindowTerm) : String :=
  let partition :=
    if w.partitionBy.isEmpty then []
    else ["PARTITION BY " ++ commas (w.partitionBy.map termText)]
  let order :=
    if w.orderBy.isEmpty then []
    else ["ORDER BY " ++ commas (w.orderBy.map fun k => keyText (termText k.1) k.2)]
  w.call.text ++ " OVER (" ++ " ".intercalate (partition ++ order ++ w.call.frame) ++ ")"

/-- The text of a column. -/
def Column.text : Column → String
  | .all => "*"
  | .plain name => qualified name
  | .term e aliasName => termText e ++ " AS " ++ ident aliasName
  | .window w aliasName => w.text ++ " AS " ++ ident aliasName

/-- The condition that a field lies in a period. -/
def periodText (field : String) (p : Period) : String :=
  let interval :=
    match p.unit with
    | .quarter => "INTERVAL '" ++ toString p.months ++ " month'"
    | unit => "INTERVAL '" ++ toString p.amount ++ " " ++ unit.name ++ "'"
  let start := "DATE_TRUNC('" ++ p.unit.name ++ "', CURRENT_DATE)"
  match p.alignment with
  | .calendar =>
    field ++ " >= " ++ start ++ " - " ++ interval ++ " AND " ++ field ++ " < " ++ start
  | .rolling => field ++ " >= CURRENT_DATE - " ++ interval
  | .toDate => field ++ " >= " ++ start

/-- A clause that is left out where there is nothing to say. -/
def clause (opening separator : String) (parts : List String) : String :=
  if parts.isEmpty then "" else opening ++ separator.intercalate parts

/-- The text of a query. -/
def Query.text (q : Query) : String :=
  "SELECT " ++ commas (q.columns.map Column.text) ++ " FROM " ++ qualified q.source ++
    String.join (q.joins.map fun j =>
      " INNER JOIN " ++ qualified j.1 ++ " ON " ++ j.2.text style) ++
    clause " WHERE " " AND " (q.filters.map (Cond.conjunctText style) ++
      (q.period.map fun p => periodText (termText p.1) p.2).toList) ++
    clause " GROUP BY " ", " (q.group.map termText) ++
    clause " HAVING " " AND " (q.having.map (Cond.conjunctText style)) ++
    clause " ORDER BY " ", " (q.order.map fun o => keyText (qualified o.field) o.direction) ++
    match q.limit with
    | some n => " LIMIT " ++ toString n
    | none => ""

/-! ## Definitions of aliases -/

/-- What an alias stands for. A compound definition is put into other terms in parentheses. -/
structure AliasTerm where
  term : Term
  compound : Bool

/-- The definitions of aliases, the newest first. -/
abbrev Aliases := List (String × AliasTerm)

/-- The definition of an alias. -/
def Aliases.find? (as : Aliases) (name : String) : Option AliasTerm :=
  (List.find? (fun a => a.1 == name) as).map Prod.snd

/-- What a field stands for under the definitions. -/
def Aliases.field (as : Aliases) : FieldRef → Term
  | (some q, n) => .column (some q) n
  | (none, n) =>
    match as.find? n with
    | some d => if d.compound then .group d.term else d.term
    | none => .column none n

/-- What a written name stands for where nothing surrounds it. -/
def Aliases.written (as : Aliases) (name : String) : Term :=
  match as.find? name with
  | some d => d.term
  | none => .written name

/-- The scope of a query under the definitions. -/
def scope (dictionary : Snapshot) (as : Aliases) : Scope :=
  ⟨.sql, dictionary, as.field⟩

/-- A definition put into other terms needs parentheses. -/
def isCompound : Expr → Bool
  | .binary _ _ _ | .negate _ => true
  | _ => false

/-- The definitions with those of calculations added in order. -/
def defineCalcs (dictionary : Snapshot) (as : Aliases) : List Calc → Settled Aliases
  | [] => .ok as
  | c :: r => do
    let e ← Term.ofExpr (scope dictionary as) c.expression
    defineCalcs dictionary ((c.aliasName, ⟨e, isCompound c.expression⟩) :: as) r

/-- The term of an aggregate. -/
def aggregateTerm (sc : Scope) (a : Aggregate) : Settled Term := do
  let e ← Term.ofExpr sc a.field
  match a.function with
  | .median => percentileTerm sc e (.ofDecimal 5 1)
  | .percentile x => percentileTerm sc e x
  | .count => .ok (if a.field.isStar then .countRows else .aggregate .count e)
  | f => .ok (.aggregate f e)

/-- The definitions with those of aggregates added in order. -/
def defineAggregates (dictionary : Snapshot) (as : Aliases) : List Aggregate → Settled Aliases
  | [] => .ok as
  | a :: r => do
    let e ← aggregateTerm (scope dictionary as) a
    defineAggregates dictionary ((a.aliasName, ⟨e, false⟩) :: as) r

/-! ## From plans to queries -/

/-- The field that a window function reads. -/
def windowField (sc : Scope) (w : Window) : Settled Term :=
  match w.field with
  | some e => Term.ofExpr sc e
  | none => .error (.unsupported .sql (.windowField w.function.name))

/-- The call of a window. -/
def windowCall (sc : Scope) (w : Window) : Settled WindowCall :=
  match w.function with
  | .rowNumber => .ok .rowNumber
  | .rank => .ok .rank
  | .denseRank => .ok .denseRank
  | .percentRank => .ok .percentRank
  | .cumulativeSum => (windowField sc w).map .sum
  | .lag n => (windowField sc w).map (.lag · n)
  | .lead n => (windowField sc w).map (.lead · n)

/-- The term of a window. -/
def windowTerm (dictionary : Snapshot) (as : Aliases) (w : Window) : Settled WindowTerm := do
  let call ← windowCall (scope dictionary as) w
  .ok ⟨call, w.partitionBy.map as.written, w.orderBy.map fun o => (as.written o.field, o.direction)⟩

/-- The windows of a plan with their aliases, the newest first. -/
def defineWindows (dictionary : Snapshot) (as : Aliases) (ws : List Window) :
    Settled (List (String × WindowTerm)) := do
  let terms ← ws.mapM fun w => (windowTerm dictionary as w).map fun t => (w.aliasName, t)
  .ok terms.reverse

/-- The column of a written name. -/
def column (as : Aliases) (windows : List (String × WindowTerm)) (name : String) : Column :=
  match as.find? name with
  | some d => .term d.term name
  | none =>
    match windows.find? fun w => w.1 == name with
    | some w => .window w.2 name
    | none => .plain name

/-- The names that the result of a plan shows: the selected ones, or else the keys and the computed
ones after aggregation, or else all of the source and the computed ones. -/
def columnsOf (p : Plan) (column : String → Column) : List Column :=
  match p.select with
  | some fields => fields.map column
  | none =>
    (if p.isAggregated then
      (p.group ++ p.aggregates.map Aggregate.aliasName ++ p.postCalcs.map Calc.aliasName).map column
    else .all :: p.preCalcs.map fun c => column c.aliasName) ++
      p.windows.map fun w => column w.aliasName

/-- The query of a plan. -/
def Query.ofPlan (dictionary : Snapshot) (p : Plan) : Settled Query := do
  let as ← defineCalcs dictionary [] p.preCalcs
  let as ← defineAggregates dictionary as p.aggregates
  let as ← defineCalcs dictionary as p.postCalcs
  let windows ← defineWindows dictionary as p.windows
  let sc := scope dictionary as
  let joins ← p.joins.mapM fun j => (Cond.ofCondition sc j.condition).map fun c => (j.source, c)
  let filters ← p.preFilter.mapM (Cond.ofCondition sc)
  let having ← p.postFilter.mapM (Cond.ofCondition sc)
  .ok
    { columns := columnsOf p (column as windows)
      source := p.source
      joins := joins
      filters := filters
      period := p.period.map fun d => (as.written d.field, d)
      group := p.group.map as.written
      having := having
      order := p.order
      limit := p.limit }

/-- The code of a plan. -/
def generate (dictionary : Snapshot) (p : Plan) : Settled String :=
  (Query.ofPlan dictionary p).map Query.text

end DataPhrase.Sql
