/-
# Checks

The checks of a statement against the dictionary, in the order in which their findings are listed:
structure, aliases, references, stages, grouping, expressions, style.
-/
import DataPhrase.Dictionary.Snapshot
import DataPhrase.Plan
import DataPhrase.Validation.Issue
import DataPhrase.Validation.Rules

namespace DataPhrase.Check

open Text

/-! ## Names -/

/-- The source and the column of a written name: what stands before and after its first point. -/
def splitName (written : String) : FieldRef :=
  match written.toList.dropWhile (· != '.') with
  | [] => (none, written)
  | _ :: rest =>
    (some (String.ofList (written.toList.takeWhile (· != '.'))), String.ofList rest)

/-- A reference as it is written. -/
def joinName : FieldRef → String
  | (some q, n) => q ++ "." ++ n
  | (none, n) => n

/-- The fields that an operation mentions. -/
def mentions : Operation → List FieldRef
  | .aggregate _ e _ => e.fields
  | .calculate e _ => e.fields
  | .window _ e partitionBy orderBy _ =>
    (e.map Expr.fields).getD [] ++ (partitionBy ++ orderBy.map OrderItem.field).map splitName
  | .select fields => fields.map splitName
  | .join _ c => c.fields

/-! ## Structure and aliases -/

/-- A source is missing, or a target is missing or unexpected. -/
def structureFindings (s : Statement) : List Finding :=
  (if s.source.toList.all isBlank then [.missingSource] else []) ++
    match s.pattern, s.target with
    | .transformTo, none => [.missingTarget]
    | .transformTo, some _ => []
    | p, some t => [.unexpectedTarget p t]
    | _, none => []

/-- Aliases that are declared again. -/
def repeatedAliases (seen : List String) : List String → List Finding
  | [] => []
  | a :: r =>
    if seen.contains a then .duplicateAlias a :: repeatedAliases seen r
    else repeatedAliases (a :: seen) r

/-! ## References -/

/-- The reference is a registered column of its source, or of one of the sources. -/
def isColumn (d : Snapshot) (s : Statement) : FieldRef → Bool
  | (some q, n) => d.hasColumn q n
  | (none, n) => s.sources.any fun source => d.hasColumn source n

/-- A field that is no column although the columns of all its possible sources are known. Aliases
and metrics are no columns and need not be any. -/
def fieldFindings (d : Snapshot) (s : Statement) (f : FieldRef) : List Finding :=
  if s.aliases.contains f.2 || !(d.metrics f.2).isEmpty then []
  else
    let sources := match f.1 with
      | some q => [q]
      | none => s.sources
    if sources.all d.knowsSource && !isColumn d s f then [.unknownField (joinName f) sources]
    else []

/-- The operation computes its columns in order with the others. -/
def isOrdered : Operation → Bool
  | .select _ | .join _ _ => false
  | _ => true

/-- What is found at the fields of an operation that stands between others. -/
def operationFindings (d : Snapshot) (s : Statement) (before : List Operation) (op : Operation)
    (after : List Operation) : List Finding :=
  let earlier := before.filterMap Operation.alias?
  let later := after.filterMap Operation.alias?
  (mentions op).flatMap fun f =>
    if f.1.isNone && isOrdered op && later.contains f.2 && !earlier.contains f.2 &&
        !isColumn d s (none, f.2) then
      [.usedBefore f.2]
    else fieldFindings d s f

/-- What is found at the fields of the operations in turn. -/
def operationsFindings (d : Snapshot) (s : Statement) (before : List Operation) :
    List Operation → List Finding
  | [] => []
  | op :: after =>
    operationFindings d s before op after ++ operationsFindings d s (before ++ [op]) after

/-- The names that the clauses mention, as written: filter, group, order and period. -/
def clauseNames (s : Statement) : List String :=
  (s.filter.map fun c => c.fields.map joinName).getD [] ++ s.group.getD [] ++
    s.order.map OrderItem.field ++ (s.period.map Period.field).toList

/-! ## Stages -/

/-- A column of the list has the name, or ends in it after a source. -/
def isAvailable (columns : List String) (reference : String) : Bool :=
  columns.any fun c => c == reference || (splitName c).2 == (splitName reference).2

/-- The names that a stage reads although the stage before has dropped them. -/
def scopeFindings (st : Stage) : List Finding :=
  match st.input with
  | .opened _ => []
  | .closed columns =>
    (st.references.filter fun r => !isAvailable columns r).map fun r =>
      .outOfScope st.name r columns

/-- A stage can run after an earlier one within one query. -/
def mayFollow (earlier later : StageKind) : Bool :=
  match earlier with
  | .limit => later == .select
  | .select => [.filter, .sort, .select, .during, .limit].contains later
  | .sort => !([StageKind.group, .aggregate, .join].contains later)
  | .aggregate => !([StageKind.group, .aggregate, .join, .during].contains later)
  | .window => !([StageKind.filter, .group, .aggregate, .join, .during].contains later)
  | .filter | .group | .calculate | .join | .during => true

/-- What is found at a stage that stands between others: names that only a later stage defines, and
an earlier stage that it cannot follow. -/
def stageFindings (before : List Stage) (st : Stage) (after : List Stage) : List Finding :=
  (st.references.flatMap fun r =>
    let name := (splitName r).2
    if (before ++ [st]).any fun e => e.defines.contains name then []
    else
      match after.find? fun l => l.defines.contains name with
      | some definer => [.readBefore st.name name definer.name]
      | none => []) ++
    match before.find? fun e => !mayFollow e.kind st.kind with
    | some e => [.stageOrder st.name e.name]
    | none => []

/-- What is found at the stages in turn. -/
def stagesFindings (before : List Stage) : List Stage → List Finding
  | [] => []
  | st :: after => stageFindings before st after ++ stagesFindings (before ++ [st]) after

/-! ## Grouping -/

/-- Aggregates that the filter reads although nothing is grouped. -/
def filterFindings (s : Statement) (p : Plan) : List Finding :=
  if s.group.isSome then []
  else
    (((s.filter.map Condition.fieldNames).getD []).filter
      (p.aggregates.map Aggregate.aliasName).contains).map .aggregateFilter

/-- The names that aggregation, grouping, row filters and the period read. -/
def consumedNames (p : Plan) : List String :=
  p.group.map (fun g => (splitName g).2) ++ p.aggregates.flatMap (fun a => a.field.fieldNames) ++
    p.preFilter.flatMap Condition.fieldNames ++ (p.period.map Period.field).toList

/-- Of calculations listed from the last to the first, those that nothing consumes. What a consumed
calculation reads is consumed as well. -/
def droppedFrom (post : List String) (consumed : List String) : List Calc → List String
  | [] => []
  | c :: r =>
    let reads := c.expression.fieldNames
    if consumed.contains c.aliasName then droppedFrom post (consumed ++ reads) r
    else if reads.any post.contains then droppedFrom post consumed r
    else c.aliasName :: droppedFrom post consumed r

/-- The calculations on rows whose results aggregation drops, in order. -/
def droppedCalcs (p : Plan) : List String :=
  (droppedFrom p.postAliases (consumedNames p) p.preCalcs.reverse).reverse

/-- The names that are read after aggregation. -/
def namesAfter (s : Statement) (p : Plan) : List String :=
  p.select.getD [] ++ s.order.map OrderItem.field ++
    p.windows.flatMap (fun w => w.partitionBy ++ w.orderBy.map OrderItem.field ++
      (w.field.map Expr.fieldNames).getD []) ++
    p.postCalcs.flatMap (fun c => c.expression.fieldNames) ++
    p.postFilter.flatMap Condition.fieldNames

/-- The name is a group key, up to its source. -/
def isGrouped (p : Plan) (written : String) : Bool :=
  p.group.any fun g => g == written || (splitName g).2 == (splitName written).2

/-- Names that are read where only keys and aggregates are left. A pipeline drops calculations by
closing its shape, so there they are no finding. -/
def groupingFindings (s : Statement) (p : Plan) : List Finding :=
  if !p.isAggregated then []
  else
    (if s.pattern = .arrowPipeline then [] else (droppedCalcs p).map .notGrouped) ++
      ((namesAfter s p).filter fun n =>
        !isGrouped p n && !p.postAliases.contains n &&
          !(p.windows.map Window.aliasName).contains n).map .notGrouped

/-! ## Expressions -/

/-- The calls of aggregates inside the expression of an operation. -/
def nestedFindings : Operation → List Finding
  | .calculate e aliasName | .aggregate _ e aliasName =>
    (e.calls.filter fun c => (AggregateFn.ofName? c.1).isSome).map fun c =>
      .nestedAggregate aliasName c.1
  | _ => []

/-- The names that the filter, calculations and aggregates read. -/
def rowNames (s : Statement) : List String :=
  (s.filter.map Condition.fieldNames).getD [] ++ s.operations.flatMap fun
    | .calculate e _ => e.fieldNames
    | .aggregate _ e _ => e.fieldNames
    | _ => []

/-- Results of windows that are read before windows are computed. -/
def windowFindings (s : Statement) (p : Plan) : List Finding :=
  ((rowNames s).filter (p.windows.map Window.aliasName).contains).map .windowRead

/-! ## Style -/

mutual

/-- The calls that are conditions of their own. -/
def conditionCalls : Condition → List String
  | .call n _ => [n]
  | .logical _ cs => conditionCallsAll cs
  | .not c => conditionCalls c
  | .comparison _ _ _ => []

/-- The calls that are conditions of their own in a list of conditions. -/
def conditionCallsAll : List Condition → List String
  | [] => []
  | c :: r => conditionCalls c ++ conditionCallsAll r

end

/-- The names of the calls in an expression. -/
def callNames (e : Expr) : List String :=
  e.calls.map Prod.fst

/-- The names of the calls in an operation. -/
def operationCalls : Operation → List String
  | .aggregate _ e _ => callNames e
  | .calculate e _ => callNames e
  | .window _ (some e) _ _ _ => callNames e
  | .window _ none _ _ _ => []
  | .join _ c => c.exprs.flatMap callNames
  | .select _ => []

/-- The names of the calls in a statement. -/
def statementCalls (s : Statement) : List String :=
  s.operations.flatMap operationCalls ++
    (s.filter.map fun c => c.exprs.flatMap callNames ++ conditionCalls c).getD []

/-- A function of that name is known. -/
def isKnown (d : Snapshot) (name : String) : Bool :=
  (AggregateFn.ofName? name).isSome || (WindowFn.ofName? name).isSome || !(d.functions name).isEmpty

/-- Unknown functions, aliases against the style, and too many clauses. -/
def styleFindings (d : Snapshot) (rules : Rules) (s : Statement) : List Finding :=
  ((statementCalls s).filter fun n => !isKnown d n).map .unknownFunction ++
    (s.aliases.filter fun a => !rules.aliasStyle.accepts a).map .aliasStyle ++
    if rules.maxClauses < s.clauseCount then [.clauseCount s.clauseCount rules.maxClauses] else []

/-! ## All checks -/

/-- All that the checks find, repetitions included. -/
def allFindings (s : Statement) (d : Snapshot) (rules : Rules) : List Finding :=
  let p := Plan.ofStatement s
  structureFindings s ++ repeatedAliases [] s.aliases ++ operationsFindings d s [] s.operations ++
    (clauseNames s).flatMap (fun n => fieldFindings d s (splitName n)) ++
    s.stages.flatMap scopeFindings ++ stagesFindings [] s.stages ++ filterFindings s p ++
    groupingFindings s p ++ s.operations.flatMap nestedFindings ++ windowFindings s p ++
    styleFindings d rules s

end Check

/-- Check a statement against a dictionary. -/
def Statement.check (s : Statement) (d : Snapshot) (rules : Rules) : Validation :=
  let findings := Finding.distinct [] (Check.allFindings s d rules)
  ⟨!findings.any Finding.isError, findings.map fun f => ⟨f, none⟩⟩

end DataPhrase
