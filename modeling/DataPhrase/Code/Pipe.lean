/-
# Data frame pipes

A source followed by verbs, each of which takes the rows of the one before it.
-/
import DataPhrase.Code.Script

namespace DataPhrase.Pipe

open Code Script

/-! ## Verbs -/

/-- A column by which rows are ordered. -/
abbrev Key := String × Direction

/-- The call of a window function. -/
inductive WindowCall where
  | rowNumber
  | ranking (function : String) (key : Key)
  | runningSum (e : Term)
  | lag (e : Term) (n : Nat)
  | lead (e : Term) (n : Nat)

/-- A verb of a pipe. -/
inductive Step where
  | innerJoin (source : String) (pairs : List (String × String))
  | mutate (columns : List (String × Term))
  | filter (conditions : List Cond) (period : Option (String × Period))
  | groupBy (keys : List String)
  | summarise (columns : List (String × Term)) (grouped : Bool)
  | distinct (keys : List String)
  | arrange (keys : List Key) (byGroup : Bool)
  | window (aliasName : String) (call : WindowCall)
  | ungroup
  | select (names : List String)
  | head (n : Nat)

/-- A pipe: where its result goes, the source it starts from, and its verbs. -/
structure Script where
  target : Option String
  source : String
  steps : List Step

/-! ## Text -/

/-- How pipes spell terms and conditions. -/
def style : Style := Script.style "n()" "n_distinct"

/-- A column with its definition. -/
def columnText (c : String × Term) : String :=
  c.1 ++ " = " ++ c.2.text style

/-- A key with its direction. -/
def keyText : Key → String
  | (k, .asc) => k
  | (k, .desc) => "desc(" ++ k ++ ")"

/-- A pair of key columns. -/
def pairText (k : String × String) : String :=
  if k.1 = k.2 then "\"" ++ k.1 ++ "\"" else "\"" ++ k.1 ++ "\" = \"" ++ k.2 ++ "\""

/-- The text of a window call. -/
def WindowCall.text : WindowCall → String
  | .rowNumber => "row_number()"
  | .ranking f k => f ++ "(" ++ keyText k ++ ")"
  | .runningSum e => "cumsum(" ++ e.text style ++ ")"
  | .lag e n => "lag(" ++ e.text style ++ (if n = 1 then "" else ", n = " ++ toString n) ++ ")"
  | .lead e n => "lead(" ++ e.text style ++ (if n = 1 then "" else ", n = " ++ toString n) ++ ")"

/-- The text of a verb. -/
def Step.text : Step → String
  | .innerJoin source pairs =>
    "inner_join(" ++ source ++ ", by = c(" ++ commas (pairs.map pairText) ++ "))"
  | .mutate columns => "mutate(" ++ commas (columns.map columnText) ++ ")"
  | .filter conditions period =>
    "filter(" ++ commas (conditions.map (Cond.text style) ++
      (period.map fun p => periodTests p.1 p.2).getD []) ++ ")"
  | .groupBy keys => "group_by(" ++ commas keys ++ ")"
  | .summarise columns grouped =>
    "summarise(" ++ commas (columns.map columnText) ++
      (if grouped then ", .groups = \"drop\")" else ")")
  | .distinct keys => "distinct(" ++ commas keys ++ ")"
  | .arrange keys byGroup =>
    "arrange(" ++ commas (keys.map keyText) ++ (if byGroup then ", .by_group = TRUE)" else ")")
  | .window aliasName call => "mutate(" ++ aliasName ++ " = " ++ call.text ++ ")"
  | .ungroup => "ungroup()"
  | .select names => "select(" ++ commas names ++ ")"
  | .head n => "slice_head(n = " ++ toString n ++ ")"

/-- The text of a pipe. -/
def Script.text (s : Script) : String :=
  let head :=
    match s.target with
    | some target => target ++ " <- " ++ s.source
    | none => s.source
  " %>%\n  ".intercalate (head :: s.steps.map Step.text)

/-! ## From plans to pipes -/

/-- A sort key of a statement under its name after the joins. -/
def keyOf (c : Columns) (o : OrderItem) : Key :=
  (c.written o.field, o.direction)

/-- The verb that ranks rows. -/
def rankVerb : WindowFn → String
  | .rank => "min_rank"
  | .denseRank => "dense_rank"
  | .percentRank => "percent_rank"
  | _ => "row_number"

/-- The call of a window. Ranks need exactly one key; row numbers may do without. -/
def windowCall (c : Columns) (sc : Scope) (w : Window) : Settled WindowCall :=
  match w.function with
  | .cumulativeSum => (windowField sc w).map .runningSum
  | .lag n => (windowField sc w).map (.lag · n)
  | .lead n => (windowField sc w).map (.lead · n)
  | f =>
    match w.orderBy with
    | [k] => .ok (.ranking (rankVerb f) (keyOf c k))
    | keys =>
      if f = .rowNumber ∧ keys = [] then .ok .rowNumber
      else .error (.unsupported sc.target (.windowOrder f.name keys.length))

/-- The verbs that compute a window. -/
def windowSteps (c : Columns) (sc : Scope) (w : Window) : Settled (List Step) := do
  let call ← windowCall c sc w
  let partitioned := !w.partitionBy.isEmpty
  .ok ((if partitioned then [.groupBy (w.partitionBy.map c.written)] else []) ++
    (if !w.function.isRanking && !w.orderBy.isEmpty then
      [.arrange (w.orderBy.map (keyOf c)) partitioned]
    else []) ++
    [.window w.aliasName call] ++
    (if partitioned then [.ungroup] else []))

/-- The verb that computes columns, if there are any. -/
def mutateSteps (columns : List (String × Term)) : List Step :=
  if columns.isEmpty then [] else [.mutate columns]

/-- The verb that keeps rows, if there is a condition on them. -/
def filterSteps (conditions : List Cond) (period : Option (String × Period)) : List Step :=
  if conditions.isEmpty && period.isNone then [] else [.filter conditions period]

/-- The verbs that aggregate. -/
def aggregateSteps (keys : List String) (columns : List (String × Term)) : List Step :=
  if columns.isEmpty then if keys.isEmpty then [] else [.distinct keys]
  else if keys.isEmpty then [.summarise columns false]
  else [.groupBy keys, .summarise columns true]

/-- The pipe of a plan. -/
def Script.ofPlan (dictionary : Snapshot) (p : Plan) : Settled Script := do
  let c := Columns.ofPlan dictionary p
  let sc := c.scope .dataFramePipe
  let joins ← p.joins.mapM fun j =>
    (keyPairs .dataFramePipe p.source j).map fun ks => Step.innerJoin j.source ks
  let preCalcs ← calcColumns sc p.preCalcs
  let preFilter ← p.preFilter.mapM (Cond.ofCondition sc)
  let aggregates ← aggregateColumns sc p.aggregates
  let postCalcs ← calcColumns sc p.postCalcs
  let postFilter ← p.postFilter.mapM (Cond.ofCondition sc)
  let windows ← p.windows.mapM (windowSteps c sc)
  .ok
    { target := p.target
      source := p.source
      steps :=
        joins ++ mutateSteps preCalcs ++
          filterSteps preFilter (p.period.map fun d => (c.written d.field, d)) ++
          aggregateSteps (p.group.map c.written) aggregates ++
          mutateSteps postCalcs ++ filterSteps postFilter none ++ windows.flatten ++
          (p.select.map fun names => Step.select (names.map c.written)).toList ++
          (if p.order.isEmpty then [] else [.arrange (p.order.map (keyOf c)) false]) ++
          (p.limit.map Step.head).toList }

/-- The code of a plan. -/
def generate (dictionary : Snapshot) (p : Plan) : Settled String :=
  (Script.ofPlan dictionary p).map Script.text

end DataPhrase.Pipe
