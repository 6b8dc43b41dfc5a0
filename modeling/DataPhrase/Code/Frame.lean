/-
# Chains on tabular frames

One expression: a table to which steps in brackets are applied. A step that assigns a column changes
the table it is applied to, so the table of the caller is copied first where such a step would
otherwise reach it.
-/
import DataPhrase.Code.Script

namespace DataPhrase.Frame

open Code Script

/-! ## Tables -/

/-- A column by which rows are ordered. -/
abbrev Key := String × Direction

/-- The conditions on rows in one step. -/
structure Tests where
  conditions : List Cond := []
  period : Option (String × Period) := none

/-- The call of a window function. -/
inductive WindowCall where
  | rowNumber
  | runningSum (e : Term)
  | lag (e : Term) (n : Nat)
  | lead (e : Term) (n : Nat)

/-- A table expression. -/
inductive Table where
  | source (name : String)
  | merge (t : Table) (other : String) (left right : List String)
  | copy (t : Table)
  | assign (t : Table) (aliasName : String) (e : Term)
  | rows (t : Table) (tests : Tests)
  | aggregate (t : Table) (tests : Tests) (columns : List (String × Term)) (keys : List String)
  | unique (t : Table) (tests : Tests) (keys : List String)
  | window (t : Table) (order : List Key) (aliasName : String) (call : WindowCall)
      (keys : List String)
  | project (t : Table) (names : List String)
  | order (t : Table) (keys : List Key)
  | head (t : Table) (n : Nat)

/-! ## Text -/

/-- How chains spell terms and conditions. -/
def style : Style := Script.style ".N" "uniqueN"

/-- Names as texts: one alone, or several in a vector. -/
def nameVector (names : List String) : String :=
  match names with
  | [n] => "\"" ++ n ++ "\""
  | _ => "c(" ++ commas (names.map fun n => "\"" ++ n ++ "\"") ++ ")"

/-- The text of conditions on rows. -/
def Tests.text (t : Tests) : String :=
  " & ".intercalate (t.conditions.map (Cond.conjunctText style) ++
    (t.period.map fun p => periodTests p.1 p.2).getD [])

/-- A call that orders rows. -/
def orderText (keys : List Key) : String :=
  "order(" ++ commas (keys.map fun
    | (k, .asc) => k
    | (k, .desc) => "-" ++ k) ++ ")"

/-- The grouping of a step. -/
def byText (keys : List String) : String :=
  if keys.isEmpty then "" else ", by = .(" ++ commas keys ++ ")"

/-- The text of a window call. -/
def WindowCall.text : WindowCall → String
  | .rowNumber => "seq_len(.N)"
  | .runningSum e => "cumsum(" ++ e.text style ++ ")"
  | .lag e n => "shift(" ++ e.text style ++ (if n = 1 then "" else ", " ++ toString n) ++ ")"
  | .lead e n => "shift(" ++ e.text style ++ ", " ++ toString n ++ ", type = \"lead\")"

/-- The text of a table expression. -/
def Table.text : Table → String
  | .source name => name
  | .merge t other left right =>
    "merge(" ++ t.text ++ ", " ++ other ++
      (if left = right then ", by = " ++ nameVector left
      else ", by.x = " ++ nameVector left ++ ", by.y = " ++ nameVector right) ++ ")"
  | .copy t => "copy(" ++ t.text ++ ")"
  | .assign t aliasName e => t.text ++ "[, " ++ aliasName ++ " := " ++ e.text style ++ "]"
  | .rows t tests => t.text ++ "[" ++ tests.text ++ "]"
  | .aggregate t tests columns keys =>
    t.text ++ "[" ++ tests.text ++ ", .(" ++
      commas (columns.map fun c => c.1 ++ " = " ++ c.2.text style) ++ ")" ++ byText keys ++ "]"
  | .unique t tests keys =>
    "unique(" ++ t.text ++ "[" ++ tests.text ++ ", .(" ++ commas keys ++ ")])"
  | .window t sortKeys aliasName call keys =>
    t.text ++ "[" ++ (if sortKeys.isEmpty then "" else orderText sortKeys) ++ ", " ++
      aliasName ++ " := " ++
      call.text ++ byText keys ++ "]"
  | .project t names => t.text ++ "[, .(" ++ commas names ++ ")]"
  | .order t keys => t.text ++ "[" ++ orderText keys ++ "]"
  | .head t n => "head(" ++ t.text ++ ", " ++ toString n ++ ")"

/-! ## From plans to tables -/

/-- A sort key of a statement under its name after the joins. -/
def keyOf (c : Columns) (o : OrderItem) : Key :=
  (c.written o.field, o.direction)

/-- The call of a window. Ranks cannot be assigned. -/
def windowCall (sc : Scope) (w : Window) : Settled WindowCall :=
  match w.function with
  | .rowNumber => .ok .rowNumber
  | .cumulativeSum => (windowField sc w).map .runningSum
  | .lag n => (windowField sc w).map (.lag · n)
  | .lead n => (windowField sc w).map (.lead · n)
  | f => .error (.unsupported sc.target (.windowRanking f.name))

/-- A table with a source joined to it. -/
def joined (source : String) (t : Table) (j : Join) : Settled Table :=
  (keyPairs .tabularFrame source j).map fun ks =>
    .merge t j.source (ks.map Prod.fst) (ks.map Prod.snd)

/-- A table with calculated columns. -/
def assigned (columns : List (String × Term)) (t : Table) : Table :=
  columns.foldl (fun t c => .assign t c.1 c.2) t

/-- A table with a window column. -/
def windowed (c : Columns) (sc : Scope) (t : Table) (w : Window) : Settled Table :=
  (windowCall sc w).map fun call =>
    .window t (w.orderBy.map (keyOf c)) w.aliasName call (w.partitionBy.map c.written)

/-- A column is assigned before a step has made a table of its own. -/
def assignsToSource (p : Plan) : Bool :=
  !p.preCalcs.isEmpty || (!p.isAggregated && !p.windows.isEmpty)

/-- A table with its rows kept or aggregated. -/
def reduced (tests : Tests) (columns : List (String × Term)) (keys : List String) (t : Table) :
    Table :=
  if !columns.isEmpty then .aggregate t tests columns keys
  else if !keys.isEmpty then .unique t tests keys
  else if tests.text.isEmpty then t
  else .rows t tests

/-- The table of a plan. -/
def Table.ofPlan (dictionary : Snapshot) (p : Plan) : Settled Table := do
  let c := Columns.ofPlan dictionary p
  let sc := c.scope .tabularFrame
  let base ← p.joins.foldlM (joined p.source) (.source p.source)
  let base := if p.joins.isEmpty && assignsToSource p then .copy base else base
  let preCalcs ← calcColumns sc p.preCalcs
  let preFilter ← p.preFilter.mapM (Cond.ofCondition sc)
  let aggregates ← aggregateColumns sc p.aggregates
  let postCalcs ← calcColumns sc p.postCalcs
  let postFilter ← p.postFilter.mapM (Cond.ofCondition sc)
  let t := assigned preCalcs base
  let t := reduced ⟨preFilter, p.period.map fun d => (c.written d.field, d)⟩ aggregates
    (p.group.map c.written) t
  let t := assigned postCalcs t
  let t := if postFilter.isEmpty then t else .rows t ⟨postFilter, none⟩
  let t ← p.windows.foldlM (windowed c sc) t
  let t :=
    match p.select with
    | some names => .project t (names.map c.written)
    | none => t
  let t := if p.order.isEmpty then t else .order t (p.order.map (keyOf c))
  .ok (match p.limit with
    | some n => .head t n
    | none => t)

/-- The code of a plan. -/
def generate (dictionary : Snapshot) (p : Plan) : Settled String :=
  (Table.ofPlan dictionary p).map fun t =>
    match p.target with
    | some target => target ++ " <- " ++ t.text
    | none => t.text

end DataPhrase.Frame
