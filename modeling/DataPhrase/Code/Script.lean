/-
# Scripts on data frames

What the two script targets share: how they spell terms, how joins merge their key columns, and how
a field is called once joins have renamed the columns that two sources have in common.
-/
import DataPhrase.Code.Resolve
import DataPhrase.Plan

namespace DataPhrase.Script

open Code

/-! ## Spelling -/

/-- A text in double quotes, with backslashes in front of quotes and backslashes. -/
def quoteText (s : String) : String :=
  "\"" ++ String.ofList (s.toList.flatMap fun c =>
    if c = '\\' then ['\\', '\\'] else if c = '"' then ['\\', '"'] else [c]) ++ "\""

/-- A constant. -/
def literal : Literal → String
  | .number x => String.ofList x.text
  | .text s => quoteText s
  | .boolean true => "TRUE"
  | .boolean false => "FALSE"
  | .null => "NA"

/-- The sign of an operation. -/
def operator : ArithOp → String
  | .modulo => "%%"
  | op => op.symbol

/-- The sign of a comparison. -/
def compareSign : CompareOp → String
  | .eq => "=="
  | .ne => "!="
  | .lt => "<"
  | .le => "<="
  | .gt => ">"
  | .ge => ">="

/-- The call of an aggregate, where `distinct` counts distinct values. -/
def aggregateCall (distinct : String) (f : AggregateFn) (e : String) : String :=
  match f with
  | .sum => "sum(" ++ e ++ ", na.rm = TRUE)"
  | .avg => "mean(" ++ e ++ ", na.rm = TRUE)"
  | .count => "sum(!is.na(" ++ e ++ "))"
  | .countDistinct => distinct ++ "(" ++ e ++ ")"
  | .min => "min(" ++ e ++ ", na.rm = TRUE)"
  | .max => "max(" ++ e ++ ", na.rm = TRUE)"
  | .median => "median(" ++ e ++ ", na.rm = TRUE)"
  | .percentile x => "quantile(" ++ e ++ ", " ++ String.ofList x.text ++ ")"

/-- How scripts spell terms and conditions, given their ways to count rows and distinct values. -/
def style (countRows distinct : String) : Style where
  literal := literal
  name n := n
  dotted n := n
  operator := operator
  countRows := countRows
  aggregate := aggregateCall distinct
  isNull negated e := (if negated then "!is.na(" else "is.na(") ++ e ++ ")"
  compare := compareSign
  connective
    | .and => " & "
    | .or => " | "
  negation := "!"

/-! ## Join keys -/

/-- A pair of key columns: `left` is kept, and `right` of the joined source merges into it. -/
structure JoinKey where
  source : String
  left : String
  right : String
  deriving DecidableEq, Repr

/-- The key pair of one equality between fields, in a join of `joined` to `source`. -/
def keyPair? (source joined : String) : Condition → Option (String × String)
  | .comparison (.field lq ln) .eq (.field rq rn) =>
    if lq = some joined ∨ rq = some source then some (rn, ln) else some (ln, rn)
  | _ => none

/-- The key pairs of a join whose condition consists of equalities between fields. -/
def keyPairs? (source : String) (j : Join) : Option (List (String × String)) :=
  j.condition.conjuncts.mapM (keyPair? source j.source)

/-- The key pairs of a join, or the reason why it has none. -/
def keyPairs (target : Target) (source : String) (j : Join) : Settled (List (String × String)) :=
  match keyPairs? source j with
  | some ks => .ok ks
  | none => .error (.unsupported target (.joinCondition j.source))

/-- The keys of all joins. A join that has none is reported where it is emitted. -/
def joinKeys (source : String) (joins : List Join) : List JoinKey :=
  joins.flatMap fun j =>
    ((keyPairs? source j).getD []).map fun k => ⟨j.source, k.1, k.2⟩

/-! ## Columns after joins -/

/-- The columns that joins leave: the sources in order, the keys, and the registered columns. -/
structure Columns where
  dictionary : Snapshot
  source : String
  sources : List String
  keys : List JoinKey

/-- The columns of a plan. -/
def Columns.ofPlan (dictionary : Snapshot) (p : Plan) : Columns where
  dictionary := dictionary
  source := p.source
  sources := p.source :: p.joins.map Join.source
  keys := joinKeys p.source p.joins

namespace Columns

/-- The field `q.n` is one of the two columns of a key. -/
def hasKey (q n : String) (k : JoinKey) : Bool :=
  if q == k.source then k.right == n else k.left == n

/-- The column `n` of a joined source has been merged into another. -/
def isMerged (c : Columns) (source n : String) : Bool :=
  c.keys.any fun k => k.source == source && k.right == n

/-- The number of sources whose registered column `n` is still there under its own name. -/
def owners (c : Columns) (n : String) : Nat :=
  (c.sources.filter fun s => c.dictionary.hasColumn s n && !c.isMerged s n).length

/-- What a field is called after the joins. Names that two sources share carry a mark for the left
or the right side. -/
def field (c : Columns) : FieldRef → String
  | (none, n) => n
  | (some q, n) =>
    match c.keys.find? (hasKey q n) with
    | some k => k.left
    | none =>
      if c.owners n < 2 then n
      else if q = c.source then n ++ ".x"
      else n ++ ".y"

/-- What a written name is called after the joins: what stands before its first point is its
source. -/
def written (c : Columns) (name : String) : String :=
  match name.toList.dropWhile (· != '.') with
  | [] => name
  | _ :: rest =>
    c.field (some (String.ofList (name.toList.takeWhile (· != '.'))), String.ofList rest)

/-- The scope of a script. -/
def scope (c : Columns) (target : Target) : Scope :=
  ⟨target, c.dictionary, fun f => .column none (c.field f)⟩

end Columns

/-! ## Aggregates and periods -/

/-- The term of an aggregate. Of a star only the count has a meaning. -/
def aggregateTerm (sc : Scope) (a : Aggregate) : Settled Term :=
  if a.field.isStar then
    match a.function with
    | .count => .ok .countRows
    | f => .error (.unsupported sc.target (.starAggregate f.name))
  else do
    let e ← Term.ofExpr sc a.field
    match a.function with
    | .percentile x => percentileTerm sc e x
    | f => .ok (.aggregate f e)

/-- The aggregates of a plan with their aliases. -/
def aggregateColumns (sc : Scope) (as : List Aggregate) : Settled (List (String × Term)) :=
  as.mapM fun a => (aggregateTerm sc a).map fun e => (a.aliasName, e)

/-- Calculations with their aliases. -/
def calcColumns (sc : Scope) (cs : List Calc) : Settled (List (String × Term)) :=
  cs.mapM fun c => (Term.ofExpr sc c.expression).map fun e => (c.aliasName, e)

/-- The conditions that a field lies in a period. -/
def periodTests (field : String) (p : Period) : List String :=
  let length :=
    match p.unit with
    | .quarter => "lubridate::period(" ++ toString p.months ++ ", \"months\")"
    | unit => "lubridate::period(" ++ toString p.amount ++ ", \"" ++ unit.name ++ "s\")"
  let start := "lubridate::floor_date(Sys.Date(), \"" ++ p.unit.name ++ "\")"
  match p.alignment with
  | .calendar => [field ++ " >= " ++ start ++ " - " ++ length, field ++ " < " ++ start]
  | .rolling => [field ++ " >= Sys.Date() - " ++ length]
  | .toDate => [field ++ " >= " ++ start]

/-- The field that a window function reads. -/
def windowField (sc : Scope) (w : Window) : Settled Term :=
  match w.field with
  | some e => Term.ofExpr sc e
  | none => .error (.unsupported sc.target (.windowField w.function.name))

end DataPhrase.Script
