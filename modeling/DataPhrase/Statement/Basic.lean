/-
# Statements

What a statement says, whichever of the three surface forms it was written in: the operations on
the rows of a source, and the clauses on grouping, filtering, order, period and number of rows.
-/
import DataPhrase.Condition.Basic
import DataPhrase.Statement.Function

namespace DataPhrase

/-! ## Surface forms -/

/-- The surface form of a statement. -/
inductive Pattern where
  | transformTo
  | arrowPipeline
  | naturalQuery
  deriving DecidableEq, Repr, Inhabited

/-- The name of a surface form. -/
def Pattern.name : Pattern → String
  | .transformTo => "transform-to"
  | .arrowPipeline => "arrow-pipeline"
  | .naturalQuery => "natural-query"

/-! ## Order -/

/-- Rising or falling. -/
inductive Direction where
  | asc
  | desc
  deriving DecidableEq, Repr, Inhabited

/-- A sort key with its direction. -/
structure OrderItem where
  field : String
  direction : Direction
  deriving DecidableEq, Repr, Inhabited

/-! ## Operations -/

/-- A step of the transformation. -/
inductive Operation where
  | aggregate (function : AggregateFn) (field : Expr) (aliasName : String)
  | calculate (expression : Expr) (aliasName : String)
  | window (function : WindowFn) (field : Option Expr) (partitionBy : List String)
      (orderBy : List OrderItem) (aliasName : String)
  | select (fields : List String)
  | join (otherSource : String) (condition : Condition)
  deriving Inhabited, Repr

namespace Operation

/-- The alias that an operation declares. -/
def alias? : Operation → Option String
  | .aggregate _ _ a | .calculate _ a | .window _ _ _ _ a => some a
  | .select _ | .join _ _ => none

/-- The source that an operation joins. -/
def joined? : Operation → Option String
  | .join s _ => some s
  | _ => none

end Operation

/-! ## Periods -/

/-- A unit of the calendar. -/
inductive TimeUnit where
  | day
  | week
  | month
  | quarter
  | year
  deriving DecidableEq, Repr, Inhabited

namespace TimeUnit

/-- The name of a unit. -/
def name : TimeUnit → String
  | .day => "day"
  | .week => "week"
  | .month => "month"
  | .quarter => "quarter"
  | .year => "year"

/-- Every unit. -/
def all : List TimeUnit :=
  [.day, .week, .month, .quarter, .year]

/-- The unit that a word names, in the singular or with an `s` and in any case. -/
def ofWord? (word : List Char) : Option TimeUnit :=
  let w := Text.lower word
  let w := if w.getLast? = some 's' then w.dropLast else w
  all.find? fun u => u.name.toList == w

end TimeUnit

/-- How a period lies on the calendar: whole units before the current one, a span that ends
today, or the current unit until today. -/
inductive Alignment where
  | calendar
  | rolling
  | toDate
  deriving DecidableEq, Repr, Inhabited

/-- The name of an alignment. -/
def Alignment.name : Alignment → String
  | .calendar => "calendar"
  | .rolling => "rolling"
  | .toDate => "to_date"

/-- A time span relative to today, with the phrase it was written as and the field it limits. -/
structure Period where
  phrase : String
  amount : Nat
  unit : TimeUnit
  alignment : Alignment
  field : String
  deriving DecidableEq, Repr, Inhabited

/-- The months of a period of quarters. The product is one of 32 bits, as the amount is. -/
def Period.months (p : Period) : Nat :=
  (UInt32.ofNat p.amount * 3).toNat

/-- The months are three times the quarters as long as they fit. -/
theorem Period.months_eq {p : Period} (h : p.amount * 3 < UInt32.size) :
    p.months = p.amount * 3 := by
  rw [months, UInt32.toNat_mul, UInt32.toNat_ofNat', Nat.mod_mul_mod]
  exact Nat.mod_eq_of_lt h

/-! ## Stages -/

/-- What a stage of a pipeline does. -/
inductive StageKind where
  | filter
  | group
  | aggregate
  | calculate
  | window
  | select
  | sort
  | join
  | during
  | limit
  deriving DecidableEq, Repr, Inhabited

namespace StageKind

/-- The name of a kind of stage. -/
def name : StageKind → String
  | .filter => "filter"
  | .group => "group"
  | .aggregate => "aggregate"
  | .calculate => "calculate"
  | .window => "window"
  | .select => "select"
  | .sort => "sort"
  | .join => "join"
  | .during => "during"
  | .limit => "limit"

/-- The words that open a stage, in lower case. -/
def words : List (String × StageKind) :=
  [("filter", .filter), ("where", .filter),
   ("group", .group), ("group_by", .group),
   ("aggregate", .aggregate), ("summarize", .aggregate), ("summarise", .aggregate),
   ("calculate", .calculate), ("mutate", .calculate),
   ("window", .window),
   ("select", .select),
   ("sort", .sort), ("arrange", .sort), ("order_by", .sort),
   ("join", .join),
   ("during", .during),
   ("limit", .limit), ("top", .limit)]

/-- The kind of stage that a word in lower case opens. -/
def ofName? (name : String) : Option StageKind :=
  (words.find? fun w => w.1 == name).map Prod.snd

end StageKind

/-- The columns that are known at a place of a pipeline: unknown source columns with the names
derived so far, or exactly the listed ones. -/
inductive Shape where
  | opened (derived : List String)
  | closed (columns : List String)
  deriving DecidableEq, Repr, Inhabited

namespace Shape

/-- A column of that name may be there. -/
def contains (name : String) : Shape → Bool
  | .opened _ => true
  | .closed columns => columns.contains name

/-- The shape with one more column. -/
def add (s : Shape) (name : String) : Shape :=
  match s with
  | .opened derived => .opened (derived ++ [name])
  | .closed columns => .closed (columns ++ [name])

end Shape

/-- A stage of a pipeline: its name as written, the shape before it, the names it reads and the
aliases it declares. -/
structure Stage where
  name : String
  kind : StageKind
  input : Shape
  references : List String
  defines : List String
  deriving DecidableEq, Repr, Inhabited

/-! ## Statements -/

/-- A statement. Only pipelines have stages. -/
structure Statement where
  pattern : Pattern
  source : String
  target : Option String := none
  operations : List Operation := []
  group : Option (List String) := none
  filter : Option Condition := none
  order : List OrderItem := []
  period : Option Period := none
  limit : Option Nat := none
  stages : List Stage := []
  deriving Inhabited, Repr

namespace Statement

/-- The aliases that the operations declare, in order. -/
def aliases (s : Statement) : List String :=
  s.operations.filterMap Operation.alias?

/-- The source and every joined source. -/
def sources (s : Statement) : List String :=
  s.source :: s.operations.filterMap Operation.joined?

/-- The number of operations and clauses. -/
def clauseCount (s : Statement) : Nat :=
  s.operations.length + s.group.isSome.toNat + s.filter.isSome.toNat +
    (!s.order.isEmpty).toNat + s.period.isSome.toNat + s.limit.isSome.toNat

/-- The statement with one more condition on its rows. -/
def addFilter (s : Statement) (c : Condition) : Statement :=
  { s with filter := some (match s.filter with
    | none => c
    | some old => .and [old, c]) }

end Statement

end DataPhrase
