/-
# Aggregate and window functions

The functions that statements know by name, each with the words that call it.
-/
import DataPhrase.Number.Basic
import DataPhrase.Text.Case

namespace DataPhrase

/-! ## Aggregates -/

/-- A function of all the values of a group. A percentile carries its fraction. -/
inductive AggregateFn where
  | sum
  | avg
  | count
  | countDistinct
  | min
  | max
  | median
  | percentile (fraction : Number)
  deriving DecidableEq, Repr, Inhabited

namespace AggregateFn

/-- The words that call an aggregate, in lower case. -/
def words : List (String × AggregateFn) :=
  [("sum", .sum), ("total", .sum),
   ("avg", .avg), ("mean", .avg), ("average", .avg),
   ("count", .count),
   ("count_distinct", .countDistinct), ("n_distinct", .countDistinct),
   ("min", .min), ("minimum", .min),
   ("max", .max), ("maximum", .max),
   ("median", .median),
   ("percentile", .percentile (.ofDecimal 5 1))]

/-- The aggregate that a word in any case calls. The fraction of a percentile is filled in later. -/
def ofName? (name : String) : Option AggregateFn :=
  (words.find? fun w => Text.sameWord w.1.toList name.toList).map Prod.snd

/-- The name by which aliases are formed. -/
def name : AggregateFn → String
  | .sum => "sum"
  | .avg => "avg"
  | .count => "count"
  | .countDistinct => "count_distinct"
  | .min => "min"
  | .max => "max"
  | .median => "median"
  | .percentile _ => "percentile"

end AggregateFn

/-! ## Windows -/

/-- A function of a row and its neighbours. The two shifts carry their distance. -/
inductive WindowFn where
  | rowNumber
  | rank
  | denseRank
  | percentRank
  | cumulativeSum
  | lag (offset : Nat)
  | lead (offset : Nat)
  deriving DecidableEq, Repr, Inhabited

namespace WindowFn

/-- The words that call a window function, in lower case. -/
def words : List (String × WindowFn) :=
  [("row_number", .rowNumber), ("rank", .rank), ("dense_rank", .denseRank),
   ("percent_rank", .percentRank), ("cumsum", .cumulativeSum),
   ("cumulative_sum", .cumulativeSum), ("lag", .lag 1), ("lead", .lead 1)]

/-- The window function that a word in any case calls. -/
def ofName? (name : String) : Option WindowFn :=
  (words.find? fun w => Text.sameWord w.1.toList name.toList).map Prod.snd

/-- The name by which aliases are formed. -/
def name : WindowFn → String
  | .rowNumber => "row_number"
  | .rank => "rank"
  | .denseRank => "dense_rank"
  | .percentRank => "percent_rank"
  | .cumulativeSum => "cumsum"
  | .lag _ => "lag"
  | .lead _ => "lead"

/-- The function ranks rows and reads no field. -/
def isRanking : WindowFn → Bool
  | .rowNumber | .rank | .denseRank | .percentRank => true
  | .cumulativeSum | .lag _ | .lead _ => false

end WindowFn

end DataPhrase
