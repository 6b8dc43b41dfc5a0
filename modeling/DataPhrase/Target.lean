/-
# Targets

The dialects that code is generated in.
-/
import DataPhrase.Text.Case

namespace DataPhrase

/-- A target dialect: relational queries, data frame pipes, or chains on tabular frames. -/
inductive Target where
  | sql
  | dataFramePipe
  | tabularFrame
  deriving DecidableEq, Repr, Inhabited

namespace Target

/-- Every target. -/
def all : List Target :=
  [.sql, .dataFramePipe, .tabularFrame]

/-- The name of a target. -/
def name : Target → String
  | .sql => "sql"
  | .dataFramePipe => "dataframe-pipe"
  | .tabularFrame => "tabular-frame"

/-- The target of the given name, in any case. -/
def ofName? (s : String) : Option Target :=
  all.find? fun t => Text.sameWord t.name.toList s.toList

/-- What is answered to a name that no target has. -/
def unknownMessage (s : String) : String :=
  "unknown target `" ++ s ++ "` (expected sql, dataframe-pipe or tabular-frame)"

end Target

/-! ## Tables by target -/

/-- At most one value for each target. -/
structure PerTarget (α : Type) where
  sql : Option α := none
  pipe : Option α := none
  frame : Option α := none
  deriving DecidableEq, Repr, Inhabited

namespace PerTarget

variable {α : Type}

/-- The value for a target. -/
def get (ts : PerTarget α) : Target → Option α
  | .sql => ts.sql
  | .dataFramePipe => ts.pipe
  | .tabularFrame => ts.frame

/-- The table with the value for a target replaced. -/
def set (ts : PerTarget α) (a : α) : Target → PerTarget α
  | .sql => { ts with sql := some a }
  | .dataFramePipe => { ts with pipe := some a }
  | .tabularFrame => { ts with frame := some a }

/-- The values with their targets, in the order of the targets. -/
def toList (ts : PerTarget α) : List (Target × α) :=
  Target.all.filterMap fun t => (ts.get t).map fun a => (t, a)

end PerTarget

end DataPhrase
