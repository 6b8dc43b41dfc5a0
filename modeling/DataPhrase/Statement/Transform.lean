/-
# Transform statements

`transform S to T` followed by clauses in any order. Joins may be repeated, every other clause
appears at most once; a repeated one is reported at its first word.
-/
import DataPhrase.Statement.Item
import DataPhrase.Statement.Phrase

namespace DataPhrase.Transform

open Lexeme

/-! ## Clauses -/

/-- The kinds of clauses. -/
inductive ClauseKind where
  | join
  | operations
  | group
  | filter
  | order
  | select
  | period
  | limit
  deriving DecidableEq, Repr

/-- The first words of the clauses, in lower case. -/
def ClauseKind.words : List (String × ClauseKind) :=
  [("joined", .join), ("as", .operations), ("grouped", .group), ("where", .filter),
   ("ordered", .order), ("selecting", .select), ("during", .period), ("limit", .limit)]

/-- The clause that a word opens. -/
def ClauseKind.ofWord? (word : List Char) : Option ClauseKind :=
  (words.find? fun w => Text.sameWord word w.1.toList).map Prod.snd

/-- The clauses of a statement. -/
structure Clauses where
  joins : List Operation := []
  operations : Option (List Operation) := none
  group : Option (List String) := none
  filter : Option Condition := none
  order : Option (List OrderItem) := none
  select : Option (List String) := none
  period : Option Period := none
  limit : Option Nat := none

namespace Clauses

/-- A clause that may appear only once is there already. -/
def has (c : Clauses) : ClauseKind → Bool
  | .join => false
  | .operations => c.operations.isSome
  | .group => c.group.isSome
  | .filter => c.filter.isSome
  | .order => c.order.isSome
  | .select => c.select.isSome
  | .period => c.period.isSome
  | .limit => c.limit.isSome

/-- The statement with these clauses: joins first, then the other operations, then the selection. -/
def statement (c : Clauses) (source target : String) : Statement where
  pattern := .transformTo
  source := source
  target := some target
  operations := c.joins ++ c.operations.getD [] ++ (c.select.map Operation.select).toList
  group := c.group
  filter := c.filter
  order := c.order.getD []
  period := c.period
  limit := c.limit

/-- Read the clause of the given kind after its first word and add it. -/
def readClause (c : Clauses) : ClauseKind → Phrase Clauses
  | .join => do
    keyword "with"
    let other ← datasetName
    keyword "on"
    let condition ← Condition.read
    pure { c with joins := c.joins ++ [.join other condition] }
  | .operations => do
    let operations ← operationList
    pure { c with operations := some operations }
  | .group => do
    keyword "by"
    let fields ← fieldList
    pure { c with group := some fields }
  | .filter => do
    let condition ← Condition.read
    pure { c with filter := some condition }
  | .order => do
    keyword "by"
    let order ← orderList
    pure { c with order := some order }
  | .select => do
    let fields ← fieldList
    pure { c with select := some fields }
  | .period => do
    let period ← Period.read
    pure { c with period := some period }
  | .limit => do
    let n ← integer
    pure { c with limit := some n }

/-- Read clauses up to the end of the statement. -/
def readAll (c : Clauses) (s : List Char) : Outcome Cause s Clauses :=
  if (trim s).isEmpty then .done c (trim s) (trim_suffix s)
  else
    match nextWord s with
    | none => .stop (.unexpected (some .transformClause)) (trim s) (trim_suffix s)
    | some ⟨x, _⟩ =>
      match ClauseKind.ofWord? x.value with
      | none => .stop (.unexpected (some .transformClause)) (trim s) (trim_suffix s)
      | some kind =>
        if c.has kind then .stop .duplicateClause (trim s) (trim_suffix s)
        else
          ((c.readClause kind x.rest).andThen fun c r hr =>
            have := hr.length_le
            readAll c r).widen x.suffix
termination_by s.length

end Clauses

/-! ## Statements -/

/-- A transform statement. -/
def read : Phrase Statement := do
  keyword "transform"
  let source ← datasetName
  keyword "to"
  let target ← datasetName
  let clauses ← Clauses.readAll {}
  pure (clauses.statement source target)

end DataPhrase.Transform
