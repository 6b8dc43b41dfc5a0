/-
# Pipelines

A source followed by stages, each after an arrow. Every stage records the shape it is given: the
shape starts open, because the columns of the source are unknown, and is closed by a stage that
projects an exact list of columns.
-/
import DataPhrase.Statement.Item
import DataPhrase.Statement.Phrase

namespace DataPhrase.Pipeline

open Lexeme

/-! ## Items -/

/-- The names that an operation reads, in order, repeated ones included. -/
def reads : Operation → List String
  | .aggregate _ e _ => e.fieldNames
  | .calculate e _ => e.fieldNames
  | .window _ e partitionBy orderBy _ =>
    (e.map Expr.fieldNames).getD [] ++ partitionBy ++ orderBy.map OrderItem.field
  | .select _ | .join _ _ => []

/-- The names that a list of operations reads, each once, in the order of first mention. -/
def readsOf (ops : List Operation) : List String :=
  (ops.flatMap reads).foldl (fun names n => if names.contains n then names else names ++ [n]) []

/-- An item of the accepted kind with its alias. Another kind is reported at the item. -/
def operation (accept : Item → Bool) (what : Expected) : Phrase Operation := do
  skipBlanks
  let item ← Reader.refine Item.read fun i =>
    if accept i then .ok i else .error (.unexpected (some what))
  let aliasName ← requiredAlias
  pure (item.named aliasName)

/-- The further operations of a stage, each after a comma. -/
def operationsRest (accept : Item → Bool) (what : Expected) (s : List Char) :
    Outcome Cause s (List Operation) :=
  match h : trim s with
  | ',' :: t =>
    have ht : ',' :: t <:+ s := h ▸ trim_suffix s
    have := length_lt_of_cons_suffix ht
    ((operation accept what t).andThen fun op r hr =>
      have := hr.length_le
      (operationsRest accept what r).map (op :: ·)).widen (suffix_of_cons_suffix ht)
  | _ => .done [] (trim s) (trim_suffix s)
termination_by s.length

/-- The operations of a stage. -/
def operations (accept : Item → Bool) (what : Expected) : Phrase (List Operation) := do
  let first ← operation accept what
  let rest ← operationsRest accept what
  pure (first :: rest)

/-! ## Stages -/

/-- A stage as it is written: its name, its kind, and what stands in its parentheses. -/
inductive StageBody where
  | filter (condition : Condition)
  | group (fields : List String)
  | compute (operations : List Operation)
  | select (fields : List String)
  | sort (order : List OrderItem)
  | join (otherSource : String) (condition : Condition)
  | during (period : Period)
  | limit (n : Nat)

/-- Read what stands in the parentheses of a stage. -/
def readBody : StageKind → Phrase StageBody
  | .filter => return .filter (← (Condition.read : Phrase Condition))
  | .group => return .group (← fieldList)
  | .aggregate => return .compute (← operations Item.isAggregate .aggregateFunction)
  | .calculate => return .compute (← operations (fun _ => true) .expression)
  | .window => return .compute (← operations Item.isWindow .windowFunction)
  | .select => return .select (← fieldList)
  | .sort => return .sort (← orderList)
  | .join => do
    let other ← datasetName
    mark ","
    let condition ← Condition.read
    return .join other condition
  | .during => return .during (← Period.read)
  | .limit => return .limit (← integer)

/-- The names that a stage reads. -/
def StageBody.references : StageBody → List String
  | .filter c => c.fieldNames
  | .group fields => fields
  | .compute ops => readsOf ops
  | .select fields => fields
  | .sort order => order.map OrderItem.field
  | .join _ _ => []
  | .during p => [p.field]
  | .limit _ => []

/-- The aliases that a stage declares. -/
def StageBody.defines : StageBody → List String
  | .compute ops => ops.filterMap Operation.alias?
  | _ => []

/-- The shape after a stage, given the group keys so far and the shape before it. -/
def outputShape (group : Option (List String)) (kind : StageKind) (body : StageBody)
    (input : Shape) : Shape :=
  match kind, body with
  | .aggregate, b => .closed (group.getD [] ++ b.defines)
  | _, .compute ops => (ops.filterMap Operation.alias?).foldl Shape.add input
  | _, .select fields => .closed fields
  | _, .join _ _ =>
    match input with
    | .opened derived => .opened derived
    | .closed columns => .opened columns
  | _, _ => input

/-- The statement with the effect of a stage. -/
def StageBody.apply (st : Statement) : StageBody → Statement
  | .filter c => st.addFilter c
  | .group fields => { st with group := some fields }
  | .compute ops => { st with operations := st.operations ++ ops }
  | .select fields => { st with operations := st.operations ++ [.select fields] }
  | .sort order => { st with order := order }
  | .join other c => { st with operations := st.operations ++ [.join other c] }
  | .during p => { st with period := some p }
  | .limit n => { st with limit := some n }

/-- A pipeline that is being read: the statement so far and the shape after its last stage. -/
structure Draft where
  statement : Statement
  shape : Shape := .opened []

namespace Draft

/-- A stage that may appear only once is there already. -/
def has (d : Draft) : StageKind → Bool
  | .group => d.statement.group.isSome
  | .sort => !d.statement.order.isEmpty
  | .during => d.statement.period.isSome
  | .limit => d.statement.limit.isSome
  | _ => false

/-- The pipeline with one more stage. -/
def push (d : Draft) (name : String) (kind : StageKind) (body : StageBody) : Draft where
  statement :=
    let st := body.apply d.statement
    { st with stages := st.stages ++ [⟨name, kind, d.shape, body.references, body.defines⟩] }
  shape := outputShape d.statement.group kind body d.shape

end Draft

/-- The name of a stage, in lower case, with its kind. -/
def stageName : Phrase (String × StageKind) :=
  Reader.refine identifier fun name =>
    let name := String.ofList (Text.lower name.toList)
    match StageKind.ofName? name with
    | some kind => .ok (name, kind)
    | none => .error (.unexpected (some .stage))

/-- A stage. A repeated one is reported at its name. -/
def stage (d : Draft) : Phrase Draft := do
  skipBlanks
  let (name, kind) ← Reader.refine (do
      let named ← stageName
      mark "("
      pure named) fun named =>
    if d.has named.2 then .error .duplicateClause else .ok named
  let body ← readBody kind
  mark ")"
  pure (d.push name kind body)

/-- Read stages, each after an arrow. -/
def readStages (d : Draft) (s : List Char) : Outcome Cause s Draft :=
  match h : trim s with
  | '-' :: '>' :: t =>
    have ht : '-' :: '>' :: t <:+ s := h ▸ trim_suffix s
    have := length_lt_of_cons_suffix (suffix_of_cons_suffix ht)
    ((stage d t).andThen fun d r hr =>
      have := hr.length_le
      readStages d r).widen (suffix_of_cons_suffix (suffix_of_cons_suffix ht))
  | _ => .done d (trim s) (trim_suffix s)
termination_by s.length

/-! ## Statements -/

/-- A pipeline. -/
def read : Phrase Statement := do
  let source ← datasetName
  skipBlanks
  match ← Reader.look with
  | '-' :: '>' :: _ =>
    let d ← readStages { statement := { pattern := .arrowPipeline, source := source } }
    if (← Reader.look).isEmpty then pure d.statement else expected .arrowOrEnd
  | _ => expected (.word "->")

end DataPhrase.Pipeline
