/-
# Questions

A verb, items, and clauses in any order: `show total revenue by region from Sales`. A bare field is
summed when the question groups by other fields, and selected when it does not group.
-/
import DataPhrase.Statement.Item
import DataPhrase.Statement.Phrase

namespace DataPhrase.Question

open Text Lexeme

/-! ## Words -/

/-- The verbs that open a question, in lower case. -/
def verbs : List String :=
  ["show", "calculate", "compare", "find"]

/-- The word is one of a list of words in lower case. -/
def isOneOf (words : List String) (word : List Char) : Bool :=
  words.any fun w => sameWord word w.toList

/-- The words that end an item and open something else. -/
def clauseWords : List String :=
  ["from", "by", "per", "across", "where", "order", "ordered", "sorted", "sort", "for", "during",
   "over", "in", "joined", "and", "as"]

/-! ## Items -/

/-- An item before the grouping is known: an operation, or a field that stands alone. -/
inductive Asked where
  | operation (op : Operation)
  | bare (name : String)

/-- The last part of a dotted name. -/
def shortName (name : String) : String :=
  String.ofList (name.toList.reverse.takeWhile (· != '.')).reverse

/-- The field that a dotted name denotes: what stands before the first point is its qualifier. -/
def fieldOf (name : String) : Expr :=
  match name.toList.dropWhile (· != '.') with
  | [] => .plain name
  | _ :: rest =>
    .field (some (String.ofList (name.toList.takeWhile (· != '.')))) (String.ofList rest)

/-- The alias of an item that is given none. -/
def defaultAlias (function : String) (field : Expr) : String :=
  if field.isStar then function ++ "_all"
  else
    match field.fieldNames with
    | [] => function
    | names => function ++ "_" ++ "_".intercalate names

/-- An alias after `as`, if there is one. -/
def optionalAlias : Phrase (Option String) := do
  if (← eatWord "as") then return some (← identifier) else return none

/-- An aggregate in front that is followed by a field instead of parentheses, with its word. -/
def spokenAggregate? (s : List Char) : Option (Read s (List Char × AggregateFn)) :=
  match nextWord s with
  | none => none
  | some ⟨x, _⟩ =>
    match AggregateFn.ofName? (String.ofList x.value) with
    | none => none
    | some f =>
      let next := peekWord x.rest
      if next.isEmpty || isOneOf clauseWords next then none
      else some (x.map fun word => (word, f))

/-- The rest of an item such as `total revenue`, after the aggregate `word`. -/
def spokenRest (word : List Char) (f : AggregateFn) : Phrase Asked := do
  let field ← fieldName
  let aliasName ← optionalAlias
  let function := match f with
    | .percentile _ => .median
    | f => f
  let aliasName := aliasName.getD (String.ofList (lower word) ++ "_" ++ shortName field)
  return .operation (.aggregate function (fieldOf field) aliasName)

/-- What an item with an optional alias asks for. A calculation needs its alias. -/
def Asked.ofItem : Item × Option String → Except Cause Asked
  | (item, some aliasName) => .ok (.operation (item.named aliasName))
  | (.calculate (.field none name), none) => .ok (.bare name)
  | (.calculate (.field (some q) name), none) => .ok (.bare (q ++ "." ++ name))
  | (.calculate _, none) => .error (.unexpected (some .calculatedAlias))
  | (.aggregate f e, none) => .ok (.operation (.aggregate f e (defaultAlias f.name e)))
  | (.window f e p o, none) =>
    .ok (.operation (.window f e p o (match e with
      | some e => defaultAlias f.name e
      | none => f.name)))

/-- An item of a question. -/
def asked (s : List Char) : Outcome Cause s Asked :=
  match spokenAggregate? s with
  | some x => (spokenRest x.value.1 x.value.2 x.rest).widen x.suffix
  | none =>
    (Reader.refine (do
      let item ← Item.read
      let aliasName ← optionalAlias
      pure (item, aliasName)) Asked.ofItem (trim s)).widen (trim_suffix s)

/-- The further items of a question, each after a comma or `and`. -/
def askedRest (s : List Char) : Outcome Cause s (List Asked) :=
  match h : trim s with
  | ',' :: t =>
    have ht : ',' :: t <:+ s := h ▸ trim_suffix s
    have := length_lt_of_cons_suffix ht
    ((asked t).andThen fun a r hr =>
      have := hr.length_le
      (askedRest r).map (a :: ·)).widen (suffix_of_cons_suffix ht)
  | _ =>
    match nextWord s with
    | none => .done [] (trim s) (trim_suffix s)
    | some ⟨x, _⟩ =>
      if sameWord x.value "and".toList then
        ((asked x.rest).andThen fun a r hr =>
          have := hr.length_le
          (askedRest r).map (a :: ·)).widen x.suffix
      else .done [] (trim s) (trim_suffix s)
termination_by s.length

/-! ## Clauses -/

/-- Further group keys, each after a comma or after an `and` that is not followed by a clause. -/
def keysRest (s : List Char) : Outcome Cause s (List String) :=
  match h : trim s with
  | ',' :: t =>
    have ht : ',' :: t <:+ s := h ▸ trim_suffix s
    have := length_lt_of_cons_suffix ht
    ((fieldName t).andThen fun a r hr =>
      have := hr.length_le
      (keysRest r).map (a :: ·)).widen (suffix_of_cons_suffix ht)
  | _ =>
    match nextWord s with
    | none => .done [] (trim s) (trim_suffix s)
    | some ⟨x, _⟩ =>
      let next := peekWord x.rest
      if sameWord x.value "and".toList && !next.isEmpty && !isOneOf clauseWords next then
        ((fieldName x.rest).andThen fun a r hr =>
          have := hr.length_le
          (keysRest r).map (a :: ·)).widen x.suffix
      else .done [] (trim s) (trim_suffix s)
termination_by s.length

/-- The kinds of clauses. -/
inductive ClauseKind where
  | source
  | group
  | filter
  | order
  | period
  | join
  deriving DecidableEq, Repr

/-- The first words of the clauses, in lower case. -/
def ClauseKind.words : List (String × ClauseKind) :=
  [("from", .source), ("by", .group), ("per", .group), ("across", .group), ("where", .filter),
   ("order", .order), ("ordered", .order), ("sorted", .order), ("sort", .order),
   ("for", .period), ("during", .period), ("over", .period), ("in", .period), ("joined", .join)]

/-- The clause that a word opens. -/
def ClauseKind.ofWord? (word : List Char) : Option ClauseKind :=
  (words.find? fun w => sameWord word w.1.toList).map Prod.snd

/-- The clauses of a question. -/
structure Clauses where
  joins : List Operation := []
  source : Option String := none
  group : Option (List String) := none
  filter : Option Condition := none
  order : Option (List OrderItem) := none
  period : Option Period := none

namespace Clauses

/-- A clause that may appear only once is there already. -/
def has (c : Clauses) : ClauseKind → Bool
  | .source => c.source.isSome
  | .group => c.group.isSome
  | .filter => c.filter.isSome
  | .order => c.order.isSome
  | .period => c.period.isSome
  | .join => false

/-- Read the clause of the given kind after its first word and add it. -/
def readClause (c : Clauses) : ClauseKind → Phrase Clauses
  | .source => do
    let source ← datasetName
    pure { c with source := some source }
  | .group => do
    let first ← fieldName
    let rest ← keysRest
    pure { c with group := some (first :: rest) }
  | .filter => do
    let condition ← Condition.read
    pure { c with filter := some condition }
  | .order => do
    keyword "by"
    let order ← orderList
    pure { c with order := some order }
  | .period => do
    let period ← Period.read
    pure { c with period := some period }
  | .join => do
    keyword "with"
    let other ← datasetName
    keyword "on"
    let condition ← Condition.read
    pure { c with joins := c.joins ++ [.join other condition] }

/-- Read clauses up to the end of the statement. -/
def readAll (c : Clauses) (s : List Char) : Outcome Cause s Clauses :=
  if (trim s).isEmpty then .done c (trim s) (trim_suffix s)
  else
    match nextWord s with
    | none => .stop (.unexpected (some .queryClause)) (trim s) (trim_suffix s)
    | some ⟨x, _⟩ =>
      match ClauseKind.ofWord? x.value with
      | none => .stop (.unexpected (some .queryClause)) (trim s) (trim_suffix s)
      | some kind =>
        if c.has kind then .stop .duplicateClause (trim s) (trim_suffix s)
        else
          ((c.readClause kind x.rest).andThen fun c r hr =>
            have := hr.length_le
            readAll c r).widen x.suffix
termination_by s.length

end Clauses

/-! ## Statements -/

/-- The operations that an item stands for under the given group keys. A bare field is a sum unless
it is a key itself. -/
def Asked.operations (group : Option (List String)) : Asked → List Operation
  | .operation op => [op]
  | .bare name =>
    match group with
    | none => []
    | some keys =>
      if keys.contains name then [] else [.aggregate .sum (fieldOf name) (shortName name)]

/-- What an item adds to the selection of a question that does not group. -/
def Asked.selected : Asked → List String
  | .operation op => op.alias?.toList
  | .bare name => [name]

/-- The item is a bare field. -/
def Asked.isBare : Asked → Bool
  | .bare _ => true
  | .operation _ => false

/-- The selection of a question: only one with bare fields and without groups has one. -/
def selection (group : Option (List String)) (items : List Asked) : List Operation :=
  if group.isNone ∧ items.any Asked.isBare then [.select (items.flatMap Asked.selected)] else []

/-- The alias of the first aggregate. -/
def firstAggregate? (ops : List Operation) : Option String :=
  ops.findSome? fun
    | .aggregate _ _ aliasName => some aliasName
    | _ => none

/-- The order of a question: as given, or, where only a number of rows is given, by the first
aggregate from the top. -/
def orderOf (order : Option (List OrderItem)) (limit : Option Nat) (ops : List Operation) :
    List OrderItem :=
  match order, limit with
  | some keys, _ => keys
  | none, none => []
  | none, some _ => ((firstAggregate? ops).map fun aliasName => ⟨aliasName, .desc⟩).toList

/-- The statement that a question makes. -/
def statement (source : String) (limit : Option Nat) (items : List Asked) (c : Clauses) :
    Statement :=
  let ops := c.joins ++ items.flatMap (Asked.operations c.group) ++ selection c.group items
  { pattern := .naturalQuery
    source := source
    operations := ops
    group := c.group
    filter := c.filter
    order := orderOf c.order limit ops
    period := c.period
    limit := limit }

/-- The verb. -/
def readVerb : Phrase Unit := fun s =>
  match nextWord s with
  | none => .stop (.unexpected (some .queryVerb)) (trim s) (trim_suffix s)
  | some x =>
    if isOneOf verbs x.1.value then .ok (x.1.map fun _ => ())
    else .stop (.unexpected (some .queryVerb)) (trim s) (trim_suffix s)

/-- A question. -/
def read : Phrase Statement := do
  readVerb
  let limit ← if (← eatWord "top") then do
      let n ← integer
      pure (some n)
    else pure none
  let first ← asked
  let rest ← askedRest
  let clauses ← Clauses.readAll {}
  match clauses.source with
  | some source => pure (statement source limit (first :: rest) clauses)
  | none => expected (.word "from")

end DataPhrase.Question
