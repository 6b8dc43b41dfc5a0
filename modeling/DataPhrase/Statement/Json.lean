/-
# Statements as data

Every part of a statement is written as a data value and read back from one. How a number is
written is left to the caller; it is read from any number of a data file.
-/
import DataPhrase.Json.Basic
import DataPhrase.Statement.Basic

namespace DataPhrase

/-! ## Words -/

/-- Read a word of a list of words with their meanings; an object whose one field is the word with
null is read as the word. -/
def Json.wordOf? {α : Type} (words : List (String × α)) : Json → Option α
  | .text s => (words.find? fun w => w.1 == s).map Prod.snd
  | .object [(s, .null)] => (words.find? fun w => w.1 == s).map Prod.snd
  | _ => none

/-- Read a word inside of a value with a kind, where an empty object is as good as null. -/
def Json.innerWordOf? {α : Type} (words : List (String × α)) : Json → Option α
  | .object [(s, .object [])] => Json.wordOf? words (.text s)
  | v => v.wordOf? words

/-- The word for a meaning. -/
def Json.ofWord {α : Type} [DecidableEq α] (words : List (String × α)) (a : α) : Json :=
  .text (((words.find? fun w => w.2 = a).map Prod.fst).getD "")

/-- Read a field that may be missing or null. -/
def Json.optional? {α : Type} (read : Json → Option α) (name : String) (v : Json) :
    Option (Option α) :=
  match v.field? name with
  | none | some .null => some none
  | some w => (read w).map some

/-- Read a list of values. -/
def Json.list? {α : Type} (read : Json → Option α) (v : Json) : Option (List α) := do
  (← v.array?).mapM read

/-! ## Names of parts -/

/-- The names of the surface forms. -/
def Pattern.jsonWords : List (String × Pattern) :=
  [("transform_to", .transformTo), ("arrow_pipeline", .arrowPipeline),
   ("natural_query", .naturalQuery)]

/-- The names of the arithmetic operations. -/
def ArithOp.jsonWords : List (String × ArithOp) :=
  [("add", .add), ("subtract", .subtract), ("multiply", .multiply), ("divide", .divide),
   ("modulo", .modulo)]

/-- The names of the comparisons. -/
def CompareOp.jsonWords : List (String × CompareOp) :=
  [("eq", .eq), ("ne", .ne), ("lt", .lt), ("le", .le), ("gt", .gt), ("ge", .ge)]

/-- The names of the connectives. -/
def LogicalOp.jsonWords : List (String × LogicalOp) :=
  [("and", .and), ("or", .or)]

/-- The names of the directions. -/
def Direction.jsonWords : List (String × Direction) :=
  [("asc", .asc), ("desc", .desc)]

/-- The names of the units. -/
def TimeUnit.jsonWords : List (String × TimeUnit) :=
  all.map fun u => (u.name, u)

/-- The names of the alignments. -/
def Alignment.jsonWords : List (String × Alignment) :=
  [("calendar", .calendar), ("rolling", .rolling), ("to_date", .toDate)]

/-- The names of the kinds of stages. -/
def StageKind.jsonWords : List (String × StageKind) :=
  [StageKind.filter, .group, .aggregate, .calculate, .window, .select, .sort, .join, .during,
    .limit].map fun k => (k.name, k)

/-- The names of the aggregates without a parameter. -/
def AggregateFn.jsonWords : List (String × AggregateFn) :=
  [AggregateFn.sum, .avg, .count, .countDistinct, .min, .max, .median].map fun f => (f.name, f)

/-- The names of the window functions without a parameter. -/
def WindowFn.jsonWords : List (String × WindowFn) :=
  [("row_number", .rowNumber), ("rank", .rank), ("dense_rank", .denseRank),
   ("percent_rank", .percentRank), ("cumulative_sum", .cumulativeSum)]

/-! ## Writing -/

section Writing

variable (num : Number → Json)

/-- An aggregate function as data. -/
def AggregateFn.toJson : AggregateFn → Json
  | .percentile x => .object [("percentile", num x)]
  | f => Json.ofWord AggregateFn.jsonWords f

/-- A window function as data. -/
def WindowFn.toJson : WindowFn → Json
  | .lag n => .object [("lag", .nat n)]
  | .lead n => .object [("lead", .nat n)]
  | f => Json.ofWord WindowFn.jsonWords f

/-- A constant as data. -/
def Literal.toJson : Literal → Json
  | .number x => .object [("number", num x)]
  | .text s => .object [("text", .text s)]
  | .boolean b => .object [("boolean", .bool b)]
  | .null => .text "null"

mutual

/-- An expression as data. -/
def Expr.toJson : Expr → Json
  | .literal v => .object [("kind", .text "literal"), ("value", v.toJson num)]
  | .field q n =>
    .object [("kind", .text "field"), ("qualifier", Json.ofOption .text q), ("name", .text n)]
  | .metric s n => .object [("kind", .text "metric"), ("section", .text s), ("name", .text n)]
  | .call n args =>
    .object [("kind", .text "call"), ("name", .text n), ("args", .array (Expr.toJsonAll args))]
  | .binary op l r =>
    .object [("kind", .text "binary"), ("op", Json.ofWord ArithOp.jsonWords op),
      ("left", l.toJson), ("right", r.toJson)]
  | .negate e => .object [("kind", .text "negate"), ("operand", e.toJson)]
  | .star => .object [("kind", .text "star")]

/-- A list of expressions as data. -/
def Expr.toJsonAll : List Expr → List Json
  | [] => []
  | e :: r => e.toJson :: Expr.toJsonAll r

end

mutual

/-- A condition as data. -/
def Condition.toJson : Condition → Json
  | .comparison l op r =>
    .object [("kind", .text "comparison"), ("left", l.toJson num),
      ("op", Json.ofWord CompareOp.jsonWords op), ("right", r.toJson num)]
  | .logical op cs =>
    .object [("kind", .text "logical"), ("op", Json.ofWord LogicalOp.jsonWords op),
      ("children", .array (Condition.toJsonAll cs))]
  | .not c => .object [("kind", .text "not"), ("operand", c.toJson)]
  | .call n args =>
    .object [("kind", .text "function_call"), ("name", .text n),
      ("args", .array (Expr.toJsonAll num args))]

/-- A list of conditions as data. -/
def Condition.toJsonAll : List Condition → List Json
  | [] => []
  | c :: r => c.toJson :: Condition.toJsonAll r

end

/-- A sort key as data. -/
def OrderItem.toJson (o : OrderItem) : Json :=
  .object [("field", .text o.field), ("direction", Json.ofWord Direction.jsonWords o.direction)]

/-- An operation as data. -/
def Operation.toJson : Operation → Json
  | .aggregate f e a =>
    .object [("kind", .text "aggregate"), ("function", f.toJson num), ("field", e.toJson num),
      ("alias", .text a)]
  | .calculate e a =>
    .object [("kind", .text "calculate"), ("expression", e.toJson num), ("alias", .text a)]
  | .window f e p o a =>
    .object [("kind", .text "window"), ("function", f.toJson),
      ("field", Json.ofOption (Expr.toJson num) e), ("partition_by", Json.texts p),
      ("order_by", Json.ofList OrderItem.toJson o), ("alias", .text a)]
  | .select fields => .object [("kind", .text "select"), ("fields", Json.texts fields)]
  | .join s c =>
    .object [("kind", .text "join"), ("other_source", .text s), ("condition", c.toJson num)]

/-- A period as data. -/
def Period.toJson (p : Period) : Json :=
  .object [("phrase", .text p.phrase), ("amount", .nat p.amount),
    ("unit", Json.ofWord TimeUnit.jsonWords p.unit),
    ("alignment", Json.ofWord Alignment.jsonWords p.alignment), ("field", .text p.field)]

/-- A shape as data. -/
def Shape.toJson : Shape → Json
  | .opened derived => .object [("kind", .text "open"), ("derived", Json.texts derived)]
  | .closed columns => .object [("kind", .text "closed"), ("columns", Json.texts columns)]

/-- A stage as data. -/
def Stage.toJson (s : Stage) : Json :=
  .object [("name", .text s.name), ("kind", Json.ofWord StageKind.jsonWords s.kind),
    ("input", s.input.toJson), ("references", Json.texts s.references),
    ("defines", Json.texts s.defines)]

/-- A statement as data. Stages are left out where there are none. -/
def Statement.toJson (s : Statement) : Json :=
  .object ([("pattern", Json.ofWord Pattern.jsonWords s.pattern), ("source", .text s.source),
    ("target", Json.ofOption .text s.target),
    ("operations", Json.ofList (Operation.toJson num) s.operations),
    ("group_clause", Json.ofOption Json.texts s.group),
    ("filter_clause", Json.ofOption (Condition.toJson num) s.filter),
    ("order_clause", Json.ofList OrderItem.toJson s.order),
    ("period", Json.ofOption Period.toJson s.period),
    ("limit", Json.ofOption Json.nat s.limit)] ++
    if s.stages.isEmpty then [] else [("stages", Json.ofList Stage.toJson s.stages)])

end Writing

/-! ## Reading -/

/-- Read an aggregate function. -/
def AggregateFn.ofJson? : Json → Option AggregateFn
  | .object [("percentile", v)] => v.number?.map .percentile
  | v => v.innerWordOf? AggregateFn.jsonWords

/-- Read a window function. -/
def WindowFn.ofJson? : Json → Option WindowFn
  | .object [("lag", v)] => (v.natUpTo? Json.maxHalfWord).map .lag
  | .object [("lead", v)] => (v.natUpTo? Json.maxHalfWord).map .lead
  | v => v.innerWordOf? WindowFn.jsonWords

/-- Read a constant. -/
def Literal.ofJson? : Json → Option Literal
  | .object [("number", v)] => v.number?.map .number
  | .object [("text", v)] => v.text?.map .text
  | .object [("boolean", v)] => v.bool?.map .boolean
  | v => v.innerWordOf? [("null", .null)]

theorem Json.exists_mem_of_lookup {name : String} {fields : List (String × Json)} {v : Json}
    (h : Json.lookup name fields = some v) : ∃ k, (k, v) ∈ fields := by
  unfold Json.lookup at h
  rw [Option.map_eq_some_iff] at h
  obtain ⟨f, hf, rfl⟩ := h
  exact ⟨f.1, List.mem_reverse.1 (List.mem_of_find?_eq_some hf)⟩

theorem Json.sizeOf_lookup {name : String} {fields : List (String × Json)} {v : Json}
    (h : Json.lookup name fields = some v) : sizeOf v < sizeOf fields := by
  obtain ⟨k, hk⟩ := Json.exists_mem_of_lookup h
  have := List.sizeOf_lt_of_mem hk
  simp only [Prod.mk.sizeOf_spec] at this
  omega

/-- A field of a value with a kind is smaller than the value. -/
theorem Json.sizeOf_field {kinds : Json.Kinds} {inside : Bool} {v o w : Json} {tag name : String}
    (h : v.kind? kinds inside = some (tag, o)) (hw : o.field? name = some w) :
    sizeOf w < sizeOf v := by
  unfold Json.kind? at h
  split at h
  · simp only [Option.bind_eq_bind, Option.bind_eq_some_iff, Option.some.injEq, Prod.mk.injEq] at h
    obtain ⟨_, _, _, _, _, rfl⟩ := h
    have := Json.sizeOf_lookup hw
    simp only [Json.object.sizeOf_spec]
    omega
  · next vs =>
    simp only [Option.bind_eq_bind, Option.bind_eq_some_iff] at h
    obtain ⟨k, _, hk⟩ := h
    split at hk
    · simp only [Option.some.injEq, Prod.mk.injEq] at hk
      obtain ⟨_, rfl⟩ := hk
      obtain ⟨n, hn⟩ := Json.exists_mem_of_lookup hw
      have := List.sizeOf_lt_of_mem (List.of_mem_zip hn).2
      simp only [Json.array.sizeOf_spec, List.cons.sizeOf_spec]
      omega
    · simp at hk
  · simp at h

theorem Json.sizeOf_array {v : Json} {xs : List Json} (h : v.array? = some xs) :
    sizeOf xs < sizeOf v := by
  unfold Json.array? at h
  split at h
  · simp only [Option.some.injEq] at h
    subst h
    simp only [Json.array.sizeOf_spec]
    omega
  · simp at h

/-- The kinds of expressions. -/
def Expr.kinds : Json.Kinds :=
  [("literal", ["value"]), ("field", ["qualifier", "name"]), ("metric", ["section", "name"]),
   ("call", ["name", "args"]), ("binary", ["op", "left", "right"]), ("negate", ["operand"]),
   ("star", [])]

mutual

/-- Read an expression, which always stands inside of a value with a kind. -/
def Expr.ofJson? (v : Json) : Option Expr :=
  match h : v.kind? Expr.kinds true with
  | some ("literal", o) => do .literal <$> Literal.ofJson? (← o.field? "value")
  | some ("field", o) => do
    let q ← o.optional? Json.text? "qualifier"
    let n ← (← o.field? "name").text?
    some (.field q n)
  | some ("metric", o) => do
    let s ← (← o.field? "section").text?
    let n ← (← o.field? "name").text?
    some (.metric s n)
  | some ("call", o) =>
    match hw : o.field? "args" with
    | none => none
    | some w =>
      match hx : w.array? with
      | none => none
      | some xs => do
        have := Json.sizeOf_field h hw
        have := Json.sizeOf_array hx
        let n ← (← o.field? "name").text?
        let args ← Expr.ofJsonAll? xs
        some (.call n args)
  | some ("binary", o) =>
    match hl : o.field? "left", hr : o.field? "right" with
    | some l, some r => do
      have := Json.sizeOf_field h hl
      have := Json.sizeOf_field h hr
      let op ← (← o.field? "op").innerWordOf? ArithOp.jsonWords
      let l ← Expr.ofJson? l
      let r ← Expr.ofJson? r
      some (.binary op l r)
    | _, _ => none
  | some ("negate", o) =>
    match hw : o.field? "operand" with
    | none => none
    | some w =>
      have := Json.sizeOf_field h hw
      (Expr.ofJson? w).map .negate
  | some ("star", _) => some .star
  | _ => none
termination_by sizeOf v

/-- Read a list of expressions. -/
def Expr.ofJsonAll? (vs : List Json) : Option (List Expr) :=
  match vs with
  | [] => some []
  | v :: r => do
    let e ← Expr.ofJson? v
    let es ← Expr.ofJsonAll? r
    some (e :: es)
termination_by sizeOf vs

end

/-- The kinds of conditions. -/
def Condition.kinds : Json.Kinds :=
  [("comparison", ["left", "op", "right"]), ("logical", ["op", "children"]), ("not", ["operand"]),
   ("function_call", ["name", "args"])]

mutual

/-- Read a condition, which may stand inside of a value with a kind. -/
def Condition.ofJson? (inside : Bool) (v : Json) : Option Condition :=
  match h : v.kind? Condition.kinds inside with
  | some ("comparison", o) => do
    let l ← Expr.ofJson? (← o.field? "left")
    let op ← (← o.field? "op").innerWordOf? CompareOp.jsonWords
    let r ← Expr.ofJson? (← o.field? "right")
    some (.comparison l op r)
  | some ("logical", o) =>
    match hw : o.field? "children" with
    | none => none
    | some w =>
      match hx : w.array? with
      | none => none
      | some xs => do
        have := Json.sizeOf_field h hw
        have := Json.sizeOf_array hx
        let op ← (← o.field? "op").innerWordOf? LogicalOp.jsonWords
        let cs ← Condition.ofJsonAll? xs
        some (.logical op cs)
  | some ("not", o) =>
    match hw : o.field? "operand" with
    | none => none
    | some w =>
      have := Json.sizeOf_field h hw
      (Condition.ofJson? true w).map .not
  | some ("function_call", o) => do
    let n ← (← o.field? "name").text?
    let args ← (← o.field? "args").list? Expr.ofJson?
    some (.call n args)
  | _ => none
termination_by sizeOf v

/-- Read a list of conditions inside of another. -/
def Condition.ofJsonAll? (vs : List Json) : Option (List Condition) :=
  match vs with
  | [] => some []
  | v :: r => do
    let c ← Condition.ofJson? true v
    let cs ← Condition.ofJsonAll? r
    some (c :: cs)
termination_by sizeOf vs

end

/-- Read a sort key, whose direction is read by `direction`. -/
def OrderItem.ofJson? (direction : Json → Option Direction) (v : Json) : Option OrderItem := do
  let v := v.withFields ["field", "direction"] 2
  let field ← (← v.field? "field").text?
  let direction ← direction (← v.field? "direction")
  some ⟨field, direction⟩

/-- The kinds of operations. -/
def Operation.kinds : Json.Kinds :=
  [("aggregate", ["function", "field", "alias"]), ("calculate", ["expression", "alias"]),
   ("window", ["function", "field", "partition_by", "order_by", "alias"]), ("select", ["fields"]),
   ("join", ["other_source", "condition"])]

/-- Read an operation. -/
def Operation.ofJson? (v : Json) : Option Operation :=
  match v.kind? Operation.kinds false with
  | some ("aggregate", o) => do
    let f ← AggregateFn.ofJson? (← o.field? "function")
    let e ← Expr.ofJson? (← o.field? "field")
    let a ← (← o.field? "alias").text?
    some (.aggregate f e a)
  | some ("calculate", o) => do
    let e ← Expr.ofJson? (← o.field? "expression")
    let a ← (← o.field? "alias").text?
    some (.calculate e a)
  | some ("window", o) => do
    let f ← WindowFn.ofJson? (← o.field? "function")
    let e ← o.optional? Expr.ofJson? "field"
    let p ← (← o.field? "partition_by").texts?
    let keys ← (← o.field? "order_by").list?
      (OrderItem.ofJson? (Json.innerWordOf? Direction.jsonWords))
    let a ← (← o.field? "alias").text?
    some (.window f e p keys a)
  | some ("select", o) => do
    let fields ← (← o.field? "fields").texts?
    some (.select fields)
  | some ("join", o) => do
    let s ← (← o.field? "other_source").text?
    let c ← Condition.ofJson? true (← o.field? "condition")
    some (.join s c)
  | _ => none

/-- Read a period. -/
def Period.ofJson? (v : Json) : Option Period := do
  let v := v.withFields ["phrase", "amount", "unit", "alignment", "field"] 5
  let phrase ← (← v.field? "phrase").text?
  let amount ← (← v.field? "amount").natUpTo? Json.maxHalfWord
  let unit ← (← v.field? "unit").wordOf? TimeUnit.jsonWords
  let alignment ← (← v.field? "alignment").wordOf? Alignment.jsonWords
  let field ← (← v.field? "field").text?
  some ⟨phrase, amount, unit, alignment, field⟩

/-- Read a shape. -/
def Shape.ofJson? (v : Json) : Option Shape :=
  match v.kind? [("open", ["derived"]), ("closed", ["columns"])] false with
  | some ("open", o) => do .opened <$> (← o.field? "derived").texts?
  | some ("closed", o) => do .closed <$> (← o.field? "columns").texts?
  | _ => none

/-- Read a stage. -/
def Stage.ofJson? (v : Json) : Option Stage := do
  let v := v.withFields ["name", "kind", "input", "references", "defines"] 5
  let name ← (← v.field? "name").text?
  let kind ← (← v.field? "kind").wordOf? StageKind.jsonWords
  let input ← Shape.ofJson? (← v.field? "input")
  let references ← (← v.field? "references").texts?
  let defines ← (← v.field? "defines").texts?
  some ⟨name, kind, input, references, defines⟩

/-- Read a statement. Options and stages may be missing from an object, stages also from an
array. -/
def Statement.ofJson? (v : Json) : Option Statement := do
  let v := v.withFields ["pattern", "source", "target", "operations", "group_clause",
    "filter_clause", "order_clause", "period", "limit", "stages"] 9
  let pattern ← (← v.field? "pattern").wordOf? Pattern.jsonWords
  let source ← (← v.field? "source").text?
  let target ← v.optional? Json.text? "target"
  let operations ← (← v.field? "operations").list? Operation.ofJson?
  let group ← v.optional? Json.texts? "group_clause"
  let filter ← v.optional? (Condition.ofJson? false) "filter_clause"
  let order ← (← v.field? "order_clause").list?
    (OrderItem.ofJson? (Json.wordOf? Direction.jsonWords))
  let period ← v.optional? Period.ofJson? "period"
  let limit ← v.optional? (Json.natUpTo? Json.maxFullWord) "limit"
  let stages ← match v.field? "stages" with
    | none => some []
    | some w => w.list? Stage.ofJson?
  some { pattern, source, target, operations, group, filter, order, period, limit, stages }

end DataPhrase
