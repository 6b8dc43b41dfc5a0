/-
# The calls of the grammar

A call is what a reader may have to make again and again: the head of a loop, where the next round
begins, or a reader that comes back to itself inside parentheses, behind a minus or behind `not`.
Going along the characters of one lexeme is no call: it takes them one by one as they stand.

Here all readers are written once more as trials that get the answers to calls from outside and
know nothing of how calls are answered (`Calls`). Answering a call takes one turn of its loop, or
one entry into the reader, and leaves the further calls open; `Calls.within n` does so `n` deep and
then gives up.
-/
import DataPhrase.Proofs.Finishing.Trial
import DataPhrase.Proofs.Pipeline.Stages
import DataPhrase.Proofs.Statement.ClauseRun
import DataPhrase.Proofs.Statement.Question
import DataPhrase.Statement.Reader

namespace DataPhrase

open Text Lexeme

/-! ## Calls -/

/-- The loops and the recursive readers, with what they carry along. -/
inductive Call : Type → Type where
  | tokens (offset : Nat) : Call (Except SyntaxError (List Token))
  | word : Call (List Char)
  | group (depth : Nat) : Call (List Char)
  | dotted : Call (List Char)
  | fields : Call (List String)
  | expression : Call Expr
  | summands (left : Expr) : Call Expr
  | factors (left : Expr) : Call Expr
  | signed : Call Expr
  | arguments : Call (List Expr)
  | condition : Call Condition
  | alternatives : Call (List Condition)
  | conjuncts : Call (List Condition)
  | negation : Call Condition
  | sortKeys : Call (List OrderItem)
  | operations : Call (List Operation)
  | transformClauses (c : Transform.Clauses) : Call Transform.Clauses
  | stageOperations (accept : Item → Bool) (what : Expected) : Call (List Operation)
  | stages (d : Pipeline.Draft) : Call Pipeline.Draft
  | asked : Call (List Question.Asked)
  | keys : Call (List String)
  | questionClauses (c : Question.Clauses) : Call Question.Clauses

/-- The reader that answers a call. -/
def Call.reader : {α : Type} → Call α → Phrase α
  | _, .tokens offset => fun s => .done (Token.scan offset s) [] List.nil_suffix
  | _, .word => Token.wordRest
  | _, .group depth => Token.groupRest depth
  | _, .dotted => fun s => .ok (Lexeme.dotted s)
  | _, .fields => moreOf fieldName
  | _, .expression => Expr.read
  | _, .summands left => Expr.sumRest left
  | _, .factors left => Expr.productRest left
  | _, .signed => Expr.signed
  | _, .arguments => Expr.argumentsRest
  | _, .condition => Condition.read
  | _, .alternatives => Condition.alternatives
  | _, .conjuncts => Condition.conjunctionRest
  | _, .negation => Condition.negation
  | _, .sortKeys => moreOf OrderItem.read
  | _, .operations => moreOf Operation.read
  | _, .transformClauses c => Transform.Clauses.readAll c
  | _, .stageOperations accept what => Pipeline.operationsRest accept what
  | _, .stages d => Pipeline.readStages d
  | _, .asked => Question.askedRest
  | _, .keys => Question.keysRest
  | _, .questionClauses c => Question.Clauses.readAll c

/-- Answers to all calls. -/
structure Calls where
  call {α : Type} (k : Call α) : Trial α

namespace Calls

variable {α : Type} (R : Calls)

/-! ## Tokens -/

/-- The unbreakable piece that starts with `c`. -/
def piece (c : Char) (r : List Char) : Attempt (List Char) :=
  if Token.isQuote c then
    match Token.literalRest c r with
    | none => .stop .unterminatedString (c :: r)
    | some x => .done (c :: x.value) x.rest
  else if c = '(' then
    match R.call (.group 0) r with
    | .unfinished => .unfinished
    | .done v q => .done (c :: v) q
    | .stop e q => if e = .unbalancedParenthesis then .stop e (c :: r) else .stop e q
  else if c = ')' then .stop .unbalancedParenthesis (c :: r)
  else .done [c] r

/-- A round inside a group. -/
def groupTurn (depth : Nat) : Trial (List Char)
  | [] => .stop .unbalancedParenthesis []
  | c :: r =>
    if Token.isQuote c then
      match Token.literalRest c r with
      | none => .stop .unterminatedString (c :: r)
      | some x => ((c :: x.value ++ ·) <$> R.call (.group depth)) x.rest
    else if c = '(' then ((c :: ·) <$> R.call (.group (depth + 1))) r
    else if c = ')' then
      match depth with
      | 0 => .done [c] r
      | depth + 1 => ((c :: ·) <$> R.call (.group depth)) r
    else ((c :: ·) <$> R.call (.group depth)) r

/-- A round inside a word. -/
def wordTurn : Trial (List Char) := fun s =>
  if Token.atBreak s then .done [] s
  else
    match s with
    | [] => .done [] []
    | c :: r => (R.piece c r).andThen fun v => (v ++ ·) <$> R.call .word

/-- A word and whether it is exactly one literal. -/
def word (c : Char) (r : List Char) : Attempt (TokenKind × List Char) :=
  (R.piece c r).andThen fun v =>
    (fun w => (if Token.isQuote c && w.isEmpty then .text else .word, v ++ w)) <$> R.call .word

/-- A round of the tokens. -/
def tokensTurn (offset : Nat) : Trial (Except SyntaxError (List Token))
  | [] => .done (.ok []) []
  | '-' :: '>' :: r =>
    (Except.map (⟨.arrow, ['-', '>'], offset⟩ :: ·) <$> R.call (.tokens (offset + 2))) r
  | c :: r =>
    if isGap c then R.call (.tokens (offset + 1)) r
    else
      match R.word c r with
      | .unfinished => .unfinished
      | .stop e q => .done (.error ⟨e, offset + (byteCount (c :: r) - byteCount q)⟩) []
      | .done x q =>
        (Except.map (⟨x.1, x.2, offset⟩ :: ·) <$> R.call (.tokens (offset + byteCount x.2))) q

/-! ## Names and lists -/

/-- A round of the dotted rest of a name. -/
def dottedTurn : Trial (List Char)
  | '.' :: c :: r =>
    if isNameStart c then
      (('.' :: c :: r.takeWhile isNameChar ++ ·) <$> R.call .dotted) (r.dropWhile isNameChar)
    else .done [] ('.' :: c :: r)
  | s => .done [] s

/-- A name with any number of parts. -/
def fieldName : Trial String := do
  let first ← identifier
  let more ← R.call .dotted
  pure (first ++ String.ofList more)

/-- The name of a source or a target. -/
def datasetName : Trial String := do
  skipBlanks
  if (peekWord (← (Reader.look : Phrase _))).isEmpty then
    (expected .datasetName : Phrase String)
  else R.fieldName

/-- A round of a list: what `sep` parts from the items in front is read by `p`, and `more` goes on.
Behind the last item, `skip` is left. -/
def listTurn (sep : List Char → Option (List Char)) (skip : List Char → List Char) (p : Trial α)
    (more : Trial (List α)) : Trial (List α) := fun s =>
  match sep s with
  | none => .done [] (skip s)
  | some t => (do
      let a ← p
      let l ← more
      pure (a :: l) : Trial (List α)) t

/-- One or more field names parted by commas. -/
def fieldList : Trial (List String) := do
  let a ← R.fieldName
  let l ← R.call .fields
  pure (a :: l)

/-! ## Expressions -/

/-- The arguments of a call. -/
def arguments : Trial (List Expr) := fun s =>
  match trim s with
  | ')' :: t => .done [] (')' :: t)
  | '*' :: t => .done [.star] t
  | _ => (do
      let e ← R.call .expression
      let es ← R.call .arguments
      pure (e :: es) : Trial (List Expr)) s

/-- What a name that is no constant starts: a call or a field. -/
def named (name rest : List Char) : Attempt Expr :=
  match trim rest with
  | '(' :: u => (do
      let args ← R.arguments
      mark ")"
      pure (.call (String.ofList name) args) : Trial Expr) u
  | '.' :: d :: u =>
    if isNameStart d then
      .done (.field (some (String.ofList name)) (String.ofList (d :: u.takeWhile isNameChar)))
        (u.dropWhile isNameChar)
    else .done (.field none (String.ofList name)) ('.' :: d :: u)
  | q => .done (.field none (String.ofList name)) q

/-- An operand that starts with `c`. -/
def operand (c : Char) (t : List Char) : Attempt Expr :=
  if c = '(' then (do
    let e ← R.call .expression
    mark ")"
    pure e : Trial Expr) t
  else if Token.isQuote c then attempt ((Expr.quotedText (c :: t)).map .text)
  else if isDigit c then attempt ((Expr.decimal (c :: t)).map .number)
  else if isNameStart c then
    match Expr.constant? (c :: t.takeWhile isNameChar) with
    | some v => .done (.literal v) (t.dropWhile isNameChar)
    | none => R.named (c :: t.takeWhile isNameChar) (t.dropWhile isNameChar)
  else .stop (.unexpected (some .expression)) (c :: t)

/-- An operand with any number of minus signs. -/
def signed : Trial Expr := fun s =>
  match trim s with
  | [] => .stop (.unexpected (some .expression)) []
  | c :: t =>
    if Expr.sumSign? (c :: t) = some .subtract then
      match trim t with
      | [] => .stop (.unexpected (some .expression)) []
      | d :: u =>
        if isDigit d then attempt ((Expr.decimal (d :: u)).map fun x => .number x.neg)
        else (Expr.negate <$> R.call .signed) t
    else R.operand c t

/-- A product of signed operands. -/
def product : Trial Expr := do
  let left ← R.signed
  R.call (.factors left)

/-- A sum of products. -/
def expression : Trial Expr := do
  let left ← R.product
  R.call (.summands left)

/-- A round of operations that group to the left: where `sign?` finds a sign in front, `p` reads the
operand behind it. -/
def operationTurn (sign? : List Char → Option ArithOp) (p : Trial Expr) (more : Expr → Trial Expr)
    (left : Expr) : Trial Expr := fun s =>
  match trim s with
  | [] => .done left []
  | c :: t =>
    match sign? (c :: t) with
    | none => .done left (c :: t)
    | some op => (do
        let right ← p
        more (.binary op left right) : Trial Expr) t

/-! ## Conditions -/

/-- A comparison or a call. -/
def simple : Trial Condition := fun s =>
  (R.expression s).andThen fun left r =>
    match Condition.sign? (trim r) with
    | some (op, n) => (Condition.comparison left op <$> R.expression) ((trim r).drop n)
    | none =>
      match left with
      | .call name args => .done (.call name args) (trim r)
      | _ =>
        if (trim r).isEmpty || atWord "and" r || atWord "or" r then
          .stop (.unexpected (some .comparison)) (trim s)
        else .stop (.unexpected (some .comparison)) (trim r)

/-- A condition with any number of `not` in front. -/
def negation : Trial Condition := fun s =>
  match after? "not" s with
  | some r => (Condition.not <$> R.call .negation) r
  | none =>
    match trim s with
    | '(' :: t =>
      if Condition.groupAhead ('(' :: t) then (do
        let c ← R.call .condition
        mark ")"
        pure c : Trial Condition) t
      else R.simple s
    | _ => R.simple s

/-- Conditions parted by `and`. -/
def conjunction : Trial Condition := do
  let c ← R.negation
  let cs ← R.call .conjuncts
  pure (Condition.and (c :: cs))

/-- Alternatives parted by `or`. -/
def condition : Trial Condition := do
  let c ← R.conjunction
  let cs ← R.call .alternatives
  pure (Condition.or (c :: cs))

/-! ## Items -/

/-- A sort key with an optional direction. -/
def sortKey : Trial OrderItem := do
  let field ← R.fieldName
  if (← eatWord "desc") then pure ⟨field, .desc⟩
  else if (← eatWord "descending") then pure ⟨field, .desc⟩
  else if (← eatWord "asc") then pure ⟨field, .asc⟩
  else if (← eatWord "ascending") then pure ⟨field, .asc⟩
  else pure ⟨field, .asc⟩

/-- One or more sort keys. -/
def orderList : Trial (List OrderItem) := do
  let a ← R.sortKey
  let l ← R.call .sortKeys
  pure (a :: l)

/-- The partition keys and sort keys of a window. -/
def overClause : Trial (List String × List OrderItem) := do
  mark "("
  let partitionBy ←
    if (← eatWord "partition") then do
      keyword "by"
      R.fieldList
    else pure []
  let orderBy ←
    if (← eatWord "order") then do
      keyword "by"
      R.orderList
    else pure []
  mark ")"
  pure (partitionBy, orderBy)

/-- An item. -/
def item : Trial Item := do
  skipBlanks
  let item ← R.expression.refine fun e =>
    match Item.ofExpr e with
    | .ok item => .ok item
    | .error what => .error (.unexpected (some what))
  match item with
  | .window f e p o =>
    if (← eatWord "over") then do
      let (p, o) ← R.overClause
      pure (.window f e p o)
    else pure (.window f e p o)
  | item => pure item

/-- An item with its alias. -/
def operation : Trial Operation := do
  let item ← R.item
  let aliasName ← requiredAlias
  pure (item.named aliasName)

/-- One or more operations. -/
def operationList : Trial (List Operation) := do
  let a ← R.operation
  let l ← R.call .operations
  pure (a :: l)

/-- A period. -/
def period : Trial Period := do
  skipBlanks
  let ((alignment, amount, unit), text) ← (Reader.withText do
    let alignment ← Period.readAnchor
    let amount ← Period.readAmount alignment
    let unit ← Period.readUnit
    pure (alignment, amount, unit) : Phrase _)
  let field ← if (← eatWord "using") then R.fieldName else pure Period.defaultField
  pure ⟨String.ofList (normalizePhrase text), amount, unit, alignment, field⟩

/-! ## Clauses -/

/-- A round of the clauses of a statement. -/
def clauseTurn {C K : Type} (f : ClauseForm C K) (p : C → K → Trial C) (more : C → Trial C)
    (c : C) : Trial C := fun s =>
  if (trim s).isEmpty then .done c (trim s)
  else
    match wordAhead? s with
    | none => .stop (.unexpected (some f.what)) (trim s)
    | some (w, r) =>
      match f.kindOf? w with
      | none => .stop (.unexpected (some f.what)) (trim s)
      | some kind =>
        if f.has c kind then .stop .duplicateClause (trim s)
        else (do
          let d ← p c kind
          more d : Trial C) r

/-- A clause of a transform statement after its first word. -/
def transformClause (c : Transform.Clauses) : Transform.ClauseKind → Trial Transform.Clauses
  | .join => do
    keyword "with"
    let other ← R.datasetName
    keyword "on"
    let condition ← R.condition
    pure { c with joins := c.joins ++ [.join other condition] }
  | .operations => do
    let operations ← R.operationList
    pure { c with operations := some operations }
  | .group => do
    keyword "by"
    let fields ← R.fieldList
    pure { c with group := some fields }
  | .filter => do
    let condition ← R.condition
    pure { c with filter := some condition }
  | .order => do
    keyword "by"
    let order ← R.orderList
    pure { c with order := some order }
  | .select => do
    let fields ← R.fieldList
    pure { c with select := some fields }
  | .period => do
    let period ← R.period
    pure { c with period := some period }
  | .limit => do
    let n ← integer
    pure { c with limit := some n }

/-- A transform statement. -/
def transform : Trial Statement := do
  keyword "transform"
  let source ← R.datasetName
  keyword "to"
  let target ← R.datasetName
  let clauses ← R.call (.transformClauses {})
  pure (clauses.statement source target)

/-! ## Stages -/

/-- An item of the accepted kind with its alias. -/
def stageOperation (accept : Item → Bool) (what : Expected) : Trial Operation := do
  skipBlanks
  let item ← R.item.refine fun i =>
    if accept i then .ok i else .error (.unexpected (some what))
  let aliasName ← requiredAlias
  pure (item.named aliasName)

/-- The operations of a stage. -/
def stageOperations (accept : Item → Bool) (what : Expected) : Trial (List Operation) := do
  let first ← R.stageOperation accept what
  let rest ← R.call (.stageOperations accept what)
  pure (first :: rest)

/-- What stands in the parentheses of a stage. -/
def stageBody : StageKind → Trial Pipeline.StageBody
  | .filter => return .filter (← R.condition)
  | .group => return .group (← R.fieldList)
  | .aggregate => return .compute (← R.stageOperations Item.isAggregate .aggregateFunction)
  | .calculate => return .compute (← R.stageOperations (fun _ => true) .expression)
  | .window => return .compute (← R.stageOperations Item.isWindow .windowFunction)
  | .select => return .select (← R.fieldList)
  | .sort => return .sort (← R.orderList)
  | .join => do
    let other ← R.datasetName
    mark ","
    let condition ← R.condition
    return .join other condition
  | .during => return .during (← R.period)
  | .limit => return .limit (← (integer : Phrase Nat))

/-- A stage. -/
def stage (d : Pipeline.Draft) : Trial Pipeline.Draft := do
  skipBlanks
  let (name, kind) ← (Reader.refine (do
      let named ← Pipeline.stageName
      mark "("
      pure named) fun named =>
    if d.has named.2 then .error .duplicateClause else .ok named : Phrase _)
  let body ← R.stageBody kind
  mark ")"
  pure (d.push name kind body)

/-- A round of the stages of a pipeline. -/
def stagesTurn (d : Pipeline.Draft) : Trial Pipeline.Draft := fun s =>
  match trim s with
  | '-' :: '>' :: t => (do
      let d ← R.stage d
      R.call (.stages d) : Trial Pipeline.Draft) t
  | q => .done d q

/-- A pipeline. -/
def pipeline : Trial Statement := do
  let source ← R.datasetName
  skipBlanks
  match ← (Reader.look : Phrase _) with
  | '-' :: '>' :: _ =>
    let d ← R.call
      (.stages { statement := { pattern := .arrowPipeline, source := source } })
    if (← (Reader.look : Phrase _)).isEmpty then pure d.statement
    else (expected .arrowOrEnd : Phrase Statement)
  | _ => (expected (.word "->") : Phrase Statement)

/-! ## Questions -/

/-- The rest of an item after an aggregate that is followed by a field. -/
def spokenRest (word : List Char) (f : AggregateFn) : Trial Question.Asked := do
  let field ← R.fieldName
  let aliasName ← Question.optionalAlias
  let function := match f with
    | .percentile _ => .median
    | f => f
  let aliasName := aliasName.getD
    (String.ofList (lower word) ++ "_" ++ Question.shortName field)
  return .operation (.aggregate function (Question.fieldOf field) aliasName)

/-- An item of a question. -/
def asked : Trial Question.Asked := fun s =>
  match Question.spokenAhead? s with
  | some ((w, f), r) => R.spokenRest w f r
  | none =>
    Trial.refine (do
      let item ← R.item
      let aliasName ← Question.optionalAlias
      pure (item, aliasName)) Question.Asked.ofItem (trim s)

/-- A clause of a question after its first word. -/
def questionClause (c : Question.Clauses) : Question.ClauseKind → Trial Question.Clauses
  | .source => do
    let source ← R.datasetName
    pure { c with source := some source }
  | .group => do
    let first ← R.fieldName
    let rest ← R.call .keys
    pure { c with group := some (first :: rest) }
  | .filter => do
    let condition ← R.condition
    pure { c with filter := some condition }
  | .order => do
    keyword "by"
    let order ← R.orderList
    pure { c with order := some order }
  | .period => do
    let period ← R.period
    pure { c with period := some period }
  | .join => do
    keyword "with"
    let other ← R.datasetName
    keyword "on"
    let condition ← R.condition
    pure { c with joins := c.joins ++ [.join other condition] }

/-- A question. -/
def question : Trial Statement := do
  Question.readVerb
  let limit ← if (← eatWord "top") then do
      let n ← integer
      pure (some n)
    else pure none
  let first ← R.asked
  let rest ← R.call .asked
  let clauses ← R.call (.questionClauses {})
  match clauses.source with
  | some source => pure (Question.statement source limit (first :: rest) clauses)
  | none => (expected (.word "from") : Phrase Statement)

/-! ## Answering calls -/

/-- One turn: the answer to a call up to the calls it makes. -/
def turn : {α : Type} → Call α → Trial α
  | _, .tokens offset => R.tokensTurn offset
  | _, .word => R.wordTurn
  | _, .group depth => R.groupTurn depth
  | _, .dotted => R.dottedTurn
  | _, .fields => listTurn commaAfterGap id R.fieldName (R.call .fields)
  | _, .expression => R.expression
  | _, .summands left =>
    operationTurn Expr.sumSign? R.product (fun e => R.call (.summands e)) left
  | _, .factors left =>
    operationTurn Expr.productSign? R.signed (fun e => R.call (.factors e)) left
  | _, .signed => R.signed
  | _, .arguments => listTurn commaAfterGap id R.expression (R.call .arguments)
  | _, .condition => R.condition
  | _, .alternatives => listTurn (after? "or") id R.conjunction (R.call .alternatives)
  | _, .conjuncts => listTurn (after? "and") id R.negation (R.call .conjuncts)
  | _, .negation => R.negation
  | _, .sortKeys => listTurn commaAfterGap id R.sortKey (R.call .sortKeys)
  | _, .operations => listTurn commaAfterGap id R.operation (R.call .operations)
  | _, .transformClauses c =>
    clauseTurn Transform.Clauses.form R.transformClause (fun c => R.call (.transformClauses c)) c
  | _, .stageOperations accept what =>
    listTurn commaAfterBlanks trim (R.stageOperation accept what)
      (R.call (.stageOperations accept what))
  | _, .stages d => R.stagesTurn d
  | _, .asked => listTurn Question.itemSeparator trim R.asked (R.call .asked)
  | _, .keys => listTurn Question.keySeparator trim R.fieldName (R.call .keys)
  | _, .questionClauses c =>
    clauseTurn Question.Clauses.form R.questionClause (fun c => R.call (.questionClauses c)) c

/-- Calls that are answered as long as they are not nested more than `n` deep, each round of a loop
being nested in the one before. -/
def within : Nat → Calls
  | 0 => ⟨fun _ _ => .unfinished⟩
  | n + 1 => ⟨fun k => (within n).turn k⟩

/-- Calls that are answered on texts shorter than `n` and never come back on others. -/
def below (n : Nat) : Calls :=
  ⟨fun k s => if s.length < n then attempt (k.reader s) else .unfinished⟩

/-! ## Statements -/

/-- Read a whole text, if the reading comes to an end. -/
def whole (p : Trial α) (text : List Char) : Option (Except SyntaxError α) :=
  match p text with
  | .unfinished => none
  | .stop e r => some (.error ⟨e, offsetOf text r⟩)
  | .done a r =>
    some (if r.isEmpty then .ok a
      else .error ⟨.unexpected (some .endOfStatement), offsetOf text r⟩)

/-- The grammar of a surface form. -/
def grammar : Pattern → Trial Statement
  | .transformTo => R.transform
  | .arrowPipeline => R.pipeline
  | .naturalQuery => R.question

/-- The statement that a text makes, or none if the reading does not come to an end. -/
def parse (text : List Char) : Option (Except SyntaxError Statement) :=
  match R.tokensTurn 0 text with
  | .unfinished => none
  | .stop e r => some (.error ⟨e, offsetOf text r⟩)
  | .done (.error e) _ => some (.error e)
  | .done (.ok tokens) _ =>
    match Pattern.ofTokens? tokens with
    | none => some (.error ⟨.unclassifiable, (tokens.head?.map Token.offset).getD 0⟩)
    | some p => whole (R.grammar p) text

end Calls

end DataPhrase
