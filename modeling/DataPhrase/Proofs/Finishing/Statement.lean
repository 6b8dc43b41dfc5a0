/-
# Reading comes to its end

One turn of any call, on any text, comes to its end as the reader does while only calls on shorter
texts come back to it. So calls nested as deep as the text is long are enough to read any
statement.
-/
import DataPhrase.Proofs.Finishing.Turns

namespace DataPhrase

open Text Lexeme Trial

namespace Calls

variable {R : Calls} {n : Nat}

/-! ## Items -/

/-- Sort keys are read with the answers as without them. -/
theorem agrees_sortKey (hR : R.Settles n) : Agrees (n + 1) R.sortKey OrderItem.read := by
  refine (agrees_fieldName hR).bind fun field => (agrees_lift _ _).bind fun _ => ?_
  refine (agrees_pure _ _).ite ((agrees_lift _ _).bind fun _ => ?_)
  refine (agrees_pure _ _).ite ((agrees_lift _ _).bind fun _ => ?_)
  refine (agrees_pure _ _).ite ((agrees_lift _ _).bind fun _ => ?_)
  exact (agrees_pure _ _).ite (agrees_pure _ _)

theorem agrees_orderList (hR : R.Settles n) : Agrees (n + 1) R.orderList DataPhrase.orderList :=
  agrees_listOf consumes_orderItem (agrees_sortKey hR) (hR .sortKeys)

/-- A list behind two words that may be left out with it. -/
theorem agrees_optional {α β : Type} {w : String} {p : Trial (List α)} {q : Phrase (List α)}
    {f : List α → Trial β} {g : List α → Phrase β} (hp : Agrees n p q)
    (hf : ∀ l, Agrees n (f l) (g l)) :
    Agrees n
      (do
        if (← eatWord w) then do
          keyword "by"
          let l ← p
          f l
        else do
          let l ← pure []
          f l)
      (do
        if (← eatWord w) then do
          keyword "by"
          let l ← q
          g l
        else do
          let l ← pure []
          g l) :=
  (agrees_lift _ _).bind fun _ =>
    ((agrees_lift _ _).bind fun _ => hp.bind hf).ite ((agrees_pure _ _).bind hf)

/-- The parentheses behind `over` are read with the answers as without them. -/
theorem agrees_overClause (hR : R.Settles n) : Agrees (n + 1) R.overClause Item.overClause :=
  (agrees_lift _ _).bind fun _ => agrees_optional (agrees_fieldList hR) fun _ =>
    agrees_optional (agrees_orderList hR) fun _ => (agrees_lift _ _).bind fun _ => agrees_pure _ _

/-- Items are read with the answers as without them. -/
theorem agrees_item (hR : R.Settles n) : Agrees (n + 1) R.item Item.read := by
  refine (agrees_lift _ _).bind fun _ => ((agrees_expression hR).refine _).bind fun i => ?_
  cases i with
  | aggregate f e => exact agrees_pure _ _
  | calculate e => exact agrees_pure _ _
  | window f e p o =>
    refine (agrees_lift _ _).bind fun _ => ?_
    exact ((agrees_overClause hR).bind fun _ => agrees_pure _ _).ite (agrees_pure _ _)

/-- Operations are read with the answers as without them. -/
theorem agrees_operation (hR : R.Settles n) : Agrees (n + 1) R.operation Operation.read :=
  (agrees_item hR).bind fun _ => (agrees_lift _ _).bind fun _ => agrees_pure _ _

theorem agrees_operationList (hR : R.Settles n) :
    Agrees (n + 1) R.operationList DataPhrase.operationList :=
  agrees_listOf Operation.consumes_read (agrees_operation hR) (hR .operations)

/-- Periods are read with the answers as without them. -/
theorem agrees_period (hR : R.Settles n) : Agrees (n + 1) R.period Period.read := by
  refine (agrees_lift _ _).bind fun _ => (agrees_lift _ _).bind fun x => ?_
  obtain ⟨⟨alignment, amount, unit⟩, text⟩ := x
  refine (agrees_lift _ _).bind fun _ => ?_
  exact ((agrees_fieldName hR).bind fun _ => agrees_pure _ _).ite
    ((agrees_pure _ _).bind fun _ => agrees_pure _ _)

/-! ## Clauses -/

/-- Clauses agree with the loop that reads them: each is opened by a word. -/
theorem agrees_clauses {C K : Type} {f : ClauseForm C K} {p : C → K → Trial C}
    {more : C → Trial C} {go : C → Phrase C} (hgo : ∀ c, go c = f.round go c)
    (hp : ∀ c kind, Agrees n (p c kind) (f.read c kind))
    (hmore : ∀ c, Agrees n (more c) (go c)) (c : C) :
    Agrees (n + 1) (clauseTurn f p more c) (go c) := by
  intro s hs
  rw [hgo, ClauseForm.round, clauseTurn]
  split
  · rfl
  · rcases nextWord_cases s with ⟨hx, hw⟩ | ⟨x, hx, hw⟩
    · rw [hx, hw]
      rfl
    · rw [hx, hw]
      dsimp only
      cases f.kindOf? x.1.value with
      | none => rfl
      | some kind =>
        dsimp only
        split
        · rfl
        · have hlt : x.1.rest.length < n := Nat.lt_of_lt_of_le x.2 (Nat.le_of_lt_succ hs)
          rw [attempt_widen]
          exact andThen_eq (hp c kind x.1.rest hlt) fun d r h _ =>
            hmore d r (Nat.lt_of_le_of_lt h.length_le hlt)

/-- The clauses of a transform statement are read with the answers as without them. -/
theorem agrees_transformClause (hR : R.Settles n) (c : Transform.Clauses)
    (kind : Transform.ClauseKind) :
    Agrees (n + 1) (R.transformClause c kind) (c.readClause kind) := by
  cases kind with
  | join =>
    exact (agrees_lift _ _).bind fun _ => (agrees_datasetName hR).bind fun _ =>
      (agrees_lift _ _).bind fun _ => (agrees_condition hR).bind fun _ => agrees_pure _ _
  | operations => exact (agrees_operationList hR).bind fun _ => agrees_pure _ _
  | group =>
    exact (agrees_lift _ _).bind fun _ => (agrees_fieldList hR).bind fun _ => agrees_pure _ _
  | filter => exact (agrees_condition hR).bind fun _ => agrees_pure _ _
  | order =>
    exact (agrees_lift _ _).bind fun _ => (agrees_orderList hR).bind fun _ => agrees_pure _ _
  | select => exact (agrees_fieldList hR).bind fun _ => agrees_pure _ _
  | period => exact (agrees_period hR).bind fun _ => agrees_pure _ _
  | limit => exact (agrees_lift _ _).bind fun _ => agrees_pure _ _

/-- **Transform statements** are read with the answers as without them. -/
theorem agrees_transform (hR : R.Settles n) : Agrees (n + 1) R.transform Transform.read :=
  (agrees_lift _ _).bind_of_consumes (consumes_keyword _) fun _ =>
    ((agrees_datasetName hR).mono (Nat.le_succ n)).bind fun _ => (agrees_lift _ _).bind fun _ =>
      ((agrees_datasetName hR).mono (Nat.le_succ n)).bind fun _ =>
        (hR (.transformClauses {})).bind fun _ => agrees_pure _ _

/-! ## Stages -/

theorem agrees_stageOperation (hR : R.Settles n) (accept : Item → Bool) (what : Expected) :
    Agrees (n + 1) (R.stageOperation accept what) (Pipeline.operation accept what) :=
  (agrees_lift _ _).bind fun _ => ((agrees_item hR).refine _).bind fun _ =>
    (agrees_lift _ _).bind fun _ => agrees_pure _ _

theorem agrees_stageOperations (hR : R.Settles n) (accept : Item → Bool) (what : Expected) :
    Agrees (n + 1) (R.stageOperations accept what) (Pipeline.operations accept what) :=
  (agrees_stageOperation hR accept what).bind_of_consumes
    (Pipeline.consumes_operation accept what) fun _ =>
      (hR (.stageOperations accept what)).bind fun _ => agrees_pure _ _

/-- A turn over operations agrees with the reader of further operations. -/
theorem agrees_moreStageOperations (hR : R.Settles n) (accept : Item → Bool) (what : Expected) :
    Agrees (n + 1) (R.turn (.stageOperations accept what))
      (Pipeline.operationsRest accept what) := by
  refine agrees_list (q := Pipeline.operation accept what) ?_
    ((agrees_stageOperation hR accept what).mono (Nat.le_succ n))
    (hR (.stageOperations accept what)) ?_
  · intro s t h
    exact length_lt_of_trim (commaAfterBlanks_eq_some.mp h)
  · intro s
    rw [Pipeline.operationsRest.eq_def]
    split
    · next t ht => rw [commaAfterBlanks_eq_some.mpr ht, attempt_widen]
    · next hs =>
      have hn : commaAfterBlanks s = none :=
        Option.eq_none_iff_forall_ne_some.mpr fun t ht => hs t (commaAfterBlanks_eq_some.mp ht)
      rw [hn]
      rfl

/-- The body of a stage is read with the answers as without them. -/
theorem agrees_stageBody (hR : R.Settles n) (kind : StageKind) :
    Agrees (n + 1) (R.stageBody kind) (Pipeline.readBody kind) := by
  cases kind with
  | filter => exact (agrees_condition hR).bind fun _ => agrees_pure _ _
  | group => exact (agrees_fieldList hR).bind fun _ => agrees_pure _ _
  | aggregate => exact (agrees_stageOperations hR _ _).bind fun _ => agrees_pure _ _
  | calculate => exact (agrees_stageOperations hR _ _).bind fun _ => agrees_pure _ _
  | window => exact (agrees_stageOperations hR _ _).bind fun _ => agrees_pure _ _
  | select => exact (agrees_fieldList hR).bind fun _ => agrees_pure _ _
  | sort => exact (agrees_orderList hR).bind fun _ => agrees_pure _ _
  | join =>
    exact (agrees_datasetName hR).bind fun _ => (agrees_lift _ _).bind fun _ =>
      (agrees_condition hR).bind fun _ => agrees_pure _ _
  | during => exact (agrees_period hR).bind fun _ => agrees_pure _ _
  | limit => exact (agrees_lift _ _).bind fun _ => agrees_pure _ _

/-- A stage is read with the answers as without them. -/
theorem agrees_stage (hR : R.Settles n) (d : Pipeline.Draft) :
    Agrees (n + 1) (R.stage d) (Pipeline.stage d) :=
  (agrees_lift _ _).bind fun _ => (agrees_lift _ _).bind fun _ =>
    (agrees_stageBody hR _).bind fun _ => (agrees_lift _ _).bind fun _ => agrees_pure _ _

/-- A turn over stages agrees with the reader of further stages. -/
theorem agrees_stages (hR : R.Settles n) (d : Pipeline.Draft) :
    Agrees (n + 1) (R.stagesTurn d) (Pipeline.readStages d) := by
  intro s hs
  rw [Pipeline.readStages.eq_def]
  split
  · next t ht =>
    have hlt : t.length < n := by
      have := length_lt_of_trim ht
      simp only [List.length_cons] at this
      omega
    rw [attempt_widen, stagesTurn, ht]
    exact andThen_eq (agrees_stage hR d t (Nat.lt_succ_of_lt hlt)) fun d r h _ =>
      hR (.stages d) r (Nat.lt_of_le_of_lt h.length_le hlt)
  · next hn =>
    unfold stagesTurn
    split
    · next t ht => exact absurd ht (hn t)
    · rfl

/-- **Pipelines** are read with the answers as without them. -/
theorem agrees_pipeline (hR : R.Settles n) : Agrees (n + 1) R.pipeline Pipeline.read := by
  refine (agrees_datasetName hR).bind_of_consumes consumes_datasetName fun source => ?_
  refine (agrees_lift _ _).bind fun _ => (agrees_lift _ _).bind fun s => ?_
  by_cases h : ∃ t, s = '-' :: '>' :: t
  · obtain ⟨t, rfl⟩ := h
    exact (hR (.stages _)).bind fun _ => (agrees_lift _ _).bind fun _ =>
      (agrees_pure _ _).ite (agrees_lift _ _)
  · -- simp takes both sides to their last case, for which it looks up hs
    have hs : ∀ t, s ≠ '-' :: '>' :: t := fun t ht => h ⟨t, ht⟩
    simp only
    exact agrees_lift _ _

/-! ## Questions -/

/-- What follows a spoken aggregate is read with the answers as without them. -/
theorem agrees_spokenRest (hR : R.Settles n) (word : List Char) (f : AggregateFn) :
    Agrees (n + 1) (R.spokenRest word f) (Question.spokenRest word f) :=
  (agrees_fieldName hR).bind fun _ => (agrees_lift _ _).bind fun _ => agrees_pure _ _

/-- What a question asks for is read with the answers as without them. -/
theorem agrees_asked (hR : R.Settles n) : Agrees (n + 1) R.asked Question.asked := by
  intro s hs
  rw [Question.asked, Calls.asked, ← Question.map_spokenAggregate?]
  cases Question.spokenAggregate? s with
  | none =>
    dsimp only [Option.map]
    rw [attempt_widen]
    have hitem : Agrees (n + 1) (do
        let item ← R.item
        let aliasName ← Question.optionalAlias
        pure (item, aliasName)) (do
        let item ← Item.read
        let aliasName ← Question.optionalAlias
        pure (item, aliasName)) :=
      (agrees_item hR).bind fun _ => (agrees_lift _ _).bind fun _ => agrees_pure _ _
    exact hitem.refine _ _ (Nat.lt_of_le_of_lt (trim_suffix s).length_le hs)
  | some x =>
    dsimp only [Option.map]
    rw [attempt_widen]
    exact agrees_spokenRest hR _ _ _ (Nat.lt_of_le_of_lt x.suffix.length_le hs)

/-- A turn over items agrees with the reader of what else is asked for. -/
theorem agrees_moreAsked (hR : R.Settles n) :
    Agrees (n + 1) (R.turn .asked) Question.askedRest := by
  refine agrees_list (q := Question.asked) (fun _ _ => Question.length_lt_of_separator)
    ((agrees_asked hR).mono (Nat.le_succ n)) (hR .asked) fun s => ?_
  rw [Question.askedRest.eq_def]
  exact attempt_separator fun w _ => sameWord w "and".toList

/-- A turn over keys agrees with the reader of further keys. -/
theorem agrees_keys (hR : R.Settles n) : Agrees (n + 1) (R.turn .keys) Question.keysRest := by
  refine agrees_list (q := Lexeme.fieldName) (fun _ _ => Question.length_lt_of_separator)
    ((agrees_fieldName hR).mono (Nat.le_succ n)) (hR .keys) fun s => ?_
  rw [Question.keysRest.eq_def]
  exact attempt_separator fun w r => sameWord w "and".toList && !(peekWord r).isEmpty &&
    !Question.isOneOf Question.clauseWords (peekWord r)

/-- The clauses of a question are read with the answers as without them. -/
theorem agrees_questionClause (hR : R.Settles n) (c : Question.Clauses)
    (kind : Question.ClauseKind) :
    Agrees (n + 1) (R.questionClause c kind) (c.readClause kind) := by
  cases kind with
  | source => exact (agrees_datasetName hR).bind fun _ => agrees_pure _ _
  | group =>
    exact (agrees_fieldName hR).bind_of_consumes consumes_fieldName fun _ =>
      (hR .keys).bind fun _ => agrees_pure _ _
  | filter => exact (agrees_condition hR).bind fun _ => agrees_pure _ _
  | order =>
    exact (agrees_lift _ _).bind fun _ => (agrees_orderList hR).bind fun _ => agrees_pure _ _
  | period => exact (agrees_period hR).bind fun _ => agrees_pure _ _
  | join =>
    exact (agrees_lift _ _).bind fun _ => (agrees_datasetName hR).bind fun _ =>
      (agrees_lift _ _).bind fun _ => (agrees_condition hR).bind fun _ => agrees_pure _ _

/-- **Questions** are read with the answers as without them. -/
theorem agrees_question (hR : R.Settles n) : Agrees (n + 1) R.question Question.read := by
  refine (agrees_lift _ _).bind_of_consumes Question.consumes_readVerb fun _ => ?_
  refine (agrees_lift _ _).bind fun _ => ?_
  refine ((agrees_lift _ _).bind fun _ => (agrees_pure _ _).bind fun limit => ?_).ite
    ((agrees_pure _ _).bind fun limit => ?_)
  -- what follows is the same with a limit and without one
  all_goals
    refine ((agrees_asked hR).mono (Nat.le_succ n)).bind fun first => ?_
    refine (hR .asked).bind fun rest => (hR (.questionClauses {})).bind fun clauses => ?_
    cases clauses.source with
    | none => exact agrees_lift _ _
    | some source => exact agrees_pure _ _

/-! ## All calls -/

/-- One turn answers every call, where the calls it makes on shorter texts are answered. -/
theorem agrees_turn (hR : R.Settles n) {α : Type} (k : Call α) :
    Agrees (n + 1) (R.turn k) k.reader := by
  cases k with
  | tokens offset => exact agrees_tokens hR offset
  | word => exact agrees_word hR
  | group depth => exact agrees_group hR depth
  | dotted => exact agrees_dotted hR
  | fields => exact agrees_moreOf ((agrees_fieldName hR).mono (Nat.le_succ n)) (hR .fields)
  | expression => exact agrees_expression hR
  | summands left => exact agrees_summands hR left
  | factors left => exact agrees_factors hR left
  | signed => exact agrees_signed hR
  | arguments => exact agrees_moreArguments hR
  | condition => exact agrees_condition hR
  | alternatives => exact agrees_alternatives hR
  | conjuncts => exact agrees_conjuncts hR
  | negation => exact agrees_negation hR
  | sortKeys => exact agrees_moreOf ((agrees_sortKey hR).mono (Nat.le_succ n)) (hR .sortKeys)
  | operations =>
    exact agrees_moreOf ((agrees_operation hR).mono (Nat.le_succ n)) (hR .operations)
  | transformClauses c =>
    exact agrees_clauses Transform.Clauses.readAll_eq
      (fun c kind => (agrees_transformClause hR c kind).mono (Nat.le_succ n))
      (fun c => hR (.transformClauses c)) c
  | stageOperations accept what => exact agrees_moreStageOperations hR accept what
  | stages d => exact agrees_stages hR d
  | asked => exact agrees_moreAsked hR
  | keys => exact agrees_keys hR
  | questionClauses c =>
    exact agrees_clauses Question.Clauses.readAll_eq
      (fun c kind => (agrees_questionClause hR c kind).mono (Nat.le_succ n))
      (fun c => hR (.questionClauses c)) c

/-- Every call that comes back is answered as the reader does. -/
def Sound (R : Calls) : Prop :=
  ∀ {α : Type} (k : Call α) (s : List Char),
    R.call k s = .unfinished ∨ R.call k s = attempt (k.reader s)

/-- Answers to a depth are true. -/
theorem sound_below (n : Nat) : (below n).Sound := by
  intro α k s
  by_cases h : s.length < n
  · exact .inr (if_pos h)
  · exact .inl (if_neg h)

/-- The turn `k` on `s` cannot do without the call `k'` on `t`: where that does not come back, the
turn does not either. -/
def Needs {α β : Type} (k : Call α) (s : List Char) (k' : Call β) (t : List Char) : Prop :=
  ∀ R : Calls, R.Sound → R.call k' t = .unfinished → R.turn k s = .unfinished

/-- A call is made on a shorter text than the one that needs it. -/
theorem length_lt_of_needs {α β : Type} {k : Call α} {k' : Call β} {s t : List Char}
    (h : Needs k s k' t) : t.length < s.length := by
  -- else the turn would not come back where only calls on shorter texts do, but it does
  refine Decidable.byContradiction fun ht => ?_
  have hturn := h (below s.length) (sound_below _) (if_neg ht)
  rw [agrees_turn (settles_below s.length) k s (Nat.lt_succ_self _)] at hturn
  exact attempt_ne_unfinished hturn

/-- Behind `not`, the turn needs the negation of what follows. -/
example : Needs .negation "not x".toList .negation " x".toList := by
  intro R _ h
  show (R.call .negation " x".toList).andThen _ = _
  rw [h]
  rfl

/-- Calls nested `n` deep are enough on texts shorter than `n`. -/
theorem settles_within (n : Nat) : (within n).Settles n := by
  -- on the depth: one more is one more turn, whose own calls are on shorter texts
  induction n with
  | zero =>
    intro α k s hs
    exact absurd hs (Nat.not_lt_zero _)
  | succ n ih => exact fun k => agrees_turn ih k

/-! ## Statements -/

/-- Each pattern has its grammar read with the answers as without them. -/
theorem agrees_grammar (hR : R.Settles n) (p : Pattern) :
    Agrees (n + 1) (R.grammar p) p.grammar := by
  cases p with
  | transformTo => exact agrees_transform hR
  | arrowPipeline => exact agrees_pipeline hR
  | naturalQuery => exact agrees_question hR

/-- A whole text is read by an attempt as it is by its reader. -/
theorem whole_eq {α : Type} {p : Trial α} {q : Phrase α} {text : List Char}
    (h : p text = attempt (q text)) : whole p text = some (readWhole q text) := by
  rw [whole, readWhole, h]
  cases q text with
  | error e => rfl
  | ok x => rfl

/-- **A text is parsed with the answers as without them**, if they go deep enough. -/
theorem parse_eq (hR : R.Settles n) {text : List Char} (h : text.length ≤ n) :
    R.parse text = some (Statement.parse text) := by
  have ht := agrees_tokens hR 0 text (Nat.lt_succ_of_le h)
  have htokens : R.tokensTurn 0 text = .done (tokenize text) [] := ht
  rw [Calls.parse, htokens]
  unfold Statement.parse classify
  cases tokenize text with
  | error e => rfl
  | ok tokens =>
    dsimp only [bind, Except.bind]
    cases Pattern.ofTokens? tokens with
    | none => rfl
    | some p => exact whole_eq (agrees_grammar hR p text (Nat.lt_succ_of_le h))

end Calls

/-! ## The result -/

/-- Reading the text `s` comes to its end, whatever it is read as. -/
structure Finishes (s : List Char) : Prop where
  /-- Each of these readers leaves an ending of the text, and a shorter one when it succeeds. -/
  expression : (Expr.read s).Shortens
  condition : (Condition.read s).Shortens
  item : (Item.read s).Shortens
  operation : (Operation.read s).Shortens
  stageOperation : ∀ accept what, (Pipeline.operation accept what s).Shortens
  asked : (Question.asked s).Shortens
  fieldList : (fieldList s).Shortens
  orderList : (orderList s).Shortens
  period : (Period.read s).Shortens
  stage : ∀ d, (Pipeline.stage d s).Shortens
  /-- A round of a loop and an entry into a recursive reader make calls on shorter texts only: they
  answer as the reader does even if no call on another text ever comes back. -/
  descends : ∀ {α : Type} (k : Call α), (Calls.below s.length).turn k s = attempt (k.reader s)
  /-- Every call they cannot do without is on a shorter text. -/
  shorter : ∀ {α β : Type} (k : Call α) (k' : Call β) (t : List Char),
    Calls.Needs k s k' t → t.length < s.length
  /-- So rounds and entries are nested no deeper than the text is long. -/
  answers : ∀ {α : Type} (k : Call α) (n : Nat), s.length < n →
    (Calls.within n).call k s = attempt (k.reader s)
  /-- The text as a statement: reading it comes back with its statement or its error. -/
  parse : ∀ n, s.length ≤ n → (Calls.within n).parse s = some (Statement.parse s)

/-- **Reading always comes to its end.** -/
theorem finishes (s : List Char) : Finishes s where
  expression := Expr.consumes_read.shortens s
  condition := Condition.consumes_read.shortens s
  item := Item.consumes_read.shortens s
  operation := Operation.consumes_read.shortens s
  stageOperation := fun accept what => (Pipeline.consumes_operation accept what).shortens s
  asked := Question.consumes_asked.shortens s
  fieldList := (consumes_listOf consumes_fieldName).shortens s
  orderList := (consumes_listOf consumes_orderItem).shortens s
  period := Period.consumes_read.shortens s
  stage := fun d => (Pipeline.consumes_stage d).shortens s
  descends := fun k => Calls.agrees_turn (Calls.settles_below s.length) k s (Nat.lt_succ_self _)
  shorter := fun _ _ _ => Calls.length_lt_of_needs
  answers := fun k n hn => Calls.settles_within n k s hn
  parse := fun n hn => Calls.parse_eq (Calls.settles_within n) hn

/-- Calls that are cut off too early leave the reading open. -/
example : (Calls.within 2).call .expression "((1))".toList = .unfinished := by rfl

end DataPhrase
