/-
# Three ways to write a query

The same texts put together as a transform statement, as a pipeline and as a question. Each of the
three grammars carves them to the same operations and clauses.
-/
import DataPhrase.Proofs.Code.Target
import DataPhrase.Proofs.Statement.Clause
import DataPhrase.Proofs.Statement.Parse

namespace DataPhrase

open Text Lexeme

/-! ## Queries and their texts -/

/-- A query of aggregates over groups: what each of the three ways to write it says. -/
structure Query where
  source : String
  target : String
  operations : List Operation
  keys : List String
  condition : Condition
  order : List OrderItem

/-- The texts from which a query is put together. -/
structure QueryText where
  source : List Char
  target : List Char
  items : List Char
  keys : List Char
  condition : List Char
  order : List Char

namespace QueryText

/-- The query as a transform statement. -/
def transform (x : QueryText) : List Char :=
  ["transform ".toList, x.source, " to ".toList, x.target, " as ".toList, x.items,
    " grouped by ".toList, x.keys, " where ".toList, x.condition, " ordered by ".toList,
    x.order].flatten

/-- The stages of the query. -/
def stages (x : QueryText) : List Char :=
  [" -> filter(".toList, x.condition, ") -> group(".toList, x.keys, ") -> aggregate(".toList,
    x.items, ") -> sort(".toList, x.order, ")".toList].flatten

/-- The query as a pipeline. -/
def pipeline (x : QueryText) : List Char :=
  x.source ++ x.stages

/-- The query as a question. -/
def question (x : QueryText) : List Char :=
  ["show ".toList, x.items, " by ".toList, x.keys, " from ".toList, x.source, " where ".toList,
    x.condition, " ordered by ".toList, x.order].flatten

/-- The texts are those of the query: each is accepted completely by its part of the grammars, the
items are aggregates, and the condition is written without backslashes. -/
structure Writes (x : QueryText) (y : Query) : Prop where
  source : Accepts datasetName x.source y.source
  target : Accepts datasetName x.target y.target
  items : Accepts operationList x.items y.operations
  aggregates : ∀ op ∈ y.operations, op.IsAggregate
  keys : Accepts fieldList x.keys y.keys
  condition : Accepts Condition.read x.condition y.condition
  backslashes : '\\' ∉ x.condition
  order : Accepts orderList x.order y.order

end QueryText

namespace Query

/-- The statement of a query in one of the surface forms, apart from its target and its stages. -/
def statement (y : Query) (pattern : Pattern) : Statement where
  pattern := pattern
  source := y.source
  operations := y.operations
  group := some y.keys
  filter := some y.condition
  order := y.order

/-- The stages of a query. -/
def stages (y : Query) : List Pipeline.Written :=
  [⟨"filter", .filter, .filter y.condition⟩, ⟨"group", .group, .group y.keys⟩,
    ⟨"aggregate", .aggregate, .compute y.operations⟩, ⟨"sort", .sort, .sort y.order⟩]

/-- The pipeline of a query, all its stages taken. -/
def draft (y : Query) : Pipeline.Draft :=
  y.stages.foldl Pipeline.Draft.take (.start y.source)

end Query

namespace QueryText.Writes

variable {x : QueryText} {y : Query}

/-! ## Transform statements -/

/-- As a transform statement, the texts make the query with its target. -/
theorem gives_transform (h : x.Writes y) : (Transform.read x.transform).Gives
    { y.statement .transformTo with target := some y.target } [] := by
  obtain ⟨s1, hsource, h1⟩ := takes_datasetName h.source _ _
    (quiet_of_isLead (s := " to ".toList) (by decide)) trim_space
  obtain ⟨s2, htarget, h2⟩ := takes_datasetName h.target _ _
    (quiet_of_isLead (s := " as ".toList) (by decide)) trim_space
  obtain ⟨s3, h3, g3⟩ := Transform.Clauses.goesOn_operations (c := {}) rfl
    (takes_operationList h.items h.aggregates)
    (quiet_of_isLead (s := " grouped by ".toList) (by decide)) h2
  obtain ⟨s4, h4, g4⟩ := Transform.Clauses.goesOn_group (c := { operations := some y.operations })
    rfl (takes_fieldList h.keys)
    (quiet_of_isLead (s := " where ".toList) (by decide)) h3
  obtain ⟨s5, h5, g5⟩ := Transform.Clauses.goesOn_filter
    (c := { operations := some y.operations, group := some y.keys }) rfl
    (takes_condition h.condition h.backslashes)
    (quiet_of_isLead (s := " ordered by ".toList) (by decide)) h4
  obtain ⟨s6, h6, g6⟩ := Transform.Clauses.goesOn_order
    (c := { operations := some y.operations, group := some y.keys, filter := some y.condition })
    rfl (takes_orderList h.order) quiet_nil h5
  have hall := g3 _ (g4 _ (g5 _ (g6 _ (.stop h6))))
  refine Reader.gives_bind.mpr ⟨(), _, gives_keyword.mpr rfl, ?_⟩
  refine Reader.gives_bind.mpr ⟨y.source, s1, hsource, ?_⟩
  refine Reader.gives_bind.mpr ⟨(), _, gives_keyword.mpr ((after?_congr h1).trans rfl), ?_⟩
  refine Reader.gives_bind.mpr ⟨y.target, s2, htarget, ?_⟩
  refine Reader.gives_bind.mpr ⟨_, [], Transform.Clauses.gives_readAll.mpr ⟨hall, rfl⟩, ?_⟩
  refine Reader.gives_pure.mpr ⟨?_, rfl⟩
  simp [Transform.Clauses.statement, Query.statement]

/-! ## Pipelines -/

theorem gives_stages (h : x.Writes y) {s : List Char}
    (hs : trim s = trim x.stages) : (Pipeline.writtenStages s).Gives y.stages [] := by
  obtain ⟨s1, hcondition, h1⟩ := takes_condition h.condition h.backslashes _ _ quiet_paren rfl
  obtain ⟨s2, hkeys, h2⟩ := takes_fieldList h.keys _ _ quiet_paren rfl
  obtain ⟨s3, hitems, h3⟩ := takes_operations .aggregateFunction h.items h.aggregates _ _
    quiet_paren rfl
  obtain ⟨s4, horder, h4⟩ := takes_orderList h.order _ _ quiet_paren rfl
  refine Pipeline.gives_stages (w := "filter".toList) (k := .filter) (b := .filter y.condition) hs
    rfl rfl (Reader.gives_bind.mpr ⟨_, _, hcondition, Reader.gives_pure.mpr ⟨rfl, rfl⟩⟩) h1 ?_
  refine Pipeline.gives_stages (w := "group".toList) (k := .group) (b := .group y.keys) rfl
    rfl rfl (Reader.gives_bind.mpr ⟨_, _, hkeys, Reader.gives_pure.mpr ⟨rfl, rfl⟩⟩) h2 ?_
  refine Pipeline.gives_stages (w := "aggregate".toList) (k := .aggregate)
    (b := .compute y.operations) rfl
    rfl rfl (Reader.gives_bind.mpr ⟨_, _, hitems, Reader.gives_pure.mpr ⟨rfl, rfl⟩⟩) h3 ?_
  refine Pipeline.gives_stages (w := "sort".toList) (k := .sort) (b := .sort y.order) rfl
    rfl rfl (Reader.gives_bind.mpr ⟨_, _, horder, Reader.gives_pure.mpr ⟨rfl, rfl⟩⟩) h4 ?_
  exact (Pipeline.gives_writtenStages_end (by intro t ht; cases ht)).mpr ⟨rfl, rfl⟩

/-- As a pipeline, the texts make the query. -/
theorem gives_pipeline (h : x.Writes y) :
    (Pipeline.read x.pipeline).Gives y.draft.statement [] := by
  obtain ⟨s1, hsource, h1⟩ := takes_datasetName h.source x.stages x.pipeline quiet_arrow rfl
  have hstages := h.gives_stages (s := trim s1) (by rw [trim_trim, h1])
  have hadmits : (Pipeline.Draft.start y.source).Admits y.stages :=
    ⟨rfl, rfl, rfl, rfl, trivial⟩
  have hdraft : (Pipeline.readStages (.start y.source) (trim s1)).Gives y.draft [] :=
    Pipeline.gives_readStages.mpr ⟨y.stages, hstages, hadmits, rfl⟩
  refine Reader.gives_bind.mpr ⟨y.source, s1, hsource, ?_⟩
  refine Reader.gives_bind.mpr ⟨(), trim s1, gives_skipBlanks.mpr rfl, ?_⟩
  refine Reader.gives_bind.mpr ⟨trim s1, trim s1, Reader.gives_look.mpr ⟨rfl, rfl⟩, ?_⟩
  have harrow : ∃ t, trim s1 = '-' :: '>' :: t := ⟨_, h1⟩
  obtain ⟨t, ht⟩ := harrow
  rw [ht] at hdraft ⊢
  refine Reader.gives_bind.mpr ⟨y.draft, [], hdraft, ?_⟩
  refine Reader.gives_bind.mpr ⟨[], [], Reader.gives_look.mpr ⟨rfl, rfl⟩, ?_⟩
  exact Reader.gives_pure.mpr ⟨rfl, rfl⟩

/-! ## Questions -/

theorem flatMap_operations (group : Option (List String)) (ops : List Operation) :
    (ops.map Question.Asked.operation).flatMap (Question.Asked.operations group) = ops := by
  rw [List.flatMap_map]
  exact List.flatMap_singleton' ops

/-- As a question, the texts make the query. -/
theorem gives_question (h : x.Writes y) :
    (Question.read x.question).Gives (y.statement .naturalQuery) [] := by
  obtain ⟨s1, hitems, h1⟩ := Question.takes_itemList h.items h.aggregates _ (" ".toList ++ _)
    (quiet_of_isLead (s := " by ".toList) (by decide)) trim_space
  have htop := Question.after?_top_of_accepts h.items h.aggregates
    (quiet_of_isLead (s := " by ".toList) (by decide))
    (trim_space (s := x.items ++ (" by ".toList ++ (x.keys ++ (" from ".toList ++ (x.source ++
      (" where ".toList ++ (x.condition ++ (" ordered by ".toList ++ (x.order ++ []))))))))))
  obtain ⟨s2, h2, g2⟩ := Question.Clauses.goesOn_group (c := {}) rfl (Question.takes_keyList h.keys)
    (quiet_of_isLead (s := " from ".toList) (by decide)) h1
  obtain ⟨s3, h3, g3⟩ := Question.Clauses.goesOn_source (c := { group := some y.keys }) rfl
    (takes_datasetName h.source) (quiet_of_isLead (s := " where ".toList) (by decide)) h2
  obtain ⟨s4, h4, g4⟩ := Question.Clauses.goesOn_filter
    (c := { group := some y.keys, source := some y.source }) rfl
    (takes_condition h.condition h.backslashes)
    (quiet_of_isLead (s := " ordered by ".toList) (by decide)) h3
  obtain ⟨s5, h5, g5⟩ := Question.Clauses.goesOn_order
    (c := { group := some y.keys, source := some y.source, filter := some y.condition }) rfl
    (takes_orderList h.order) quiet_nil h4
  have hall := g2 _ (g3 _ (g4 _ (g5 _ (.stop h5))))
  obtain ⟨first, p, hfirst, hitems⟩ := Reader.gives_bind.mp hitems
  obtain ⟨rest, q, hrest, hitems⟩ := Reader.gives_bind.mp hitems
  obtain ⟨hops, rfl⟩ := Reader.gives_pure.mp hitems
  refine Question.gives_read.mpr ⟨_, none, _,
    Question.gives_readVerb.mpr ⟨"show".toList, rfl, rfl⟩,
    Or.inr ⟨htop, rfl, rfl⟩, first, rest, _, y.source, p, _, hfirst, hrest,
    Question.Clauses.gives_readAll.mpr ⟨hall, rfl⟩, rfl, ?_⟩
  rw [hops]
  simp [Question.statement, Question.selection, Question.orderOf, flatMap_operations,
    Query.statement]

end QueryText.Writes

/-! ## Agreement -/

/-- The text is classified to the grammar of the pattern. -/
def IsClassified (text : List Char) (p : Pattern) : Prop :=
  ∃ tokens, classify text = .ok (p, tokens)

/-- **The three ways to write a query agree.** Where the three texts are classified to their own
grammars, all of them parse, to statements of one content without period and limit; their queries
are equal, and their scripts are equal up to the target in front of the transform statement. -/
theorem QueryText.Writes.surfaces_agree {x : QueryText} {y : Query} (h : x.Writes y)
    (ht : IsClassified x.transform .transformTo) (hp : IsClassified x.pipeline .arrowPipeline)
    (hq : IsClassified x.question .naturalQuery) :
    ∃ t p q, Statement.parse x.transform = .ok t ∧ Statement.parse x.pipeline = .ok p ∧
      Statement.parse x.question = .ok q ∧ t.SameContent p ∧ t.SameContent q ∧
      t.target = some y.target ∧ t.period = none ∧ t.limit = none ∧
      ∀ d, t.generate .sql d = p.generate .sql d ∧ t.generate .sql d = q.generate .sql d ∧
        ∀ target, target ≠ .sql →
          t.generate target d = (p.generate target d).map (y.target ++ " <- " ++ ·) ∧
          p.generate target d = q.generate target d := by
  obtain ⟨_, ht⟩ := ht
  obtain ⟨_, hp⟩ := hp
  obtain ⟨_, hq⟩ := hq
  have htp : ({ y.statement .transformTo with target := some y.target } : Statement).SameContent
      y.draft.statement := ⟨rfl, rfl, rfl, rfl, rfl, rfl, rfl⟩
  have htq : ({ y.statement .transformTo with target := some y.target } : Statement).SameContent
      (y.statement .naturalQuery) := ⟨rfl, rfl, rfl, rfl, rfl, rfl, rfl⟩
  have hpq : y.draft.statement.SameContent (y.statement .naturalQuery) :=
    ⟨rfl, rfl, rfl, rfl, rfl, rfl, rfl⟩
  refine ⟨_, _, _, parse_eq_ok.mpr ⟨_, _, ht, h.gives_transform⟩,
    parse_eq_ok.mpr ⟨_, _, hp, h.gives_pipeline⟩, parse_eq_ok.mpr ⟨_, _, hq, h.gives_question⟩,
    htp, htq, rfl, rfl, rfl, fun d => ?_⟩
  refine ⟨generate_sql_of_sameContent htp, generate_sql_of_sameContent htq, ?_⟩
  intro target htarget
  refine ⟨generate_script_of_sameContent htp rfl htarget, ?_⟩
  rw [generate_script_of_sameContent hpq rfl htarget]
  cases (y.statement .naturalQuery).generate target d <;> rfl

/-- A text that a reader accepts with a property of the value, as far as both can be computed. -/
theorem exists_accepts {α : Type} (p : Phrase α) (s : List Char) (f : α → Bool)
    (h : (p s).toOption.any (fun x => (trim x.rest).isEmpty && f x.value) = true) :
    ∃ a, Accepts p s a ∧ f a = true := by
  cases hp : p s with
  | error e =>
    rw [hp] at h
    cases h
  | ok x =>
    rw [hp] at h
    obtain ⟨hr, hf⟩ := (Bool.and_eq_true _ _).mp h
    exact ⟨x.value, ⟨x.rest, ⟨x.suffix, hp⟩, List.isEmpty_iff.mp hr⟩, hf⟩

theorem isClassified_iff {text : List Char} {p : Pattern} :
    IsClassified text p ↔ (classify text).toOption.any (fun x => x.1 == p) = true := by
  unfold IsClassified
  cases classify text with
  | error e => exact iff_of_false (by rintro ⟨_, h⟩; cases h) nofun
  | ok x =>
    obtain ⟨p', tokens⟩ := x
    show _ ↔ (p' == p) = true
    rw [beq_iff_eq]
    constructor
    · rintro ⟨_, h⟩
      cases h
      rfl
    · rintro rfl
      exact ⟨tokens, rfl⟩

/-- The total of the larger sales in each region, from the first region on. -/
def totalText : QueryText where
  source := "Sales".toList
  target := "Totals".toList
  items := "sum(amount) as total".toList
  keys := "region".toList
  condition := "amount > 10".toList
  order := "region".toList

theorem surfaces_agree_total : ∃ y t p q, totalText.Writes y ∧
    IsClassified totalText.transform .transformTo ∧
    IsClassified totalText.pipeline .arrowPipeline ∧
    IsClassified totalText.question .naturalQuery ∧
    Statement.parse totalText.transform = .ok t ∧ Statement.parse totalText.pipeline = .ok p ∧
    Statement.parse totalText.question = .ok q ∧ t.SameContent p ∧ t.SameContent q := by
  obtain ⟨source, hsource, -⟩ := exists_accepts datasetName totalText.source (fun _ => true)
    (by decide +kernel)
  obtain ⟨target, htarget, -⟩ := exists_accepts datasetName totalText.target (fun _ => true)
    (by decide +kernel)
  obtain ⟨ops, hitems, hops⟩ := exists_accepts operationList totalText.items
    (fun ops => ops.all fun op => decide op.IsAggregate) (by decide +kernel)
  obtain ⟨keys, hkeys, -⟩ := exists_accepts fieldList totalText.keys (fun _ => true)
    (by decide +kernel)
  obtain ⟨c, hcondition, -⟩ := exists_accepts Condition.read totalText.condition (fun _ => true)
    (by decide +kernel)
  obtain ⟨order, horder, -⟩ := exists_accepts orderList totalText.order (fun _ => true)
    (by decide +kernel)
  have hagg : ∀ op ∈ ops, op.IsAggregate := fun op hop =>
    of_decide_eq_true (List.all_eq_true.mp hops op hop)
  have h : totalText.Writes ⟨source, target, ops, keys, c, order⟩ :=
    ⟨hsource, htarget, hitems, hagg, hkeys, hcondition, by decide, horder⟩
  have ht : IsClassified totalText.transform .transformTo :=
    isClassified_iff.mpr (by decide +kernel)
  have hp : IsClassified totalText.pipeline .arrowPipeline :=
    isClassified_iff.mpr (by decide +kernel)
  have hq : IsClassified totalText.question .naturalQuery :=
    isClassified_iff.mpr (by decide +kernel)
  obtain ⟨t, p, q, h1, h2, h3, h4, h5, -⟩ := h.surfaces_agree ht hp hq
  exact ⟨_, t, p, q, h, ht, hp, hq, h1, h2, h3, h4, h5⟩

end DataPhrase
