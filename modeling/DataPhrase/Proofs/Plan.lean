/-
# Facts on plans

A plan begins with the clauses of its statement, takes in one operation after the other and then
the parts of the filter (`ofStatement_eq_folded`). Its aliases are aliases of the statement.
-/
import DataPhrase.Plan

namespace DataPhrase

/-! ## Parts -/

/-- The operation that a join stands for. -/
def Join.operation (j : Join) : Operation :=
  .join j.source j.condition

/-- The operation that a calculation stands for. -/
def Calc.operation (c : Calc) : Operation :=
  .calculate c.expression c.aliasName

/-- The operation that an aggregate stands for. -/
def Aggregate.operation (a : Aggregate) : Operation :=
  .aggregate a.function a.field a.aliasName

/-- The operation that a window stands for. -/
def Window.operation (w : Window) : Operation :=
  .window w.function w.field w.partitionBy w.orderBy w.aliasName

/-- The operation selects columns. -/
def Operation.isSelect : Operation → Bool
  | .select _ => true
  | _ => false

/-- The operation aggregates. -/
def Operation.isAggregate : Operation → Bool
  | .aggregate _ _ _ => true
  | _ => false

/-- The parts of the filter of a statement. -/
def Statement.filterParts (s : Statement) : List Condition :=
  (s.filter.map Condition.conjuncts).getD []

namespace Plan

/-- The plan of a statement before its operations are added. -/
def start (s : Statement) : Plan where
  source := s.source
  target := s.target
  period := s.period
  group := s.group.getD []
  order := s.order
  limit := s.limit

/-- The plan of a statement when it has taken in the operations. -/
def upTo (s : Statement) (ops : List Operation) : Plan :=
  ops.foldl (add (namesNeeded s)) (start s)

/-- The plan of a statement with its operations, but without filters. -/
def folded (s : Statement) : Plan :=
  s.operations.foldl (add (namesNeeded s)) (start s)

/-- A plan is the folded operations with the filters put in. -/
theorem ofStatement_eq_folded (s : Statement) :
    ofStatement s =
      { folded s with
        preFilter := s.filterParts.filter fun c => !(folded s).filtersAfter c
        postFilter := s.filterParts.filter (folded s).filtersAfter } :=
  rfl

/-! ## Operations -/

/-- The operations that a plan has taken in, phase by phase. -/
def operations (p : Plan) : List Operation :=
  p.joins.map Join.operation ++ p.preCalcs.map Calc.operation ++
    p.aggregates.map Aggregate.operation ++ p.postCalcs.map Calc.operation ++
    p.windows.map Window.operation

variable {p : Plan} {needed : List String} {x : String}

/-- A part can change places with those behind it. -/
theorem perm_insert {α : Type} (l x r : List α) : (l ++ (x ++ r)).Perm (l ++ r ++ x) := by
  rw [List.append_assoc]
  exact List.perm_append_comm.append_left l

/-- A plan takes in every operation but selections. -/
theorem operations_add (op : Operation) :
    (add needed p op).operations.Perm (p.operations ++ [op].filter fun op => !op.isSelect) := by
  cases op with
  | join s c =>
    have h := perm_insert (p.joins.map Join.operation) [.join s c]
      (p.preCalcs.map Calc.operation ++ p.aggregates.map Aggregate.operation ++
        p.postCalcs.map Calc.operation ++ p.windows.map Window.operation)
    simp only [operations, add, List.map_append, List.append_assoc] at h ⊢
    exact h
  | aggregate f e a =>
    have h := perm_insert (p.joins.map Join.operation ++ p.preCalcs.map Calc.operation ++
      p.aggregates.map Aggregate.operation) [.aggregate f e a]
      (p.postCalcs.map Calc.operation ++ p.windows.map Window.operation)
    simp only [operations, add, List.map_append, List.append_assoc] at h ⊢
    exact h
  | calculate e a =>
    rw [add]
    split
    · have h := perm_insert (p.joins.map Join.operation ++ p.preCalcs.map Calc.operation ++
        p.aggregates.map Aggregate.operation ++ p.postCalcs.map Calc.operation) [.calculate e a]
        (p.windows.map Window.operation)
      simp only [operations, List.map_append, List.append_assoc] at h ⊢
      exact h
    · have h := perm_insert (p.joins.map Join.operation ++ p.preCalcs.map Calc.operation)
        [.calculate e a] (p.aggregates.map Aggregate.operation ++
          p.postCalcs.map Calc.operation ++ p.windows.map Window.operation)
      simp only [operations, List.map_append, List.append_assoc] at h ⊢
      exact h
  | window f e pb ob a =>
    have h := perm_insert (p.joins.map Join.operation ++ p.preCalcs.map Calc.operation ++
      p.aggregates.map Aggregate.operation ++ p.postCalcs.map Calc.operation ++
      p.windows.map Window.operation) [.window f e pb ob a] []
    simp only [operations, add, List.map_append, List.append_assoc, List.append_nil] at h ⊢
    exact h
  | select fields =>
    show p.operations.Perm (p.operations ++ [])
    rw [List.append_nil]

/-- **No operation but the selections is lost**, or made up, when a plan is folded. -/
theorem operations_foldl (ops : List Operation) :
    (ops.foldl (add needed) p).operations.Perm
      (p.operations ++ ops.filter fun op => !op.isSelect) := by
  induction ops generalizing p with
  | nil =>
    show p.operations.Perm (p.operations ++ [])
    rw [List.append_nil]
  | cons op ops ih =>
    have hcons : (op :: ops).filter (fun op => !op.isSelect) =
        [op].filter (fun op => !op.isSelect) ++ ops.filter fun op => !op.isSelect :=
      List.filter_append [op] ops
    rw [List.foldl_cons, hcons, ← List.append_assoc]
    exact ih.trans ((operations_add op).append_right _)

/-- **A plan has every operation of its statement, selections apart, and no other.** -/
theorem operations_ofStatement (s : Statement) :
    (ofStatement s).operations.Perm (s.operations.filter fun op => !op.isSelect) :=
  operations_foldl s.operations

/-- A calculation on rows is an operation of the plan. -/
theorem mem_operations_of_preCalcs {c : Calc} (h : c ∈ p.preCalcs) :
    c.operation ∈ p.operations :=
  List.mem_append_left _ (List.mem_append_left _ (List.mem_append_left _
    (List.mem_append_right _ (List.mem_map_of_mem h))))

/-- An aggregate is an operation of the plan. -/
theorem mem_operations_of_aggregates {a : Aggregate} (h : a ∈ p.aggregates) :
    a.operation ∈ p.operations :=
  List.mem_append_left _ (List.mem_append_left _ (List.mem_append_right _ (List.mem_map_of_mem h)))

/-- A calculation behind the aggregates is an operation of the plan. -/
theorem mem_operations_of_postCalcs {c : Calc} (h : c ∈ p.postCalcs) :
    c.operation ∈ p.operations :=
  List.mem_append_left _ (List.mem_append_right _ (List.mem_map_of_mem h))

/-- A join is an operation of the plan. -/
theorem mem_operations_of_joins {j : Join} (h : j ∈ p.joins) : j.operation ∈ p.operations :=
  List.mem_append_left _ (List.mem_append_left _ (List.mem_append_left _
    (List.mem_append_left _ (List.mem_map_of_mem h))))

/-- A window is an operation of the plan. -/
theorem mem_operations_of_windows {w : Window} (h : w ∈ p.windows) :
    w.operation ∈ p.operations :=
  List.mem_append_right _ (List.mem_map_of_mem h)

/-! ## Calculations -/

/-- Before the first aggregate, a calculation runs on the rows of the source. -/
theorem add_calculate_early (hagg : p.aggregates = []) (hpost : p.postCalcs = []) (e : Expr)
    (a : String) :
    add needed p (.calculate e a) = { p with preCalcs := p.preCalcs ++ [⟨a, e⟩] } := by
  have hr : p.runsAfter needed ⟨a, e⟩ = false := by
    simp [runsAfter, readsPost, postAliases, hagg, hpost]
  rw [add, hr]
  rfl

/-- Behind the first aggregate, a calculation that no aggregate needs runs on the reduced rows. -/
theorem add_calculate_late (hagg : p.aggregates ≠ []) {e : Expr} {a : String} (hn : a ∉ needed) :
    add needed p (.calculate e a) = { p with postCalcs := p.postCalcs ++ [⟨a, e⟩] } := by
  have hr : p.runsAfter needed ⟨a, e⟩ = true := by
    rw [runsAfter, Bool.or_eq_true, Bool.and_eq_true]
    exact Or.inr ⟨by simpa using hagg, by simpa using hn⟩
  rw [add, hr]
  rfl

/-! ## Aliases -/

/-- The aliases of the calculations, aggregates and windows of a plan. -/
def aliases (p : Plan) : List String :=
  p.preCalcs.map Calc.aliasName ++ p.postAliases ++ p.windows.map Window.aliasName

/-- The aliases of a plan are those of its operations. -/
theorem filterMap_operations (p : Plan) : p.operations.filterMap Operation.alias? = p.aliases := by
  have hj : (p.joins.map Join.operation).filterMap Operation.alias? = [] := by
    rw [List.filterMap_map]
    exact List.filterMap_eq_nil_iff.mpr fun _ _ => rfl
  have hc (cs : List Calc) : (cs.map Calc.operation).filterMap Operation.alias? =
      cs.map Calc.aliasName := by
    rw [List.filterMap_map]
    exact congrFun List.filterMap_eq_map cs
  have ha : (p.aggregates.map Aggregate.operation).filterMap Operation.alias? =
      p.aggregates.map Aggregate.aliasName := by
    rw [List.filterMap_map]
    exact congrFun List.filterMap_eq_map p.aggregates
  have hw : (p.windows.map Window.operation).filterMap Operation.alias? =
      p.windows.map Window.aliasName := by
    rw [List.filterMap_map]
    exact congrFun List.filterMap_eq_map p.windows
  rw [operations, List.filterMap_append, List.filterMap_append, List.filterMap_append,
    List.filterMap_append, hj, hc, ha, hc, hw, aliases, postAliases, List.nil_append,
    List.append_assoc (p.preCalcs.map Calc.aliasName)]

/-- Selections have no aliases. -/
theorem filterMap_filter (ops : List Operation) :
    (ops.filter fun op => !op.isSelect).filterMap Operation.alias? =
      ops.filterMap Operation.alias? := by
  rw [List.filterMap_filter]
  congr 1
  funext op
  cases op <;> rfl

/-- An operation more adds its alias. -/
theorem aliases_add (op : Operation) :
    (add needed p op).aliases.Perm (p.aliases ++ op.alias?.toList) := by
  have h := (@operations_add p needed op).filterMap Operation.alias?
  rw [List.filterMap_append, filterMap_operations, filterMap_operations, filterMap_filter] at h
  cases op <;> exact h

/-- **A plan has the aliases of its statement.** -/
theorem aliases_ofStatement (s : Statement) : (ofStatement s).aliases.Perm s.aliases := by
  have h := (operations_ofStatement s).filterMap Operation.alias?
  rw [filterMap_operations, filterMap_filter] at h
  exact h

theorem mem_aliases_of_postAliases (h : x ∈ p.postAliases) : x ∈ p.aliases :=
  List.mem_append_left _ (List.mem_append_right _ h)

/-! ## Clauses -/

/-- What no operation changes, a list of operations leaves as it was. -/
theorem foldl_add_eq {α : Type} (part : Plan → α) (h : ∀ p op, part (add needed p op) = part p)
    (ops : List Operation) : part (ops.foldl (add needed) p) = part p := by
  induction ops generalizing p with
  | nil => rfl
  | cons op ops ih => rw [List.foldl_cons, ih, h]

/-- No operation changes the source, the period, the keys or the order. -/
theorem clauses_add (op : Operation) :
    ((add needed p op).source, (add needed p op).period, (add needed p op).group,
      (add needed p op).order) = (p.source, p.period, p.group, p.order) := by
  cases op with
  | calculate e a =>
    rw [add]
    split <;> rfl
  | _ => rfl

/-- The clauses of a statement are those of its plan. -/
theorem clauses_ofStatement (s : Statement) :
    ((ofStatement s).source, (ofStatement s).period, (ofStatement s).group,
      (ofStatement s).order) = (s.source, s.period, s.group.getD [], s.order) :=
  foldl_add_eq (fun p => (p.source, p.period, p.group, p.order)) (fun _ => clauses_add) s.operations

theorem source_ofStatement (s : Statement) : (ofStatement s).source = s.source :=
  congrArg Prod.fst (clauses_ofStatement s)

theorem period_ofStatement (s : Statement) : (ofStatement s).period = s.period :=
  congrArg (fun x => x.2.1) (clauses_ofStatement s)

theorem group_ofStatement (s : Statement) : (ofStatement s).group = s.group.getD [] :=
  congrArg (fun x => x.2.2.1) (clauses_ofStatement s)

theorem order_ofStatement (s : Statement) : (ofStatement s).order = s.order :=
  congrArg (fun x => x.2.2.2) (clauses_ofStatement s)

/-- What a plan selects, one of its operations selects. -/
theorem mem_of_select_foldl {ops : List Operation} {fields : List String}
    (h : (ops.foldl (add needed) p).select = some fields) :
    p.select = some fields ∨ .select fields ∈ ops := by
  induction ops generalizing p with
  | nil => exact Or.inl h
  | cons op ops ih =>
    rcases ih h with h | h
    · cases op with
      | select fields' =>
        cases h
        exact Or.inr List.mem_cons_self
      | calculate e a =>
        rw [add] at h
        split at h <;> exact Or.inl h
      | _ => exact Or.inl h
    · exact Or.inr (List.mem_cons_of_mem _ h)

/-- A selection of the plan is one of the statement. -/
theorem mem_of_select_ofStatement {s : Statement} {fields : List String}
    (h : (ofStatement s).select = some fields) : .select fields ∈ s.operations :=
  (mem_of_select_foldl h).resolve_left (Option.some_ne_none fields ·.symm)

/-! ## Filters -/

/-- The parts of a filter are its conjuncts. -/
theorem mem_filterParts {s : Statement} {c : Condition} :
    c ∈ s.filterParts ↔ ∃ f ∈ s.filter, c ∈ f.conjuncts := by
  rw [Statement.filterParts]
  cases s.filter <;> simp

/-- The conditions before and behind the aggregates are the parts of the filter. -/
theorem filters_perm (s : Statement) :
    ((ofStatement s).preFilter ++ (ofStatement s).postFilter).Perm s.filterParts := by
  rw [ofStatement_eq_folded]
  exact List.perm_append_comm.trans (List.filter_append_perm _ _)

/-- A condition of a plan is a conjunct of the filter of its statement. -/
theorem exists_of_mem_filters {s : Statement} {c : Condition}
    (h : c ∈ (ofStatement s).preFilter ++ (ofStatement s).postFilter) :
    ∃ f ∈ s.filter, c ∈ f.conjuncts :=
  mem_filterParts.mp ((filters_perm s).subset h)

end Plan

end DataPhrase
