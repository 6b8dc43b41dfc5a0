/-
# Settled statements pass

A statement that passes the checks still passes them when a name is settled soundly (`Passes.settle`).
The checks compare names with aliases, which are never settled, and with registered columns; what
settling brings in is such a column, and everything else it leaves where it was. Where a period lies
on the calendar is no matter of any check, so that a period may be realigned (`Passes.realign`).
-/
import DataPhrase.Proofs.Ambiguity.Statement
import DataPhrase.Proofs.Validation.Grouping

namespace DataPhrase.Check

variable {d : Snapshot} {m : Settling} {s : Statement} {r : FieldRef} {n : String}

/-! ## References -/

/-- Settling on a metric registers no column. -/
theorem isColumn_settle (r : FieldRef) : isColumn d (s.settle m) r = isColumn d s r := by
  obtain ⟨q, n⟩ := r
  cases q with
  | some q => rfl
  | none => rw [isColumn, isColumn, Statement.sources_settle]

/-- A field is found faulty before and after. -/
theorem fieldFindings_settle (r : FieldRef) :
    fieldFindings d (s.settle m) r = fieldFindings d s r := by
  rw [fieldFindings, fieldFindings, Statement.aliases_settle, Statement.sources_settle,
    isColumn_settle]

/-- A reference that can become a metric has no findings. -/
theorem fieldFindings_of_isMoved (h : IsMoved d n r) : fieldFindings d s r = [] := by
  obtain ⟨q, rfl, -, hc⟩ := h
  have hcol : isColumn d s (some q, n) = true := hc
  simp only [fieldFindings, hcol, Bool.not_true, Bool.and_false, Bool.false_eq_true, if_false,
    ite_self]

/-- A reference with a plain source is cut where it was put together. -/
theorem splitName_joinName_of_isMoved (h : IsMoved d n r) : splitName (joinName r) = r := by
  obtain ⟨q, rfl, hq, -⟩ := h
  exact splitName_qualified hq

/-- Aliases stay. -/
theorem aliases_map_settle (ops : List Operation) :
    (ops.map (Operation.settle m)).filterMap Operation.alias? =
      ops.filterMap Operation.alias? := by
  have h : Operation.alias? ∘ Operation.settle m = Operation.alias? := by
    funext op
    exact op.alias?_settle
  rw [List.filterMap_map, h]

/-- An operation without findings stays so. -/
theorem operationFindings_settle (hm : m.Sound d) {before after : List Operation} {op : Operation}
    (h : operationFindings d s before op after = []) :
    operationFindings d (s.settle m) (before.map (Operation.settle m)) (op.settle m)
      (after.map (Operation.settle m)) = [] := by
  simp only [operationFindings, aliases_map_settle, Operation.isOrdered_settle, isColumn_settle,
    fieldFindings_settle, List.flatMap_eq_nil_iff] at h ⊢
  intro r hr
  rcases (op.settles_mentions hm).origin r hr with hr | ⟨-, hmoved⟩
  · exact h r hr
  · -- what stands in the place of the name has a source, so that no alias can be meant
    rw [fieldFindings_of_isMoved hmoved, if_neg]
    obtain ⟨q, rfl, -⟩ := hmoved
    exact Bool.false_ne_true

/-- So do operations one behind another. -/
theorem operationsFindings_settle (hm : m.Sound d) {ops before : List Operation}
    (h : operationsFindings d s before ops = []) :
    operationsFindings d (s.settle m) (before.map (Operation.settle m))
      (ops.map (Operation.settle m)) = [] := by
  induction ops generalizing before with
  | nil => rfl
  | cons op ops ih =>
    rw [operationsFindings, List.append_eq_nil_iff] at h
    have hrest := ih h.2
    rw [List.map_append, List.map_cons, List.map_nil] at hrest
    rw [List.map_cons, operationsFindings, operationFindings_settle hm h.1, List.nil_append, hrest]

/-- A name that is held as text stays, or names a registered column. -/
theorem fieldFindings_rename (hm : m.Sound d) (h : fieldFindings d s (splitName n) = []) :
    fieldFindings d s (splitName (m.rename n)) = [] := by
  rcases hm.rename_cases n with hr | ⟨-, hmoved⟩
  · rw [hr]
    exact h
  · exact fieldFindings_of_isMoved hmoved

/-- The names of clauses have no findings after settling if they had none before. -/
theorem clauseNames_settle (hm : m.Sound d)
    (h : ∀ n ∈ clauseNames s, fieldFindings d s (splitName n) = []) :
    ∀ n ∈ clauseNames (s.settle m), fieldFindings d s (splitName n) = [] := by
  intro n hn
  simp only [clauseNames, List.mem_append, or_assoc] at h hn
  rcases hn with hn | hn | hn | hn
  · rw [Statement.filter_settle] at hn
    cases hf : s.filter with
    | none =>
      rw [hf] at hn
      cases hn
    | some c =>
      rw [hf] at hn
      have hc : ∀ r ∈ c.fields, fieldFindings d s (splitName (joinName r)) = [] := by
        intro r hr
        refine h _ (Or.inl ?_)
        rw [hf]
        exact List.mem_map_of_mem hr
      obtain ⟨r, hr, rfl⟩ := List.mem_map.mp hn
      rcases (c.settles_fields hm).origin r hr with hr | ⟨-, hmoved⟩
      · exact hc r hr
      · rw [splitName_joinName_of_isMoved hmoved]
        exact fieldFindings_of_isMoved hmoved
  · rw [Statement.group_settle] at hn
    obtain ⟨g, hg, rfl⟩ := List.mem_map.mp hn
    exact fieldFindings_rename hm (h g (Or.inr (Or.inl hg)))
  · have ho : (s.settle m).order.map OrderItem.field =
        (s.order.map OrderItem.field).map m.rename :=
      Operation.map_field_rename s.order
    rw [ho] at hn
    obtain ⟨k, hk, rfl⟩ := List.mem_map.mp hn
    exact fieldFindings_rename hm (h k (Or.inr (Or.inr (Or.inl hk))))
  · exact h n (Or.inr (Or.inr (Or.inr hn)))

/-! ## Dropped calculations -/

/-- What consumes a calculation before consumes it after. -/
theorem droppedFrom_settle (hm : m.Sound d) {post consumed consumed' : List String}
    (hpost : m.Avoids post) {cs : List Calc} (hcs : m.Avoids (cs.map Calc.aliasName))
    (hc : AgreeBut m.name consumed consumed') :
    droppedFrom post consumed' (cs.map (Plan.settleCalc m)) = droppedFrom post consumed cs := by
  induction cs generalizing consumed consumed' with
  | nil => rfl
  | cons c cs ih =>
    have hreads : AgreeBut m.name c.expression.fieldNames (c.expression.settle m).fieldNames :=
      (hm.expr c.expression).agreeBut
    rw [Settling.Avoids, List.map_cons, List.forall_mem_cons] at hcs
    have hcontains : consumed'.contains (Plan.settleCalc m c).aliasName =
        consumed.contains c.aliasName := hc.contains hcs.1
    have hany : (Plan.settleCalc m c).expression.fieldNames.any post.contains =
        c.expression.fieldNames.any post.contains := hreads.any_contains hpost
    rw [List.map_cons, droppedFrom, droppedFrom, hcontains, hany]
    split
    · exact ih hcs.2 (hc.append hreads)
    · split
      · exact ih hcs.2 hc
      · rw [ih hcs.2 hc]
        rfl

/-- The columns of the group keys stay. -/
theorem groupColumns_settle (hm : m.Sound d) (p : Plan) :
    (p.settle m).group.map (fun g => (splitName g).2) = p.group.map fun g => (splitName g).2 := by
  show (p.group.map m.rename).map _ = _
  rw [List.map_map]
  exact List.map_congr_left fun g _ => hm.column_rename g

/-- The names that aggregates and keys read are the same but for the one that is settled. -/
theorem agreeBut_consumedNames (hm : m.Sound d) (p : Plan) :
    AgreeBut m.name (consumedNames p) (consumedNames (p.settle m)) := by
  rw [consumedNames, consumedNames, groupColumns_settle hm]
  refine AgreeBut.append (AgreeBut.append (AgreeBut.append ?_ ?_) ?_) ?_
  · exact fun x _ _ => Iff.rfl
  · exact AgreeBut.flatMap fun a _ => (hm.expr a.field).agreeBut
  · exact AgreeBut.flatMap fun c _ => c.fieldNames_settle hm
  · exact fun x _ _ => Iff.rfl

/-- The same calculations are dropped. -/
theorem droppedCalcs_settle (hm : m.Sound d) {p : Plan} (hp : m.Avoids p.aliases) :
    droppedCalcs (p.settle m) = droppedCalcs p := by
  have hpost : m.Avoids p.postAliases := fun x hx => hp x (Plan.mem_aliases_of_postAliases hx)
  have hpre : m.Avoids (p.preCalcs.reverse.map Calc.aliasName) := by
    intro x hx
    rw [List.map_reverse, List.mem_reverse] at hx
    exact hp x (List.mem_append_left _ (List.mem_append_left _ hx))
  have hcalcs : (p.settle m).preCalcs.reverse = p.preCalcs.reverse.map (Plan.settleCalc m) :=
    List.map_reverse.symm
  rw [droppedCalcs, hcalcs, Plan.postAliases_settle,
    droppedFrom_settle hm hpost hpre (agreeBut_consumedNames hm p), droppedCalcs]

/-! ## Names after aggregation -/

/-- A name is grouped before and after. -/
theorem isGrouped_settle (hm : m.Sound d) (p : Plan) (n : String) :
    isGrouped (p.settle m) n = isGrouped p n := by
  rw [Bool.eq_iff_iff, isGrouped_iff, isGrouped_iff, groupColumns_settle hm]

/-- Every name of `l'` is a name of `l`, as it was or settled. -/
def ComesFrom (m : Settling) (l l' : List String) : Prop :=
  ∀ x' ∈ l', ∃ x ∈ l, x' = x ∨ x' = m.rename x

namespace ComesFrom

variable {l l' k k' : List String}

theorem append (h : ComesFrom m l l') (h' : ComesFrom m k k') :
    ComesFrom m (l ++ k) (l' ++ k') := by
  intro x' hx
  rcases List.mem_append.mp hx with hx | hx
  · obtain ⟨x, hl, he⟩ := h x' hx
    exact ⟨x, List.mem_append_left _ hl, he⟩
  · obtain ⟨x, hk, he⟩ := h' x' hx
    exact ⟨x, List.mem_append_right _ hk, he⟩

theorem flatMap {α β : Type} {as : List α} {f : α → List String} {g : α → β}
    {f' : β → List String} (h : ∀ a ∈ as, ComesFrom m (f a) (f' (g a))) :
    ComesFrom m (as.flatMap f) ((as.map g).flatMap f') := by
  intro x' hx
  obtain ⟨b, hb, hx⟩ := List.mem_flatMap.mp hx
  obtain ⟨a, ha, rfl⟩ := List.mem_map.mp hb
  obtain ⟨x, hf, he⟩ := h a ha x' hx
  exact ⟨x, List.mem_flatMap.mpr ⟨a, ha, hf⟩, he⟩

theorem map_rename (l : List String) : ComesFrom m l (l.map m.rename) := by
  intro x' hx
  obtain ⟨x, hl, rfl⟩ := List.mem_map.mp hx
  exact ⟨x, hl, Or.inr rfl⟩

/-- Names come from the settled references. -/
theorem of_settles {l l' : List FieldRef} (h : Settles d m.name l l') :
    ComesFrom m (l.map Prod.snd) (l'.map Prod.snd) :=
  fun x' hx => ⟨x', h.mem_of_mem_names hx, Or.inl rfl⟩

end ComesFrom

theorem comesFrom_option (hm : m.Sound d) (e : Option Expr) :
    ComesFrom m ((e.map Expr.fieldNames).getD [])
      (((e.map (Expr.settle m)).map Expr.fieldNames).getD []) := by
  cases e with
  | none => exact fun x hx => ⟨x, hx, Or.inl rfl⟩
  | some e => exact ComesFrom.of_settles (hm.expr e)

/-- The names behind the aggregates come from those before settling. -/
theorem comesFrom_namesAfter (hm : m.Sound d) (s : Statement) (p : Plan) :
    ComesFrom m (namesAfter s p) (namesAfter (s.settle m) (p.settle m)) := by
  have hselect : (p.settle m).select.getD [] = (p.select.getD []).map m.rename := by
    show (p.select.map (List.map m.rename)).getD [] = _
    cases p.select <;> rfl
  have horder : (s.settle m).order.map OrderItem.field =
      (s.order.map OrderItem.field).map m.rename :=
    Operation.map_field_rename s.order
  rw [namesAfter, namesAfter, hselect, horder]
  refine ComesFrom.append (ComesFrom.append (ComesFrom.append (ComesFrom.append ?_ ?_) ?_) ?_) ?_
  · exact ComesFrom.map_rename _
  · exact ComesFrom.map_rename _
  · refine ComesFrom.flatMap fun w _ => ?_
    show ComesFrom m _ ((w.partitionBy.map m.rename ++
      (w.orderBy.map fun k => { k with field := m.rename k.field }).map OrderItem.field) ++ _)
    rw [Operation.map_field_rename, ← List.map_append]
    exact (ComesFrom.map_rename _).append (comesFrom_option hm w.field)
  · exact ComesFrom.flatMap fun c _ => ComesFrom.of_settles (hm.expr c.expression)
  · exact ComesFrom.flatMap fun c _ => ComesFrom.of_settles (c.settles_fields hm)

/-- A name is kept before and after. -/
theorem isKept_settle (hm : m.Sound d) (p : Plan) (n : String) :
    isKept (p.settle m) n = isKept p n := by
  rw [isKept, isGrouped_settle hm, Plan.postAliases_settle, Plan.windowAliases_settle, isKept]

/-- Only a group key can be settled among the names that are kept. -/
theorem isKept_rename (hm : m.Sound d) {p : Plan} (hp : m.Avoids p.aliases)
    (h : isKept p n = true) : isKept p (m.rename n) = true := by
  by_cases hn : n = m.name
  · have hna : n ∉ p.aliases := fun hmem => (hp n hmem).2 hn
    have hpost : p.postAliases.contains n = false := by
      rw [← Bool.not_eq_true, List.contains_iff_mem]
      exact fun hmem => hna (Plan.mem_aliases_of_postAliases hmem)
    have hwindow : (p.windows.map Window.aliasName).contains n = false := by
      rw [← Bool.not_eq_true, List.contains_iff_mem]
      exact fun hmem => hna (List.mem_append_right _ hmem)
    rw [isKept, hpost, hwindow, Bool.or_false, Bool.or_false, isGrouped_iff] at h
    have hg : isGrouped p (m.rename n) = true := by
      rw [isGrouped_iff, hm.column_rename]
      exact h
    rw [isKept, hg, Bool.true_or, Bool.true_or]
  · rw [Settling.rename_of_ne hn]
    exact h

/-- Grouping stays without findings. -/
theorem groupingFindings_settle (hm : m.Sound d) {p : Plan} (hp : m.Avoids p.aliases)
    (h : groupingFindings s p = []) : groupingFindings (s.settle m) (p.settle m) = [] := by
  rw [groupingFindings_eq_nil] at h ⊢
  intro hagg
  rw [Plan.isAggregated_settle] at hagg
  obtain ⟨hdropped, hkept⟩ := h hagg
  constructor
  · rw [droppedCalcs_settle hm hp]
    exact hdropped
  · intro x' hx
    rw [isKept_settle hm]
    obtain ⟨x, hmem, rfl | rfl⟩ := comesFrom_namesAfter hm s p x' hx
    · exact hkept x' hmem
    · exact isKept_rename hm hp (hkept x hmem)

/-! ## Filters, calls and windows -/

/-- Settling brings no name into the filter. -/
theorem mem_filterNames_settle (hm : m.Sound d)
    (h : n ∈ ((s.settle m).filter.map Condition.fieldNames).getD []) :
    n ∈ (s.filter.map Condition.fieldNames).getD [] := by
  rw [Statement.filter_settle] at h
  cases hf : s.filter with
  | none =>
    rw [hf] at h
    cases h
  | some c =>
    rw [hf] at h
    exact (c.settles_fields hm).mem_of_mem_names h

/-- Settling brings no name into what rows read. -/
theorem mem_rowNames_settle (hm : m.Sound d) (h : n ∈ rowNames (s.settle m)) : n ∈ rowNames s := by
  rw [rowNames, Statement.operations_settle, List.mem_append] at h
  rw [rowNames, List.mem_append]
  rcases h with h | h
  · exact Or.inl (mem_filterNames_settle hm h)
  · right
    obtain ⟨op', hop', hn⟩ := List.mem_flatMap.mp h
    obtain ⟨op, hop, rfl⟩ := List.mem_map.mp hop'
    refine List.mem_flatMap.mpr ⟨op, hop, ?_⟩
    cases op with
    | aggregate f e a => exact (hm.expr e).mem_of_mem_names hn
    | calculate e a => exact (hm.expr e).mem_of_mem_names hn
    | window f e pb ob a => cases hn
    | select fields => cases hn
    | join src c => cases hn

/-- The filter stays without findings. -/
theorem filterFindings_settle (hm : m.Sound d) {p : Plan} (h : filterFindings s p = []) :
    filterFindings (s.settle m) (p.settle m) = [] := by
  have haggregates : (p.settle m).aggregates.map Aggregate.aliasName =
      p.aggregates.map Aggregate.aliasName := by
    show (p.aggregates.map (Plan.settleAggregate m)).map _ = _
    rw [List.map_map]
    rfl
  have hgroup : (s.settle m).group.isSome = s.group.isSome := Option.isSome_map
  rw [filterFindings] at h
  rw [filterFindings, hgroup, haggregates]
  split
  · rfl
  · next hg =>
    rw [if_neg hg, List.map_eq_nil_iff, List.filter_eq_nil_iff] at h
    rw [List.map_eq_nil_iff, List.filter_eq_nil_iff]
    intro x hx
    exact h x (mem_filterNames_settle hm hx)

/-- Windows stay without findings. -/
theorem windowFindings_settle (hm : m.Sound d) {p : Plan} (h : windowFindings s p = []) :
    windowFindings (s.settle m) (p.settle m) = [] := by
  rw [windowFindings, List.map_eq_nil_iff, List.filter_eq_nil_iff] at h ⊢
  intro x hx
  rw [Plan.windowAliases_settle]
  exact h x (mem_rowNames_settle hm hx)

/-- Settling changes no name of a call. -/
theorem callNames_settle (hm : m.Sound d) (e : Expr) :
    (e.settle m).calls.map Prod.fst = e.calls.map Prod.fst := by
  refine Expr.calls_mapFields ?_ e
  intro r x hx
  by_cases hr : r = (none, m.name)
  · rw [hr, Settling.field_name] at hx
    cases hx
    exact hm.calls
  · rw [Settling.field_of_ne hr] at hx
    cases hx

/-- Only the names of the calls count for nested aggregates. -/
theorem filter_calls (e : Expr) (a : String) :
    ((e.calls.filter fun c => (AggregateFn.ofName? c.1).isSome).map fun c =>
        Finding.nestedAggregate a c.1) =
      ((e.calls.map Prod.fst).filter fun c => (AggregateFn.ofName? c).isSome).map
        (Finding.nestedAggregate a) := by
  rw [List.filter_map, List.map_map]
  rfl

/-- Nested aggregates are found before and after. -/
theorem nestedFindings_settle (hm : m.Sound d) (op : Operation) :
    nestedFindings (op.settle m) = nestedFindings op := by
  cases op with
  | aggregate f e a =>
    show ((e.settle m).calls.filter _).map _ = (e.calls.filter _).map _
    rw [filter_calls, filter_calls, callNames_settle hm]
  | calculate e a =>
    show ((e.settle m).calls.filter _).map _ = (e.calls.filter _).map _
    rw [filter_calls, filter_calls, callNames_settle hm]
  | window f e pb ob a => rfl
  | select fields => rfl
  | join src c => rfl

/-! ## All checks -/

/-- **A statement that passes the checks still passes them once a name is settled.** -/
theorem Passes.settle (hm : m.Sound d) (ha : m.Avoids s.aliases) (h : Passes s d) :
    Passes (s.settle m) d := by
  have hp : m.Avoids (Plan.ofStatement s).aliases :=
    fun a hmem => ha a ((Plan.aliases_ofStatement s).mem_iff.mp hmem)
  have hplan := Plan.ofStatement_settle hm ha
  constructor
  · exact h.ends
  · rw [Statement.aliases_settle]
    exact h.aliases
  · rw [Statement.operations_settle]
    exact operationsFindings_settle hm h.operations
  · intro n hn
    rw [fieldFindings_settle]
    exact clauseNames_settle hm h.clauses n hn
  · exact h.scope
  · exact h.stages
  · rw [hplan]
    exact filterFindings_settle hm h.filter
  · rw [hplan]
    exact groupingFindings_settle hm hp h.grouping
  · intro op' hop'
    rw [Statement.operations_settle] at hop'
    obtain ⟨op, hop, rfl⟩ := List.mem_map.mp hop'
    rw [nestedFindings_settle hm]
    exact h.nested op hop
  · rw [hplan]
    exact windowFindings_settle hm h.windows

end DataPhrase.Check

namespace DataPhrase

/-! ## Realigned periods -/

variable {f : Period → Period}

/-- The statement with its period realigned. -/
def Statement.realign (f : Period → Period) (s : Statement) : Statement :=
  { s with period := s.period.map f }

namespace Plan

/-- The plan with its period realigned. -/
def realign (f : Period → Period) (p : Plan) : Plan :=
  { p with period := p.period.map f }

theorem add_realign (needed : List String) (p : Plan) (op : Operation) :
    add needed (p.realign f) op = (add needed p op).realign f := by
  cases op with
  | calculate e a =>
    have hr : runsAfter needed (p.realign f) ⟨a, e⟩ = runsAfter needed p ⟨a, e⟩ := rfl
    rw [add, add, hr]
    split <;> rfl
  | _ => rfl

/-- The plan of a statement with another period is the plan with that period. -/
theorem ofStatement_realign (s : Statement) :
    ofStatement (s.realign f) = (ofStatement s).realign f := by
  have hfold : ∀ (ops : List Operation) (p : Plan),
      ops.foldl (add (namesNeeded s)) (p.realign f) =
        (ops.foldl (add (namesNeeded s)) p).realign f := by
    intro ops
    induction ops with
    | nil => exact fun _ => rfl
    | cons op ops ih =>
      intro p
      rw [List.foldl_cons, List.foldl_cons, add_realign, ih]
  have hfolded : folded (s.realign f) = (folded s).realign f := hfold s.operations (start s)
  rw [ofStatement_eq_folded, ofStatement_eq_folded, hfolded]
  rfl

end Plan

namespace Check

variable {d : Snapshot} {s : Statement}

theorem period_realign (hf : ∀ p, (f p).field = p.field) (p : Option Period) :
    (p.map f).map Period.field = p.map Period.field := by
  cases p with
  | none => rfl
  | some p => exact congrArg some (hf p)

/-- The findings on operations do not look at the period. -/
theorem operationsFindings_realign (before ops : List Operation) :
    operationsFindings d (s.realign f) before ops = operationsFindings d s before ops := by
  induction ops generalizing before with
  | nil => rfl
  | cons op ops ih =>
    rw [operationsFindings, operationsFindings, ih]
    rfl

/-- A statement that passes still passes when its period is realigned. -/
theorem Passes.realign (hf : ∀ p, (f p).field = p.field) (h : Passes s d) :
    Passes (s.realign f) d := by
  have hplan := Plan.ofStatement_realign (f := f) s
  have hclauses : clauseNames (s.realign f) = clauseNames s := by
    show _ ++ ((s.period.map f).map Period.field).toList = _
    rw [period_realign hf]
    rfl
  have hconsumed : ∀ p : Plan, consumedNames (p.realign f) = consumedNames p := by
    intro p
    show _ ++ ((p.period.map f).map Period.field).toList = _
    rw [period_realign hf]
    rfl
  have hgrouping : ∀ p : Plan, groupingFindings (s.realign f) (p.realign f) =
      groupingFindings s p := by
    intro p
    have hdropped : droppedCalcs (p.realign f) = droppedCalcs p := by
      rw [droppedCalcs, hconsumed]
      rfl
    rw [groupingFindings, hdropped]
    rfl
  constructor
  · exact h.ends
  · exact h.aliases
  · exact (operationsFindings_realign [] s.operations).trans h.operations
  · rw [hclauses]
    exact h.clauses
  · exact h.scope
  · exact h.stages
  · rw [hplan]
    exact h.filter
  · rw [hplan, hgrouping]
    exact h.grouping
  · exact h.nested
  · rw [hplan]
    exact h.windows

end Check

end DataPhrase
