/-
# Settled statements and their plans

A statement with a name settled has the aliases and sources it had, and its plan is the settled
plan of the statement (`ofStatement_settle`): aliases alone decide in which phase a calculation or a
part of the filter runs, and they are never settled.
-/
import DataPhrase.Proofs.Ambiguity.Settle
import DataPhrase.Proofs.Plan

namespace DataPhrase

variable {d : Snapshot} {m : Settling}

/-! ## Conditions -/

namespace Condition

/-- The condition with the name settled. -/
def settle (m : Settling) (c : Condition) : Condition :=
  c.mapExprs (Expr.settle m)

mutual

/-- The expressions of a changed condition are the changed expressions. -/
theorem exprs_mapExprs (f : Expr → Expr) (c : Condition) : (c.mapExprs f).exprs = c.exprs.map f := by
  cases c with
  | comparison l op r => rfl
  | logical op cs => rw [mapExprs, exprs, exprs, exprsAll_mapExprsAll f cs]
  | not c => rw [mapExprs, exprs, exprs, exprs_mapExprs f c]
  | call n args => rfl

theorem exprsAll_mapExprsAll (f : Expr → Expr) (cs : List Condition) :
    exprsAll (mapExprsAll f cs) = (exprsAll cs).map f := by
  cases cs with
  | nil => rfl
  | cons c cs =>
    rw [mapExprsAll, exprsAll, exprsAll, List.map_append, exprs_mapExprs f c,
      exprsAll_mapExprsAll f cs]

end

theorem mapExprsAll_eq (f : Expr → Expr) (cs : List Condition) :
    mapExprsAll f cs = cs.map (mapExprs f) := by
  induction cs with
  | nil => rfl
  | cons c cs ih => rw [mapExprsAll, ih, List.map_cons]

/-- The conjuncts of a settled condition are the settled conjuncts. -/
theorem conjuncts_settle (c : Condition) :
    (c.settle m).conjuncts = c.conjuncts.map (settle m) := by
  cases c with
  | comparison l op r => rfl
  | logical op cs =>
    cases op with
    | and =>
      show mapExprsAll (Expr.settle m) cs = cs.map (settle m)
      rw [mapExprsAll_eq]
      rfl
    | or => rfl
  | not c => rfl
  | call n args => rfl

/-- The fields of a condition are settled one by one. -/
theorem settles_fields (hm : m.Sound d) (c : Condition) :
    Settles d m.name c.fields (c.settle m).fields := by
  rw [fields, fields, settle, exprs_mapExprs]
  exact Settles.flatMap fun e _ => hm.expr e

/-- The names of a condition agree but for the one that is settled. -/
theorem fieldNames_settle (hm : m.Sound d) (c : Condition) :
    AgreeBut m.name c.fieldNames (c.settle m).fieldNames :=
  (settles_fields hm c).agreeBut

end Condition

/-! ## Operations -/

namespace Operation

/-- The operation with the name settled. -/
def settle (m : Settling) (op : Operation) : Operation :=
  (op.mapExprs (Expr.settle m)).mapWritten m.rename

/-- Settling changes no alias. -/
theorem alias?_settle (op : Operation) : (op.settle m).alias? = op.alias? := by
  cases op <;> rfl

/-- Settling changes no source that is joined. -/
theorem joined?_settle (op : Operation) : (op.settle m).joined? = op.joined? := by
  cases op <;> rfl

theorem isOrdered_settle (op : Operation) :
    Check.isOrdered (op.settle m) = Check.isOrdered op := by
  cases op <;> rfl

/-- Sort keys are renamed one by one. -/
theorem map_field_rename (order : List OrderItem) :
    (order.map fun k => { k with field := m.rename k.field }).map OrderItem.field =
      (order.map OrderItem.field).map m.rename := by
  rw [List.map_map, List.map_map]
  rfl

theorem settles_option (hm : m.Sound d) (e : Option Expr) :
    Settles d m.name ((e.map Expr.fields).getD [])
      (((e.map (Expr.settle m)).map Expr.fields).getD []) := by
  cases e with
  | none => exact Settles.refl []
  | some e => exact hm.expr e

/-- What a settled operation mentions. -/
theorem settles_mentions (hm : m.Sound d) (op : Operation) :
    Settles d m.name (Check.mentions op) (Check.mentions (op.settle m)) := by
  cases op with
  | aggregate f e a => exact hm.expr e
  | calculate e a => exact hm.expr e
  | window f e p o a =>
    show Settles d m.name ((e.map Expr.fields).getD [] ++
        (p ++ o.map OrderItem.field).map Check.splitName)
      (((e.map (Expr.settle m)).map Expr.fields).getD [] ++ (p.map m.rename ++
        (o.map fun k => { k with field := m.rename k.field }).map OrderItem.field).map
          Check.splitName)
    rw [map_field_rename, ← List.map_append]
    exact (settles_option hm e).append (hm.written_names _)
  | select fields => exact hm.written_names fields
  | join s c => exact Condition.settles_fields hm c

end Operation

/-! ## Statements -/

namespace Statement

/-- The statement with the name settled. -/
def settle (m : Settling) (s : Statement) : Statement :=
  (s.mapExprs (Expr.settle m)).mapWritten m.rename

/-- The operations of a settled statement are the settled operations. -/
theorem operations_settle (s : Statement) :
    (s.settle m).operations = s.operations.map (Operation.settle m) := by
  show (s.operations.map _).map _ = _
  rw [List.map_map]
  rfl

theorem filter_settle (s : Statement) :
    (s.settle m).filter = s.filter.map (Condition.settle m) :=
  rfl

/-- Keys are renamed one by one. -/
theorem group_settle (s : Statement) :
    (s.settle m).group.getD [] = (s.group.getD []).map m.rename := by
  show (s.group.map (List.map m.rename)).getD [] = _
  cases s.group <;> rfl

/-- The aliases of a statement stay. -/
theorem aliases_settle (s : Statement) : (s.settle m).aliases = s.aliases := by
  have h : Operation.alias? ∘ Operation.settle m = Operation.alias? := by
    funext op
    exact op.alias?_settle
  rw [aliases, operations_settle, List.filterMap_map, h, aliases]

/-- The sources of a statement stay. -/
theorem sources_settle (s : Statement) : (s.settle m).sources = s.sources := by
  have h : Operation.joined? ∘ Operation.settle m = Operation.joined? := by
    funext op
    exact op.joined?_settle
  rw [sources, operations_settle, List.filterMap_map, h, sources]
  rfl

end Statement

/-! ## Plans -/

namespace Plan

/-- The calculation with the name settled. -/
def settleCalc (m : Settling) (c : Calc) : Calc :=
  { c with expression := c.expression.settle m }

/-- The aggregate with the name settled. -/
def settleAggregate (m : Settling) (a : Aggregate) : Aggregate :=
  { a with field := a.field.settle m }

/-- The window with the name settled. -/
def settleWindow (m : Settling) (w : Window) : Window :=
  { w with
    field := w.field.map (Expr.settle m)
    partitionBy := w.partitionBy.map m.rename
    orderBy := w.orderBy.map fun k => { k with field := m.rename k.field } }

/-- The plan with the name settled. -/
def settle (m : Settling) (p : Plan) : Plan :=
  { p with
    joins := p.joins.map fun j => { j with condition := j.condition.settle m }
    preCalcs := p.preCalcs.map (settleCalc m)
    preFilter := p.preFilter.map (Condition.settle m)
    group := p.group.map m.rename
    aggregates := p.aggregates.map (settleAggregate m)
    postCalcs := p.postCalcs.map (settleCalc m)
    postFilter := p.postFilter.map (Condition.settle m)
    windows := p.windows.map (settleWindow m)
    select := p.select.map (List.map m.rename)
    order := p.order.map fun k => { k with field := m.rename k.field } }

/-- The aliases behind the aggregates stay. -/
theorem postAliases_settle (p : Plan) : (p.settle m).postAliases = p.postAliases := by
  show (p.aggregates.map (settleAggregate m)).map Aggregate.aliasName ++
    (p.postCalcs.map (settleCalc m)).map Calc.aliasName = _
  rw [List.map_map, List.map_map]
  rfl

theorem windowAliases_settle (p : Plan) :
    (p.settle m).windows.map Window.aliasName = p.windows.map Window.aliasName := by
  show (p.windows.map (settleWindow m)).map Window.aliasName = _
  rw [List.map_map]
  rfl

/-- A plan stays with or without aggregates. -/
theorem isAggregated_settle (p : Plan) : (p.settle m).isAggregated = p.isAggregated := by
  show (!(p.aggregates.map (settleAggregate m)).isEmpty || !(p.group.map m.rename).isEmpty) = _
  rw [List.isEmpty_map, List.isEmpty_map]
  rfl

/-- Whether a name from behind the aggregates is read stays. -/
theorem readsPost_settle {p : Plan} {l l' : List String} (h : AgreeBut m.name l l')
    (hp : m.Avoids p.postAliases) : (p.settle m).readsPost l' = p.readsPost l := by
  rw [readsPost, postAliases_settle, readsPost, h.any_contains hp]

/-- Whether a calculation runs behind the aggregates stays. -/
theorem runsAfter_settle (hm : m.Sound d) {p : Plan} {c : Calc} {needed needed' : List String}
    (hn : AgreeBut m.name needed needed') (hp : m.Avoids p.postAliases)
    (hc : IsPlain c.aliasName ∧ c.aliasName ≠ m.name) :
    runsAfter needed' (p.settle m) (settleCalc m c) = runsAfter needed p c := by
  have hr := readsPost_settle (hm.expr c.expression).agreeBut hp
  have he : (p.settle m).aggregates.isEmpty = p.aggregates.isEmpty := List.isEmpty_map
  have hc : needed'.contains (settleCalc m c).aliasName = needed.contains c.aliasName :=
    hn.contains hc
  unfold runsAfter
  rw [he, hc]
  congr 1

/-- The plan of a settled operation more is the settled plan. -/
theorem add_settle (hm : m.Sound d) {p : Plan} {op : Operation} {needed needed' : List String}
    (hn : AgreeBut m.name needed needed') (hp : m.Avoids p.postAliases)
    (hop : m.Avoids op.alias?.toList) :
    add needed' (p.settle m) (op.settle m) = (add needed p op).settle m := by
  cases op with
  | calculate e a =>
    have hr : runsAfter needed' (p.settle m) ⟨a, e.settle m⟩ = runsAfter needed p ⟨a, e⟩ :=
      runsAfter_settle (c := ⟨a, e⟩) hm hn hp (hop a (List.mem_singleton_self a))
    show add needed' (p.settle m) (.calculate (e.settle m) a) = _
    rw [add, add, hr]
    split
    · simp only [settle, List.map_append, List.map_cons, List.map_nil, settleCalc]
    · simp only [settle, List.map_append, List.map_cons, List.map_nil, settleCalc]
  | aggregate f e a =>
    simp only [Operation.settle, Operation.mapExprs, Operation.mapWritten, add, settle,
      List.map_append, List.map_cons, List.map_nil, settleAggregate]
  | window f e pb ob a =>
    simp only [Operation.settle, Operation.mapExprs, Operation.mapWritten, add, settle,
      List.map_append, List.map_cons, List.map_nil, settleWindow]
  | select fields => rfl
  | join s c =>
    simp only [Operation.settle, Operation.mapExprs, Operation.mapWritten, add, settle,
      List.map_append, List.map_cons, List.map_nil, Condition.settle]

/-- The plan of settled operations is the settled plan. -/
theorem foldl_add_settle (hm : m.Sound d) {needed needed' : List String}
    (hn : AgreeBut m.name needed needed') {ops : List Operation} {p : Plan}
    (hp : m.Avoids p.aliases) (hops : ∀ op ∈ ops, m.Avoids op.alias?.toList) :
    (ops.map (Operation.settle m)).foldl (add needed') (p.settle m) =
      (ops.foldl (add needed) p).settle m := by
  induction ops generalizing p with
  | nil => rfl
  | cons op ops ih =>
    rw [List.forall_mem_cons] at hops
    have hpost : m.Avoids p.postAliases := fun x hx => hp x (mem_aliases_of_postAliases hx)
    have hadd : m.Avoids (add needed p op).aliases := by
      intro x hx
      rcases List.mem_append.mp ((aliases_add op).mem_iff.mp hx) with hx | hx
      · exact hp x hx
      · exact hops.1 x hx
    rw [List.map_cons, List.foldl_cons, List.foldl_cons, add_settle hm hn hpost hops.1,
      ih hadd hops.2]

/-! ## The plan of a settled statement -/

/-- The names that are needed agree but for the one that is settled. -/
theorem agreeBut_namesNeeded (hm : m.Sound d) (s : Statement) :
    AgreeBut m.name (namesNeeded s) (namesNeeded (s.settle m)) := by
  rw [namesNeeded, namesNeeded, Statement.group_settle, Statement.operations_settle]
  refine (hm.agreeBut_rename _).append (AgreeBut.flatMap ?_)
  intro op _
  cases op with
  | aggregate f e a => exact (hm.expr e).agreeBut
  | _ => exact fun x _ _ => Iff.rfl

/-- The plan starts with the settled operations. -/
theorem start_settle (s : Statement) : start (s.settle m) = (start s).settle m := by
  unfold start
  rw [Statement.group_settle]
  rfl

/-- **The plan of the settled operations is the settled plan.** -/
theorem folded_settle (hm : m.Sound d) {s : Statement} (ha : m.Avoids s.aliases) :
    folded (s.settle m) = (folded s).settle m := by
  have hops : ∀ op ∈ s.operations, m.Avoids op.alias?.toList := by
    intro op hop a hal
    exact ha a (List.mem_filterMap.mpr ⟨op, hop, Option.mem_toList.mp hal⟩)
  have hstart : m.Avoids (start s).aliases := by
    intro a hal
    cases hal
  rw [folded, Statement.operations_settle, start_settle,
    foldl_add_settle hm (agreeBut_namesNeeded hm s) hstart hops, folded]

/-- The parts of the filter are settled one by one. -/
theorem filterParts_settle (s : Statement) :
    (s.settle m).filterParts = s.filterParts.map (Condition.settle m) := by
  show ((s.filter.map (Condition.settle m)).map Condition.conjuncts).getD [] = _
  cases hf : s.filter with
  | none => rw [Statement.filterParts, hf]; rfl
  | some c =>
    rw [Statement.filterParts, hf]
    exact c.conjuncts_settle

/-- **The plan of a settled statement is the settled plan of the statement.** No calculation and no
part of the filter changes its phase. -/
theorem ofStatement_settle (hm : m.Sound d) {s : Statement} (ha : m.Avoids s.aliases) :
    ofStatement (s.settle m) = (ofStatement s).settle m := by
  have hpost : m.Avoids (folded s).postAliases :=
    fun a hal => ha a ((aliases_ofStatement s).mem_iff.mp (mem_aliases_of_postAliases hal))
  have hlater : (folded (s.settle m)).filtersAfter ∘ Condition.settle m =
      (folded s).filtersAfter := by
    funext c
    rw [Function.comp_apply, folded_settle hm ha, filtersAfter, isAggregated_settle,
      readsPost_settle (c.fieldNames_settle hm) hpost, filtersAfter]
  have hearlier : (fun c => !(folded (s.settle m)).filtersAfter c) ∘ Condition.settle m =
      fun c => !(folded s).filtersAfter c := by
    rw [← hlater]
    rfl
  rw [ofStatement_eq_folded, ofStatement_eq_folded, filterParts_settle, List.filter_map,
    List.filter_map, hlater, hearlier, folded_settle hm ha]
  rfl

end Plan

end DataPhrase
