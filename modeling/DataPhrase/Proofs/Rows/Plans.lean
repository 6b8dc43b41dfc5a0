/-
# Plans of stages

The statement of a pipeline says what its stages say, and its plan splits the calculations and
conditions of the stages at their aggregation (`ofStatement_of_front`, `ofStatement_of_aggregate`).
-/
import DataPhrase.Proofs.Plan
import DataPhrase.Proofs.Rows.Sound

namespace DataPhrase.Rows

/-! ## Statements of drafts -/

/-- The operations that a stage adds to the statement. -/
def RowStage.operations : RowStage → List Operation
  | .aggregate as => as.map Aggregate.operation
  | .calculate cs => cs.map Calc.operation
  | .select fields => [.select fields]
  | _ => []

/-- The operations of a statement are added one after another to a plan. -/
theorem operations_draft (d : Pipeline.Draft) (xs : List NamedStage) :
    (draft d xs).statement.operations =
      d.statement.operations ++ (xs.map NamedStage.stage).flatMap RowStage.operations := by
  induction xs generalizing d with
  | nil => exact (List.append_nil _).symm
  | cons x xs ih =>
    have hx : (d.take x.written).statement.operations =
        d.statement.operations ++ x.stage.operations := by
      obtain ⟨name, w⟩ := x
      cases w <;> first | rfl | exact (List.append_nil _).symm
    show (draft (d.take x.written) xs).statement.operations = _
    rw [ih, hx, List.append_assoc, List.map_cons, List.flatMap_cons]

/-- The clauses of a statement are the phases of its stages. -/
structure Clauses (s : Statement) (ph : Phases) : Prop where
  filter : ∀ c ∈ s.filter, c.IsWritten
  conditions : s.filterParts = ph.conditions
  order : s.order = ph.order
  limit : s.limit = ph.limit

theorem clauses_take {d : Pipeline.Draft} {ph : Phases} (h : Clauses d.statement ph)
    {x : NamedStage} (hw : x.stage.IsWritten) :
    Clauses (d.take x.written).statement (ph.add x.stage) := by
  obtain ⟨name, w⟩ := x
  cases w with
  | filter c =>
    have hc : c.IsWritten := hw
    obtain ⟨hf, hp, ho, hl⟩ := h
    cases hs : d.statement.filter with
    | none =>
      have hfilter : (d.take (NamedStage.written ⟨name, .filter c⟩)).statement.filter = some c := by
        show (d.statement.addFilter c).filter = _
        rw [Statement.addFilter, hs]
      rw [Statement.filterParts, hs] at hp
      refine ⟨?_, ?_, ho, hl⟩
      · intro e he
        rw [hfilter] at he
        cases he
        exact hc
      · rw [Statement.filterParts, hfilter]
        show c.conjuncts = ph.conditions ++ c.conjuncts
        rw [← hp]
        rfl
    | some old =>
      -- a further filter is put behind the first with `and`, so its parts come last
      have hold : ∀ e ∈ [old, c], e.IsWritten :=
        List.forall_mem_cons.mpr ⟨hf old hs, List.forall_mem_singleton.mpr hc⟩
      have hfilter : (d.take (NamedStage.written ⟨name, .filter c⟩)).statement.filter =
          some (.and [old, c]) := by
        show (d.statement.addFilter c).filter = _
        rw [Statement.addFilter, hs]
      rw [Statement.filterParts, hs] at hp
      refine ⟨?_, ?_, ho, hl⟩
      · intro e he
        rw [hfilter] at he
        cases he
        exact Condition.isWritten_and hold
      · rw [Statement.filterParts, hfilter]
        show (Condition.and [old, c]).conjuncts = ph.conditions ++ c.conjuncts
        rw [Condition.conjuncts_and hold, ← hp]
        simp
  | sort order => exact ⟨h.filter, h.conditions, rfl, h.limit⟩
  | limit n => exact ⟨h.filter, h.conditions, h.order, rfl⟩
  | _ => exact ⟨h.filter, h.conditions, h.order, h.limit⟩

theorem clauses_draft {d : Pipeline.Draft} {ph : Phases} (h : Clauses d.statement ph)
    {xs : List NamedStage} (hw : ∀ x ∈ xs, x.stage.IsWritten) :
    Clauses (draft d xs).statement ((xs.map NamedStage.stage).foldl Phases.add ph) := by
  induction xs generalizing d ph with
  | nil => exact h
  | cons x xs ih =>
    rw [List.forall_mem_cons] at hw
    exact ih (clauses_take h hw.1) hw.2

/-! ## Phases of parts -/

namespace Phases

/-- Phases of calculations and conditions only are followed by the phases of further stages. -/
theorem foldl_add {ph : Phases} (ho : ph.order = []) (hs : ph.select = none) (hl : ph.limit = none)
    (ws : List RowStage) : ws.foldl add ph =
      { ofStages ws with
        calcs := ph.calcs ++ (ofStages ws).calcs
        conditions := ph.conditions ++ (ofStages ws).conditions } := by
  induction ws using List.reverseRecOn with
  | nil =>
    obtain ⟨calcs, conditions, order, select, limit⟩ := ph
    cases ho
    cases hs
    cases hl
    simp [ofStages]
  | append_singleton ws w ih =>
    rw [List.foldl_append, ih, ofStages_append]
    cases w with
    | filter c => simp [add]
    | calculate cs => simp [add]
    | _ => rfl

/-- Stages that filter, calculate and group come to calculations and conditions. -/
theorem ofStages_of_isEarly {ws : List RowStage} (h : ∀ w ∈ ws, w.isEarly = true) :
    (ofStages ws).order = [] ∧ (ofStages ws).select = none ∧ (ofStages ws).limit = none := by
  induction ws using List.reverseRecOn with
  | nil => exact ⟨rfl, rfl, rfl⟩
  | append_singleton ws w ih =>
    rw [ofStages_append]
    have hw := h w (List.mem_append_right ws (List.mem_singleton_self w))
    have := ih fun e he => h e (List.mem_append_left _ he)
    cases w with
    | filter c => exact this
    | calculate cs => exact this
    | group ks => exact this
    | _ => cases hw

/-- The phases of stages with an aggregation: those before it add calculations and conditions. -/
theorem ofStages_aggregate {front : List RowStage} (h : ∀ w ∈ front, w.isEarly = true)
    (as : List Aggregate) (back : List RowStage) :
    ofStages (front ++ .aggregate as :: back) =
      { ofStages back with
        calcs := (ofStages front).calcs ++ (ofStages back).calcs
        conditions := (ofStages front).conditions ++ (ofStages back).conditions } := by
  obtain ⟨ho, hs, hl⟩ := ofStages_of_isEarly h
  rw [ofStages, List.foldl_append, List.foldl_cons]
  exact foldl_add ho hs hl back

/-- What filters, calculates and groups, and what does not, have their parts in the phases. -/
theorem ofStages_filter_isEarly (ws : List RowStage) :
    (ofStages ws).calcs = (ofStages (ws.filter RowStage.isEarly)).calcs ∧
      (ofStages ws).conditions = (ofStages (ws.filter RowStage.isEarly)).conditions ∧
      ofStages (ws.filter fun w => !w.isEarly) =
        { ofStages ws with calcs := [], conditions := [] } := by
  induction ws using List.reverseRecOn with
  | nil => exact ⟨rfl, rfl, rfl⟩
  | append_singleton ws w ih =>
    obtain ⟨hcalcs, hconditions, hlate⟩ := ih
    rw [List.filter_append, List.filter_append, ofStages_append]
    cases hw : w.isEarly with
    | true =>
      rw [List.filter_cons_of_pos hw, List.filter_cons_of_neg (by simp [hw]), List.filter_nil,
        List.filter_nil, ofStages_append, List.append_nil, hlate]
      cases w with
      | filter c => exact ⟨hcalcs, congrArg (· ++ _) hconditions, rfl⟩
      | calculate cs => exact ⟨congrArg (· ++ _) hcalcs, hconditions, rfl⟩
      | group ks => exact ⟨hcalcs, hconditions, rfl⟩
      | _ => cases hw
    | false =>
      rw [List.filter_cons_of_neg (by simp [hw]), List.filter_cons_of_pos (by simp [hw]),
        List.filter_nil, List.filter_nil, List.append_nil, ofStages_append, hlate]
      cases w with
      | filter c => cases hw
      | calculate cs => cases hw
      | group ks => cases hw
      | _ => exact ⟨hcalcs, hconditions, rfl⟩

end Phases

/-! ## Plans of drafts -/

section Plans

variable {needed : List String} {p : Plan}

theorem foldl_add_aggregates (as : List Aggregate) :
    (as.map Aggregate.operation).foldl (Plan.add needed) p =
      { p with aggregates := p.aggregates ++ as } := by
  induction as generalizing p with
  | nil => simp
  | cons a as ih =>
    rw [List.map_cons, List.foldl_cons, ih]
    simp [Plan.add, Aggregate.operation]

/-- Before the first aggregate, calculations run on the rows of the source. -/
theorem foldl_add_preCalcs (hagg : p.aggregates = []) (hpost : p.postCalcs = []) (cs : List Calc) :
    (cs.map Calc.operation).foldl (Plan.add needed) p =
      { p with preCalcs := p.preCalcs ++ cs } := by
  induction cs generalizing p with
  | nil => simp
  | cons c cs ih =>
    have hadd : Plan.add needed p c.operation = { p with preCalcs := p.preCalcs ++ [c] } :=
      Plan.add_calculate_early hagg hpost c.expression c.aliasName
    rw [List.map_cons, List.foldl_cons, hadd,
      ih (p := { p with preCalcs := p.preCalcs ++ [c] }) hagg hpost]
    simp

/-- Behind the first aggregate, calculations that no aggregate needs run on the reduced rows. -/
theorem foldl_add_postCalcs (hagg : p.aggregates ≠ []) {cs : List Calc}
    (hn : ∀ c ∈ cs, c.aliasName ∉ needed) :
    (cs.map Calc.operation).foldl (Plan.add needed) p =
      { p with postCalcs := p.postCalcs ++ cs } := by
  induction cs generalizing p with
  | nil => simp
  | cons c cs ih =>
    rw [List.forall_mem_cons] at hn
    have hadd : Plan.add needed p c.operation = { p with postCalcs := p.postCalcs ++ [c] } :=
      Plan.add_calculate_late hagg hn.1
    rw [List.map_cons, List.foldl_cons, hadd,
      ih (p := { p with postCalcs := p.postCalcs ++ [c] }) hagg hn.2]
    simp

/-- Stages before the first aggregate go to the calculations on the rows of the source. -/
theorem foldl_add_front (ph : Phases) (hagg : p.aggregates = []) (hpost : p.postCalcs = [])
    (hc : p.preCalcs = ph.calcs) (hs : p.select = ph.select) {ws : List RowStage}
    (hw : ∀ w ∈ ws, w.isAggregate = false) :
    (ws.flatMap RowStage.operations).foldl (Plan.add needed) p =
      { p with preCalcs := (ws.foldl Phases.add ph).calcs
               select := (ws.foldl Phases.add ph).select } := by
  induction ws generalizing p ph with
  | nil =>
    rw [List.foldl_nil, ← hc, ← hs]
    rfl
  | cons w ws ih =>
    rw [List.forall_mem_cons] at hw
    rw [List.flatMap_cons, List.foldl_append, List.foldl_cons]
    cases w with
    | aggregate as => cases hw.1
    | calculate cs =>
      rw [RowStage.operations, foldl_add_preCalcs hagg hpost]
      exact ih (ph.add (.calculate cs)) hagg hpost (congrArg (· ++ cs) hc) hs hw.2
    | select fields => exact ih (ph.add (.select fields)) hagg hpost hc rfl hw.2
    | _ => exact ih _ hagg hpost hc hs hw.2

/-- Stages behind an aggregate go to the calculations on the reduced rows. -/
theorem foldl_add_back (ph : Phases) (hagg : p.aggregates ≠ [])
    (hc : p.postCalcs = ph.calcs) (hs : p.select = ph.select) {ws : List RowStage}
    (hw : ∀ w ∈ ws, w.isAggregate = false) (hn : ∀ w ∈ ws, ∀ n ∈ w.defines, n ∉ needed) :
    (ws.flatMap RowStage.operations).foldl (Plan.add needed) p =
      { p with postCalcs := (ws.foldl Phases.add ph).calcs
               select := (ws.foldl Phases.add ph).select } := by
  induction ws generalizing p ph with
  | nil =>
    rw [List.foldl_nil, ← hc, ← hs]
    rfl
  | cons w ws ih =>
    rw [List.forall_mem_cons] at hw hn
    rw [List.flatMap_cons, List.foldl_append, List.foldl_cons]
    cases w with
    | aggregate as => cases hw.1
    | calculate cs =>
      have hcs : ∀ c ∈ cs, c.aliasName ∉ needed := by
        intro c hm
        refine hn.1 _ ?_
        rw [RowStage.defines_calculate]
        exact List.mem_map_of_mem hm
      rw [RowStage.operations, foldl_add_postCalcs hagg hcs]
      exact ih (ph.add (.calculate cs)) hagg (congrArg (· ++ cs) hc) hs hw.2 hn.2
    | select fields => exact ih (ph.add (.select fields)) hagg hc rfl hw.2 hn.2
    | _ => exact ih _ hagg hc hs hw.2 hn.2

end Plans

/-! ## Statements of stages -/

/-- The statement says what the stages say. -/
structure Describes (s : Statement) (ws : List RowStage) : Prop where
  operations : s.operations = ws.flatMap RowStage.operations
  keys : s.group.getD [] = ws.foldl RowStage.keysAfter []
  clauses : Clauses s (Phases.ofStages ws)

theorem describes_draft (source : String) {xs : List NamedStage}
    (hw : ∀ x ∈ xs, x.stage.IsWritten) :
    Describes (draft (.start source) xs).statement (xs.map NamedStage.stage) where
  operations := operations_draft (.start source) xs
  keys := keys_draft (.start source) xs
  clauses := by
    have hstart : Clauses (Pipeline.Draft.start source).statement {} := by
      refine ⟨?_, rfl, rfl, rfl⟩
      intro c hc
      cases hc
    exact clauses_draft hstart hw

/-- The plan of a statement with calculations and aggregates, but without filters. -/
def planWith (s : Statement) (preCalcs : List Calc) (as : List Aggregate) (postCalcs : List Calc)
    (select : Option (List String)) : Plan :=
  { Plan.start s with
    preCalcs := preCalcs
    aggregates := as
    postCalcs := postCalcs
    select := select }

section Describing

variable {s : Statement} {as : List Aggregate}

theorem ofStatement_eq {preCalcs postCalcs : List Calc} {select : Option (List String)}
    (h : s.operations.foldl (Plan.add (Plan.namesNeeded s)) (Plan.start s) =
      planWith s preCalcs as postCalcs select) (later : Condition → Bool)
    (hl : ∀ c, (planWith s preCalcs as postCalcs select).filtersAfter c = later c) :
    Plan.ofStatement s =
      { planWith s preCalcs as postCalcs select with
        preFilter := s.filterParts.filter fun c => !later c
        postFilter := s.filterParts.filter later } := by
  obtain rfl : (planWith s preCalcs as postCalcs select).filtersAfter = later := funext hl
  rw [← h]
  rfl

/-- The plan of stages without an aggregation. -/
theorem ofStatement_of_front {ws : List RowStage} (hd : Describes s ws)
    (hw : ∀ w ∈ ws, w.isAggregate = false) : Plan.ofStatement s =
      { planWith s (Phases.ofStages ws).calcs [] [] (Phases.ofStages ws).select with
        preFilter := (Phases.ofStages ws).conditions } := by
  have hfold : s.operations.foldl (Plan.add (Plan.namesNeeded s)) (Plan.start s) =
      planWith s (Phases.ofStages ws).calcs [] [] (Phases.ofStages ws).select := by
    rw [hd.operations]
    exact foldl_add_front {} rfl rfl rfl rfl hw
  rw [ofStatement_eq hfold (fun _ => false), hd.clauses.conditions]
  · have hpre : (Phases.ofStages ws).conditions.filter (fun _ => !false) =
        (Phases.ofStages ws).conditions := List.filter_eq_self.mpr fun _ _ => rfl
    have hpost : (Phases.ofStages ws).conditions.filter (fun _ => false) = [] :=
      List.filter_eq_nil_iff.mpr fun _ _ => nofun
    rw [hpre, hpost]
    rfl
  · intro c
    have hr : (planWith s (Phases.ofStages ws).calcs [] [] (Phases.ofStages ws).select).readsPost
        c.fieldNames = false := by
      rw [Plan.readsPost, List.any_eq_false]
      intro n hn hm
      cases List.contains_iff_mem.mp hm
    exact congrArg (· && _) hr

/-- A condition reads an alias that exists only behind the aggregation. -/
def readsLater (as : List Aggregate) (calcs : List Calc) (c : Condition) : Bool :=
  c.fieldNames.any (as.map Aggregate.aliasName ++ calcs.map Calc.aliasName).contains

/-- The plan of stages with one aggregation. -/
theorem ofStatement_of_aggregate {front back : List RowStage}
    (hd : Describes s (front ++ .aggregate as :: back))
    (has : as ≠ []) (hf : ∀ w ∈ front, w.isEarly = true) (hk : ∀ w ∈ back, w.isAggregate = false)
    (hn : ∀ w ∈ back, ∀ n ∈ w.defines, n ∉ Plan.namesNeeded s) : Plan.ofStatement s =
      { planWith s (Phases.ofStages front).calcs as (Phases.ofStages back).calcs
          (Phases.ofStages back).select with
        preFilter := s.filterParts.filter fun c =>
          !readsLater as (Phases.ofStages back).calcs c
        postFilter := s.filterParts.filter (readsLater as (Phases.ofStages back).calcs) } := by
  obtain ⟨-, hsel, -⟩ := Phases.ofStages_of_isEarly hf
  have hnotf : ∀ w ∈ front, w.isAggregate = false :=
    fun w hw => RowStage.isAggregate_of_isEarly (hf w hw)
  have hfront : (front.flatMap RowStage.operations).foldl (Plan.add (Plan.namesNeeded s))
      (Plan.start s) = planWith s (Phases.ofStages front).calcs [] []
        (Phases.ofStages front).select :=
    foldl_add_front {} rfl rfl rfl rfl hnotf
  refine ofStatement_eq ?_ _ ?_
  · rw [hd.operations, List.flatMap_append, List.foldl_append, hfront, List.flatMap_cons,
      List.foldl_append, RowStage.operations, foldl_add_aggregates,
      foldl_add_back {} has rfl hsel hk hn]
    rfl
  · intro c
    have ha : (planWith s (Phases.ofStages front).calcs as (Phases.ofStages back).calcs
        (Phases.ofStages back).select).isAggregated = true := by
      rw [Plan.isAggregated, Bool.or_eq_true]
      exact Or.inl (by simpa [planWith] using has)
    rw [Plan.filtersAfter, ha, Bool.and_true]
    rfl

end Describing

end DataPhrase.Rows
