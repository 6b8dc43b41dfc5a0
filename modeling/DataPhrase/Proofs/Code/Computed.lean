/-
# What is computed before it is read

A plan moves calculations behind the aggregates, so the order of a statement is not the order of its
plan. In a valid statement an operation reads the results of operations before it, and the plan has
computed them by then (`computesInOrder_of_passes`), with two exceptions that the checks let through:
an aggregate on a calculation on aggregates, and whatever reads the result of a window
(`Plan.ReadsComputed`).
-/
import DataPhrase.Proofs.Code.Mentions
import DataPhrase.Proofs.Plan
import DataPhrase.Proofs.Validation.Passes

namespace DataPhrase

variable {src : String → Prop} {known known' : List String} {n : String}

theorem mem_bareNames {l : List FieldRef} :
    n ∈ l.filterMap FieldRef.bareName? ↔ (none, n) ∈ l := by
  rw [List.mem_filterMap]
  constructor
  · rintro ⟨⟨q, m⟩, hr, h⟩
    cases q with
    | none =>
      cases h
      exact hr
    | some q => cases h
  · intro h
    exact ⟨(none, n), h, rfl⟩

/-- The name is no alias of the statement, or the operation that has the alias reads a column of that
name itself. -/
def Statement.IsSourceName (s : Statement) (n : String) : Prop :=
  n ∈ s.aliases → ∃ op ∈ s.operations, op.alias? = some n ∧ n ∈ op.bareNames

instance (s : Statement) (n : String) : Decidable (s.IsSourceName n) :=
  inferInstanceAs (Decidable (_ → _))

/-! ## Columns that are computed in turn -/

/-- Every column reads names that are known, that columns before it have, or that are in `src`. -/
def ReadsBefore (src : String → Prop) (known : List String) : List (String × List String) → Prop
  | [] => True
  | c :: r => (∀ n ∈ c.2, n ∈ known ∨ src n) ∧ ReadsBefore src (c.1 :: known) r

/-- Columns that read what is known still do when more is known. -/
theorem ReadsBefore.mono {l : List (String × List String)} (h : ReadsBefore src known l)
    (hk : known ⊆ known') : ReadsBefore src known' l := by
  induction l generalizing known known' with
  | nil => trivial
  | cons c l ih =>
    refine ⟨?_, ih h.2 (List.cons_subset_cons c.1 hk)⟩
    intro n hn
    exact (h.1 n hn).imp_left fun h => hk h

/-- One more column can read all the others. -/
theorem ReadsBefore.concat {l : List (String × List String)} (h : ReadsBefore src known l)
    {c : String × List String} (hc : ∀ n ∈ c.2, n ∈ known ++ l.map Prod.fst ∨ src n) :
    ReadsBefore src known (l ++ [c]) := by
  induction l generalizing known with
  | nil =>
    rw [List.map_nil, List.append_nil] at hc
    exact ⟨hc, trivial⟩
  | cons x l ih =>
    refine ⟨h.1, ih h.2 ?_⟩
    intro n hn
    refine (hc n hn).imp_left fun hmem => ?_
    rw [List.map_cons, List.mem_append, List.mem_cons] at hmem
    rw [List.cons_append, List.mem_cons, List.mem_append]
    exact or_left_comm.mp hmem

/-! ## Plans -/

/-- A calculation with the names that it reads. -/
def Calc.reading (c : Calc) : String × List String :=
  (c.aliasName, c.expression.bareNames)

/-- An aggregate with the names that it reads. -/
def Aggregate.reading (a : Aggregate) : String × List String :=
  (a.aliasName, a.field.bareNames)

namespace Plan

/-- The aliases that are computed before windows. -/
def rowAliases (p : Plan) : List String :=
  p.preCalcs.map Calc.aliasName ++ p.postAliases

/-- The aliases that the plan has computed where it computes the operation. -/
def readable (p : Plan) : Operation → List String
  | .aggregate _ _ _ => p.preCalcs.map Calc.aliasName ++ p.aggregates.map Aggregate.aliasName
  | _ => p.rowAliases

/-- Every part of the plan reads what is computed before it, or names in `src`. -/
structure ComputesInOrder (src : String → Prop) (p : Plan) : Prop where
  calcs : ReadsBefore src [] (p.preCalcs.map Calc.reading)
  aggregates : ReadsBefore src (p.preCalcs.map Calc.aliasName) (p.aggregates.map Aggregate.reading)
  lateCalcs : ReadsBefore src (p.preCalcs.map Calc.aliasName ++ p.aggregates.map Aggregate.aliasName)
    (p.postCalcs.map Calc.reading)
  windows : ∀ w ∈ p.windows, ∀ n ∈ w.operation.bareNames, n ∈ p.rowAliases ∨ src n

/-- What the checks leave open: no aggregate reads a calculation on aggregates, and no window, join,
key or period reads the result of a window; a selection and the keys leave in what orders the
rows. -/
structure ReadsComputed (p : Plan) : Prop where
  aggregates : ∀ a ∈ p.aggregates, ∀ n ∈ a.field.bareNames, n ∉ p.postCalcs.map Calc.aliasName
  windows : p.windows.Pairwise fun v w => v.aliasName ∉ w.operation.bareNames
  joins : ∀ j ∈ p.joins, ∀ n ∈ j.condition.bareNames, n ∉ p.windows.map Window.aliasName
  keys : ∀ g ∈ p.group, g ∉ p.windows.map Window.aliasName
  period : ∀ t ∈ p.period, t.field ∉ p.windows.map Window.aliasName
  order : ∀ o ∈ p.order, o.field ∈ p.aliases → ∀ fields ∈ p.select, o.field ∈ fields
  orderKeys : ∀ o ∈ p.order, o.field ∈ p.aliases → ∀ g ∈ p.group,
    (Check.splitName g).2 = (Check.splitName o.field).2 → g = o.field

instance (p : Plan) : Decidable p.ReadsComputed :=
  decidable_of_iff
    ((∀ a ∈ p.aggregates, ∀ n ∈ a.field.bareNames, n ∉ p.postCalcs.map Calc.aliasName) ∧
      p.windows.Pairwise (fun v w => v.aliasName ∉ w.operation.bareNames) ∧
      (∀ j ∈ p.joins, ∀ n ∈ j.condition.bareNames, n ∉ p.windows.map Window.aliasName) ∧
      (∀ g ∈ p.group, g ∉ p.windows.map Window.aliasName) ∧
      (∀ t ∈ p.period, t.field ∉ p.windows.map Window.aliasName) ∧
      (∀ o ∈ p.order, o.field ∈ p.aliases → ∀ fields ∈ p.select, o.field ∈ fields) ∧
      ∀ o ∈ p.order, o.field ∈ p.aliases → ∀ g ∈ p.group,
        (Check.splitName g).2 = (Check.splitName o.field).2 → g = o.field)
    ⟨fun ⟨h1, h2, h3, h4, h5, h6, h7⟩ => ⟨h1, h2, h3, h4, h5, h6, h7⟩,
      fun ⟨h1, h2, h3, h4, h5, h6, h7⟩ => ⟨h1, h2, h3, h4, h5, h6, h7⟩⟩

variable {p : Plan} {needed : List String} {op : Operation}

theorem map_reading_calcs (l : List Calc) :
    (l.map Calc.reading).map Prod.fst = l.map Calc.aliasName := by
  rw [List.map_map]
  rfl

theorem map_reading_aggregates (l : List Aggregate) :
    (l.map Aggregate.reading).map Prod.fst = l.map Aggregate.aliasName := by
  rw [List.map_map]
  rfl

/-- A calculation that stays before the aggregates reads no name that exists only behind them. -/
theorem not_mem_postAliases {c : Calc} (h : p.runsAfter needed c = false)
    (hn : n ∈ c.expression.bareNames) : n ∉ p.postAliases := by
  rw [runsAfter, Bool.or_eq_false_iff, readsPost, List.any_eq_false] at h
  intro hpost
  refine h.1 n ?_ (List.contains_iff_mem.mpr hpost)
  exact List.mem_map_of_mem (f := Prod.snd) (mem_bareNames.mp hn)

/-- **One more operation is computed in order if the plan has computed all that it reads.** -/
theorem ComputesInOrder.add (h : p.ComputesInOrder src)
    (hop : Check.isOrdered op = true → ∀ n ∈ op.bareNames, n ∈ p.readable op ∨ src n) :
    (add needed p op).ComputesInOrder src := by
  cases op with
  | join s c => exact ⟨h.calcs, h.aggregates, h.lateCalcs, h.windows⟩
  | select fields => exact ⟨h.calcs, h.aggregates, h.lateCalcs, h.windows⟩
  | window f e pb ob a =>
    refine ⟨h.calcs, h.aggregates, h.lateCalcs, ?_⟩
    intro w hw
    rcases List.mem_append.mp hw with hw | hw
    · exact h.windows w hw
    · obtain rfl := List.mem_singleton.mp hw
      exact hop rfl
  | aggregate f e a =>
    -- Calculations behind the aggregates and windows can read one more name.
    refine ⟨h.calcs, ?_, h.lateCalcs.mono ?_, ?_⟩
    · show ReadsBefore src _ ((p.aggregates ++ [(⟨a, f, e⟩ : Aggregate)]).map Aggregate.reading)
      rw [List.map_append]
      refine h.aggregates.concat ?_
      rw [map_reading_aggregates]
      exact hop rfl
    · refine List.append_subset.mpr ⟨List.subset_append_left _ _, ?_⟩
      exact List.subset_append_of_subset_right _ (List.map_subset _ (List.subset_append_left _ _))
    · intro w hw n hn
      refine (h.windows w hw n hn).imp_left fun hmem => ?_
      rw [rowAliases, postAliases, List.mem_append, List.mem_append] at hmem ⊢
      refine hmem.imp_right (Or.imp_left fun h => ?_)
      exact List.map_subset _ (List.subset_append_left _ _) h
  | calculate e a =>
    rw [Plan.add]
    split
    · refine ⟨h.calcs, h.aggregates, ?_, ?_⟩
      · show ReadsBefore src _ ((p.postCalcs ++ [(⟨a, e⟩ : Calc)]).map Calc.reading)
        rw [List.map_append]
        refine h.lateCalcs.concat ?_
        rw [map_reading_calcs, List.append_assoc]
        exact hop rfl
      · intro w hw n hn
        refine (h.windows w hw n hn).imp_left fun hmem => ?_
        rw [rowAliases, postAliases, List.mem_append, List.mem_append] at hmem ⊢
        refine hmem.imp_right (Or.imp_right fun h => ?_)
        exact List.map_subset _ (List.subset_append_left _ _) h
    · next hstays =>
      have hgrows : p.preCalcs.map Calc.aliasName ⊆
          (p.preCalcs ++ [(⟨a, e⟩ : Calc)]).map Calc.aliasName :=
        List.map_subset _ (List.subset_append_left _ _)
      refine ⟨?_, h.aggregates.mono hgrows, h.lateCalcs.mono ?_, ?_⟩
      · show ReadsBefore src _ ((p.preCalcs ++ [(⟨a, e⟩ : Calc)]).map Calc.reading)
        rw [List.map_append]
        refine h.calcs.concat ?_
        rw [map_reading_calcs, List.nil_append]
        intro n hn
        -- Reading a name from behind the aggregates would have moved the calculation there.
        have hrow := not_mem_postAliases ((Bool.not_eq_true _).mp hstays) hn
        refine (hop rfl n hn).imp_left fun hmem => ?_
        exact (List.mem_append.mp hmem).resolve_right hrow
      · exact List.append_subset.mpr
          ⟨List.subset_append_of_subset_left _ hgrows, List.subset_append_right _ _⟩
      · intro w hw n hn
        refine (h.windows w hw n hn).imp_left fun hmem => ?_
        exact List.mem_append.mpr ((List.mem_append.mp hmem).imp_left fun h => hgrows h)

/-! ## Growth -/

/-- What every operation extends, a list of operations extends. -/
theorem isPrefix_foldl {α : Type} (part : Plan → List α)
    (h : ∀ p op, part p <+: part (Plan.add needed p op)) (ops : List Operation) (p : Plan) :
    part p <+: part (ops.foldl (Plan.add needed) p) := by
  induction ops generalizing p with
  | nil => exact List.prefix_rfl
  | cons op ops ih => exact (h p op).trans (ih (Plan.add needed p op))

/-- Adding an operation keeps the aggregates that are there. -/
theorem aggregates_isPrefix_add (p : Plan) (op : Operation) :
    p.aggregates <+: (Plan.add needed p op).aggregates := by
  cases op with
  | aggregate f e a => exact List.prefix_append _ _
  | calculate e a =>
    rw [Plan.add]
    split <;> exact List.prefix_rfl
  | _ => exact List.prefix_rfl

/-- Adding an operation keeps the calculations after aggregation that are there. -/
theorem postCalcs_isPrefix_add (p : Plan) (op : Operation) :
    p.postCalcs <+: (Plan.add needed p op).postCalcs := by
  cases op with
  | calculate e a =>
    rw [Plan.add]
    split
    · exact List.prefix_append _ _
    · exact List.prefix_rfl
  | _ => exact List.prefix_rfl

/-- Adding an operation keeps the windows that are there. -/
theorem windows_isPrefix_add (p : Plan) (op : Operation) :
    p.windows <+: (Plan.add needed p op).windows := by
  cases op with
  | window f e pb ob a => exact List.prefix_append _ _
  | calculate e a =>
    rw [Plan.add]
    split <;> exact List.prefix_rfl
  | _ => exact List.prefix_rfl

theorem mem_aliases {p : Plan} :
    n ∈ p.aliases ↔ n ∈ p.rowAliases ∨ n ∈ p.windows.map Window.aliasName :=
  List.mem_append

/-- The aliases of a plan that has taken in some operations are theirs. -/
theorem aliases_foldl_start (needed : List String) (s : Statement) (ops : List Operation) :
    (ops.foldl (Plan.add needed) (start s)).aliases.Perm (ops.filterMap Operation.alias?) := by
  have h := (@operations_foldl (start s) needed ops).filterMap Operation.alias?
  rw [filterMap_operations, List.filterMap_append, filterMap_operations, filterMap_filter] at h
  exact h

/-- Nothing is computed behind aggregates if there are none. -/
theorem postAliases_foldl (ops : List Operation) (h : p.aggregates = [] → p.postCalcs = []) :
    (ops.foldl (Plan.add needed) p).aggregates = [] →
      (ops.foldl (Plan.add needed) p).postAliases = [] := by
  induction ops generalizing p with
  | nil =>
    intro ha
    rw [List.foldl_nil] at ha ⊢
    rw [postAliases, ha, h ha]
    rfl
  | cons op ops ih =>
    refine ih ?_
    cases op with
    | aggregate f e a => exact fun ha => absurd (List.append_eq_nil_iff.mp ha).2 (List.cons_ne_nil _ _)
    | calculate e a =>
      rw [Plan.add]
      split
      · next hafter =>
        intro ha
        have hnone : p.postAliases = [] := by
          rw [postAliases, show p.aggregates = [] from ha, h ha]
          rfl
        rw [runsAfter, readsPost, hnone, show p.aggregates = [] from ha, Bool.or_eq_true,
          List.any_eq_true] at hafter
        rcases hafter with ⟨n, -, hn⟩ | hn
        · cases hn
        · cases hn
      · exact h
    | _ => exact h

/-- Without aggregates no calculation runs after aggregation. -/
theorem postAliases_of_not_isAggregated {s : Statement}
    (h : (ofStatement s).isAggregated = false) : (ofStatement s).postAliases = [] := by
  rw [isAggregated, Bool.or_eq_false_iff, Bool.not_eq_false', List.isEmpty_iff] at h
  exact postAliases_foldl s.operations (fun _ => rfl) h.1

end Plan

/-! ## Valid statements -/

namespace Check

variable {d : Snapshot} {s : Statement} {rules : Rules} {before after : List Operation}
  {op : Operation}

/-- Where operations give no finding, none of them does behind those in front of it. -/
theorem operationFindings_of_operationsFindings {seen : List Operation} {ops : List Operation}
    (h : operationsFindings d s seen ops = []) (hs : ops = before ++ op :: after) :
    operationFindings d s (seen ++ before) op after = [] := by
  induction before generalizing seen ops with
  | nil =>
    subst hs
    rw [List.append_nil]
    exact (List.append_eq_nil_iff.mp h).1
  | cons x before ih =>
    subst hs
    have h' := ih (List.append_eq_nil_iff.mp h).2 rfl
    rwa [List.append_assoc] at h'

/-- A name that an operation of a valid statement reads, and that only later operations have as
their alias, is a registered column. -/
theorem isColumn_of_mem_later (hp : Passes s d) (hs : s.operations = before ++ op :: after)
    (ho : isOrdered op = true) {n : String} (hn : n ∈ op.bareNames)
    (hb : n ∉ before.filterMap Operation.alias?) (ha : n ∈ after.filterMap Operation.alias?) :
    isColumn d s (none, n) = true := by
  have hnone := operationFindings_of_operationsFindings hp.operations hs
  have hfound := List.flatMap_eq_nil_iff.mp hnone (none, n) (mem_bareNames.mp hn)
  rw [← Bool.not_eq_false]
  intro hcolumn
  rw [List.nil_append, if_pos ?_] at hfound
  · cases hfound
  · simp only [Option.isNone_none, ho, hcolumn, Bool.and_eq_true, Bool.not_eq_true',
      Bool.not_false, and_true, true_and]
    exact ⟨List.contains_iff_mem.mpr ha, Bool.eq_false_iff.mpr fun h => hb (List.contains_iff_mem.mp h)⟩

/-- An operation of a valid statement reads no alias that only later operations have, unless a column
of that name is registered. -/
theorem not_mem_later (hp : Passes s d) (hd : ∀ q n, d.hasColumn q n = false)
    (hs : s.operations = before ++ op :: after) (ho : isOrdered op = true) {n : String}
    (hn : n ∈ op.bareNames) (hb : n ∉ before.filterMap Operation.alias?) :
    n ∉ after.filterMap Operation.alias? := by
  intro ha
  have hcolumn : isColumn d s (none, n) = false :=
    List.any_eq_false.mpr fun q _ => Bool.eq_false_iff.mp (hd q n)
  rw [isColumn_of_mem_later hp hs ho hn hb ha] at hcolumn
  cases hcolumn

/-- A calculation or an aggregate of a valid statement reads no result of a window. -/
theorem not_mem_windows (hp : Passes s d) (hop : op ∈ s.operations) {e : Expr} {a : String}
    (he : op = .calculate e a ∨ ∃ f, op = .aggregate f e a) {n : String} (hn : n ∈ op.bareNames) :
    n ∉ (Plan.ofStatement s).windows.map Window.aliasName := by
  intro hw
  have hrow : n ∈ rowNames s := by
    refine List.mem_append_right _ (List.mem_flatMap.mpr ⟨op, hop, ?_⟩)
    rcases he with rfl | ⟨f, rfl⟩ <;> exact List.mem_map_of_mem (f := Prod.snd) (mem_bareNames.mp hn)
  exact List.filter_eq_nil_iff.mp (List.map_eq_nil_iff.mp hp.windows) n hrow
    (List.contains_iff_mem.mpr hw)

/-- The plan of a valid statement has computed an alias of an operation before where it computes one
that reads it. -/
theorem mem_readable (hp : Passes s d) (hr : (Plan.ofStatement s).ReadsComputed)
    (hs : s.operations = before ++ op :: after) (ho : isOrdered op = true) {n : String}
    (hn : n ∈ op.bareNames) (hb : n ∈ before.filterMap Operation.alias?) :
    n ∈ (before.foldl (Plan.add (Plan.namesNeeded s)) (Plan.start s)).readable op := by
  have hal := (Plan.aliases_foldl_start (Plan.namesNeeded s) s before).mem_iff.mpr hb
  have hmem : op ∈ s.operations := by
    rw [hs]
    exact List.mem_append_right _ List.mem_cons_self
  have hfolded : Plan.folded s = after.foldl (Plan.add (Plan.namesNeeded s))
      (Plan.add (Plan.namesNeeded s)
        (before.foldl (Plan.add (Plan.namesNeeded s)) (Plan.start s)) op) := by
    rw [Plan.folded, hs, List.foldl_append, List.foldl_cons]
  have hgrows {α : Type} (part : Plan → List α)
      (h : ∀ p op, part p <+: part (Plan.add (Plan.namesNeeded s) p op)) :=
    Plan.isPrefix_foldl part h after (Plan.add (Plan.namesNeeded s)
      (before.foldl (Plan.add (Plan.namesNeeded s)) (Plan.start s)) op)
  rw [← hfolded] at hgrows
  -- From here on only the plan `p` in front of `op` counts, and that the whole plan extends it.
  generalize before.foldl (Plan.add (Plan.namesNeeded s)) (Plan.start s) = p at hal hgrows ⊢
  have hwindows := hgrows Plan.windows Plan.windows_isPrefix_add
  have hkept : p.windows ⊆ (Plan.folded s).windows :=
    fun w hw => hwindows.subset ((Plan.windows_isPrefix_add p op).subset hw)
  rcases Plan.mem_aliases.mp hal with hrow | hw
  · cases op with
    | aggregate f e a =>
      have hposts := hgrows Plan.postCalcs Plan.postCalcs_isPrefix_add
      have ha : (⟨a, f, e⟩ : Aggregate) ∈ (Plan.folded s).aggregates :=
        (hgrows Plan.aggregates Plan.aggregates_isPrefix_add).subset
          (List.mem_append_right _ (List.mem_singleton_self _))
      have hpost : n ∉ p.postCalcs.map Calc.aliasName := fun h =>
        hr.aggregates _ ha n hn (List.map_subset _ hposts.subset h)
      rw [Plan.rowAliases, Plan.postAliases, ← List.append_assoc, List.mem_append] at hrow
      exact hrow.resolve_right hpost
    | _ => exact hrow
  · exfalso
    cases op with
    | aggregate f e a =>
      exact not_mem_windows hp hmem (Or.inr ⟨f, rfl⟩) hn (List.map_subset _ hkept hw)
    | calculate e a => exact not_mem_windows hp hmem (Or.inl rfl) hn (List.map_subset _ hkept hw)
    | window f e pb ob a =>
      obtain ⟨v, hv, rfl⟩ := List.mem_map.mp hw
      have hpair := List.pairwise_append.mp (hr.windows.sublist hwindows.sublist)
      exact hpair.2.2 v hv _ (List.mem_singleton_self _) hn
    | join | select => cases ho

/-- **An operation of a valid statement reads what its plan has computed there.** -/
theorem readable_of_passes (hp : Passes s d) (hd : ∀ q n, d.hasColumn q n = false)
    (hr : (Plan.ofStatement s).ReadsComputed) (hs : s.operations = before ++ op :: after)
    (ho : isOrdered op = true) : ∀ n ∈ op.bareNames,
      n ∈ (before.foldl (Plan.add (Plan.namesNeeded s)) (Plan.start s)).readable op ∨
        s.IsSourceName n := by
  intro n hn
  by_cases hself : op.alias? = some n
  · refine Or.inr fun _ => ⟨op, ?_, hself, hn⟩
    rw [hs]
    exact List.mem_append_right _ List.mem_cons_self
  by_cases hb : n ∈ before.filterMap Operation.alias?
  · exact Or.inl (mem_readable hp hr hs ho hn hb)
  · -- The name is no alias at all: the operation may not read those of later ones.
    refine Or.inr fun hal => absurd hal fun hal => ?_
    obtain ⟨x, hx, hxn⟩ := List.mem_filterMap.mp hal
    rw [hs] at hx
    rcases List.mem_append.mp hx with hx | hx
    · exact hb (List.mem_filterMap.mpr ⟨x, hx, hxn⟩)
    · rcases List.mem_cons.mp hx with rfl | hx
      · exact hself hxn
      · exact not_mem_later hp hd hs ho hn hb (List.mem_filterMap.mpr ⟨x, hx, hxn⟩)

/-- In a statement that passes, the columns of its plan are computed in an order in which each reads
only columns there before it. -/
theorem computesInOrder_foldl (hp : Passes s d) (hd : ∀ q n, d.hasColumn q n = false)
    (hr : (Plan.ofStatement s).ReadsComputed) (hs : s.operations = before ++ after)
    (h : (before.foldl (Plan.add (Plan.namesNeeded s)) (Plan.start s)).ComputesInOrder
      s.IsSourceName) : (Plan.folded s).ComputesInOrder s.IsSourceName := by
  induction after generalizing before with
  | nil =>
    rw [List.append_nil] at hs
    rwa [Plan.folded, hs]
  | cons op after ih =>
    have hstep : (Plan.add (Plan.namesNeeded s)
        (before.foldl (Plan.add (Plan.namesNeeded s)) (Plan.start s)) op).ComputesInOrder
          s.IsSourceName :=
      h.add fun ho => readable_of_passes hp hd hr hs ho
    refine @ih (before ++ [op]) ?_ ?_
    · rw [hs, List.append_assoc, List.singleton_append]
    · rwa [List.foldl_concat]

/-- **The plan of a valid statement computes everything before it reads it.** -/
theorem computesInOrder_of_passes (hp : Passes s d) (hd : ∀ q n, d.hasColumn q n = false)
    (hr : (Plan.ofStatement s).ReadsComputed) :
    (Plan.ofStatement s).ComputesInOrder s.IsSourceName := by
  have hstart : (Plan.start s).ComputesInOrder s.IsSourceName :=
    ⟨trivial, trivial, trivial, fun _ h => nomatch h⟩
  have hs : s.operations = [] ++ s.operations := rfl
  have h := computesInOrder_foldl hp hd hr hs hstart
  exact ⟨h.calcs, h.aggregates, h.lateCalcs, h.windows⟩

end Check

end DataPhrase
