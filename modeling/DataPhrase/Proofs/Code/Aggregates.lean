/-
# Aggregates in queries

An alias is replaced by its definition, so the name of an aggregate becomes a call of it wherever
the name is read. The checks keep calls out of the expressions of calculations and aggregates, and
the parts of the filter that read such names behind the grouping. What they do not look at is listed
in `Plan.KeepsApart`: under it, no aggregate of a valid statement ends up in another, in `ON`, in
`WHERE` or in `GROUP BY` (`aggregatesApart_of_valid`).
-/
import DataPhrase.Proofs.Code.Depth
import DataPhrase.Proofs.Code.Query
import DataPhrase.Proofs.Plan
import DataPhrase.Proofs.Statement.Parse
import DataPhrase.Proofs.Validation.Passes

namespace DataPhrase

open Code

/-! ## Names of aggregates -/

/-- The expression reads one of the names without a source. -/
def Expr.reads (e : Expr) (names : String → Bool) : Bool :=
  e.fields.any fun r => r.1.isNone && names r.2

/-- How deep aggregates are nested behind a reference, if the names stand for single aggregates. -/
def depthOf (names : String → Bool) (r : FieldRef) : Nat :=
  (r.1.isNone && names r.2).toNat

namespace Plan

/-- The names that stand for aggregates once calculations are added: a calculation stands for one
if it reads one. -/
def derivedBy (names : String → Bool) (cs : List Calc) : String → Bool :=
  cs.foldl (fun names c => Function.update names c.aliasName (c.expression.reads names)) names

/-- The name stands for an aggregate, or for a calculation on aggregates. -/
def isDerived (p : Plan) : String → Bool :=
  derivedBy (fun n => (p.aggregates.map Aggregate.aliasName).contains n) p.postCalcs

/-- What the checks leave open: aggregates are not called, and their names are not read, where rows
are joined, filtered and grouped and inside of other aggregates. -/
structure KeepsApart (d : Snapshot) (p : Plan) : Prop where
  joins : ∀ j ∈ p.joins, j.condition.depth d (depthOf p.isDerived) = 0
  aggregates : p.aggregates.Pairwise fun a b => (none, a.aliasName) ∉ b.field.fields
  rowCalls : ∀ c ∈ p.preFilter, ∀ n ∈ c.callNames, d.emitsAggregate n = false
  groupCalls : ∀ c ∈ p.postFilter, c.depth d (depthOf p.isDerived) ≤ 1
  windows : ∀ w ∈ p.windows, ∀ e ∈ w.field, e.depth d (depthOf p.isDerived) ≤ 1
  period : ∀ t ∈ p.period, p.isDerived t.field = false
  keys : ∀ g ∈ p.group, p.isDerived g = false

instance (d : Snapshot) (p : Plan) : Decidable (p.KeepsApart d) :=
  decidable_of_iff
    ((∀ j ∈ p.joins, j.condition.depth d (depthOf p.isDerived) = 0) ∧
      p.aggregates.Pairwise (fun a b => (none, a.aliasName) ∉ b.field.fields) ∧
      (∀ c ∈ p.preFilter, ∀ n ∈ c.callNames, d.emitsAggregate n = false) ∧
      (∀ c ∈ p.postFilter, c.depth d (depthOf p.isDerived) ≤ 1) ∧
      (∀ w ∈ p.windows, ∀ e ∈ w.field, e.depth d (depthOf p.isDerived) ≤ 1) ∧
      (∀ t ∈ p.period, p.isDerived t.field = false) ∧
      ∀ g ∈ p.group, p.isDerived g = false)
    ⟨fun ⟨h1, h2, h3, h4, h5, h6, h7⟩ => ⟨h1, h2, h3, h4, h5, h6, h7⟩,
      fun ⟨h1, h2, h3, h4, h5, h6, h7⟩ => ⟨h1, h2, h3, h4, h5, h6, h7⟩⟩

variable {names : String → Bool} {n : String}

/-- Calculations add no names but their own. -/
theorem derivedBy_eq_true {cs : List Calc} (h : derivedBy names cs n = true) :
    names n = true ∨ n ∈ cs.map Calc.aliasName := by
  induction cs generalizing names with
  | nil => exact Or.inl h
  | cons c cs ih =>
    rcases ih h with hnames | h
    · by_cases hn : n = c.aliasName
      · exact Or.inr (List.mem_cons.mpr (Or.inl hn))
      · have hkept : Function.update names c.aliasName (c.expression.reads names) n = names n :=
          Function.update_of_ne hn _ names
        exact Or.inl (hkept.symm.trans hnames)
    · exact Or.inr (List.mem_cons_of_mem _ h)

theorem isDerived_eq_true {p : Plan} (h : p.isDerived n = true) : n ∈ p.postAliases := by
  rcases derivedBy_eq_true h with h | h
  · exact List.mem_append_left _ (List.contains_iff_mem.mp h)
  · exact List.mem_append_right _ h

/-- Calculations add no name where there is none. -/
theorem derivedBy_false (cs : List Calc) : derivedBy (fun _ => false) cs = fun _ => false := by
  induction cs with
  | nil => rfl
  | cons c cs ih =>
    have hreads : c.expression.reads (fun _ => false) = false := by
      rw [Expr.reads, List.any_eq_false]
      intro r _
      rw [Bool.and_false]
      exact Bool.false_ne_true
    have hupdate : Function.update (fun _ => false) c.aliasName false = fun _ : String => false :=
      Function.update_eq_self c.aliasName _
    rw [derivedBy, List.foldl_cons, hreads, hupdate]
    exact ih

/-- A statement that is not aggregated has no names of aggregates. -/
theorem isDerived_of_not_isAggregated {p : Plan} (h : p.isAggregated = false) :
    p.isDerived n = false := by
  have hnil : p.aggregates = [] := by
    rw [isAggregated, Bool.or_eq_false_iff, Bool.not_eq_false', List.isEmpty_iff] at h
    exact h.1
  rw [isDerived, hnil]
  exact congrFun (derivedBy_false p.postCalcs) n

end Plan

/-! ## Columns -/

namespace Sql

/-- How deep aggregates are nested in what a window function reads. -/
def WindowCall.depth : WindowCall → Nat
  | .sum e | .lag e _ | .lead e _ => e.depth
  | .rowNumber | .rank | .denseRank | .percentRank => 0

/-- How deep aggregates are nested in the parts of a window. -/
def WindowTerm.depth (w : WindowTerm) : Nat :=
  max w.call.depth (Term.depthAll (w.partitionBy ++ w.orderBy.map Prod.fst))

/-- How deep aggregates are nested in a column. -/
def Column.depth : Column → Nat
  | .all | .plain _ => 0
  | .term e _ => e.depth
  | .window w _ => w.depth

/-- No aggregate of the query is in another one or in a clause that reads rows. -/
structure Query.AggregatesApart (q : Query) : Prop where
  columns : ∀ c ∈ q.columns, c.depth ≤ 1
  joins : ∀ j ∈ q.joins, j.2.depth = 0
  filters : ∀ c ∈ q.filters, c.depth = 0
  period : ∀ t ∈ q.period, t.1.depth = 0
  group : ∀ t ∈ q.group, t.depth = 0
  having : ∀ c ∈ q.having, c.depth ≤ 1

variable {d : Snapshot} {p : Plan} {as as' : Aliases} {names : String → Bool} {n : String}

/-! ## Definitions -/

/-- The names are those of the definitions with an aggregate in them, and no definition has an
aggregate in another one. -/
def Marks (names : String → Bool) (as : Aliases) : Prop :=
  ∀ n, (as.written n).depth = (names n).toNat

theorem Marks.field (h : Marks names as) (r : FieldRef) : (as.field r).depth = depthOf names r := by
  obtain ⟨q, n⟩ := r
  cases q with
  | some q => rfl
  | none =>
    have hn := h n
    rw [Aliases.written] at hn
    rw [Aliases.field, depthOf, Option.isNone_none, Bool.true_and, ← hn]
    cases as.find? n with
    | none => rfl
    | some t =>
      show (if t.compound then Term.group t.term else t.term).depth = t.term.depth
      split <;> rfl

/-- One more definition marks its name. -/
theorem Marks.cons (h : Marks names as) {a : String} {t : AliasTerm} {b : Bool}
    (ht : t.term.depth = b.toNat) : Marks (Function.update names a b) ((a, t) :: as) := by
  intro n
  rw [Aliases.written, find?_cons]
  by_cases hn : a = n
  · subst hn
    rw [if_pos rfl, Function.update_self]
    exact ht
  · rw [if_neg hn, Function.update_of_ne (Ne.symm hn)]
    exact h n

/-- An expression that calls no aggregates has one in it if it reads a name of one. -/
theorem depth_eq_toNat {e : Expr} (hc : ∀ c ∈ e.calls, d.emitsAggregate c.1 = false) :
    e.depth d (depthOf names) = (e.reads names).toNat := by
  cases hr : e.reads names with
  | false =>
    refine Nat.le_zero.mp ((Expr.depth_le_iff e hc).mpr ?_)
    intro r hmem
    rw [depthOf, Bool.eq_false_iff.mpr (List.any_eq_false.mp hr r hmem)]
    exact Nat.le_refl 0
  | true =>
    refine Nat.le_antisymm ?_ (Nat.one_le_iff_ne_zero.mpr ?_)
    · exact (Expr.depth_le_iff e hc).mpr fun r _ => Bool.toNat_le _
    · intro hz
      obtain ⟨r, hmem, h⟩ := List.any_eq_true.mp hr
      have hle := (Expr.depth_le_iff e hc).mp (Nat.le_of_eq hz) r hmem
      rw [depthOf, h] at hle
      exact Nat.not_succ_le_zero 0 hle

theorem marks_defineCalcs (hd : d.AggregateFree) {cs : List Calc}
    (hc : ∀ c ∈ cs, ∀ f ∈ c.expression.calls, d.emitsAggregate f.1 = false)
    (h : Marks names as) (hs : defineCalcs d as cs = .ok as') :
    Marks (Plan.derivedBy names cs) as' := by
  induction cs generalizing as names with
  | nil =>
    cases hs
    exact h
  | cons c cs ih =>
    obtain ⟨t, ht, hs⟩ := defineCalcs_cons.mp hs
    rw [List.forall_mem_cons] at hc
    refine ih hc.2 (h.cons ?_) hs
    rw [depth_ofExpr hd h.field c.expression t ht, depth_eq_toNat hc.1]

/-- An aggregate is one deeper than its field. -/
theorem depth_aggregateTerm (hd : d.AggregateFree) (h : Marks names as) {a : Aggregate}
    {t : Term} (ht : aggregateTerm (scope d as) a = .ok t) :
    t.depth = a.field.depth d (depthOf names) + 1 := by
  have hpercentile {e : Term} {x : Number} (ht : percentileTerm (scope d as) e x = .ok t) :
      t.depth = e.depth + 1 := by
    unfold percentileTerm at ht
    obtain ⟨o, -, ht⟩ := bind_eq_ok.mp ht
    split at ht
    · split at ht
      · cases ht
      · cases ht
        rfl
    · cases ht
  obtain ⟨e, he, ht⟩ := bind_eq_ok.mp ht
  rw [← depth_ofExpr hd h.field a.field e he]
  split at ht
  · exact hpercentile ht
  · exact hpercentile ht
  · cases ht
    split
    · next hstar =>
      have hfield : a.field = .star := by
        cases hf : a.field <;> rw [hf] at hstar <;> first | rfl | cases hstar
      rw [hfield] at he
      cases he
      rfl
    · rfl
  · cases ht
    rfl

theorem update_or_contains (names : String → Bool) (a : String) (l : List String) :
    (fun n => Function.update names a true n || l.contains n) =
      fun n => names n || (a :: l).contains n := by
  funext n
  rw [List.contains_cons]
  by_cases hn : n = a
  · subst hn
    rw [Function.update_self, beq_self_eq_true, Bool.true_or, Bool.or_true]
  · rw [Function.update_of_ne hn, beq_eq_false_iff_ne.mpr hn, Bool.false_or]

theorem marks_defineAggregates (hd : d.AggregateFree) {l : List Aggregate}
    (hc : ∀ a ∈ l, ∀ f ∈ a.field.calls, d.emitsAggregate f.1 = false)
    (hr : ∀ a ∈ l, a.field.reads names = false)
    (hp : l.Pairwise fun a b => (none, a.aliasName) ∉ b.field.fields)
    (h : Marks names as) (hs : defineAggregates d as l = .ok as') :
    Marks (fun n => names n || (l.map Aggregate.aliasName).contains n) as' := by
  induction l generalizing as names with
  | nil =>
    cases hs
    intro n
    show _ = (names n || [].contains n).toNat
    rw [h n, List.contains_nil, Bool.or_false]
  | cons a l ih =>
    obtain ⟨t, ht, hs⟩ := defineAggregates_cons.mp hs
    rw [List.forall_mem_cons] at hc hr
    rw [List.pairwise_cons] at hp
    have hdepth : t.depth = true.toNat := by
      rw [depth_aggregateTerm hd h ht, depth_eq_toNat hc.1, hr.1]
      rfl
    -- The names read behind `a` are the old ones and that of `a`, and none is read.
    have hrest : ∀ b ∈ l, b.field.reads (Function.update names a.aliasName true) = false := by
      intro b hb
      rw [Expr.reads, List.any_eq_false]
      rintro ⟨q, n⟩ hmem hread
      obtain ⟨hq, hn⟩ := (Bool.and_eq_true _ _).mp hread
      obtain rfl := Option.isNone_iff_eq_none.mp hq
      by_cases he : n = a.aliasName
      · subst he
        exact hp.1 b hb hmem
      · rw [Function.update_of_ne he] at hn
        exact List.any_eq_false.mp (hr.2 b hb) (none, n) hmem hn
    have hmarks := ih hc.2 hrest hp.2 (h.cons hdepth) hs
    rwa [update_or_contains] at hmarks

/-- **The definitions of a plan have aggregates in them exactly as its names tell.** -/
theorem Emits.marks {q : Query} {rows groups : Aliases} {windows : List (String × WindowTerm)}
    (h : Emits d p q rows groups as windows) (hd : d.AggregateFree)
    (hcalcs : ∀ c ∈ p.preCalcs ++ p.postCalcs, ∀ f ∈ c.expression.calls,
      d.emitsAggregate f.1 = false)
    (haggregates : ∀ a ∈ p.aggregates, ∀ f ∈ a.field.calls, d.emitsAggregate f.1 = false)
    (hp : p.aggregates.Pairwise fun a b => (none, a.aliasName) ∉ b.field.fields) :
    Marks p.isDerived as := by
  rw [List.forall_mem_append] at hcalcs
  -- The three phases in turn; calculations on rows mark no names.
  have hnone : Marks (fun _ => false) [] := fun _ => rfl
  have hrows := marks_defineCalcs hd hcalcs.1 hnone h.calcs
  rw [Plan.derivedBy_false] at hrows
  have hreads : ∀ a ∈ p.aggregates, a.field.reads (fun _ => false) = false := by
    intro a _
    rw [Expr.reads, List.any_eq_false]
    intro r _
    rw [Bool.and_false]
    exact Bool.false_ne_true
  have hgroups := marks_defineAggregates hd haggregates hreads hp hrows h.aggregates
  simp only [Bool.false_or] at hgroups
  exact marks_defineCalcs hd hcalcs.2 hgroups h.lateCalcs

/-! ## Parts -/

theorem Marks.depthAll_le (h : Marks names as) (l : List String) :
    Term.depthAll (l.map as.written) ≤ 1 := by
  induction l with
  | nil => exact Nat.zero_le 1
  | cons n l ih =>
    rw [List.map_cons, Term.depthAll, h n]
    exact Nat.max_le.mpr ⟨Bool.toNat_le _, ih⟩

theorem Marks.depth_windowCall (h : Marks names as) (hd : d.AggregateFree) {w : Window}
    {c : WindowCall} (hw : ∀ e ∈ w.field, e.depth d (depthOf names) ≤ 1)
    (hc : windowCall (scope d as) w = .ok c) : c.depth ≤ 1 := by
  have hfield {t : Term} (ht : windowField (scope d as) w = .ok t) : t.depth ≤ 1 := by
    rw [windowField] at ht
    split at ht
    · next e he =>
      rw [depth_ofExpr hd h.field e t ht]
      exact hw e he
    · cases ht
  cases c with
  | sum t => exact hfield (windowField_of_windowCall hc rfl)
  | lag t n => exact hfield (windowField_of_windowCall hc rfl)
  | lead t n => exact hfield (windowField_of_windowCall hc rfl)
  | _ => exact Nat.zero_le 1

/-- The window has no aggregate in another one. -/
theorem Marks.depth_windowTerm (h : Marks names as) (hd : d.AggregateFree) {w : Window}
    {t : WindowTerm} (hw : ∀ e ∈ w.field, e.depth d (depthOf names) ≤ 1)
    (ht : windowTerm d as w = .ok t) : t.depth ≤ 1 := by
  obtain ⟨hc, hkeys⟩ := windowTerm_eq_ok ht
  rw [WindowTerm.depth, hkeys]
  exact Nat.max_le.mpr ⟨h.depth_windowCall hd hw hc, h.depthAll_le _⟩

/-- The column of a name has no aggregate in another one. -/
theorem Marks.depth_column (h : Marks names as) {windows : List (String × WindowTerm)}
    (hw : ∀ w ∈ windows, w.2.depth ≤ 1) (n : String) : (column as windows n).depth ≤ 1 := by
  have hn := h n
  rw [Aliases.written] at hn
  rw [column]
  cases hf : as.find? n with
  | some t =>
    rw [hf] at hn
    show t.term.depth ≤ 1
    rw [show t.term.depth = (names n).toNat from hn]
    exact Bool.toNat_le _
  | none =>
    cases hfind : windows.find? fun w => w.1 == n with
    | some w => exact hw w (List.mem_of_find?_eq_some hfind)
    | none => exact Nat.zero_le 1

/-- The query of a plan that keeps aggregates apart keeps them apart, if the calculations and
aggregates call none. -/
theorem Emits.aggregatesApart {q : Query} {rows groups : Aliases}
    {windows : List (String × WindowTerm)} (h : Emits d p q rows groups as windows)
    (hd : d.AggregateFree) (hk : p.KeepsApart d) (hmarks : Marks p.isDerived as)
    (hfilter : ∀ c ∈ p.preFilter, ∀ n ∈ c.fieldNames, p.isDerived n = false) :
    q.AggregatesApart where
  columns := by
    intro c hc
    rw [h.columns] at hc
    rcases mem_columnsOf hc with rfl | ⟨n, rfl⟩
    · exact Nat.zero_le 1
    · refine hmarks.depth_column ?_ n
      intro x hx
      obtain ⟨w, hw, ht, -⟩ := exists_mem_of_forall₂ h.terms (List.mem_reverse.mpr hx)
      exact hmarks.depth_windowTerm hd (hk.windows w hw) ht
  joins := by
    intro x hx
    obtain ⟨j, hj, hc⟩ := exists_mem_of_forall₂ h.joins hx
    rw [depth_ofCondition hd hmarks.field j.condition x.2 hc]
    exact hk.joins j hj
  filters := by
    intro x hx
    obtain ⟨c, hc, hs⟩ := exists_mem_of_forall₂ h.filters hx
    rw [depth_ofCondition hd hmarks.field c x hs]
    refine Nat.le_zero.mp (c.depth_le (hk.rowCalls c hc) ?_)
    intro r hr
    rw [depthOf, hfilter c hc r.2 (List.mem_map_of_mem hr), Bool.and_false]
    exact Nat.le_refl 0
  period := by
    intro x hx
    rw [h.period] at hx
    obtain ⟨t, ht, rfl⟩ := Option.map_eq_some_iff.mp hx
    rw [hmarks t.field, hk.period t ht]
    rfl
  group := by
    intro x hx
    rw [h.group] at hx
    obtain ⟨g, hg, rfl⟩ := List.mem_map.mp hx
    rw [hmarks g, hk.keys g hg]
    rfl
  having := by
    intro x hx
    obtain ⟨c, hc, hs⟩ := exists_mem_of_forall₂ h.having hx
    rw [depth_ofCondition hd hmarks.field c x hs]
    exact hk.groupCalls c hc

end Sql

/-! ## Valid statements -/

namespace Check

variable {d : Snapshot} {s : Statement} {rules : Rules}

/-- The expression of a calculation or an aggregate calls no aggregate if nothing is found there. -/
theorem calls_of_nestedFindings {e : Expr} {a : String}
    (h : nestedFindings (.calculate e a) = []) {c : String × List Expr} (hc : c ∈ e.calls) :
    d.emitsAggregate c.1 = false := by
  have hname := List.filter_eq_nil_iff.mp (List.map_eq_nil_iff.mp h) c hc
  rw [Snapshot.emitsAggregate, Bool.not_eq_true _ |>.mp hname, Bool.false_and]

/-- A part of the filter that a query tests on rows reads no name of an aggregate. -/
theorem isDerived_of_preFilter {c : Condition} (hc : c ∈ (Plan.ofStatement s).preFilter)
    {n : String} (hn : n ∈ c.fieldNames) : (Plan.ofStatement s).isDerived n = false := by
  have hafter : (Plan.ofStatement s).filtersAfter c = false :=
    (Bool.not_eq_true' _).mp (List.mem_filter.mp hc).2
  rw [Plan.filtersAfter, Bool.and_eq_false_iff] at hafter
  rcases hafter with h | h
  · rw [Plan.readsPost, List.any_eq_false] at h
    refine Bool.eq_false_iff.mpr fun hd => h n hn ?_
    exact List.contains_iff_mem.mpr (Plan.isDerived_eq_true hd)
  · exact Plan.isDerived_of_not_isAggregated h

/-- **The code of a valid statement has no aggregate in another one, in `ON`, in `WHERE` or in
`GROUP BY`, provided that the places that the checks do not look at keep them apart.** -/
theorem aggregatesApart_of_valid {code : String} (hv : (s.check d rules).valid = true)
    (hd : d.AggregateFree) (hk : (Plan.ofStatement s).KeepsApart d)
    (hg : Sql.generate d (Plan.ofStatement s) = .ok code) :
    ∃ q, Sql.Query.ofPlan d (Plan.ofStatement s) = .ok q ∧ q.text = code ∧ q.AggregatesApart := by
  obtain ⟨q, hq, htext⟩ := Sql.generate_eq_ok.mp hg
  obtain ⟨rows, groups, as, windows, h⟩ := Sql.exists_emits hq
  have hnested (op : Operation) (hop : op ∈ (Plan.ofStatement s).operations) :
      nestedFindings op = [] := by
    have hmem := (Plan.operations_ofStatement s).mem_iff.mp hop
    exact (valid_iff.mp hv).nested op (List.mem_filter.mp hmem).1
  refine ⟨q, hq, htext, h.aggregatesApart hd hk (h.marks hd ?_ ?_ hk.aggregates) ?_⟩
  · intro c hc f hf
    refine calls_of_nestedFindings (hnested c.operation ?_) hf
    rcases List.mem_append.mp hc with hc | hc
    · exact Plan.mem_operations_of_preCalcs hc
    · exact Plan.mem_operations_of_postCalcs hc
  · intro a ha f hf
    exact calls_of_nestedFindings (hnested a.operation (Plan.mem_operations_of_aggregates ha)) hf
  · intro c hc n hn
    exact isDerived_of_preFilter hc hn

/-- The large totals of the regions, halved. -/
def largeHalves : List Char :=
  "transform S to T as sum(x) as t, t / 2 as h grouped by k where t > 1 and y > 2".toList

theorem aggregateFree_empty : Snapshot.AggregateFree .empty where
  metrics := fun _ h => nomatch h
  functions := fun _ h => nomatch h

theorem aggregatesApart_largeHalves : ∃ s, Statement.parse largeHalves = .ok s ∧
    (s.check .empty {}).valid = true ∧ (Plan.ofStatement s).KeepsApart .empty ∧
    Sql.generate .empty (Plan.ofStatement s) = .ok ("SELECT k, SUM(x) AS t, SUM(x) / 2 AS h " ++
      "FROM S WHERE y > 2 GROUP BY k HAVING SUM(x) > 1") ∧
    ∃ q, Sql.Query.ofPlan .empty (Plan.ofStatement s) = .ok q ∧ q.AggregatesApart := by
  obtain ⟨s, hs, h⟩ := exists_parse largeHalves rfl
    (fun _ s => (s.check .empty {}).valid && decide ((Plan.ofStatement s).KeepsApart .empty) &&
      decide ((Sql.generate .empty (Plan.ofStatement s)).toOption = some
        ("SELECT k, SUM(x) AS t, SUM(x) / 2 AS h " ++
          "FROM S WHERE y > 2 GROUP BY k HAVING SUM(x) > 1")))
    (by decide +kernel)
  simp only [Bool.and_eq_true, decide_eq_true_iff] at h
  obtain ⟨⟨hv, hk⟩, hcode⟩ := h
  have hg := eq_ok_of_toOption hcode
  obtain ⟨q, hq, -, hapart⟩ := aggregatesApart_of_valid hv aggregateFree_empty hk hg
  exact ⟨s, hs, hv, hk, hg, q, hq, hapart⟩

/-- A total of a total. -/
def totalOfTotal : List Char :=
  "transform S to T as sum(x) as a, sum(a) as b".toList

/-- A valid statement can have an aggregate in another one: the checks see calls, not the names that
stand for them. -/
theorem not_aggregatesApart_totalOfTotal : ∃ s, Statement.parse totalOfTotal = .ok s ∧
    (s.check .empty {}).valid = true ∧ Snapshot.AggregateFree .empty ∧
    Sql.generate .empty (Plan.ofStatement s) = .ok "SELECT SUM(x) AS a, SUM(SUM(x)) AS b FROM S" ∧
    ∃ q, Sql.Query.ofPlan .empty (Plan.ofStatement s) = .ok q ∧ ∃ c ∈ q.columns, c.depth = 2 := by
  obtain ⟨s, hs, h⟩ := exists_parse totalOfTotal rfl
    (fun _ s => (s.check .empty {}).valid &&
      decide ((Sql.generate .empty (Plan.ofStatement s)).toOption =
        some "SELECT SUM(x) AS a, SUM(SUM(x)) AS b FROM S") &&
      (Sql.Query.ofPlan .empty (Plan.ofStatement s)).toOption.any fun q =>
        q.columns.any fun c => c.depth == 2)
    (by decide +kernel)
  simp only [Bool.and_eq_true, decide_eq_true_iff, beq_iff_eq, Option.any_eq_true,
    List.any_eq_true] at h
  obtain ⟨⟨hv, hcode⟩, q, hq, hdepth⟩ := h
  exact ⟨s, hs, hv, aggregateFree_empty, eq_ok_of_toOption hcode, q, eq_ok_of_toOption hq, hdepth⟩

end Check

end DataPhrase
