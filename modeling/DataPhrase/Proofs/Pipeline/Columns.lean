/-
# The columns of a pipeline

The shape after the last stage says which columns a pipeline yields, and its query selects columns
by the phases of its plan. The two agree exactly where no calculation on the rows is lost or moved
(`describes_iff_of_valid`), as where calculate stages only calculate and group keys come with an
aggregation or a selection.
-/
import DataPhrase.Proofs.Code.Scope
import DataPhrase.Proofs.Pipeline.Shape

namespace DataPhrase

/-! ## Names of columns -/

namespace Sql

variable {d : Snapshot} {p : Plan} {q : Query} {as : Aliases} {windows : List (String × WindowTerm)}

/-- The name of a column: its alias, or else the name that is written. -/
def Column.name? : Column → Option String
  | .all => none
  | .plain n => some n
  | .term _ a | .window _ a => some a

/-- The names of the columns of a query, all of the source apart. -/
def Query.names (q : Query) : List String :=
  q.columns.filterMap Column.name?

theorem name?_column (n : String) : (column as windows n).name? = some n := by
  rw [column]
  split
  · rfl
  · split <;> rfl

theorem filterMap_name? (l : List String) :
    (l.map (column as windows)).filterMap Column.name? = l := by
  rw [List.filterMap_map, show Column.name? ∘ column as windows = some from funext name?_column]
  exact List.filterMap_some

end Sql

namespace Plan

/-- The names that the result of a plan shows. -/
def resultNames (p : Plan) : List String :=
  match p.select with
  | some fields => fields
  | none =>
    (if p.isAggregated then p.group ++ p.postAliases else p.preCalcs.map Calc.aliasName) ++
      p.windows.map Window.aliasName

end Plan

namespace Sql

variable {d : Snapshot} {p : Plan} {q : Query}

/-- **The columns of a query are those that its plan shows.** -/
theorem names_ofPlan (h : Query.ofPlan d p = .ok q) : q.names = p.resultNames := by
  obtain ⟨rows, groups, as, windows, hq⟩ := exists_emits h
  rw [Query.names, hq.columns, columnsOf, Plan.resultNames]
  have hwindows : p.windows.map (fun w => column as windows w.aliasName) =
      (p.windows.map Window.aliasName).map (column as windows) := by
    rw [List.map_map]
    rfl
  cases p.select with
  | some fields => exact filterMap_name? fields
  | none =>
    dsimp only
    rw [List.filterMap_append, hwindows, filterMap_name?]
    split
    · rw [filterMap_name?, Plan.postAliases, ← List.append_assoc p.group]
    · have hcalcs : p.preCalcs.map (fun c => column as windows c.aliasName) =
          (p.preCalcs.map Calc.aliasName).map (column as windows) := by
        rw [List.map_map]
        rfl
      rw [hcalcs, List.filterMap_cons_none rfl, filterMap_name?]

/-- A query selects all of the source unless its plan selects or aggregates. -/
theorem all_mem_columns (h : Query.ofPlan d p = .ok q) :
    Column.all ∈ q.columns ↔ p.select = none ∧ p.isAggregated = false := by
  obtain ⟨rows, groups, as, windows, hq⟩ := exists_emits h
  have hname {α : Type} {l : List α} {f : α → String} :
      Column.all ∉ l.map fun a => column as windows (f a) := by
    intro hm
    obtain ⟨a, -, ha⟩ := List.mem_map.mp hm
    have hname : (column as windows (f a)).name? = some (f a) := name?_column (f a)
    rw [ha] at hname
    cases hname
  rw [hq.columns, columnsOf]
  cases p.select with
  | some fields =>
    exact ⟨fun hm => absurd hm (hname (f := id)), fun hm => absurd hm.1 (Option.some_ne_none _)⟩
  | none =>
    dsimp only
    cases p.isAggregated with
    | true =>
      rw [if_pos rfl, List.mem_append]
      exact ⟨fun hm => absurd hm (not_or.mpr ⟨hname (f := id), hname⟩),
        fun hm => absurd hm.2.symm Bool.false_ne_true⟩
    | false =>
      rw [if_neg Bool.false_ne_true]
      exact ⟨fun _ => ⟨rfl, rfl⟩, fun _ => List.mem_append_left _ List.mem_cons_self⟩

end Sql

/-- The shape is that of the result: a closed one lists its columns up to order, and an open one
only aliases that are among them. -/
def Shape.Describes : Shape → Sql.Query → Prop
  | .closed columns, q => Sql.Column.all ∉ q.columns ∧ q.names.Perm columns
  | .opened derived, q => derived ⊆ q.names

/-! ## Plans of pipelines -/

namespace Plan

variable {needed : List String} {p : Plan} {ops : List Operation}

/-- Operations with aliases select nothing. -/
theorem select_foldl (h : ∀ op ∈ ops, op.alias?.isSome = true) :
    (ops.foldl (add needed) p).select = p.select := by
  induction ops generalizing p with
  | nil => rfl
  | cons op ops ih =>
    rw [List.forall_mem_cons] at h
    rw [List.foldl_cons, ih h.2]
    cases op with
    | calculate e a =>
      rw [add]
      split <;> rfl
    | select fields => cases h.1
    | _ => rfl

/-- Before the first aggregate, calculations are made on the rows. -/
theorem preCalcs_foldl (hagg : p.aggregates = []) (hpost : p.postCalcs = [])
    (h : ∀ op ∈ ops, (∃ e a, op = .calculate e a) ∨ op.alias? = none) :
    (ops.foldl (add needed) p).preCalcs.map Calc.aliasName =
      p.preCalcs.map Calc.aliasName ++ ops.filterMap Operation.alias? := by
  induction ops generalizing p with
  | nil => exact (List.append_nil _).symm
  | cons op ops ih =>
    rw [List.forall_mem_cons] at h
    rw [List.foldl_cons]
    rcases h.1 with ⟨e, a, rfl⟩ | hnone
    · rw [add_calculate_early hagg hpost,
        ih (p := { p with preCalcs := p.preCalcs ++ [⟨a, e⟩] }) hagg hpost h.2,
        List.map_append, List.append_assoc]
      rfl
    · rw [List.filterMap_cons_none hnone]
      cases op with
      | join source c => exact ih hagg hpost h.2
      | select fields => exact ih hagg hpost h.2
      | _ => cases hnone

/-- Behind the first aggregate, only what aggregation needs is calculated on the rows. -/
theorem preCalcs_foldl_behind (hagg : p.aggregates ≠ [])
    (h : ∀ e a, .calculate e a ∈ ops → a ∉ needed) :
    (ops.foldl (add needed) p).preCalcs = p.preCalcs := by
  induction ops generalizing p with
  | nil => rfl
  | cons op ops ih =>
    have htail : ∀ e a, .calculate e a ∈ ops → a ∉ needed :=
      fun e a hop => h e a (List.mem_cons_of_mem op hop)
    rw [List.foldl_cons]
    cases op with
    | calculate e a =>
      rw [add_calculate_late hagg (h e a List.mem_cons_self),
        ih (p := { p with postCalcs := p.postCalcs ++ [⟨a, e⟩] }) hagg htail]
    | aggregate f e a => exact ih (List.append_ne_nil_of_left_ne_nil hagg _) htail
    | _ => exact ih hagg htail

theorem mem_aggregates {f : AggregateFn} {e : Expr} {a : String} {s : Statement}
    (h : .aggregate f e a ∈ s.operations) : (ofStatement s).aggregates ≠ [] := by
  intro hnone
  have hop : Operation.aggregate f e a ∈ (ofStatement s).operations :=
    (operations_ofStatement s).mem_iff.mpr (List.mem_filter.mpr ⟨h, rfl⟩)
  simp only [operations, hnone, List.map_nil, List.append_nil, List.mem_append, List.mem_map] at hop
  rcases hop with ((⟨j, -, hj⟩ | ⟨c, -, hc⟩) | ⟨c, -, hc⟩) | ⟨w, -, hw⟩
  · cases hj
  · cases hc
  · cases hc
  · cases hw

end Plan

namespace Pipeline

variable {source : String} {ws : List Written} {d : Snapshot} {q : Sql.Query}

theorem isSome_alias?_of_fits {kind : StageKind} {ops : List Operation}
    (h : (StageBody.compute ops).Fits kind) : ∀ op ∈ ops, op.alias?.isSome = true := by
  intro op hop
  cases kind with
  | aggregate =>
    obtain ⟨f, e, a, rfl⟩ := h.2 op hop
    rfl
  | calculate => exact h op hop
  | window =>
    obtain ⟨f, e, pb, ob, a, rfl⟩ := h op hop
    rfl
  | _ => exact h.elim

/-- The plan of a pipeline selects what its last selection leaves. -/
theorem select_ofStatement (source : String) (hfits : ∀ w ∈ ws, w.body.Fits w.kind) :
    (Plan.ofStatement (draftOf source ws).statement).select = lastSelected? ws := by
  have hfold (needed : List String) (p : Plan) :
      ((ws.flatMap Written.operations).foldl (Plan.add needed) p).select =
        ws.foldl (fun selected w => w.selected?.or selected) p.select := by
    induction ws generalizing p with
    | nil => rfl
    | cons w ws ih =>
      rw [List.forall_mem_cons] at hfits
      have hw : (w.operations.foldl (Plan.add needed) p).select = w.selected?.or p.select := by
        obtain ⟨name, kind, body⟩ := w
        cases body with
        | compute ops => exact Plan.select_foldl (isSome_alias?_of_fits hfits.1)
        | _ => rfl
      rw [List.flatMap_cons, List.foldl_append, ih hfits.2, hw, List.foldl_cons]
  show (Plan.folded (draftOf source ws).statement).select = _
  rw [Plan.folded, operations_draftOf, hfold]
  rfl

/-- An aggregation makes the plan aggregated. -/
theorem isAggregated_of_any (source : String) (hfits : ∀ w ∈ ws, w.body.Fits w.kind)
    (h : ws.any Written.isAggregate = true) :
    (Plan.ofStatement (draftOf source ws).statement).isAggregated = true := by
  obtain ⟨w, hw, hagg⟩ := List.any_eq_true.mp h
  have hfit := hfits w hw
  rw [beq_iff_eq.mp hagg] at hfit
  obtain ⟨name, kind, body⟩ := w
  cases body with
  | compute ops =>
    obtain ⟨hne, hops⟩ := hfit
    obtain ⟨op, hop⟩ := List.exists_mem_of_ne_nil ops hne
    obtain ⟨f, e, a, rfl⟩ := hops op hop
    have hmem : .aggregate f e a ∈ (draftOf source ws).statement.operations := by
      rw [operations_draftOf]
      exact List.mem_flatMap.mpr ⟨_, hw, hop⟩
    rw [Plan.isAggregated, Bool.or_eq_true, Bool.not_eq_true', List.isEmpty_eq_false_iff]
    exact Or.inl (Plan.mem_aggregates hmem)
  | _ => exact hfit.elim

/-! ## Shapes and columns -/

/-- No calculation on the rows is lost or moved: those before an aggregation are the ones that the
plan makes on the rows, and where keys alone group the rows, such a calculation is a key. -/
def KeepsCalcs (ws : List Written) (p : Plan) : Prop :=
  match lastSelected? ws with
  | some _ => True
  | none =>
    if ws.any Written.isAggregate then (p.preCalcs.map Calc.aliasName).Perm (definedBefore ws)
    else p.isAggregated = true → p.preCalcs.map Calc.aliasName ⊆ p.group

/-- Of two ways to split a list, the second parts agree if the first ones do, and conversely. -/
theorem perm_right_iff {α : Type} {a b c e : List α} (h : (a ++ b).Perm (c ++ e)) :
    b.Perm e ↔ a.Perm c := by
  constructor
  · intro hbe
    exact (List.perm_append_right_iff b).mp (h.trans (hbe.symm.append_left c))
  · intro hac
    exact (List.perm_append_left_iff c).mp ((hac.symm.append_right b).trans h)

/-- The shape that stages say describes the query of a plan with their selection and aliases exactly
where no calculation on the rows is lost or moved. -/
theorem describes_statedShape_iff {p : Plan} (hq : Sql.Query.ofPlan d p = .ok q)
    (hselect : p.select = lastSelected? ws) (haliases : p.aliases.Perm (ws.flatMap Written.defines))
    (hnodup : p.aliases.Nodup) (hlate : p.isAggregated = false → p.postAliases = [])
    (hagg : ws.any Written.isAggregate = true → p.isAggregated = true) :
    (statedShape p.group ws).Describes q ↔ KeepsCalcs ws p := by
  have hall := Sql.all_mem_columns hq
  have hnames := Sql.names_ofPlan hq
  rw [Plan.resultNames, hselect] at hnames
  rw [Plan.aliases] at haliases hnodup
  rw [statedShape, KeepsCalcs]
  cases hlast : lastSelected? ws with
  | some fields =>
    rw [hlast] at hnames hselect
    refine iff_of_true ⟨fun hm => ?_, hnames ▸ List.Perm.refl _⟩ trivial
    rw [hselect] at hall
    cases (hall.mp hm).1
  | none =>
    rw [hlast] at hnames hselect
    dsimp only at hnames ⊢
    cases hany : ws.any Written.isAggregate with
    | true =>
      have haggregated := hagg hany
      rw [if_pos rfl, if_pos rfl]
      rw [if_pos haggregated, List.append_assoc] at hnames
      -- the aliases before and behind the aggregation are those on the rows and all others
      rw [← definedBefore_append_definedFrom, List.append_assoc] at haliases
      refine Iff.trans ?_ (perm_right_iff haliases)
      rw [Shape.Describes, hnames, List.perm_append_left_iff]
      refine and_iff_right fun hm => ?_
      rw [haggregated] at hall
      cases (hall.mp hm).2
    | false =>
      rw [if_neg Bool.false_ne_true, if_neg Bool.false_ne_true, Shape.Describes, hnames]
      cases hgrouped : p.isAggregated with
      | false =>
        rw [hlate hgrouped, List.append_nil] at haliases
        rw [if_neg Bool.false_ne_true]
        exact iff_of_true haliases.symm.subset Bool.noConfusion
      | true =>
        rw [if_pos rfl]
        have hapart := List.nodup_append.mp (List.append_assoc .. ▸ hnodup)
        constructor
        · intro hsub _ n hn
          have hm := hsub (haliases.subset (List.mem_append_left _ (List.mem_append_left _ hn)))
          rw [List.append_assoc, List.mem_append] at hm
          exact hm.resolve_right fun hm => hapart.2.2 n hn n hm rfl
        · intro hkeys n hn
          have hm := haliases.symm.subset hn
          rw [List.append_assoc, List.mem_append] at hm ⊢
          exact hm.imp_left fun hm => hkeys rfl hm

/-- **The shape after the last stage describes the query exactly where no calculation on the rows is
lost or moved.** -/
theorem describes_iff (hfits : ∀ w ∈ ws, w.body.Fits w.kind)
    (hp : Check.Passes (draftOf source ws).statement d)
    (hq : Sql.Query.ofPlan d (Plan.ofStatement (draftOf source ws).statement) = .ok q) :
    (draftOf source ws).shape.Describes q ↔
      KeepsCalcs ws (Plan.ofStatement (draftOf source ws).statement) := by
  have haliases := Plan.aliases_ofStatement (draftOf source ws).statement
  have hnodup := haliases.nodup_iff.mpr hp.nodup
  rw [aliases_draftOf] at haliases
  rw [shape_draftOf hfits (follows_of_stagesFindings hp.stages), ← Plan.group_ofStatement]
  exact describes_statedShape_iff hq (select_ofStatement source hfits) haliases hnodup
    Plan.postAliases_of_not_isAggregated (isAggregated_of_any source hfits)

/-! ## Stages that compute apart -/

/-- The kind of the stage that an operation is written for. -/
def stageKind : Operation → StageKind
  | .aggregate _ _ _ => .aggregate
  | .calculate _ _ => .calculate
  | .window _ _ _ _ _ => .window
  | .select _ => .select
  | .join _ _ => .join

/-- Every operation stands in a stage of its own kind, so that calculate stages only calculate, and
group keys come with an aggregation or a selection. -/
structure ComputesApart (ws : List Written) : Prop where
  kinds : ∀ w ∈ ws, ∀ op ∈ w.operations, w.kind = stageKind op
  groups : ∀ w ∈ ws, w.kind = .group → ∃ x ∈ ws, x.kind = .aggregate ∨ x.kind = .select

instance (ws : List Written) : Decidable (ComputesApart ws) :=
  decidable_of_iff ((∀ w ∈ ws, ∀ op ∈ w.operations, w.kind = stageKind op) ∧
      ∀ w ∈ ws, w.kind = .group → ∃ x ∈ ws, x.kind = .aggregate ∨ x.kind = .select)
    ⟨fun h => ⟨h.1, h.2⟩, fun h => ⟨h.kinds, h.groups⟩⟩

variable {w : Written}

/-- A name that aggregation needs is read by a group stage or by an aggregation. -/
theorem ComputesApart.exists_reader (h : ComputesApart ws) (hfits : ∀ w ∈ ws, w.body.Fits w.kind)
    {n : String} (hn : n ∈ Plan.namesNeeded (draftOf source ws).statement) :
    ∃ w ∈ ws, (w.kind = .group ∨ w.kind = .aggregate) ∧ n ∈ w.body.references := by
  rcases List.mem_append.mp hn with hn | hn
  · obtain ⟨w, hw, hkind, hn⟩ := exists_group hfits hn
    exact ⟨w, hw, Or.inl hkind, hn⟩
  · obtain ⟨op, hop, hn⟩ := List.mem_flatMap.mp hn
    rw [operations_draftOf] at hop
    obtain ⟨w, hw, hop⟩ := List.mem_flatMap.mp hop
    cases op with
    | aggregate f e a =>
      have hkind : w.kind = .aggregate := h.kinds w hw _ hop
      refine ⟨w, hw, Or.inr hkind, ?_⟩
      have hfit := hfits w hw
      rw [hkind] at hfit
      obtain ⟨name, kind, body⟩ := w
      cases body with
      | compute ops => exact Rows.mem_readsOf.mpr ⟨_, hop, hn⟩
      | _ => exact hfit.elim
    | _ => cases hn

/-- An aggregation holds an aggregate and then nothing to calculate. -/
theorem exists_aggregate_of_fits (hfit : w.body.Fits w.kind) (hw : w.isAggregate = true) :
    ∃ f e a rest, w.operations = .aggregate f e a :: rest ∧ ∀ e a, .calculate e a ∉ rest := by
  rw [beq_iff_eq.mp hw] at hfit
  obtain ⟨name, kind, body⟩ := w
  cases body with
  | compute ops =>
    obtain ⟨hne, hops⟩ := hfit
    obtain ⟨op, rest, rfl⟩ := List.exists_cons_of_ne_nil hne
    obtain ⟨f, e, a, rfl⟩ := hops op List.mem_cons_self
    refine ⟨f, e, a, rest, rfl, fun e a hop => ?_⟩
    obtain ⟨f', e', a', he⟩ := hops _ (List.mem_cons_of_mem _ hop)
    cases he
  | _ => exact hfit.elim

theorem isPlain_of_mem_defines (h : w.body.IsWritten) {n : String} (hn : n ∈ w.defines) :
    IsPlain n := by
  obtain ⟨name, kind, body⟩ := w
  cases body with
  | compute ops =>
    obtain ⟨op, hop, ha⟩ := List.mem_filterMap.mp hn
    exact (h.2 op hop).aliasName n ha
  | _ => cases hn

/-- The stages up to the first aggregation, and those behind it. -/
theorem exists_aggregation (h : ws.any Written.isAggregate = true) :
    ∃ (front : List Written) (x : Written) (back : List Written), ws = front ++ x :: back ∧
      (∀ w ∈ front, w.isAggregate = false) ∧ x.isAggregate = true ∧
      definedBefore ws = front.flatMap Written.defines := by
  obtain ⟨y, hy, hagg⟩ := List.any_eq_true.mp h
  obtain ⟨x, hx⟩ := Option.isSome_iff_exists.mp (List.find?_isSome.mpr ⟨y, hy, hagg⟩)
  obtain ⟨hfirst, front, back, rfl, hfront⟩ := List.find?_eq_some_iff_append.mp hx
  refine ⟨front, x, back, rfl, fun w hw => by simpa using hfront w hw, hfirst, ?_⟩
  rw [definedBefore, List.takeWhile_append_of_pos hfront,
    List.takeWhile_cons_of_neg (by simp [hfirst]), List.append_nil]

section Apart

variable (hfits : ∀ w ∈ ws, w.body.Fits w.kind) (hwritten : ∀ w ∈ ws, w.body.IsWritten)
  (hp : Check.Passes (draftOf source ws).statement d) (h : ComputesApart ws)

include hfits hwritten hp h

/-- What is calculated behind an aggregation is not needed by it. -/
theorem not_needed_of_behind {front back : List Written} {x : Written}
    (hws : ws = front ++ x :: back) (hx : x.isAggregate = true) (hw : w ∈ back) {e : Expr}
    {a : String} (hop : .calculate e a ∈ w.operations) :
    a ∉ Plan.namesNeeded (draftOf source ws).statement := by
  intro hn
  obtain ⟨y, hy, hkind, hread⟩ := h.exists_reader hfits hn
  have hfollows := follows_of_stagesFindings hp.stages
  have hfresh := fresh_of_stagesFindings hp.stages hp.nodup
  have hsplit : ws = (front ++ [x]) ++ back := by rw [hws, List.append_assoc, List.singleton_append]
  rw [hsplit] at hy hfollows hfresh
  rcases List.mem_append.mp hy with hy | hy
  · have hdef : a ∈ w.defines := by
      rw [← Written.filterMap_operations]
      exact List.mem_filterMap.mpr ⟨_, hop, rfl⟩
    have hplain : IsPlain a :=
      isPlain_of_mem_defines (hwritten w (hsplit ▸ List.mem_append_right _ hw)) hdef
    refine (List.pairwise_append.mp hfresh).2.2 y hy w hw a hread ?_
    rwa [Check.splitName_of_isPlain hplain]
  · have hxy := (List.pairwise_append.mp hfollows).2.2 x
      (List.mem_append_right _ (List.mem_singleton_self x)) y hy
    rw [beq_iff_eq.mp hx] at hxy
    rcases hkind with hk | hk
    · rw [hk] at hxy
      cases hxy
    · rw [hk] at hxy
      cases hxy

omit hfits hwritten in
/-- Before an aggregation, stages calculate or declare nothing. -/
theorem calculates_of_before {front back : List Written} {x : Written}
    (hws : ws = front ++ x :: back) (hx : x.isAggregate = true)
    (hfront : ∀ w ∈ front, w.isAggregate = false) :
    ∀ op ∈ front.flatMap Written.operations, (∃ e a, op = .calculate e a) ∨ op.alias? = none := by
  intro op hop
  obtain ⟨w, hw, hop⟩ := List.mem_flatMap.mp hop
  have hmem : w ∈ ws := hws ▸ List.mem_append_left _ hw
  have hwx : Check.mayFollow w.kind .aggregate = true := by
    have hfollows := follows_of_stagesFindings hp.stages
    rw [hws] at hfollows
    rw [← beq_iff_eq.mp hx]
    exact (List.pairwise_append.mp hfollows).2.2 w hw x List.mem_cons_self
  have hkind := h.kinds w hmem op hop
  cases op with
  | calculate e a => exact Or.inl ⟨e, a, rfl⟩
  | aggregate f e a =>
    have := hfront w hw
    rw [Written.isAggregate, hkind] at this
    cases this
  | window f e pb ob a =>
    rw [hkind] at hwx
    cases hwx
  | select fields => exact Or.inr rfl
  | join other c => exact Or.inr rfl

/-- The calculations on the rows are those before the aggregation. -/
theorem preCalcs_of_computesApart {front back : List Written} {x : Written}
    (hws : ws = front ++ x :: back) (hx : x.isAggregate = true)
    (hfront : ∀ w ∈ front, w.isAggregate = false) :
    (Plan.ofStatement (draftOf source ws).statement).preCalcs.map Calc.aliasName =
      front.flatMap Written.defines := by
  have hcalculates := calculates_of_before hp h hws hx hfront
  obtain ⟨f, e, a, rest, hrest, hcalc⟩ := exists_aggregate_of_fits (hfits x (hws ▸ by simp)) hx
  have hops : (draftOf source ws).statement.operations = front.flatMap Written.operations ++
      .aggregate f e a :: (rest ++ back.flatMap Written.operations) := by
    rw [operations_draftOf, hws, List.flatMap_append, List.flatMap_cons, hrest, List.cons_append]
  show (Plan.folded (draftOf source ws).statement).preCalcs.map Calc.aliasName = _
  rw [Plan.folded, hops, List.foldl_append, List.foldl_cons, Plan.preCalcs_foldl_behind]
  · refine (Plan.preCalcs_foldl rfl rfl hcalculates).trans ?_
    rw [filterMap_flatMap_operations]
    rfl
  · exact List.append_ne_nil_of_right_ne_nil _ (List.cons_ne_nil _ _)
  · intro e a hop
    rcases List.mem_append.mp hop with hop | hop
    · exact absurd hop (hcalc e a)
    · obtain ⟨w, hw, hop⟩ := List.mem_flatMap.mp hop
      exact not_needed_of_behind hfits hwritten hp h hws hx hw hop

/-- Stages that compute apart neither lose nor move a calculation on the rows. -/
theorem keepsCalcs_of_computesApart :
    KeepsCalcs ws (Plan.ofStatement (draftOf source ws).statement) := by
  rw [KeepsCalcs]
  cases hlast : lastSelected? ws with
  | some fields => trivial
  | none =>
    dsimp only
    cases hany : ws.any Written.isAggregate with
    | true =>
      obtain ⟨front, x, back, hws, hfront, hx, hbefore⟩ := exists_aggregation hany
      rw [if_pos rfl, hbefore, preCalcs_of_computesApart hfits hwritten hp h hws hx hfront]
    | false =>
      -- nothing aggregates and, with no selection either, nothing groups
      rw [if_neg Bool.false_ne_true]
      intro haggregated
      rw [Plan.isAggregated, Bool.or_eq_true, Bool.not_eq_true', Bool.not_eq_true',
        List.isEmpty_eq_false_iff, List.isEmpty_eq_false_iff, Plan.group_ofStatement] at haggregated
      rcases haggregated with hne | hne
      · obtain ⟨b, hb⟩ := List.exists_mem_of_ne_nil _ hne
        have hop := (Plan.operations_ofStatement _).subset (Plan.mem_operations_of_aggregates hb)
        rw [List.mem_filter, operations_draftOf, List.mem_flatMap] at hop
        obtain ⟨⟨w, hw, hop⟩, -⟩ := hop
        exact absurd (beq_iff_eq.mpr (h.kinds w hw _ hop)) (List.any_eq_false.mp hany w hw)
      · obtain ⟨g, hg⟩ := List.exists_mem_of_ne_nil _ hne
        obtain ⟨w, hw, hkind, -⟩ := exists_group hfits hg
        obtain ⟨y, hy, hk | hk⟩ := h.groups w hw hkind
        · exact absurd (beq_iff_eq.mpr hk) (List.any_eq_false.mp hany y hy)
        · obtain ⟨fields, hs⟩ := exists_lastSelected? hfits hy hk
          rw [hlast] at hs
          cases hs

end Apart

/-! ## Valid pipelines -/

/-- **The shape of a valid pipeline is that of its query exactly where no calculation on the rows is
lost or moved**, and so in all pipelines whose stages compute apart. -/
theorem describes_iff_of_valid {text : List Char} {s : Statement} {rules : Rules}
    (hparse : Statement.parse text = .ok s) (hpattern : s.pattern = .arrowPipeline)
    (hvalid : (s.check d rules).valid = true)
    (hquery : Sql.Query.ofPlan d (Plan.ofStatement s) = .ok q) :
    ∃ source ws, stagesOf? text = some (source, ws) ∧ (draftOf source ws).statement = s ∧
      ((draftOf source ws).shape.Describes q ↔ KeepsCalcs ws (Plan.ofStatement s)) ∧
      (ComputesApart ws → (draftOf source ws).shape.Describes q) := by
  obtain ⟨p, tokens, -, hg⟩ := parse_eq_ok.mp hparse
  obtain rfl : p = .arrowPipeline := (pattern_of_grammar hg).symm.trans hpattern
  obtain ⟨source, ws, hstages, -, rfl⟩ := exists_stagesOf? hg
  obtain ⟨_, _, -, hws⟩ := gives_of_stagesOf? hstages
  have hfits := fits_of_writtenStages hws
  have hwritten := isWritten_of_writtenStages hws
  have hp := Check.valid_iff.mp hvalid
  have hiff := describes_iff hfits hp hquery
  refine ⟨source, ws, hstages, rfl, hiff, fun hapart => ?_⟩
  exact hiff.mpr (keepsCalcs_of_computesApart hfits hwritten hp hapart)

/-- The ranks of the groups by half of their totals. -/
def rankedGroups : List Char :=
  ("S -> calculate(x * 2 as y) -> group(k) -> aggregate(sum(y) as t) -> calculate(t / 2 as h) -> " ++
    "window(rank() over (order by h) as r)").toList

theorem describes_rankedGroups : ∃ s q source ws, Statement.parse rankedGroups = .ok s ∧
    s.pattern = .arrowPipeline ∧ (s.check .empty {}).valid = true ∧
    Sql.Query.ofPlan .empty (Plan.ofStatement s) = .ok q ∧ q.names = ["k", "t", "h", "r"] ∧
    stagesOf? rankedGroups = some (source, ws) ∧ (draftOf source ws).statement = s ∧
    KeepsCalcs ws (Plan.ofStatement s) ∧
    (draftOf source ws).shape = .closed ["k", "t", "h", "r"] ∧
    (draftOf source ws).shape.Describes q := by
  obtain ⟨s, hs, h⟩ := exists_parse rankedGroups
    (congrArg String.toList String.ofList_append.symm)
    (fun _ s => s.pattern == .arrowPipeline && (s.check .empty {}).valid &&
      (Sql.Query.ofPlan .empty (Plan.ofStatement s)).toOption.any fun q =>
        q.names == ["k", "t", "h", "r"])
    (by decide +kernel)
  simp only [Bool.and_eq_true, beq_iff_eq, Option.any_eq_true] at h
  obtain ⟨⟨hpattern, hvalid⟩, q, hq, hnames⟩ := h
  have hstages : (stagesOf? rankedGroups).any (fun x => decide (ComputesApart x.2) &&
      (draftOf x.1 x.2).shape == .closed ["k", "t", "h", "r"]) = true := by decide +kernel
  obtain ⟨⟨source, ws⟩, hws, hx⟩ := (Option.any_eq_true _ _).mp hstages
  rw [Bool.and_eq_true, decide_eq_true_iff, beq_iff_eq] at hx
  obtain ⟨source', ws', hws', hstatement, hiff, hdescribes⟩ :=
    describes_iff_of_valid hs hpattern hvalid (eq_ok_of_toOption hq)
  obtain ⟨rfl, rfl⟩ := Prod.mk.inj (Option.some.inj (hws.symm.trans hws'))
  have hd := hdescribes hx.1
  exact ⟨s, q, source, ws, hs, hpattern, hvalid, eq_ok_of_toOption hq, hnames, hws, hstatement,
    hiff.mp hd, hx.2, hd⟩

/-- A total that a calculate stage computes, and another one of an aggregation. -/
def earlyTotal : List Char :=
  "S -> calculate(sum(x) as t) -> aggregate(sum(y) as u)".toList

/-- The query of a valid pipeline can show a column that its closed shape lacks. -/
theorem not_describes_earlyTotal : ∃ s q source ws, Statement.parse earlyTotal = .ok s ∧
    s.pattern = .arrowPipeline ∧ (s.check .empty {}).valid = true ∧
    Sql.Query.ofPlan .empty (Plan.ofStatement s) = .ok q ∧
    q.text = "SELECT SUM(x) AS t, SUM(y) AS u FROM S" ∧ q.names = ["t", "u"] ∧
    stagesOf? earlyTotal = some (source, ws) ∧ (draftOf source ws).shape = .closed ["u"] ∧
    ¬ (draftOf source ws).shape.Describes q := by
  obtain ⟨s, hs, h⟩ := exists_parse earlyTotal rfl
    (fun _ s => s.pattern == .arrowPipeline && (s.check .empty {}).valid &&
      (Sql.Query.ofPlan .empty (Plan.ofStatement s)).toOption.any fun q =>
        decide (q.text = "SELECT SUM(x) AS t, SUM(y) AS u FROM S") && q.names == ["t", "u"])
    (by decide +kernel)
  simp only [Bool.and_eq_true, decide_eq_true_iff, beq_iff_eq, Option.any_eq_true] at h
  obtain ⟨⟨hpattern, hvalid⟩, q, hq, htext, hnames⟩ := h
  have hstages : (stagesOf? earlyTotal).any (fun x =>
      (draftOf x.1 x.2).shape == .closed ["u"]) = true := by decide +kernel
  obtain ⟨⟨source, ws⟩, hws, hshape⟩ := (Option.any_eq_true _ _).mp hstages
  rw [beq_iff_eq] at hshape
  refine ⟨s, q, source, ws, hs, hpattern, hvalid, eq_ok_of_toOption hq, htext, hnames, hws, hshape,
    ?_⟩
  rw [hshape, Shape.Describes, hnames]
  rintro ⟨-, hperm⟩
  cases hperm.length_eq

end Pipeline

end DataPhrase
