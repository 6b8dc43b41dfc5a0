/-
# Pipelines and their plans

The plan of a pipeline splits its stages into the phases before and behind its aggregation. On every
table, the phases of the plan give the rows that the stages give one after another
(`run_settled_eq_evaluate`).
-/
import DataPhrase.Proofs.Rows.Plans
import DataPhrase.Proofs.Statement.Parse
import Mathlib.Algebra.Ring.Nat

namespace DataPhrase.Rows

/-! ## Group keys -/

theorem keysAfter_eq_of_not_isGroup {w : RowStage} (h : w.isGroup = false) (keys : List String) :
    RowStage.keysAfter keys w = keys := by
  cases w with
  | group ks => cases h
  | _ => rfl

theorem foldl_keysAfter_of_not_isGroup {ws : List RowStage} (h : ∀ w ∈ ws, w.isGroup = false)
    (keys : List String) : ws.foldl RowStage.keysAfter keys = keys := by
  induction ws generalizing keys with
  | nil => rfl
  | cons w ws ih =>
    rw [List.forall_mem_cons] at h
    rw [List.foldl_cons, keysAfter_eq_of_not_isGroup h.1, ih h.2]

theorem exists_group_of_mem_keys {ws : List RowStage} {k : String}
    (h : k ∈ ws.foldl RowStage.keysAfter []) : ∃ ks, .group ks ∈ ws ∧ k ∈ ks := by
  induction ws using List.reverseRecOn with
  | nil => cases h
  | append_singleton ws w ih =>
    rw [List.foldl_append, List.foldl_cons, List.foldl_nil] at h
    cases w with
    | group ks =>
      exact ⟨ks, List.mem_append_right ws (List.mem_singleton_self _), h⟩
    | _ =>
      obtain ⟨ks, hks, hk⟩ := ih h
      exact ⟨ks, List.mem_append_left _ hks, hk⟩

/-- Where there is a grouping, there are group keys. -/
theorem keys_ne_nil {ws : List RowStage} (hw : ∀ w ∈ ws, w.IsWritten)
    (h : ws.any RowStage.isGroup = true) : ws.foldl RowStage.keysAfter [] ≠ [] := by
  induction ws using List.reverseRecOn with
  | nil => cases h
  | append_singleton ws w ih =>
    rw [List.foldl_append, List.foldl_cons, List.foldl_nil]
    have hlast := hw w (List.mem_append_right ws (List.mem_singleton_self w))
    have hws := fun e he => hw e (List.mem_append_left _ he)
    cases w with
    | group ks => exact hlast
    | _ =>
      rw [List.any_append, Bool.or_eq_true] at h
      rcases h with h | h
      · exact ih hws h
      · cases h

/-- Group keys come from the stages that filter, calculate and group. -/
theorem keys_filter_isEarly (ws : List RowStage) :
    (ws.filter RowStage.isEarly).foldl RowStage.keysAfter [] =
      ws.foldl RowStage.keysAfter [] := by
  induction ws using List.reverseRecOn with
  | nil => rfl
  | append_singleton ws w ih =>
    rw [List.filter_append, List.foldl_append, List.foldl_append, ih]
    cases w <;> rfl

/-! ## Sound stages and their plan -/

namespace Sound

variable {front back : List RowStage} {as : List Aggregate} {s : Statement}

section Sides

variable (h : Sound (front ++ .aggregate as :: back))

include h

/-- What comes before an aggregation filters, calculates or groups. -/
theorem isEarly_of_mem_front : ∀ w ∈ front, w.isEarly = true := by
  intro w hw
  have hb := (List.pairwise_append.mp h.before).2.2 w hw _ List.mem_cons_self
  have hf := hb.follows
  cases w with
  | filter c => rfl
  | calculate cs => rfl
  | group ks => rfl
  | _ => cases hf

/-- What comes behind an aggregation does not aggregate or group again. -/
theorem of_mem_back : ∀ w ∈ back, w.isAggregate = false ∧ w.isGroup = false := by
  intro w hw
  have hb := (List.pairwise_cons.mp (List.pairwise_append.mp h.before).2.1).1 w hw
  have hf := hb.follows
  cases w with
  | group ks => cases hf
  | aggregate as => cases hf
  | _ => exact ⟨rfl, rfl⟩

theorem ne_nil : as ≠ [] := by
  have hw : (RowStage.aggregate as).IsWritten :=
    h.written _ (List.mem_append_right _ List.mem_cons_self)
  rintro rfl
  exact hw.1 rfl

/-- No stage behind an aggregation changes what the aggregation reads. -/
theorem not_mem_namesNeeded (hd : Describes s (front ++ .aggregate as :: back)) :
    ∀ w ∈ back, ∀ n ∈ w.defines, n ∉ Plan.namesNeeded s := by
  intro w hw n hn hm
  have hwb : w ∈ RowStage.aggregate as :: back := List.mem_cons_of_mem _ hw
  have hcol : columnOf n = n :=
    columnOf_of_mem_defines (h.written w (List.mem_append_right _ hwb)) hn
  rcases List.mem_append.mp hm with hm | hm
  · -- a group key
    rw [hd.keys] at hm
    obtain ⟨ks, hks, hk⟩ := exists_group_of_mem_keys hm
    have hks : RowStage.group ks ∈ front := by
      rcases List.mem_append.mp hks with hks | hks
      · exact hks
      · rcases List.mem_cons.mp hks with hks | hks
        · cases hks
        · cases (h.of_mem_back _ hks).2
    have hb := (List.pairwise_append.mp h.before).2.2 _ hks w hwb
    exact hb.fresh n (List.mem_map.mpr ⟨n, hk, hcol⟩) hn
  · -- a field of an aggregate
    obtain ⟨op, hop, hm⟩ := List.mem_flatMap.mp hm
    rw [hd.operations] at hop
    obtain ⟨v, hv, hop⟩ := List.mem_flatMap.mp hop
    have hb := (List.pairwise_cons.mp (List.pairwise_append.mp h.before).2.1).1 w hw
    cases v with
    | aggregate bs =>
      obtain ⟨a, ha, rfl⟩ := List.mem_map.mp hop
      have hbs : bs = as := by
        rcases List.mem_append.mp hv with hv | hv
        · cases h.isEarly_of_mem_front _ hv
        · rcases List.mem_cons.mp hv with hv | hv
          · cases hv
            rfl
          · cases (h.of_mem_back _ hv).1
      subst hbs
      exact hb.fresh n (RowStage.mem_reads_aggregate (h.written _
        (List.mem_append_right _ List.mem_cons_self)) ha hm) hn
    | calculate cs =>
      obtain ⟨c, -, rfl⟩ := List.mem_map.mp hop
      cases hm
    | select fields =>
      obtain rfl := List.mem_singleton.mp hop
      cases hm
    | _ => cases hop

omit h in
/-- The aliases of calculations are the aliases of the stages. -/
theorem aliases_calcs {ws : List RowStage} (hw : ∀ w ∈ ws, w.isAggregate = false) :
    (Phases.ofStages ws).calcs.map Calc.aliasName = ws.flatMap RowStage.defines := by
  induction ws using List.reverseRecOn with
  | nil => rfl
  | append_singleton ws w ih =>
    have hlast := hw w (List.mem_append_right ws (List.mem_singleton_self w))
    rw [Phases.ofStages_append, List.flatMap_append, List.flatMap_singleton,
      ← ih fun e he => hw e (List.mem_append_left _ he)]
    cases w with
    | calculate cs => rw [RowStage.defines_calculate, Phases.add, List.map_append]
    | aggregate as => cases hlast
    | _ => exact (List.append_nil _).symm

/-- The aliases that exist only behind the aggregation are those of the aggregation and of the
stages behind it. -/
theorem aliases_later : as.map Aggregate.aliasName ++
    (Phases.ofStages back).calcs.map Calc.aliasName =
      (RowStage.aggregate as :: back).flatMap RowStage.defines := by
  rw [aliases_calcs fun w hw => (h.of_mem_back w hw).1, List.flatMap_cons,
    RowStage.defines_aggregate]

/-- A condition before an aggregation reads no alias that exists only behind it. -/
theorem readsLater_front {c : Condition} (hc : c ∈ (Phases.ofStages front).conditions) :
    readsLater as (Phases.ofStages back).calcs c = false := by
  obtain ⟨d, hd, hcd⟩ := (Phases.from_ofStages front).conditions c hc
  rw [readsLater, List.any_eq_false, h.aliases_later]
  intro n hn hm
  obtain ⟨w, hw, hdef⟩ := List.mem_flatMap.mp (List.contains_iff_mem.mp hm)
  have hb := (List.pairwise_append.mp h.before).2.2 _ hd w hw
  have hwd := h.written _ (List.mem_append_left _ hd)
  refine hb.fresh n ?_ hdef
  exact RowStage.mem_reads_filter hwd (Condition.fieldNames_of_mem_conjuncts hcd hn)

/-- A condition behind an aggregation that reads no such alias reads group keys only. -/
theorem mem_keys_of_readsLater {c : Condition} (hc : c ∈ (Phases.ofStages back).conditions)
    (hl : readsLater as (Phases.ofStages back).calcs c = false) : ∀ n ∈ c.fieldNames,
      n ∈ (front.foldl RowStage.keysAfter []).map columnOf ∧
        n ∉ (Phases.ofStages back).calcs.map Calc.aliasName := by
  intro n hn
  obtain ⟨d, hd, hcd⟩ := (Phases.from_ofStages back).conditions c hc
  have hnl : n ∉ (RowStage.aggregate as :: back).flatMap RowStage.defines := by
    intro hm
    rw [← h.aliases_later] at hm
    rw [readsLater, List.any_eq_false] at hl
    exact hl n hn (List.contains_iff_mem.mpr hm)
  have hwd := h.written _ (List.mem_append_right _ (List.mem_cons_of_mem _ hd))
  have hr := h.grouped front as back rfl _ hd n
    (RowStage.mem_reads_filter hwd (Condition.fieldNames_of_mem_conjuncts hcd hn))
  constructor
  · rcases List.mem_append.mp hr with hr | hr
    · exact hr
    · exact absurd hr hnl
  · rw [aliases_calcs fun w hw => (h.of_mem_back w hw).1]
    intro hm
    rw [List.flatMap_cons] at hnl
    exact hnl (List.mem_append_right _ hm)

end Sides

variable {V : Type} [DecidableEq V] (A : Algebra V)

/-- A plan with grouping or aggregates reduces the rows of the source and takes the other phases
from there. -/
theorem evaluate_of_isAggregated {p : Plan} (h : p.isAggregated = true) (table : List (Row V)) :
    A.evaluate p table =
      A.phased ⟨p.postCalcs, p.postFilter, p.order, p.select, p.limit⟩
        (A.reduce p.group p.aggregates
          ((table.map (A.calculateAll p.preCalcs)).filter (A.keepsAll p.preFilter))) := by
  rw [Algebra.evaluate, h]
  rfl

/-- A plan without grouping and aggregates is one round of phases. -/
theorem evaluate_of_not_isAggregated {p : Plan} (h : p.isAggregated = false)
    (hc : p.postCalcs = []) (hf : p.postFilter = []) (table : List (Row V)) :
    A.evaluate p table =
      A.phased ⟨p.preCalcs, p.preFilter, p.order, p.select, p.limit⟩ table := by
  have hid : ∀ rows : List (Row V),
      (rows.map (A.calculateAll [])).filter (A.keepsAll []) = rows := by
    intro rows
    have hcalc : A.calculateAll [] = id := rfl
    rw [hcalc, List.map_id]
    exact List.filter_eq_self.mpr fun _ _ => rfl
  rw [Algebra.evaluate, h, hc, hf]
  simp only [Bool.false_eq_true, if_false, hid]
  rfl

omit [DecidableEq V] in
/-- Stages that filter, calculate and group. -/
theorem phased_of_isEarly {ws : List RowStage} (h : ∀ w ∈ ws, w.isEarly = true)
    (rows : List (Row V)) : A.phased (Phases.ofStages ws) rows =
      (rows.map (A.calculateAll (Phases.ofStages ws).calcs)).filter
        (A.keepsAll (Phases.ofStages ws).conditions) := by
  obtain ⟨ho, hs, hl⟩ := Phases.ofStages_of_isEarly h
  unfold Algebra.phased
  rw [ho, hs, hl]
  exact A.sort_nil _

section Plan

variable (h : Sound (front ++ .aggregate as :: back))
  (hd : Describes s (front ++ .aggregate as :: back))

include h hd

/-- The parts of the filter are those before the aggregation, then those behind it. -/
theorem filterParts_eq : s.filterParts =
    (Phases.ofStages front).conditions ++ (Phases.ofStages back).conditions := by
  rw [hd.clauses.conditions, Phases.ofStages_aggregate h.isEarly_of_mem_front]

/-- The plan reduces by the group keys before the aggregation, and orders and limits what comes
behind it. -/
theorem plan_eq : Plan.ofStatement s =
    { Plan.start s with
      preCalcs := (Phases.ofStages front).calcs
      preFilter := (Phases.ofStages front).conditions ++ (Phases.ofStages back).conditions.filter
        fun c => !readsLater as (Phases.ofStages back).calcs c
      group := front.foldl RowStage.keysAfter []
      aggregates := as
      postCalcs := (Phases.ofStages back).calcs
      postFilter := (Phases.ofStages back).conditions.filter
        (readsLater as (Phases.ofStages back).calcs)
      order := (Phases.ofStages back).order
      select := (Phases.ofStages back).select
      limit := (Phases.ofStages back).limit } := by
  have hearly := h.isEarly_of_mem_front
  have hback := h.of_mem_back
  have hkeys : s.group.getD [] = front.foldl RowStage.keysAfter [] := by
    rw [hd.keys, List.foldl_append, List.foldl_cons]
    exact foldl_keysAfter_of_not_isGroup (fun w hw => (hback w hw).2) _
  have horder : s.order = (Phases.ofStages back).order := by
    rw [hd.clauses.order, Phases.ofStages_aggregate hearly]
  have hlimit : s.limit = (Phases.ofStages back).limit := by
    rw [hd.clauses.limit, Phases.ofStages_aggregate hearly]
  -- conditions before the aggregation read nothing that comes behind it
  have hpre : (Phases.ofStages front).conditions.filter
      (fun c => !readsLater as (Phases.ofStages back).calcs c) =
        (Phases.ofStages front).conditions := by
    refine List.filter_eq_self.mpr fun c hc => ?_
    rw [h.readsLater_front hc]
    rfl
  have hpost : (Phases.ofStages front).conditions.filter
      (readsLater as (Phases.ofStages back).calcs) = [] := by
    refine List.filter_eq_nil_iff.mpr fun c hc => ?_
    rw [h.readsLater_front hc]
    exact Bool.false_ne_true
  rw [ofStatement_of_aggregate hd h.ne_nil hearly (fun w hw => (hback w hw).1)
    (h.not_mem_namesNeeded hd), filterParts_eq h hd, List.filter_append, List.filter_append, hpre,
    hpost, List.nil_append, planWith, Plan.start, hkeys, horder, hlimit]

end Plan

omit [DecidableEq V] in
theorem filtersConstantly_of_mem (hf : ∀ w ∈ front, w.isAggregate = false)
    (hg : front.any RowStage.isGroup = false) {w : RowStage} (hw : w ∈ back)
    (hc : w.hasConstantPart = true) (as : List Aggregate) :
    filtersConstantly (front ++ .aggregate as :: back) = true := by
  have hdrop : ∀ w ∈ front, (!(w.isAggregate || w.isGroup)) = true := by
    intro w hm
    rw [hf w hm, Bool.eq_false_iff.mpr (List.any_eq_false.mp hg w hm)]
    rfl
  rw [filtersConstantly, List.dropWhile_append_of_pos hdrop]
  exact List.any_eq_true.mpr ⟨w, hw, hc⟩

/-- Without group keys, every condition behind the aggregation reads an alias that exists only
there. -/
theorem readsLater_of_keys_eq_nil (h : Sound (front ++ .aggregate as :: back))
    (hconst : filtersConstantly (front ++ .aggregate as :: back) = false)
    (hk : front.foldl RowStage.keysAfter [] = []) : ∀ c ∈ (Phases.ofStages back).conditions,
      readsLater as (Phases.ofStages back).calcs c = true := by
  intro c hc
  by_contra hn
  have hn := Bool.eq_false_iff.mpr hn
  have hempty : c.fieldNames = [] := by
    rw [List.eq_nil_iff_forall_not_mem]
    intro n hnc
    have := (h.mem_keys_of_readsLater hc hn n hnc).1
    rw [hk] at this
    cases this
  -- a condition without fields is a constant part, which the stages do not have
  obtain ⟨d, hdb, hcd⟩ := (Phases.from_ofStages back).conditions c hc
  have hpart : (RowStage.filter d).hasConstantPart = true :=
    List.any_eq_true.mpr ⟨c, hcd, by rw [hempty]; rfl⟩
  have hgroup : front.any RowStage.isGroup = false := by
    rw [Bool.eq_false_iff]
    intro hg
    exact keys_ne_nil (fun w hw => h.written w (List.mem_append_left _ hw)) hg hk
  have hfront : ∀ w ∈ front, w.isAggregate = false :=
    fun w hw => RowStage.isAggregate_of_isEarly (h.isEarly_of_mem_front w hw)
  have := filtersConstantly_of_mem hfront hgroup hdb hpart as
  rw [hconst] at this
  cases this

/-- **Stages with an aggregation give the rows of their plan.** -/
theorem run_eq_evaluate_of_aggregate (h : Sound (front ++ .aggregate as :: back))
    (hd : Describes s (front ++ .aggregate as :: back))
    (hconst : filtersConstantly (front ++ .aggregate as :: back) = false) (table : List (Row V)) :
    A.run (front ++ .aggregate as :: back) table = A.evaluate (Plan.ofStatement s) table := by
  have hearly := h.isEarly_of_mem_front
  have hback := h.of_mem_back
  have hagg : (Plan.ofStatement s).isAggregated = true := by
    rw [plan_eq h hd, Plan.isAggregated, Bool.or_eq_true]
    exact Or.inl (by simpa using h.ne_nil)
  have hnotf : ∀ w ∈ front, w.isAggregate = false :=
    fun w hw => RowStage.isAggregate_of_isEarly (hearly w hw)
  rw [A.run_eq_reduce (fun w hw => h.written w (List.mem_append_left _ hw)) hnotf
      (List.pairwise_append.mp h.before).1
      (fun w hw => h.written w (List.mem_append_right _ (List.mem_cons_of_mem _ hw)))
      (fun w hw => (hback w hw).1)
      (List.pairwise_cons.mp (List.pairwise_append.mp h.before).2.1).2,
    phased_of_isEarly A hearly, evaluate_of_isAggregated A hagg, plan_eq h hd]
  have hkeep : A.keepsAll ((Phases.ofStages front).conditions ++
      (Phases.ofStages back).conditions.filter
        fun c => !readsLater as (Phases.ofStages back).calcs c) = fun r =>
      A.keepsAll ((Phases.ofStages back).conditions.filter
        fun c => !readsLater as (Phases.ofStages back).calcs c) r &&
      A.keepsAll (Phases.ofStages front).conditions r := by
    funext r
    rw [A.keepsAll_append, Bool.and_comm]
  rw [hkeep, ← List.filter_filter]
  by_cases hk : front.foldl RowStage.keysAfter [] = []
  · have hlater := h.readsLater_of_keys_eq_nil hconst hk
    have hnone : (Phases.ofStages back).conditions.filter
        (fun c => !readsLater as (Phases.ofStages back).calcs c) = [] := by
      refine List.filter_eq_nil_iff.mpr fun c hc => ?_
      rw [hlater c hc]
      exact Bool.false_ne_true
    have hall : (Phases.ofStages back).conditions.filter
        (readsLater as (Phases.ofStages back).calcs) = (Phases.ofStages back).conditions :=
      List.filter_eq_self.mpr hlater
    have hid : ∀ rows : List (Row V), rows.filter (A.keepsAll []) = rows :=
      fun rows => List.filter_eq_self.mpr fun _ _ => rfl
    rw [hnone, hall, hid]
  · exact A.phased_reduce hk (fun c hc hl => h.mem_keys_of_readsLater hc hl) as _

section WithoutAggregate

variable {ws : List RowStage} (h : Sound ws) (hd : Describes s ws)
  (hw : ∀ w ∈ ws, w.isAggregate = false)

include h hd hw

/-- Stages without grouping and aggregation give the rows of their plan. -/
theorem run_eq_evaluate_of_plain (hg : ∀ w ∈ ws, w.isGroup = false) (table : List (Row V)) :
    A.run ws table = A.evaluate (Plan.ofStatement s) table := by
  have hkeys : s.group.getD [] = [] := by
    rw [hd.keys, foldl_keysAfter_of_not_isGroup hg]
  have hplan := ofStatement_of_front hd hw
  have hagg : (Plan.ofStatement s).isAggregated = false := by
    rw [hplan, Plan.isAggregated, planWith, Plan.start, hkeys]
    rfl
  rw [A.run_eq_phased h.written hw h.before,
    evaluate_of_not_isAggregated A hagg (by rw [hplan]; rfl) (by rw [hplan]; rfl), hplan, planWith,
    Plan.start, hd.clauses.order, hd.clauses.limit]

/-- Stages that group and never aggregate are settled to give the rows of their plan. -/
theorem run_eq_evaluate_of_group (hg : ws.any RowStage.isGroup = true) (table : List (Row V)) :
    A.run (ws.filter RowStage.isEarly ++ .aggregate [] :: ws.filter fun w => !w.isEarly) table =
      A.evaluate (Plan.ofStatement s) table := by
  have hearly : ∀ w ∈ ws.filter RowStage.isEarly, w.isEarly = true :=
    fun w hm => (List.mem_filter.mp hm).2
  obtain ⟨hcalcs, hconditions, hlate⟩ := Phases.ofStages_filter_isEarly ws
  have hplan := ofStatement_of_front hd hw
  have hagg : (Plan.ofStatement s).isAggregated = true := by
    rw [hplan, Plan.isAggregated, Bool.or_eq_true, planWith, Plan.start, hd.keys]
    exact Or.inr (by simpa using keys_ne_nil h.written hg)
  rw [A.run_eq_reduce (fun w hm => h.written w (List.mem_filter.mp hm).1)
      (fun w hm => hw w (List.mem_filter.mp hm).1) (h.before.filter _)
      (fun w hm => h.written w (List.mem_filter.mp hm).1)
      (fun w hm => hw w (List.mem_filter.mp hm).1) (h.before.filter _),
    phased_of_isEarly A hearly, evaluate_of_isAggregated A hagg, hplan, planWith, Plan.start,
    hd.clauses.order, hd.clauses.limit, hd.keys, keys_filter_isEarly, ← hcalcs, ← hconditions,
    hlate]

end WithoutAggregate

/-- **Sound stages, settled, give the rows of their plan.** -/
theorem run_settled {ws : List RowStage} (h : Sound ws) (hd : Describes s ws)
    (hconst : filtersConstantly ws = false) (table : List (Row V)) :
    A.run (settled ws) table = A.evaluate (Plan.ofStatement s) table := by
  unfold settled
  cases ha : ws.any RowStage.isAggregate with
  | true =>
    rw [Bool.not_true, Bool.and_false, if_neg Bool.false_ne_true]
    obtain ⟨w, hw, hagg⟩ := List.any_eq_true.mp ha
    obtain ⟨front, back, rfl⟩ := List.append_of_mem hw
    cases w with
    | aggregate as => exact run_eq_evaluate_of_aggregate A h hd hconst table
    | _ => cases hagg
  | false =>
    rw [Bool.not_false, Bool.and_true]
    have hw : ∀ w ∈ ws, w.isAggregate = false := by
      intro w hm
      exact Bool.eq_false_iff.mpr (List.any_eq_false.mp ha w hm)
    cases hg : ws.any RowStage.isGroup with
    | true => exact run_eq_evaluate_of_group A h hd hw hg table
    | false =>
      refine run_eq_evaluate_of_plain A h hd hw (fun w hm => ?_) table
      exact Bool.eq_false_iff.mpr (List.any_eq_false.mp hg w hm)

end Sound

/-! ## Natural numbers -/

/-- Rows of natural numbers. There is no null, and differences below zero are zero. -/
def natural : Algebra Nat where
  missing := 0
  literal
    | .number x => x.toNat?.getD 0
    | _ => 0
  metric _ _ := 0
  star := 1
  call _ xs := xs.sum
  binary
    | .add, x, y => x + y
    | .subtract, x, y => x - y
    | .multiply, x, y => x * y
    | .divide, x, y => x / y
    | .modulo, x, y => x % y
  negate _ := 0
  isNull _ := false
  compare
    | .eq, x, y => some (x == y)
    | .ne, x, y => some (x != y)
    | .lt, x, y => some (decide (x < y))
    | .le, x, y => some (decide (x ≤ y))
    | .gt, x, y => some (decide (y < x))
    | .ge, x, y => some (decide (y ≤ x))
  holds x := some (x != 0)
  aggregate
    | .sum, xs => xs.sum
    | .avg, xs => xs.sum / xs.length
    | .count, xs => xs.length
    | .countDistinct, xs => xs.eraseDups.length
    | .min, xs => xs.min?.getD 0
    | .max, xs => xs.max?.getD 0
    | .median, xs | .percentile _, xs => (xs.mergeSort)[xs.length / 2]?.getD 0
  le x y := decide (x ≤ y)
  le_total x y := by simpa using Nat.le_total x y
  le_trans x y z h h' := by simpa using Nat.le_trans (by simpa using h) (by simpa using h')

/-! ## Pipelines that pass the checks -/

/-- The stages of a pipeline that passes the checks are sound and say what its statement says. -/
theorem sound_of_valid {text : List Char} {s : Statement} {ws : List RowStage} {dict : Snapshot}
    {rules : Rules} (hparse : Statement.parse text = .ok s) (hpattern : s.pattern = .arrowPipeline)
    (hws : rowStages? text = some ws) (hvalid : (s.check dict rules).valid = true) :
    Sound ws ∧ Describes s ws := by
  obtain ⟨p, tokens, -, hg⟩ := parse_eq_ok.mp hparse
  obtain rfl : p = .arrowPipeline := (pattern_of_grammar hg).symm.trans hpattern
  obtain ⟨source, written, hstages, hadmits, rfl⟩ := Pipeline.exists_stagesOf? hg
  rw [rowStages?, hstages] at hws
  obtain ⟨xs, rfl, rfl⟩ := exists_named hws
  have hbody := Pipeline.isWritten_of_stagesOf? hstages
  have hw : ∀ x ∈ xs, x.stage.IsWritten :=
    fun x hx => hbody x.written (List.mem_map_of_mem hx)
  exact ⟨sound_of_passes hw hadmits (Check.valid_iff.mp hvalid), describes_draft source hw⟩

/-- **A valid pipeline means what its stages say, one after another.** Where it groups but never
aggregates, its filters, calculations and groups come first and then leave one row for each tuple
of keys. -/
theorem run_settled_eq_evaluate {V : Type} [DecidableEq V] (A : Algebra V) {text : List Char}
    {s : Statement} {ws : List RowStage} {dict : Snapshot} {rules : Rules}
    (hparse : Statement.parse text = .ok s) (hpattern : s.pattern = .arrowPipeline)
    (hws : rowStages? text = some ws) (hvalid : (s.check dict rules).valid = true)
    (hconst : filtersConstantly ws = false) (table : List (Row V)) :
    A.run (settled ws) table = A.evaluate (Plan.ofStatement s) table := by
  obtain ⟨hsound, hdescribes⟩ := sound_of_valid hparse hpattern hws hvalid
  exact hsound.run_settled A hdescribes hconst table

theorem run_settled_eq_evaluate_natural : ∃ s ws,
    Statement.parse "S -> filter(x > 1) -> group(k) -> aggregate(sum(x) as t) -> sort(t)".toList =
      .ok s ∧ s.pattern = .arrowPipeline ∧
    rowStages? "S -> filter(x > 1) -> group(k) -> aggregate(sum(x) as t) -> sort(t)".toList =
      some ws ∧ (s.check .empty {}).valid = true ∧ filtersConstantly ws = false ∧
    natural.run (settled ws) [[("x", 3), ("k", 1)], [("x", 2), ("k", 2)], [("x", 5), ("k", 1)]] =
      natural.evaluate (Plan.ofStatement s)
        [[("x", 3), ("k", 1)], [("x", 2), ("k", 2)], [("x", 5), ("k", 1)]] := by
  obtain ⟨s, hparse, hs⟩ := exists_parse
    "S -> filter(x > 1) -> group(k) -> aggregate(sum(x) as t) -> sort(t)".toList rfl
    (fun _ s => s.pattern == .arrowPipeline && (s.check .empty {}).valid) (by decide +kernel)
  rw [Bool.and_eq_true, beq_iff_eq] at hs
  obtain ⟨hpattern, hvalid⟩ := hs
  have hany : (rowStages?
      "S -> filter(x > 1) -> group(k) -> aggregate(sum(x) as t) -> sort(t)".toList).any
        (fun ws => !filtersConstantly ws) = true := by decide +kernel
  obtain ⟨ws, hws, hconst⟩ := (Option.any_eq_true _ _).mp hany
  rw [Bool.not_eq_true'] at hconst
  exact ⟨s, ws, hparse, hpattern, hws, hvalid, hconst,
    run_settled_eq_evaluate natural hparse hpattern hws hvalid hconst _⟩

/-- A grouping alone keeps every row as a stage, but leaves one row for each tuple of keys in the
plan. -/
theorem run_ne_evaluate_of_group : ∃ s ws,
    Statement.parse "S -> group(k)".toList = .ok s ∧ s.pattern = .arrowPipeline ∧
    rowStages? "S -> group(k)".toList = some ws ∧ (s.check .empty {}).valid = true ∧
    natural.run ws [[("k", 1)], [("k", 1)]] ≠
      natural.evaluate (Plan.ofStatement s) [[("k", 1)], [("k", 1)]] := by
  obtain ⟨s, hparse, hs⟩ := exists_parse "S -> group(k)".toList rfl
    (fun _ s => s.pattern == .arrowPipeline && (s.check .empty {}).valid &&
      natural.evaluate (Plan.ofStatement s) [[("k", 1)], [("k", 1)]] == [[("k", 1)]])
    (by decide +kernel)
  rw [Bool.and_eq_true, Bool.and_eq_true, beq_iff_eq, beq_iff_eq] at hs
  obtain ⟨⟨hpattern, hvalid⟩, heval⟩ := hs
  have hany : (rowStages? "S -> group(k)".toList).any (fun ws =>
    natural.run ws [[("k", 1)], [("k", 1)]] == [[("k", 1)], [("k", 1)]]) = true := by decide +kernel
  obtain ⟨ws, hws, hrun⟩ := (Option.any_eq_true _ _).mp hany
  refine ⟨s, ws, hparse, hpattern, hws, hvalid, ?_⟩
  rw [beq_iff_eq.mp hrun, heval]
  decide

end DataPhrase.Rows
