/-
# Where a plan puts operations

A plan takes in the operations of a statement one after another. `Placing` follows it: each
operation gets the phase that it goes to, which for a calculation depends on the names that exist
only after aggregation, and these grow on the way. The phases of the plan hold the operations with
that phase, so that none is lost, repeated or moved before another (`holds_ofStatement`).
-/
import DataPhrase.Proofs.Plan.Filters

namespace DataPhrase.Plan

variable {s : Statement} {p : Plan} {needed : List String} {ops : List Operation}
  {op : Operation} {n : String}

/-! ## Phases -/

/-- A part of a plan that takes in operations. -/
inductive Phase where
  | join
  | before
  | aggregate
  | after
  | window
  | select
  deriving DecidableEq

namespace Phase

/-- The aliases of the phase exist only after aggregation. -/
def isLate : Phase → Bool
  | .aggregate | .after => true
  | _ => false

/-- The operation is of the kind that the phase takes in. -/
def Takes : Phase → Operation → Prop
  | .join, .join _ _ | .before, .calculate _ _ | .aggregate, .aggregate _ _ _
  | .after, .calculate _ _ | .window, .window _ _ _ _ _ | .select, .select _ => True
  | _, _ => False

end Phase

/-- The phase that an operation goes to, if `after` tells which calculations move behind the
aggregates. -/
def phaseOf (after : Calc → Bool) : Operation → Phase
  | .join _ _ => .join
  | .aggregate _ _ _ => .aggregate
  | .calculate e a => if after ⟨a, e⟩ then .after else .before
  | .window _ _ _ _ _ => .window
  | .select _ => .select

theorem takes_phaseOf (after : Calc → Bool) (op : Operation) : (phaseOf after op).Takes op := by
  cases op with
  | calculate e a =>
    rw [phaseOf]
    split <;> exact trivial
  | _ => exact trivial

/-- The operations of a plan in a phase. Of its selections a plan has the last one only. -/
def inPhase (p : Plan) : Phase → List Operation
  | .join => p.joins.map Join.operation
  | .before => p.preCalcs.map Calc.operation
  | .aggregate => p.aggregates.map Aggregate.operation
  | .after => p.postCalcs.map Calc.operation
  | .window => p.windows.map Window.operation
  | .select => p.select.toList.map Operation.select

/-- One more operation goes to the end of its phase. -/
theorem inPhase_add {f : Phase} (hf : f ≠ .select) (op : Operation) :
    (add needed p op).inPhase f =
      p.inPhase f ++ if phaseOf (p.runsAfter needed) op = f then [op] else [] := by
  cases op with
  | calculate e a =>
    rw [add, phaseOf]
    split <;> cases f <;> simp [inPhase, Calc.operation] at hf ⊢
  | join => cases f <;> simp [inPhase, add, phaseOf, Join.operation] at hf ⊢
  | aggregate => cases f <;> simp [inPhase, add, phaseOf, Aggregate.operation] at hf ⊢
  | window => cases f <;> simp [inPhase, add, phaseOf, Window.operation] at hf ⊢
  | select => cases f <;> simp [inPhase, add, phaseOf] at hf ⊢

theorem postAliases_eq (p : Plan) :
    p.postAliases = (p.inPhase .aggregate ++ p.inPhase .after).filterMap Operation.alias? := by
  have ha : (p.inPhase .aggregate).filterMap Operation.alias? =
      p.aggregates.map Aggregate.aliasName := by
    rw [inPhase, List.filterMap_map]
    exact congrFun List.filterMap_eq_map p.aggregates
  have hc : (p.inPhase .after).filterMap Operation.alias? = p.postCalcs.map Calc.aliasName := by
    rw [inPhase, List.filterMap_map]
    exact congrFun List.filterMap_eq_map p.postCalcs
  rw [List.filterMap_append, ha, hc, postAliases]

/-! ## Placing operations -/

/-- Operations with the phases that they go to, and the names that exist only after aggregation. -/
structure Placing where
  late : List String := []
  placed : List (Phase × Operation) := []

namespace Placing

/-- The calculation reads a name that exists only after aggregation, or stands behind an aggregate
and is not needed for aggregation. -/
def runsAfter (needed : List String) (x : Placing) (c : Calc) : Bool :=
  c.expression.fieldNames.any x.late.contains ||
    ((x.placed.any fun y => y.1 == .aggregate) && !needed.contains c.aliasName)

/-- One more operation is placed. -/
def place (needed : List String) (x : Placing) (op : Operation) : Placing :=
  let f := phaseOf (x.runsAfter needed) op
  { late := if f.isLate then x.late ++ op.alias?.toList else x.late
    placed := x.placed ++ [(f, op)] }

/-- The operations with a phase, in the order in which they were placed. -/
def inPhase (x : Placing) (f : Phase) : List Operation :=
  (x.placed.filter fun y => y.1 = f).map Prod.snd

/-- The condition holds or fails only once the rows of the plan are aggregated. -/
def filtersAfter (x : Placing) (p : Plan) (c : Condition) : Bool :=
  c.fieldNames.any x.late.contains && p.isAggregated

theorem inPhase_place (x : Placing) (f : Phase) : (x.place needed op).inPhase f =
    x.inPhase f ++ if phaseOf (x.runsAfter needed) op = f then [op] else [] := by
  rw [inPhase, inPhase, place, List.filter_append, List.map_append, List.filter_singleton]
  split <;> simp_all

end Placing

/-- The operations of a statement, each placed behind those before it. -/
def placing (s : Statement) (ops : List Operation) : Placing :=
  ops.foldl (Placing.place (namesNeeded s)) {}

theorem placing_append (op : Operation) :
    placing s (ops ++ [op]) = (placing s ops).place (namesNeeded s) op :=
  List.foldl_concat ..

/-- Every operation is placed once, in order. -/
theorem map_snd_placing (s : Statement) (ops : List Operation) :
    (placing s ops).placed.map Prod.snd = ops := by
  induction ops using List.reverseRecOn with
  | nil => rfl
  | append_singleton ops op ih =>
    rw [placing_append, Placing.place, List.map_append, ih, List.map_singleton]

theorem takes_placing {y : Phase × Operation} (h : y ∈ (placing s ops).placed) :
    y.1.Takes y.2 := by
  induction ops using List.reverseRecOn with
  | nil => cases h
  | append_singleton ops op ih =>
    rw [placing_append] at h
    rcases List.mem_append.mp h with h | h
    · exact ih h
    · rw [List.mem_singleton.mp h]
      exact takes_phaseOf _ op

/-- The late names are the aliases of what is placed late. -/
theorem mem_late_placing : n ∈ (placing s ops).late ↔
    ∃ y ∈ (placing s ops).placed, y.1.isLate = true ∧ y.2.alias? = some n := by
  induction ops using List.reverseRecOn with
  | nil => exact iff_of_false List.not_mem_nil (by rintro ⟨y, hy, -⟩; cases hy)
  | append_singleton ops op ih =>
    rw [placing_append, Placing.place]
    simp only [List.mem_append, List.mem_singleton, or_and_right, exists_or, exists_eq_left, ← ih]
    split
    · next h => simp [h]
    · next h => simp [h]

/-- Nothing is placed late without an aggregate. -/
theorem exists_aggregate_of_late {y : Phase × Operation} (h : y ∈ (placing s ops).placed)
    (hlate : y.1.isLate = true) : ∃ z ∈ (placing s ops).placed, z.1 = .aggregate := by
  induction ops using List.reverseRecOn generalizing y with
  | nil => cases h
  | append_singleton ops op ih =>
    rw [placing_append] at h ⊢
    have hkeep : (∃ z ∈ (placing s ops).placed, z.1 = .aggregate) →
        ∃ z ∈ ((placing s ops).place (namesNeeded s) op).placed, z.1 = .aggregate := by
      rintro ⟨z, hz, hagg⟩
      exact ⟨z, List.mem_append_left _ hz, hagg⟩
    rcases List.mem_append.mp h with h | h
    · exact hkeep (ih h hlate)
    · rw [List.mem_singleton.mp h] at hlate
      cases op with
      | aggregate f e a => exact ⟨_, List.mem_append_right _ (List.mem_singleton_self _), rfl⟩
      | calculate e a =>
        -- What moves a calculation is a late name, which an aggregate is behind, or an aggregate.
        rw [phaseOf] at hlate
        split at hlate
        · next hafter =>
          rw [Placing.runsAfter, Bool.or_eq_true, Bool.and_eq_true] at hafter
          rcases hafter with hreads | ⟨hagg, -⟩
          · obtain ⟨n, -, hn⟩ := List.any_eq_true.mp hreads
            obtain ⟨y, hy, hlate, -⟩ := mem_late_placing.mp (List.contains_iff_mem.mp hn)
            exact hkeep (ih hy hlate)
          · obtain ⟨z, hz, hagg⟩ := List.any_eq_true.mp hagg
            exact hkeep ⟨z, hz, beq_iff_eq.mp hagg⟩
        · cases hlate
      | _ => cases hlate

/-- A calculation that stays before aggregation reads no alias of what was placed late. -/
theorem pairwise_placing (s : Statement) (ops : List Operation) :
    (placing s ops).placed.Pairwise fun y z => y.1.isLate = true →
      ∀ c : Calc, z = (.before, c.operation) → ∀ n ∈ y.2.alias?, n ∉ c.expression.fieldNames := by
  induction ops using List.reverseRecOn with
  | nil => exact List.Pairwise.nil
  | append_singleton ops op ih =>
    rw [placing_append, Placing.place, List.pairwise_append]
    refine ⟨ih, List.pairwise_singleton _ _, ?_⟩
    intro y hy z hz hlate c hc n hn hreads
    rw [List.mem_singleton.mp hz, Prod.mk.injEq] at hc
    obtain ⟨hphase, rfl⟩ := hc
    have hmem : n ∈ (placing s ops).late := mem_late_placing.mpr ⟨y, hy, hlate, hn⟩
    have hafter : (placing s ops).runsAfter (namesNeeded s) c = true := by
      rw [Placing.runsAfter, Bool.or_eq_true]
      exact Or.inl (List.any_eq_true.mpr ⟨n, hreads, List.contains_iff_mem.mpr hmem⟩)
    rw [Calc.operation, phaseOf, if_pos hafter] at hphase
    cases hphase

/-! ## The plan of a statement -/

theorem Placing.mem_inPhase {x : Placing} {f : Phase} : op ∈ x.inPhase f ↔ (f, op) ∈ x.placed := by
  rw [inPhase, List.mem_map]
  constructor
  · rintro ⟨⟨g, o⟩, hy, rfl⟩
    obtain ⟨hmem, hg⟩ := List.mem_filter.mp hy
    rw [← of_decide_eq_true hg]
    exact hmem
  · intro h
    exact ⟨(f, op), List.mem_filter.mpr ⟨h, decide_eq_true rfl⟩, rfl⟩

/-- The plan holds the operations as they are placed. -/
def Follows (p : Plan) (x : Placing) : Prop :=
  ∀ f ≠ .select, p.inPhase f = x.inPhase f

section Follows

variable (h : (upTo s ops).Follows (placing s ops))

include h

/-- The aliases that exist only after aggregation are the late names. -/
theorem Follows.mem_postAliases :
    n ∈ (upTo s ops).postAliases ↔ n ∈ (placing s ops).late := by
  rw [postAliases_eq, h .aggregate nofun, h .after nofun, List.mem_filterMap, mem_late_placing]
  constructor
  · rintro ⟨op, hop, hn⟩
    rcases List.mem_append.mp hop with hop | hop
    · exact ⟨_, Placing.mem_inPhase.mp hop, rfl, hn⟩
    · exact ⟨_, Placing.mem_inPhase.mp hop, rfl, hn⟩
  · rintro ⟨⟨f, op⟩, hy, hlate, hn⟩
    refine ⟨op, List.mem_append.mpr ?_, hn⟩
    cases f with
    | aggregate => exact Or.inl (Placing.mem_inPhase.mpr hy)
    | after => exact Or.inr (Placing.mem_inPhase.mpr hy)
    | _ => cases hlate

theorem Follows.any_late (names : List String) :
    names.any (placing s ops).late.contains = (upTo s ops).readsPost names := by
  rw [Bool.eq_iff_iff, readsPost_iff, List.any_eq_true]
  exact exists_congr fun n => and_congr_right fun _ =>
    List.contains_iff_mem.trans h.mem_postAliases.symm

theorem Follows.aggregates_eq_nil_iff : (upTo s ops).aggregates = [] ↔
    ∀ y ∈ (placing s ops).placed, y.1 ≠ .aggregate := by
  have hagg : (upTo s ops).aggregates = [] ↔ (placing s ops).inPhase .aggregate = [] := by
    rw [← h .aggregate nofun, inPhase, List.map_eq_nil_iff]
  rw [hagg, Placing.inPhase, List.map_eq_nil_iff, List.filter_eq_nil_iff]
  simp only [decide_eq_true_eq]

/-- The plan moves the calculations that are placed late. -/
theorem Follows.runsAfter :
    (placing s ops).runsAfter needed = (upTo s ops).runsAfter needed := by
  funext c
  have hagg : ((placing s ops).placed.any fun y => y.1 == .aggregate) =
      !(upTo s ops).aggregates.isEmpty := by
    rw [Bool.eq_iff_iff, List.any_eq_true, Bool.not_eq_true', ← Bool.not_eq_true,
      List.isEmpty_iff, h.aggregates_eq_nil_iff]
    simp
  rw [Placing.runsAfter, Plan.runsAfter, h.any_late, hagg]

end Follows

theorem upTo_append (s : Statement) (ops : List Operation) (op : Operation) :
    upTo s (ops ++ [op]) = add (namesNeeded s) (upTo s ops) op :=
  List.foldl_concat ..

/-- **A plan takes in each operation where it is placed.** -/
theorem follows_upTo (s : Statement) (ops : List Operation) :
    (upTo s ops).Follows (placing s ops) := by
  induction ops using List.reverseRecOn with
  | nil =>
    intro f _
    cases f <;> rfl
  | append_singleton ops op ih =>
    intro f hf
    rw [upTo_append, placing_append, inPhase_add hf, Placing.inPhase_place, ih f hf, ih.runsAfter]

/-- Without aggregates no calculation moves, and no name is late. -/
theorem not_late_of_aggregates (h : (upTo s ops).aggregates = []) :
    (upTo s ops).postCalcs = [] ∧ (placing s ops).late = [] := by
  have hfollows := follows_upTo s ops
  have hlate : ∀ y ∈ (placing s ops).placed, y.1.isLate ≠ true := by
    intro y hy hl
    obtain ⟨z, hz, hagg⟩ := exists_aggregate_of_late hy hl
    exact hfollows.aggregates_eq_nil_iff.mp h z hz hagg
  constructor
  · have hafter : (upTo s ops).inPhase .after = [] := by
      rw [hfollows .after nofun, List.eq_nil_iff_forall_not_mem]
      intro op hop
      exact hlate _ (Placing.mem_inPhase.mp hop) rfl
    exact List.map_eq_nil_iff.mp hafter
  · rw [List.eq_nil_iff_forall_not_mem]
    intro n hn
    obtain ⟨y, hy, hl, -⟩ := mem_late_placing.mp hn
    exact hlate y hy hl

/-- What an operation selects. -/
def selected? : Operation → Option (List String)
  | .select fields => some fields
  | _ => none

/-- Of several selections the last one counts. -/
theorem select_upTo (s : Statement) (ops : List Operation) :
    (upTo s ops).select = (ops.filterMap selected?).getLast? := by
  induction ops using List.reverseRecOn with
  | nil => rfl
  | append_singleton ops op ih =>
    rw [upTo_append, List.filterMap_append]
    cases op with
    | select fields => exact (List.getLast?_concat ..).symm
    | calculate e a =>
      rw [add]
      split
      · exact ih.trans (congrArg List.getLast? (List.append_nil _).symm)
      · exact ih.trans (congrArg List.getLast? (List.append_nil _).symm)
    | _ => exact ih.trans (congrArg List.getLast? (List.append_nil _).symm)

/-- A plan holds a statement as it is placed: each operation in one phase, in order, the last
selection, and each part of the filter on one side, in order. What stays before aggregation reads
nothing that was placed late, and without aggregates nothing is late. -/
structure Holds (p : Plan) (s : Statement) (x : Placing) : Prop where
  operations : x.placed.map Prod.snd = s.operations
  takes : ∀ y ∈ x.placed, y.1.Takes y.2
  phases : p.Follows x
  select : p.select = (s.operations.filterMap selected?).getLast?
  preFilter : p.preFilter = s.filterParts.filter fun c => !x.filtersAfter p c
  postFilter : p.postFilter = s.filterParts.filter fun c => x.filtersAfter p c
  filters : p.preFilter.Sublist s.filterParts ∧ p.postFilter.Sublist s.filterParts ∧
    (p.preFilter ++ p.postFilter).Perm s.filterParts
  preCalcs : x.placed.Pairwise fun y z => y.1.isLate = true →
    ∀ c : Calc, z = (.before, c.operation) → ∀ n ∈ y.2.alias?, n ∉ c.expression.fieldNames
  late : ∀ n, n ∈ p.postAliases ↔ n ∈ x.late
  unaggregated : p.aggregates = [] → p.postCalcs = [] ∧ p.postFilter = []

/-- **A plan holds its statement**, and nothing of it is lost or repeated. -/
theorem holds_ofStatement (s : Statement) :
    (ofStatement s).Holds s (placing s s.operations) := by
  have hfollows := follows_upTo s s.operations
  have hmoved : (folded s).filtersAfter =
      (placing s s.operations).filtersAfter (ofStatement s) := by
    funext c
    rw [Placing.filtersAfter, hfollows.any_late]
    rfl
  have hpre : (ofStatement s).preFilter = s.filterParts.filter
      fun c => !(placing s s.operations).filtersAfter (ofStatement s) c := by
    rw [← hmoved]
    rfl
  have hpost : (ofStatement s).postFilter = s.filterParts.filter
      fun c => (placing s s.operations).filtersAfter (ofStatement s) c := by
    rw [← hmoved]
    rfl
  exact {
    operations := map_snd_placing s s.operations
    takes := fun y hy => takes_placing hy
    phases := fun f hf => by
      rw [← hfollows f hf]
      cases f <;> rfl
    select := select_upTo s s.operations
    preFilter := hpre
    postFilter := hpost
    filters := ⟨hpre ▸ List.filter_sublist, hpost ▸ List.filter_sublist, filters_perm s⟩
    preCalcs := pairwise_placing s s.operations
    late := fun n => hfollows.mem_postAliases
    unaggregated := fun hnone => by
      obtain ⟨hcalcs, hlate⟩ := not_late_of_aggregates hnone
      refine ⟨hcalcs, ?_⟩
      rw [hpost, List.filter_eq_nil_iff]
      intro c _ hc
      rw [Placing.filtersAfter, hlate, Bool.and_eq_true, List.any_eq_true] at hc
      obtain ⟨⟨n, -, hn⟩, -⟩ := hc
      cases hn }

end DataPhrase.Plan
