/-
# Filters before and behind aggregation

A plan takes each part of the filter before or behind the aggregates. A part goes behind them if one
of the names in it, with or without a source, is known only there (`filtersAfter_ofStatement`).
Where a source is written, the name is a column of that source and no such name; the parts go where
they belong exactly if none of them is moved for such a column alone (`filters_split_iff`).

Without groups nothing may be filtered behind the aggregates. A valid statement then filters by no
alias of an aggregate, and nothing of its filter comes behind the aggregates exactly if it does not
filter by a calculation that does either (`postFilter_of_valid`).
-/
import DataPhrase.Proofs.Grammar.Names
import DataPhrase.Proofs.Plan.Dependence
import DataPhrase.Proofs.Statement.Parse

namespace DataPhrase

variable {s : Statement} {d : Snapshot} {rules : Rules} {n : String} {c : Condition}

theorem Condition.mem_fieldNames_of_bareNames (h : n ∈ c.bareNames) : n ∈ c.fieldNames :=
  List.mem_map_of_mem (f := Prod.snd) (mem_bareNames.mp h)

namespace Plan

/-! ## Where parts of the filter go -/

/-- The condition reads, without a source, an alias that exists only after aggregation. -/
def namesLate (p : Plan) (c : Condition) : Bool :=
  p.readsPost c.bareNames

theorem readsPost_iff {p : Plan} {names : List String} :
    p.readsPost names = true ↔ ∃ n ∈ names, n ∈ p.postAliases := by
  rw [readsPost, List.any_eq_true]
  exact exists_congr fun n => and_congr_right fun _ => List.contains_iff_mem

/-- **A part of the filter goes behind the aggregates if a name in it exists only there.** Without
aggregates there is no such name. -/
theorem filtersAfter_ofStatement (s : Statement) (c : Condition) :
    (ofStatement s).filtersAfter c = (ofStatement s).readsPost c.fieldNames := by
  rw [filtersAfter]
  cases ha : (ofStatement s).isAggregated with
  | true => exact Bool.and_true _
  | false =>
    rw [Bool.and_false, eq_comm, ← Bool.not_eq_true, readsPost_iff,
      postAliases_of_not_isAggregated ha]
    rintro ⟨n, -, hn⟩
    exact List.not_mem_nil hn

theorem filtersAfter_folded (s : Statement) (c : Condition) :
    (folded s).filtersAfter c = (ofStatement s).readsPost c.fieldNames :=
  filtersAfter_ofStatement s c

/-- Only a column with a source can move a part that names nothing late. -/
theorem readsPost_eq_namesLate_iff {p : Plan} :
    p.readsPost c.fieldNames = p.namesLate c ↔
      ∀ q n, (some q, n) ∈ c.fields → n ∈ p.postAliases → p.namesLate c = true := by
  constructor
  · intro h q n hr hn
    rw [← h]
    exact readsPost_iff.mpr ⟨n, List.mem_map_of_mem (f := Prod.snd) hr, hn⟩
  · intro h
    rw [Bool.eq_iff_iff]
    constructor
    · intro hreads
      obtain ⟨n, hn, hp⟩ := readsPost_iff.mp hreads
      obtain ⟨⟨q, m⟩, hr, rfl⟩ := List.mem_map.mp hn
      cases q with
      | none => exact readsPost_iff.mpr ⟨m, mem_bareNames.mpr hr, hp⟩
      | some q => exact h q m hr hp
    · intro hlate
      obtain ⟨n, hn, hp⟩ := readsPost_iff.mp hlate
      exact readsPost_iff.mpr ⟨n, Condition.mem_fieldNames_of_bareNames hn, hp⟩

/-- **The parts of the filter that name something late, and no others, come behind the aggregates
exactly if no part is moved there for a column with a source.** -/
theorem filters_split_iff (s : Statement) :
    ((ofStatement s).postFilter = s.filterParts.filter (ofStatement s).namesLate ∧
      (ofStatement s).preFilter = s.filterParts.filter fun c => !(ofStatement s).namesLate c) ↔
    ∀ c ∈ s.filterParts, ∀ q n, (some q, n) ∈ c.fields → n ∈ (ofStatement s).postAliases →
      (ofStatement s).namesLate c = true := by
  have hpost : (ofStatement s).postFilter = s.filterParts.filter (folded s).filtersAfter := rfl
  have hpre : (ofStatement s).preFilter =
      s.filterParts.filter fun c => !(folded s).filtersAfter c := rfl
  have hmoved : (folded s).filtersAfter = fun c => (ofStatement s).readsPost c.fieldNames :=
    funext (filtersAfter_folded s)
  rw [hpost, hpre, hmoved]
  constructor
  · rintro ⟨h, -⟩ c hc
    refine readsPost_eq_namesLate_iff.mp ?_
    -- A part is among those behind the aggregates or it is not, on both sides.
    have hmem : c ∈ s.filterParts.filter (fun c => (ofStatement s).readsPost c.fieldNames) ↔
        c ∈ s.filterParts.filter (ofStatement s).namesLate := by
      rw [h]
    rw [List.mem_filter, List.mem_filter, and_congr_right_iff] at hmem
    exact Bool.eq_iff_iff.mpr (hmem hc)
  · intro h
    have hsame : ∀ c ∈ s.filterParts,
        (ofStatement s).readsPost c.fieldNames = (ofStatement s).namesLate c :=
      fun c hc => readsPost_eq_namesLate_iff.mpr (h c hc)
    exact ⟨List.filter_congr hsame, List.filter_congr fun c hc => congrArg _ (hsame c hc)⟩

/-- A filter by a column of a joined source under the alias of a total. -/
def foreignTotal : List Char :=
  ("transform Orders to T joined with Customers on Orders.cid = Customers.id " ++
    "as sum(x) as total grouped by k where Customers.total > 10").toList

/-- A part of the filter can come behind the aggregates although it names nothing late. -/
theorem not_namesLate_foreignTotal : ∃ s, Statement.parse foreignTotal = .ok s ∧
    (s.check .empty {}).valid = true ∧
    ∃ c ∈ (ofStatement s).postFilter, c.fields = [(some "Customers", "total")] ∧
      (ofStatement s).namesLate c = false := by
  obtain ⟨s, hs, h⟩ := exists_parse foreignTotal
    (congrArg String.toList String.ofList_append.symm)
    (fun _ s => (s.check .empty {}).valid && (ofStatement s).postFilter.any fun c =>
      decide (c.fields = [(some "Customers", "total")]) && !(ofStatement s).namesLate c)
    (by decide +kernel)
  simp only [Bool.and_eq_true, List.any_eq_true, decide_eq_true_iff, Bool.not_eq_true'] at h
  exact ⟨s, hs, h⟩

/-! ## Filters without groups -/

theorem postFilter_eq_nil_iff : (ofStatement s).postFilter = [] ↔
    ∀ c ∈ s.filterParts, ∀ n ∈ c.fieldNames, n ∉ (ofStatement s).postAliases := by
  have hpost : (ofStatement s).postFilter = s.filterParts.filter (folded s).filtersAfter := rfl
  rw [hpost, List.filter_eq_nil_iff]
  refine forall₂_congr fun c _ => ?_
  rw [filtersAfter_folded, readsPost_iff, not_exists]
  exact forall_congr' fun n => not_and

/-- The names in the filter are the names in its parts. -/
theorem mem_filterNames : n ∈ (s.filter.map Condition.fieldNames).getD [] ↔
    ∃ c ∈ s.filterParts, n ∈ c.fieldNames := by
  rw [Statement.filterParts]
  cases s.filter with
  | none =>
    refine ⟨fun h => (List.not_mem_nil h).elim, ?_⟩
    rintro ⟨c, hc, -⟩
    exact (List.not_mem_nil hc).elim
  | some f =>
    have hnames : f.fieldNames = f.conjuncts.flatMap Condition.fieldNames := by
      rw [Condition.fieldNames, Condition.fields, Condition.exprs_eq_conjuncts, List.flatMap_assoc,
        List.map_flatMap]
      rfl
    rw [Option.map_some, Option.map_some, Option.getD_some, Option.getD_some, hnames,
      List.mem_flatMap]

end Plan

namespace Check

open Plan

/-- A valid statement without groups does not filter by aggregates. -/
theorem not_mem_aggregates_of_valid (hv : (s.check d rules).valid = true) (hg : s.group = none)
    (hc : c ∈ s.filterParts) (hn : n ∈ c.fieldNames) :
    n ∉ (ofStatement s).aggregates.map Aggregate.aliasName := by
  have hpass := (valid_iff.mp hv).filter
  rw [filterFindings, hg, Option.isSome_none, if_neg Bool.false_ne_true,
    List.map_eq_nil_iff, List.filter_eq_nil_iff] at hpass
  intro hmem
  exact hpass n (mem_filterNames.mpr ⟨c, hc, hn⟩) (List.contains_iff_mem.mpr hmem)

/-- **A valid statement without groups filters by no aggregate; nothing of its filter comes behind
the aggregates exactly if it filters by no calculation that does, and then by nothing that depends
on aggregates.** -/
theorem postFilter_of_valid (hv : (s.check d rules).valid = true) (hg : s.group = none) :
    (∀ c ∈ s.filterParts, ∀ n ∈ c.fieldNames,
      n ∉ (ofStatement s).aggregates.map Aggregate.aliasName) ∧
    ((ofStatement s).postFilter = [] ↔ ∀ c ∈ s.filterParts, ∀ n ∈ c.fieldNames,
      n ∉ (ofStatement s).postCalcs.map Calc.aliasName) ∧
    ((ofStatement s).postFilter = [] → ∀ c ∈ s.filterParts, ∀ n ∈ c.bareNames,
      ¬ DependsOnAggregate s.operations n) := by
  have haggs (c : Condition) (hc : c ∈ s.filterParts) (n : String) (hn : n ∈ c.fieldNames) :
      n ∉ (ofStatement s).aggregates.map Aggregate.aliasName :=
    not_mem_aggregates_of_valid hv hg hc hn
  refine ⟨haggs, ?_, ?_⟩
  · rw [postFilter_eq_nil_iff]
    refine forall₂_congr fun c hc => forall₂_congr fun n hn => ?_
    rw [postAliases, List.mem_append, not_or]
    exact and_iff_right (haggs c hc n hn)
  · intro hnone c hc n hn hdep
    exact postFilter_eq_nil_iff.mp hnone c hc n (Condition.mem_fieldNames_of_bareNames hn)
      hdep.mem_postAliases

/-- A total of doubled lines, with its half, where the doubled lines are large. -/
def largeLines : List Char :=
  "transform S to T as x * 2 as y, sum(y) as t, t / 2 as h where y > 5".toList

theorem postFilter_largeLines : ∃ s, Statement.parse largeLines = .ok s ∧
    (s.check .empty {}).valid = true ∧ s.group = none ∧ DependsOnAggregate s.operations "h" ∧
    (ofStatement s).postFilter = [] ∧
    ∀ c ∈ s.filterParts, ∀ n ∈ c.bareNames, ¬ DependsOnAggregate s.operations n := by
  obtain ⟨s, hs, h⟩ := exists_parse largeLines rfl
    (fun _ s => (s.check .empty {}).valid && s.group.isNone &&
      decide (DependsOnAggregate s.operations "h") &&
      decide (∀ c ∈ s.filterParts, ∀ n ∈ c.fieldNames,
        n ∉ (ofStatement s).postCalcs.map Calc.aliasName))
    (by decide +kernel)
  simp only [Bool.and_eq_true, decide_eq_true_iff, Option.isNone_iff_eq_none] at h
  obtain ⟨⟨⟨hv, hg⟩, hdep⟩, hcalcs⟩ := h
  obtain ⟨-, hiff, hfree⟩ := postFilter_of_valid hv hg
  have hnone := hiff.mpr hcalcs
  exact ⟨s, hs, hv, hg, hdep, hnone, hfree hnone⟩

/-- A total with its double, where the double is large. -/
def largeDouble : List Char :=
  "transform S to T as sum(x) as t, t * 2 as h where h > 5".toList

/-- A valid statement without groups can filter by a calculation on an aggregate. -/
theorem postFilter_ne_nil_largeDouble : ∃ s, Statement.parse largeDouble = .ok s ∧
    (s.check .empty {}).valid = true ∧ s.group = none ∧ (ofStatement s).postFilter ≠ [] ∧
    ∃ c ∈ s.filterParts, "h" ∈ c.bareNames ∧ DependsOnAggregate s.operations "h" := by
  obtain ⟨s, hs, h⟩ := exists_parse largeDouble rfl
    (fun _ s => (s.check .empty {}).valid && s.group.isNone &&
      !(ofStatement s).postFilter.isEmpty &&
      decide (∃ c ∈ s.filterParts, "h" ∈ c.bareNames ∧ DependsOnAggregate s.operations "h"))
    (by decide +kernel)
  simp only [Bool.and_eq_true, decide_eq_true_iff, Option.isNone_iff_eq_none, Bool.not_eq_true',
    List.isEmpty_eq_false_iff] at h
  obtain ⟨⟨⟨hv, hg⟩, hpost⟩, hdep⟩ := h
  exact ⟨s, hs, hv, hg, hpost, hdep⟩

end Check

end DataPhrase
