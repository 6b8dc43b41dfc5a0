/-
# What depends on aggregates

A name depends on aggregates if it is the alias of one, or of a calculation that reads such a name
from an operation before it (`DependsOnAggregate`). A plan that has taken in some operations knows
every such name only behind the aggregates (`DependsOnAggregate.mem_postAliases`). The converse
fails: a calculation that stands behind an aggregate and that aggregation does not read is put
there as well, and so is whatever reads it.
-/
import Mathlib.Data.List.Induction
import DataPhrase.Proofs.Code.Computed

namespace DataPhrase

variable {s : Statement} {ops before after : List Operation} {n : String} {c : Calc}

/-! ## Dependence -/

/-- The name is the alias of an aggregate among the operations, or of a calculation that reads such
a name from the operations before it. -/
inductive DependsOnAggregate : List Operation → String → Prop
  | aggregate {ops : List Operation} {a : Aggregate} (h : a.operation ∈ ops) :
      DependsOnAggregate ops a.aliasName
  | calculation {ops before after : List Operation} {c : Calc} {n : String}
      (hs : ops = before ++ c.operation :: after) (hn : n ∈ c.expression.bareNames)
      (h : DependsOnAggregate before n) : DependsOnAggregate ops c.aliasName

/-- Operations behind do not change what depends on an aggregate. -/
theorem DependsOnAggregate.append (h : DependsOnAggregate ops n) (after : List Operation) :
    DependsOnAggregate (ops ++ after) n := by
  cases h with
  | aggregate h => exact .aggregate (List.mem_append_left _ h)
  | calculation hs hn h =>
    subst hs
    exact .calculation (List.append_assoc _ _ _) hn h

theorem mem_aliases_of_mem {op : Operation} (h : op ∈ ops) (hn : op.alias? = some n) :
    n ∈ ops.filterMap Operation.alias? :=
  List.mem_filterMap.mpr ⟨op, h, hn⟩

/-- Only an alias depends on an aggregate. -/
theorem DependsOnAggregate.mem_aliases (h : DependsOnAggregate ops n) :
    n ∈ ops.filterMap Operation.alias? := by
  cases h with
  | aggregate h => exact mem_aliases_of_mem h rfl
  | calculation hs hn h =>
    subst hs
    exact mem_aliases_of_mem (List.mem_append_right _ List.mem_cons_self) rfl

/-- The names that depend on aggregates, with those that one more operation adds. -/
def addDependent (known : List String) : Operation → List String
  | .aggregate _ _ a => a :: known
  | .calculate e a => if e.bareNames.any known.contains then a :: known else known
  | _ => known

/-- The names that depend on the aggregates among the operations. -/
def dependentNames (ops : List Operation) : List String :=
  ops.foldl addDependent []

theorem mem_addDependent {known : List String} {op : Operation} :
    n ∈ addDependent known op ↔ n ∈ known ∨
      (∃ a : Aggregate, op = a.operation ∧ n = a.aliasName) ∨
        ∃ c : Calc, op = c.operation ∧ n = c.aliasName ∧
          ∃ m ∈ c.expression.bareNames, m ∈ known := by
  cases op with
  | aggregate f e a =>
    rw [addDependent, List.mem_cons, or_comm]
    refine or_congr_right ⟨fun h => Or.inl ⟨⟨a, f, e⟩, rfl, h⟩, ?_⟩
    rintro (⟨x, hx, h⟩ | ⟨x, hx, -⟩)
    · cases hx
      exact h
    · cases hx
  | calculate e a =>
    rw [addDependent]
    split
    · next hreads =>
      rw [List.mem_cons, or_comm]
      refine or_congr_right ⟨fun h => Or.inr ⟨⟨a, e⟩, rfl, h, ?_⟩, ?_⟩
      · simpa using hreads
      · rintro (⟨x, hx, -⟩ | ⟨x, hx, h, -⟩)
        · cases hx
        · cases hx
          exact h
    · next hreads =>
      refine ⟨Or.inl, ?_⟩
      rintro (h | ⟨x, hx, -⟩ | ⟨x, hx, -, m, hm, hk⟩)
      · exact h
      · cases hx
      · cases hx
        exact absurd (List.any_eq_true.mpr ⟨m, hm, List.contains_iff_mem.mpr hk⟩) hreads
  | window | select | join =>
    refine ⟨Or.inl, ?_⟩
    rintro (h | ⟨x, hx, -⟩ | ⟨x, hx, -⟩)
    · exact h
    · cases hx
    · cases hx

/-- **What depends on aggregates can be computed.** -/
theorem mem_dependentNames : n ∈ dependentNames ops ↔ DependsOnAggregate ops n := by
  -- From the back, since the names are collected from the front.
  induction ops using List.reverseRecOn generalizing n with
  | nil =>
    refine ⟨fun h => (List.not_mem_nil h).elim, fun h => ?_⟩
    exact (List.not_mem_nil h.mem_aliases).elim
  | append_singleton ops op ih =>
    rw [dependentNames, List.foldl_concat, ← dependentNames, mem_addDependent]
    constructor
    · rintro (h | ⟨a, rfl, rfl⟩ | ⟨c, rfl, rfl, m, hm, h⟩)
      · exact (ih.mp h).append [op]
      · exact .aggregate (List.mem_append_right _ List.mem_cons_self)
      · exact .calculation rfl hm (ih.mp h)
    · intro h
      cases h with
      | @aggregate _ a h =>
        rcases List.mem_append.mp h with h | h
        · exact Or.inl (ih.mpr (.aggregate h))
        · exact Or.inr (Or.inl ⟨a, (List.mem_singleton.mp h).symm, rfl⟩)
      | @calculation _ before after c m hs hm h =>
        -- The calculation is the last operation, or the last one has nothing to do with it.
        rcases List.eq_nil_or_concat after with rfl | ⟨after, x, rfl⟩
        · obtain ⟨rfl, hop⟩ := List.append_inj' hs rfl
          exact Or.inr (Or.inr ⟨c, List.head_eq_of_cons_eq hop, rfl, m, hm, ih.mpr h⟩)
        · rw [List.concat_eq_append, ← List.cons_append, ← List.append_assoc] at hs
          obtain ⟨rfl, -⟩ := List.append_inj' hs rfl
          exact Or.inl (ih.mpr (.calculation rfl hm h))

instance (ops : List Operation) (n : String) : Decidable (DependsOnAggregate ops n) :=
  decidable_of_iff _ mem_dependentNames

/-! ## Where one alias stands -/

/-- Operations with distinct aliases can be split at an alias in one way only. -/
theorem split_eq_of_nodup {before' after' : List Operation} {op op' : Operation}
    (hd : (ops.filterMap Operation.alias?).Nodup) (hs : ops = before ++ op :: after)
    (hs' : ops = before' ++ op' :: after') (hn : op.alias? = some n) (hn' : op'.alias? = some n) :
    before = before' ∧ op = op' ∧ after = after' := by
  subst hs
  induction before generalizing before' with
  | nil =>
    cases before' with
    | nil =>
      obtain ⟨rfl, rfl⟩ := List.cons.inj hs'
      exact ⟨rfl, rfl, rfl⟩
    | cons x before' =>
      obtain ⟨rfl, rfl⟩ := List.cons.inj hs'
      rw [List.nil_append, List.filterMap_cons_some hn, List.nodup_cons] at hd
      exact absurd (mem_aliases_of_mem (List.mem_append_right _ List.mem_cons_self) hn') hd.1
  | cons y before ih =>
    cases before' with
    | nil =>
      obtain ⟨rfl, rfl⟩ := List.cons.inj hs'
      rw [List.cons_append, List.filterMap_cons_some hn', List.nodup_cons] at hd
      exact absurd (mem_aliases_of_mem (List.mem_append_right _ List.mem_cons_self) hn) hd.1
    | cons x before' =>
      obtain ⟨rfl, hs''⟩ := List.cons.inj hs'
      have hrest : ((before ++ op :: after).filterMap Operation.alias?).Nodup :=
        hd.sublist ((List.sublist_cons_self y _).filterMap _)
      obtain ⟨rfl, hop, ha⟩ := ih hrest hs''
      exact ⟨rfl, hop, ha⟩

/-- Whether an alias depends on aggregates is settled where it stands. -/
theorem DependsOnAggregate.of_append (hd : ((before ++ after).filterMap Operation.alias?).Nodup)
    (h : DependsOnAggregate (before ++ after) n) (hn : n ∈ before.filterMap Operation.alias?) :
    DependsOnAggregate before n := by
  obtain ⟨op, hop, ha⟩ := List.mem_filterMap.mp hn
  obtain ⟨b, r, rfl⟩ := List.append_of_mem hop
  have hs : b ++ op :: r ++ after = b ++ op :: (r ++ after) := by
    rw [List.append_assoc, List.cons_append]
  -- What `n` depends on is found at one place only, and that is in front.
  cases h with
  | aggregate h =>
    obtain ⟨b', r', hs'⟩ := List.append_of_mem h
    obtain ⟨-, rfl, -⟩ := split_eq_of_nodup hd hs hs' ha rfl
    exact .aggregate hop
  | calculation hs' hm h =>
    obtain ⟨rfl, rfl, -⟩ := split_eq_of_nodup hd hs hs' ha rfl
    exact .calculation rfl hm h

namespace Plan

/-! ## What a plan takes in -/

/-- **What a plan holds behind a list of operations is what one of them put there.** -/
theorem mem_foldl_add {α : Type} {x : α} {needed : List String} (part : Plan → List α)
    (takes : Plan → Operation → Prop)
    (hstep : ∀ p op, x ∈ part (add needed p op) ↔ x ∈ part p ∨ takes p op) (p : Plan) :
    x ∈ part (ops.foldl (add needed) p) ↔ x ∈ part p ∨
      ∃ before op after, ops = before ++ op :: after ∧ takes (before.foldl (add needed) p) op := by
  induction ops generalizing p with
  | nil =>
    refine ⟨Or.inl, fun h => h.resolve_right ?_⟩
    rintro ⟨before, op, after, hs, -⟩
    exact List.cons_ne_nil _ _ (List.append_eq_nil_iff.mp hs.symm).2
  | cons y ops ih =>
    rw [List.foldl_cons, ih, hstep, or_assoc]
    refine or_congr_right ⟨?_, ?_⟩
    · rintro (h | ⟨before, op, after, rfl, h⟩)
      · exact ⟨[], y, ops, rfl, h⟩
      · exact ⟨y :: before, op, after, rfl, h⟩
    · rintro ⟨before, op, after, hs, h⟩
      cases before with
      | nil =>
        obtain ⟨rfl, rfl⟩ := List.cons.inj hs
        exact Or.inl h
      | cons z before =>
        obtain ⟨rfl, rfl⟩ := List.cons.inj hs
        exact Or.inr ⟨before, op, after, rfl, h⟩

/-- Adding an operation adds at most its own aggregate. -/
theorem mem_aggregates_add {needed : List String} {a : Aggregate} (p : Plan) (op : Operation) :
    a ∈ (add needed p op).aggregates ↔ a ∈ p.aggregates ∨ op = a.operation := by
  cases op with
  | aggregate f e b =>
    rw [add, List.mem_append, List.mem_singleton]
    refine or_congr_right ⟨?_, ?_⟩
    · rintro rfl
      rfl
    · intro h
      cases h
      rfl
  | calculate e b =>
    have hsame : (add needed p (.calculate e b)).aggregates = p.aggregates := by
      rw [add]
      split <;> rfl
    rw [hsame]
    exact ⟨Or.inl, fun h => h.resolve_right Operation.noConfusion⟩
  | window | select | join => exact ⟨Or.inl, fun h => h.resolve_right Operation.noConfusion⟩

theorem calculate_eq_operation {e : Expr} {a : String} :
    Operation.calculate e a = c.operation ↔ c = ⟨a, e⟩ := by
  constructor
  · intro h
    cases h
    rfl
  · rintro rfl
    rfl

/-- Adding an operation adds at most its own calculation to those that run after aggregation. -/
theorem mem_postCalcs_add {needed : List String} (p : Plan) (op : Operation) :
    c ∈ (add needed p op).postCalcs ↔
      c ∈ p.postCalcs ∨ op = c.operation ∧ p.runsAfter needed c = true := by
  cases op with
  | calculate e b =>
    rw [add, calculate_eq_operation]
    split
    · next h =>
      rw [List.mem_append, List.mem_singleton]
      refine or_congr_right ⟨?_, And.left⟩
      rintro rfl
      exact ⟨rfl, h⟩
    · next h =>
      refine ⟨Or.inl, fun hc => hc.resolve_right ?_⟩
      rintro ⟨rfl, hafter⟩
      exact h hafter
  | aggregate | window | select | join =>
    exact ⟨Or.inl, fun h => h.resolve_right fun h => Operation.noConfusion h.1⟩

/-- Adding an operation adds at most its own calculation to those that run before aggregation. -/
theorem mem_preCalcs_add {needed : List String} (p : Plan) (op : Operation) :
    c ∈ (add needed p op).preCalcs ↔
      c ∈ p.preCalcs ∨ op = c.operation ∧ p.runsAfter needed c = false := by
  cases op with
  | calculate e b =>
    rw [add, calculate_eq_operation]
    split
    · next h =>
      refine ⟨Or.inl, fun hc => hc.resolve_right ?_⟩
      rintro ⟨rfl, hstays⟩
      exact Bool.false_ne_true (hstays.symm.trans h)
    · next h =>
      rw [List.mem_append, List.mem_singleton]
      refine or_congr_right ⟨?_, And.left⟩
      rintro rfl
      exact ⟨rfl, (Bool.not_eq_true _).mp h⟩
  | aggregate | window | select | join =>
    exact ⟨Or.inl, fun h => h.resolve_right fun h => Operation.noConfusion h.1⟩

/-- The aggregates of a plan are those among the operations. -/
theorem mem_aggregates_upTo {a : Aggregate} :
    a ∈ (upTo s ops).aggregates ↔ a.operation ∈ ops := by
  rw [upTo, mem_foldl_add aggregates (fun _ op => op = a.operation) mem_aggregates_add]
  constructor
  · rintro (h | ⟨before, op, after, rfl, rfl⟩)
    · cases h
    · exact List.mem_append_right _ List.mem_cons_self
  · intro h
    obtain ⟨before, after, hs⟩ := List.append_of_mem h
    exact Or.inr ⟨before, _, after, hs, rfl⟩

/-- A list of calculations to which operations add those that stay, or those that move, holds each
calculation that does so where it stands. -/
theorem mem_calcs_upTo (part : Plan → List Calc) {moves : Bool} (hstart : part (start s) = [])
    (hstep : ∀ p op, c ∈ part (add (namesNeeded s) p op) ↔
      c ∈ part p ∨ op = c.operation ∧ p.runsAfter (namesNeeded s) c = moves) :
    c ∈ part (upTo s ops) ↔ ∃ before after, ops = before ++ c.operation :: after ∧
      (upTo s before).runsAfter (namesNeeded s) c = moves := by
  rw [upTo, mem_foldl_add part _ hstep, hstart]
  constructor
  · rintro (h | ⟨before, op, after, hs, rfl, h⟩)
    · cases h
    · exact ⟨before, after, hs, h⟩
  · rintro ⟨before, after, hs, h⟩
    exact Or.inr ⟨before, _, after, hs, rfl, h⟩

/-- **A calculation is behind the aggregates if it moves there where it stands.** -/
theorem mem_postCalcs_upTo : c ∈ (upTo s ops).postCalcs ↔
    ∃ before after, ops = before ++ c.operation :: after ∧
      (upTo s before).runsAfter (namesNeeded s) c = true :=
  mem_calcs_upTo postCalcs rfl mem_postCalcs_add

/-- A calculation runs before aggregation exactly when the operations in front of it left it there.
-/
theorem mem_preCalcs_upTo : c ∈ (upTo s ops).preCalcs ↔
    ∃ before after, ops = before ++ c.operation :: after ∧
      (upTo s before).runsAfter (namesNeeded s) c = false :=
  mem_calcs_upTo preCalcs rfl mem_preCalcs_add

/-- Reading the alias of a calculation after aggregation is reading after it. -/
theorem readsPost_of_mem {p : Plan} {names : List String} (hn : n ∈ names)
    (hp : n ∈ p.postAliases) : p.readsPost names = true :=
  List.any_eq_true.mpr ⟨n, hn, List.contains_iff_mem.mpr hp⟩

end Plan

theorem Expr.mem_fieldNames_of_bareNames {e : Expr} (h : n ∈ e.bareNames) : n ∈ e.fieldNames :=
  List.mem_map_of_mem (f := Prod.snd) (mem_bareNames.mp h)

open Plan

/-- **What depends on aggregates exists only behind them.** -/
theorem DependsOnAggregate.mem_postAliases (h : DependsOnAggregate ops n) :
    n ∈ (upTo s ops).postAliases := by
  induction h with
  | aggregate h =>
    exact List.mem_append_left _ (List.mem_map_of_mem (mem_aggregates_upTo.mpr h))
  | calculation hs hn h ih =>
    refine List.mem_append_right _ (List.mem_map_of_mem (mem_postCalcs_upTo.mpr ⟨_, _, hs, ?_⟩))
    rw [runsAfter, readsPost_of_mem (Expr.mem_fieldNames_of_bareNames hn) ih, Bool.true_or]

end DataPhrase
