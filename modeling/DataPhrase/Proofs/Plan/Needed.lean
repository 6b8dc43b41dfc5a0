/-
# What aggregation needs

Aggregation reads the keys and the fields of the aggregates, and through them whatever the
calculations behind these names read (`Statement.Needs`). Such a calculation has to run on the rows,
unless it depends on aggregates itself. A plan keeps it there if nothing pushes it behind the
aggregates where it stands (`StaysOnRows`): behind an aggregate it must be read by aggregation
directly, and a column with a source must not have the name of something that is computed late. If
this holds for all that aggregation needs, and only then, all of it runs on the rows
(`needed_mem_preCalcs_iff`).
-/
import DataPhrase.Proofs.Plan.Dependence
import DataPhrase.Proofs.Statement.Parse

namespace DataPhrase

open Plan

variable {s : Statement} {before after : List Operation} {n : String} {c : Calc}

/-! ## Needs -/

/-- Aggregation reads the name, directly or through calculations. -/
inductive Statement.Needs (s : Statement) : String → Prop
  | key {n : String} (h : n ∈ s.group.getD []) : s.Needs n
  | field {a : Aggregate} {n : String} (ha : a.operation ∈ s.operations)
      (hn : n ∈ a.field.bareNames) : s.Needs n
  | calculation {c : Calc} {n : String} (hc : c.operation ∈ s.operations)
      (h : s.Needs c.aliasName) (hn : n ∈ c.expression.bareNames) : s.Needs n

/-- No operation reads its own alias or one of an operation behind it. -/
def ReadInOrder : List Operation → Prop
  | [] => True
  | op :: r => (∀ n ∈ op.bareNames, n ∉ (op :: r).filterMap Operation.alias?) ∧ ReadInOrder r

instance decidableReadInOrder : (ops : List Operation) → Decidable (ReadInOrder ops)
  | [] => inferInstanceAs (Decidable True)
  | _ :: r => @instDecidableAnd _ _ _ (decidableReadInOrder r)

/-- Nothing but what depends on aggregates or is computed late pushes the calculation behind the
aggregates: no aggregate stands before it unless aggregation reads it directly, and none of its
columns with a source has the name of something that is computed behind the aggregates. -/
structure StaysOnRows (s : Statement) (before : List Operation) (c : Calc) : Prop where
  direct : (∃ op ∈ before, op.isAggregate = true) → c.aliasName ∈ namesNeeded s
  columns : ∀ q n, (some q, n) ∈ c.expression.fields → n ∉ (upTo s before).postAliases

/-! ## What a plan keeps on the rows -/

theorem aggregates_upTo_eq_nil_iff :
    (upTo s before).aggregates = [] ↔ ¬ ∃ op ∈ before, op.isAggregate = true := by
  rw [List.eq_nil_iff_forall_not_mem]
  constructor
  · rintro h ⟨op, hop, hagg⟩
    cases op with
    | aggregate f e a => exact h ⟨a, f, e⟩ (mem_aggregates_upTo.mpr hop)
    | _ => cases hagg
  · intro h a ha
    exact h ⟨a.operation, mem_aggregates_upTo.mp ha, rfl⟩

/-- **A calculation runs on the rows if it reads nothing late and stays there where it stands.** -/
theorem runsAfter_upTo_eq_false_iff :
    (upTo s before).runsAfter (namesNeeded s) c = false ↔
      StaysOnRows s before c ∧ ∀ n ∈ c.expression.bareNames, n ∉ (upTo s before).postAliases := by
  have hdirect : (!(upTo s before).aggregates.isEmpty && !(namesNeeded s).contains c.aliasName) =
      false ↔ ((∃ op ∈ before, op.isAggregate = true) → c.aliasName ∈ namesNeeded s) := by
    rw [Bool.and_eq_false_iff, Bool.not_eq_false', Bool.not_eq_false', List.isEmpty_iff,
      aggregates_upTo_eq_nil_iff, List.contains_iff_mem, or_iff_not_imp_left, not_not]
  have hreads : (upTo s before).readsPost c.expression.fieldNames = false ↔
      ∀ r ∈ c.expression.fields, r.2 ∉ (upTo s before).postAliases := by
    rw [readsPost, List.any_eq_false, Expr.fieldNames, List.forall_mem_map]
    exact forall₂_congr fun r _ => not_congr List.contains_iff_mem
  rw [runsAfter, Bool.or_eq_false_iff, hdirect, hreads]
  constructor
  · rintro ⟨hr, hd⟩
    exact ⟨⟨hd, fun q n h => hr (some q, n) h⟩, fun n h => hr (none, n) (mem_bareNames.mp h)⟩
  · rintro ⟨⟨hd, hq⟩, hb⟩
    refine ⟨?_, hd⟩
    rintro ⟨q, n⟩ h
    cases q with
    | none => exact hb n (mem_bareNames.mpr h)
    | some q => exact hq q n h

/-- What a needed calculation reads from a calculation before it is needed as well, and depends on
aggregates only if the calculation that reads it does. -/
theorem needed_of_read (hd : s.aliases.Nodup) (hs : s.operations = before ++ c.operation :: after)
    (hneed : s.Needs c.aliasName) (hfree : ¬ DependsOnAggregate s.operations c.aliasName)
    {x : Calc} (hx : x.operation ∈ before) (hn : x.aliasName ∈ c.expression.bareNames) :
    s.Needs x.aliasName ∧ ¬ DependsOnAggregate s.operations x.aliasName := by
  have hc : c.operation ∈ s.operations := by
    rw [hs]
    exact List.mem_append_right _ List.mem_cons_self
  refine ⟨.calculation hc hneed hn, fun hdep => hfree ?_⟩
  rw [Statement.aliases, hs] at hd
  rw [hs] at hdep
  exact .calculation hs hn (hdep.of_append hd (mem_aliases_of_mem hx rfl))

/-- **If everything that aggregation needs stays on the rows where it stands, it runs there.** The
induction is on the operations before the calculation: what it reads late stands before it. -/
theorem runsAfter_eq_false_of_needed (hd : s.aliases.Nodup)
    (hstays : ∀ before c after, s.operations = before ++ Calc.operation c :: after →
      s.Needs c.aliasName → ¬ DependsOnAggregate s.operations c.aliasName → StaysOnRows s before c)
    (hs : s.operations = before ++ c.operation :: after) (hneed : s.Needs c.aliasName)
    (hfree : ¬ DependsOnAggregate s.operations c.aliasName) :
    (upTo s before).runsAfter (namesNeeded s) c = false := by
  induction hk : before.length using Nat.strongRecOn generalizing before c after with
  | ind k ih =>
    refine runsAfter_upTo_eq_false_iff.mpr ⟨hstays before c after hs hneed hfree, ?_⟩
    intro n hn hpost
    -- What is read late is an aggregate, or a calculation that is needed as well.
    rcases List.mem_append.mp hpost with h | h
    · obtain ⟨a, ha, rfl⟩ := List.mem_map.mp h
      exact hfree (.calculation hs hn (.aggregate (mem_aggregates_upTo.mp ha)))
    · obtain ⟨x, hx, rfl⟩ := List.mem_map.mp h
      obtain ⟨b, r, rfl, hlate⟩ := mem_postCalcs_upTo.mp hx
      have hmem : x.operation ∈ b ++ x.operation :: r := List.mem_append_right _ List.mem_cons_self
      obtain ⟨hxneed, hxfree⟩ := needed_of_read hd hs hneed hfree hmem hn
      have hxs : s.operations = b ++ x.operation :: (r ++ c.operation :: after) := by
        rw [hs, List.append_assoc, List.cons_append]
      have hshort : b.length < k := by
        rw [← hk, List.length_append, List.length_cons]
        omega
      have hearly := ih b.length hshort hxs hxneed hxfree rfl
      exact Bool.false_ne_true (hearly.symm.trans hlate)

/-- **All calculations that aggregation needs, and that do not depend on aggregates, run on the rows
exactly when each of them stays there where it stands.** -/
theorem needed_mem_preCalcs_iff (hd : s.aliases.Nodup) :
    (∀ c : Calc, c.operation ∈ s.operations → s.Needs c.aliasName →
      ¬ DependsOnAggregate s.operations c.aliasName → c ∈ (ofStatement s).preCalcs) ↔
    ∀ before c after, s.operations = before ++ Calc.operation c :: after → s.Needs c.aliasName →
      ¬ DependsOnAggregate s.operations c.aliasName → StaysOnRows s before c := by
  have hplan : (ofStatement s).preCalcs = (upTo s s.operations).preCalcs := rfl
  rw [hplan]
  constructor
  · intro h before c after hs hneed hfree
    have hc : c.operation ∈ s.operations := by
      rw [hs]
      exact List.mem_append_right _ List.mem_cons_self
    obtain ⟨b, r, hs', hstays⟩ := mem_preCalcs_upTo.mp (h c hc hneed hfree)
    obtain ⟨rfl, -⟩ := split_eq_of_nodup hd hs hs' rfl rfl
    exact (runsAfter_upTo_eq_false_iff.mp hstays).1
  · intro hstays c hc hneed hfree
    obtain ⟨before, after, hs⟩ := List.append_of_mem hc
    exact mem_preCalcs_upTo.mpr
      ⟨before, after, hs, runsAfter_eq_false_of_needed hd hstays hs hneed hfree⟩

/-- The totals of lines and of what they cost with a fee, which is computed behind the first
aggregate: `sum(line) as total, line + fee as gross, max(gross) as top`. -/
def grossLines : Statement where
  pattern := .transformTo
  source := "S"
  target := some "T"
  operations :=
    [.calculate (.binary .multiply (.plain "price") (.plain "qty")) "line",
      .aggregate .sum (.plain "line") "total",
      .calculate (.binary .add (.plain "line") (.plain "fee")) "gross",
      .aggregate .max (.plain "gross") "top",
      .calculate (.binary .subtract (.plain "total") (.plain "top")) "rest"]
  group := some ["k"]

/-- Each needed calculation of `grossLines` stays on the rows where it stands. -/
theorem staysOnRows_grossLines : ∀ before c after,
    grossLines.operations = before ++ Calc.operation c :: after →
      ¬ DependsOnAggregate grossLines.operations c.aliasName → StaysOnRows grossLines before c := by
  rintro before ⟨a, e⟩ after hs hfree
  have hcolumns {e : Expr} (h : e.fields.all (fun r => r.1 == none) = true) (q n : String)
      (hr : (some q, n) ∈ e.fields) : n ∉ (upTo grossLines before).postAliases :=
    absurd (beq_iff_eq.mp (List.all_eq_true.mp h _ hr)) (Option.some_ne_none q)
  simp only [grossLines, List.cons_eq_append_iff] at hs
  rcases hs with ⟨rfl, h⟩ | ⟨_, rfl, ⟨rfl, h⟩ | ⟨_, rfl, ⟨rfl, h⟩ | ⟨_, rfl, ⟨rfl, h⟩ |
    ⟨_, rfl, ⟨rfl, h⟩ | ⟨_, rfl, h⟩⟩⟩⟩⟩
  · -- `line` stands before all aggregates.
    cases h
    refine ⟨?_, hcolumns rfl⟩
    rintro ⟨_, hop, -⟩
    cases hop
  · cases h
  · -- `gross` stands behind one, but the other one reads it.
    cases h
    exact ⟨fun _ => by decide, hcolumns rfl⟩
  · cases h
  · -- `rest` reads both aggregates.
    cases h
    exact absurd (by decide) hfree
  · exact absurd (List.append_eq_nil_iff.mp h.symm).2 (List.cons_ne_nil _ _)

theorem needed_mem_preCalcs_grossLines : grossLines.aliases.Nodup ∧
    (grossLines.check .empty {}).valid = true ∧
    ∀ c : Calc, c.operation ∈ grossLines.operations → grossLines.Needs c.aliasName →
      ¬ DependsOnAggregate grossLines.operations c.aliasName →
        c ∈ (ofStatement grossLines).preCalcs := by
  have hd : grossLines.aliases.Nodup := by decide
  refine ⟨hd, by decide +kernel, (needed_mem_preCalcs_iff hd).mpr ?_⟩
  intro before c after hs hneed hfree
  exact staysOnRows_grossLines before c after hs hfree

/-- The totals of what a chain of calculations behind the first aggregate computes:
`sum(x) as a, k + k as b, b + k as c, sum(c) as d`. -/
def chainedTotals : Statement where
  pattern := .transformTo
  source := "S"
  target := some "T"
  operations :=
    [.aggregate .sum (.plain "x") "a", .calculate (.binary .add (.plain "k") (.plain "k")) "b",
      .calculate (.binary .add (.plain "b") (.plain "k")) "c", .aggregate .sum (.plain "c") "d"]
  group := some ["k"]

/-- A calculation that aggregation needs through another one can run behind the aggregates. -/
theorem not_mem_preCalcs_chainedTotals : chainedTotals.aliases.Nodup ∧
    ReadInOrder chainedTotals.operations ∧ (chainedTotals.check .empty {}).valid = true ∧
    ∃ c : Calc, c.operation ∈ chainedTotals.operations ∧ chainedTotals.Needs c.aliasName ∧
      ¬ DependsOnAggregate chainedTotals.operations c.aliasName ∧
        c ∉ (ofStatement chainedTotals).preCalcs := by
  refine ⟨by decide, by decide, by decide +kernel,
    ⟨"b", .binary .add (.plain "k") (.plain "k")⟩, ?_, ?_, by decide, ?_⟩
  · exact List.mem_cons_of_mem _ List.mem_cons_self
  · -- The field `c` of the second total reads `b`.
    have hc : chainedTotals.Needs "c" :=
      .field (a := ⟨"d", .sum, .plain "c"⟩) (by simp [chainedTotals, Aggregate.operation])
        (by decide)
    exact .calculation (c := ⟨"c", .binary .add (.plain "b") (.plain "k")⟩)
      (by simp [chainedTotals, Calc.operation]) hc (by decide)
  · have hnone : (ofStatement chainedTotals).preCalcs = [] := by
      decide +kernel
    rw [hnone]
    exact List.not_mem_nil

end DataPhrase
