/-
# Aggregates on their own

An aggregate computes over the rows of the source, so its text should not depend on the other
aggregates of the statement. The definitions of aliases are where they meet: an aggregate that reads
the alias of one before it has that one inlined, and the first aggregate moves calculations behind
the aggregation, where an aggregate no longer sees them. Those are the only ways in which they meet
(`aliasText_withOnly`).
-/
import Mathlib.Data.List.Nodup
import DataPhrase.Code.Generate
import DataPhrase.Proofs.Code.Computed
import DataPhrase.Proofs.Code.Settles
import DataPhrase.Proofs.Statement.Equality
import DataPhrase.Proofs.Statement.Parse

namespace DataPhrase

open Code

/-! ## Statements with one aggregate -/

/-- The alias of an operation that is a calculation. -/
def Operation.calcAlias? : Operation → Option String
  | .calculate _ a => some a
  | _ => none

/-- The statement without its aggregates, the one with the alias apart. -/
def Statement.withOnly (s : Statement) (n : String) : Statement :=
  { s with operations := s.operations.filter fun op => !op.isAggregate || op.alias? == some n }

/-- An aggregate that stands between the operations reads rows of the source: no name in it is the
alias of an aggregate before it or of a calculation that runs behind the aggregation, or of a
calculation after it if there is a column of that name as well. -/
structure Statement.ReadsRows (s : Statement) (d : Snapshot) (before : List Operation) (e : Expr)
    (after : List Operation) : Prop where
  before : ∀ n ∈ e.bareNames, n ∉ (Plan.upTo s before).postAliases
  after : ∀ n ∈ e.bareNames, Check.isColumn d s (none, n) = true →
    n ∉ after.filterMap Operation.calcAlias?

instance (s : Statement) (d : Snapshot) (before : List Operation) (e : Expr)
    (after : List Operation) : Decidable (s.ReadsRows d before e after) :=
  decidable_of_iff
    ((∀ n ∈ e.bareNames, n ∉ (Plan.upTo s before).postAliases) ∧
      ∀ n ∈ e.bareNames, Check.isColumn d s (none, n) = true →
        n ∉ after.filterMap Operation.calcAlias?)
    ⟨fun ⟨h1, h2⟩ => ⟨h1, h2⟩, fun ⟨h1, h2⟩ => ⟨h1, h2⟩⟩

section Statements

variable {s : Statement} {before after : List Operation} {f : AggregateFn} {e : Expr} {n : String}

/-- What stays of a statement whose aliases are different from each other. -/
theorem Statement.operations_withOnly (hd : s.aliases.Nodup)
    (hs : s.operations = before ++ .aggregate f e n :: after) :
    (s.withOnly n).operations = before.filter (fun op => !op.isAggregate) ++
      .aggregate f e n :: after.filter fun op => !op.isAggregate := by
  have hsome : (Operation.aggregate f e n).alias? = some n := rfl
  rw [Statement.aliases, hs, List.filterMap_append, List.filterMap_cons_some hsome,
    List.nodup_middle, List.nodup_cons, List.mem_append, not_or] at hd
  have hkept (ops : List Operation) (hn : n ∉ ops.filterMap Operation.alias?) :
      ops.filter (fun op => !op.isAggregate || op.alias? == some n) =
        ops.filter fun op => !op.isAggregate := by
    refine List.filter_congr fun op hop => ?_
    have hne : (op.alias? == some n) = false :=
      beq_eq_false_iff_ne.mpr fun h => hn (List.mem_filterMap.mpr ⟨op, hop, h⟩)
    rw [hne, Bool.or_false]
  show s.operations.filter _ = _
  rw [hs, List.filter_append, List.filter_cons_of_pos ?_, hkept before hd.1.1, hkept after hd.1.2]
  exact beq_self_eq_true (some n)

/-- Keeping one operation drops aliases and adds none. -/
theorem Statement.aliases_withOnly_sublist (s : Statement) (n : String) :
    (s.withOnly n).aliases.Sublist s.aliases :=
  List.filter_sublist.filterMap Operation.alias?

end Statements

namespace Plan

variable {p : Plan} {needed : List String}

/-! ## What operations add -/

/-- What operations add to a part of the plan comes from them, if that is so for each of them. -/
theorem exists_append_foldl (needed : List String) {α : Type} {part : Plan → List α}
    {operation : α → Operation}
    (h : ∀ p op, ∃ l, part (add needed p op) = part p ++ l ∧ ∀ x ∈ l, operation x = op)
    (ops : List Operation) :
    ∃ l, part (ops.foldl (add needed) p) = part p ++ l ∧ ∀ x ∈ l, operation x ∈ ops := by
  induction ops generalizing p with
  | nil => exact ⟨[], (List.append_nil _).symm, fun x hx => nomatch hx⟩
  | cons op ops ih =>
    obtain ⟨l, hl, hop⟩ := h p op
    obtain ⟨l', hl', hops⟩ := @ih (add needed p op)
    refine ⟨l ++ l', by rw [List.foldl_cons, hl', hl, List.append_assoc], fun x hx => ?_⟩
    rcases List.mem_append.mp hx with hx | hx
    · rw [hop x hx]
      exact List.mem_cons_self
    · exact List.mem_cons_of_mem op (hops x hx)

/-- Adding an operation adds at most its own calculation to those that run before aggregation, at
the end. -/
theorem exists_preCalcs_add (p : Plan) (op : Operation) :
    ∃ l, (add needed p op).preCalcs = p.preCalcs ++ l ∧ ∀ c ∈ l, c.operation = op := by
  have hsame : ∃ l, p.preCalcs = p.preCalcs ++ l ∧ ∀ c ∈ l, c.operation = op :=
    ⟨[], (List.append_nil _).symm, fun c hc => nomatch hc⟩
  cases op with
  | calculate e a =>
    rw [add]
    split
    · exact hsame
    · exact ⟨[⟨a, e⟩], rfl, List.forall_mem_singleton.mpr rfl⟩
  | _ => exact hsame

/-- Adding an operation adds at most its own aggregate, at the end. -/
theorem exists_aggregates_add (p : Plan) (op : Operation) :
    ∃ l, (add needed p op).aggregates = p.aggregates ++ l ∧ ∀ a ∈ l, a.operation = op := by
  have hsame : ∃ l, p.aggregates = p.aggregates ++ l ∧ ∀ a ∈ l, a.operation = op :=
    ⟨[], (List.append_nil _).symm, fun a ha => nomatch ha⟩
  cases op with
  | calculate e a =>
    rw [add]
    split <;> exact hsame
  | aggregate f e a => exact ⟨[⟨a, f, e⟩], rfl, List.forall_mem_singleton.mpr rfl⟩
  | _ => exact hsame

/-- The calculations on rows that stand behind an operation are added behind those before it. -/
theorem exists_preCalcs_ofStatement {s : Statement} {before after : List Operation}
    {f : AggregateFn} {e : Expr} {n : String}
    (hs : s.operations = before ++ .aggregate f e n :: after) :
    ∃ l, (ofStatement s).preCalcs = (upTo s before).preCalcs ++ l ∧
      ∀ c ∈ l, c.aliasName ∈ after.filterMap Operation.calcAlias? := by
  obtain ⟨l, hl, hafter⟩ := exists_append_foldl (namesNeeded s) exists_preCalcs_add after
    (p := add (namesNeeded s) (upTo s before) (.aggregate f e n))
  refine ⟨l, ?_, fun c hc => List.mem_filterMap.mpr ⟨c.operation, hafter c hc, rfl⟩⟩
  show (folded s).preCalcs = _
  rw [folded, hs, List.foldl_append, List.foldl_cons]
  exact hl

/-- An aggregate stands behind those before it. -/
theorem exists_aggregates_ofStatement {s : Statement} {before after : List Operation}
    {f : AggregateFn} {e : Expr} {n : String}
    (hs : s.operations = before ++ .aggregate f e n :: after) :
    ∃ l, (ofStatement s).aggregates = (upTo s before).aggregates ++ ⟨n, f, e⟩ :: l := by
  obtain ⟨l, hl, -⟩ := exists_append_foldl (namesNeeded s) exists_aggregates_add after
    (p := add (namesNeeded s) (upTo s before) (.aggregate f e n))
  refine ⟨l, ?_⟩
  show (folded s).aggregates = _
  rw [folded, hs, List.foldl_append, List.foldl_cons]
  exact hl.trans (List.append_assoc _ _ _)

end Plan

namespace Sql

variable {d : Snapshot} {p p' : Plan} {as as' : Aliases} {needed needed' : List String}
  {n : String}

/-! ## Definitions -/

/-- The definitions of the aliases of a plan. -/
def definitions (d : Snapshot) (p : Plan) : Settled Aliases := do
  let rows ← defineCalcs d [] p.preCalcs
  let groups ← defineAggregates d rows p.aggregates
  defineCalcs d groups p.postCalcs

/-- The text that the query of a statement has for an alias. -/
def aliasText (d : Snapshot) (s : Statement) (n : String) : Settled (Option String) :=
  (definitions d (Plan.ofStatement s)).map fun as => (as.find? n).map fun t => termText t.term

/-- An emitted query comes from the definitions of its plan. -/
theorem Emits.definitions_eq {q : Query} {rows groups : Aliases}
    {windows : List (String × WindowTerm)} (h : Emits d p q rows groups as windows) :
    definitions d p = .ok as :=
  bind_eq_ok.mpr ⟨rows, h.calcs, bind_eq_ok.mpr ⟨groups, h.aggregates, h.lateCalcs⟩⟩

/-- Defining two lists of calculations is defining one and then the other. -/
theorem defineCalcs_append {cs cs' : List Calc} : defineCalcs d as (cs ++ cs') = .ok as' ↔
    ∃ bs, defineCalcs d as cs = .ok bs ∧ defineCalcs d bs cs' = .ok as' := by
  induction cs generalizing as with
  | nil =>
    constructor
    · intro h
      exact ⟨as, rfl, h⟩
    · rintro ⟨bs, h, h'⟩
      cases h
      exact h'
  | cons c cs ih =>
    simp only [List.cons_append, defineCalcs_cons, ih]
    constructor
    · rintro ⟨t, ht, bs, hbs, h⟩
      exact ⟨bs, ⟨t, ht, hbs⟩, h⟩
    · rintro ⟨bs, ⟨t, ht, hbs⟩, h⟩
      exact ⟨t, ht, bs, hbs, h⟩

/-- Defining two lists of aggregates is defining one and then the other. -/
theorem defineAggregates_append {l l' : List Aggregate} :
    defineAggregates d as (l ++ l') = .ok as' ↔
      ∃ bs, defineAggregates d as l = .ok bs ∧ defineAggregates d bs l' = .ok as' := by
  induction l generalizing as with
  | nil =>
    constructor
    · intro h
      exact ⟨as, rfl, h⟩
    · rintro ⟨bs, h, h'⟩
      cases h
      exact h'
  | cons a l ih =>
    simp only [List.cons_append, defineAggregates_cons, ih]
    constructor
    · rintro ⟨t, ht, bs, hbs, h⟩
      exact ⟨bs, ⟨t, ht, hbs⟩, h⟩
    · rintro ⟨bs, ⟨t, ht, hbs⟩, h⟩
      exact ⟨t, ht, bs, hbs, h⟩

theorem find?_cons_of_ne {a : String} {t : AliasTerm} (h : n ≠ a) :
    Aliases.find? ((a, t) :: as) n = as.find? n := by
  rw [find?_cons, if_neg h.symm]

/-- Defining calculations leaves every other name as it was. -/
theorem find?_defineCalcs {cs : List Calc} (h : defineCalcs d as cs = .ok as')
    (hn : n ∉ cs.map Calc.aliasName) : as'.find? n = as.find? n := by
  induction cs generalizing as with
  | nil =>
    cases h
    rfl
  | cons c cs ih =>
    rw [List.map_cons, List.mem_cons, not_or] at hn
    obtain ⟨t, -, h⟩ := defineCalcs_cons.mp h
    rw [ih h hn.2, find?_cons_of_ne hn.1]

/-- Defining aggregates leaves every other name as it was. -/
theorem find?_defineAggregates {l : List Aggregate} (h : defineAggregates d as l = .ok as')
    (hn : n ∉ l.map Aggregate.aliasName) : as'.find? n = as.find? n := by
  induction l generalizing as with
  | nil =>
    cases h
    rfl
  | cons a l ih =>
    rw [List.map_cons, List.mem_cons, not_or] at hn
    obtain ⟨t, -, h⟩ := defineAggregates_cons.mp h
    rw [ih h hn.2, find?_cons_of_ne hn.1]

/-- Definitions that agree on the names that an expression reads agree on its fields. -/
theorem field_eq_of_find? {e : Expr} (h : ∀ n ∈ e.bareNames, as.find? n = as'.find? n) :
    ∀ r ∈ e.fields, as.field r = as'.field r := by
  rintro ⟨q, n⟩ hr
  cases q with
  | some q => rfl
  | none =>
    rw [Aliases.field, Aliases.field, h n (mem_bareNames.mpr hr)]

/-! ## Calculations on rows -/

/-- The second plan has no aggregate yet, and the calculations of both agree on every name that does
not wait for the aggregation in the first one. -/
structure RowsAgree (d : Snapshot) (p p' : Plan) : Prop where
  aggregates : p'.aggregates = []
  postCalcs : p'.postCalcs = []
  rows : ∀ {as as' : Aliases}, defineCalcs d [] p.preCalcs = .ok as →
    defineCalcs d [] p'.preCalcs = .ok as' → ∀ n, n ∉ p.postAliases → as.find? n = as'.find? n

/-- The last of some calculations is defined over the ones in front of it. -/
theorem defineCalcs_concat {cs : List Calc} {c : Calc} :
    defineCalcs d as (cs ++ [c]) = .ok as' ↔ ∃ bs, defineCalcs d as cs = .ok bs ∧
      ∃ t, Term.ofExpr (scope d bs) c.expression = .ok t ∧
        (c.aliasName, ⟨t, isCompound c.expression⟩) :: bs = as' := by
  rw [defineCalcs_append]
  refine exists_congr fun bs => and_congr_right fun _ => ?_
  rw [defineCalcs_cons]
  exact exists_congr fun t => and_congr_right fun _ => ⟨Except.ok.inj, congrArg Except.ok⟩

/-- A calculation that both plans take in on the rows, or that waits in the first one only. -/
theorem RowsAgree.add_calculate (h : RowsAgree d p p') (e : Expr) (a : String) :
    RowsAgree d (p.add needed (.calculate e a)) (p'.add needed' (.calculate e a)) := by
  rw [Plan.add_calculate_early h.aggregates h.postCalcs]
  refine ⟨h.aggregates, h.postCalcs, ?_⟩
  intro as as' has has' n hn
  obtain ⟨bs', hbs', t', ht', rfl⟩ := defineCalcs_concat.mp has'
  rw [Plan.add] at has hn
  split at has
  · next hwaits =>
    rw [if_pos hwaits] at hn
    have hpost : n ∉ p.postAliases ∧ n ≠ a := by
      simpa [Plan.postAliases, not_or, and_assoc] using hn
    rw [find?_cons_of_ne hpost.2]
    exact h.rows has hbs' n hpost.1
  · next hstays =>
    rw [if_neg hstays] at hn
    obtain ⟨bs, hbs, t, ht, rfl⟩ := defineCalcs_concat.mp has
    -- What the calculation reads does not wait, so both plans have defined it in the same way.
    have hreads : ∀ m ∈ e.bareNames, bs.find? m = bs'.find? m := fun m hm =>
      h.rows hbs hbs' m (Plan.not_mem_postAliases ((Bool.not_eq_true _).mp hstays) hm)
    obtain ⟨u, hu, heq⟩ := exists_ofExpr bs'.field e t ht
    obtain rfl : u = t := heq (field_eq_of_find? hreads)
    obtain rfl : u = t' := Except.ok.inj (hu.symm.trans ht')
    rw [find?_cons, find?_cons, h.rows hbs hbs' n hn]

/-- An aggregate that the second plan leaves out. -/
theorem RowsAgree.add_aggregate (h : RowsAgree d p p') (f : AggregateFn) (e : Expr) (a : String) :
    RowsAgree d (p.add needed (.aggregate f e a)) p' := by
  refine ⟨h.aggregates, h.postCalcs, ?_⟩
  intro as as' has has' n hn
  refine h.rows has has' n fun hmem => hn ?_
  rw [Plan.postAliases, List.mem_append] at hmem ⊢
  exact hmem.imp_left fun hm => List.map_subset _ (List.subset_append_left _ _) hm

/-- **Behind operations and those of them that are no aggregates, plans agree on rows.** -/
theorem RowsAgree.foldl (h : RowsAgree d p p') (ops : List Operation) :
    RowsAgree d (ops.foldl (Plan.add needed) p)
      ((ops.filter fun op => !op.isAggregate).foldl (Plan.add needed') p') := by
  induction ops generalizing p p' with
  | nil => exact h
  | cons op ops ih =>
    cases op with
    | aggregate f e a => exact ih (h.add_aggregate f e a)
    | calculate e a => exact ih (h.add_calculate e a)
    | join s c => exact ih ⟨h.aggregates, h.postCalcs, h.rows⟩
    | window g x pb ob a => exact ih ⟨h.aggregates, h.postCalcs, h.rows⟩
    | select l => exact ih ⟨h.aggregates, h.postCalcs, h.rows⟩

/-! ## Aggregates -/

/-- **An aggregate of a plan has the term that the calculations before it give it**, if it reads
neither aggregates before it nor calculations behind it. -/
theorem exists_aggregateTerm_of_definitions {s : Statement} {before after : List Operation}
    {f : AggregateFn} {e : Expr} (h : definitions d (Plan.ofStatement s) = .ok as)
    (hs : s.operations = before ++ .aggregate f e n :: after) (hd : s.aliases.Nodup)
    (hbefore : ∀ m ∈ e.bareNames, m ∉ (Plan.upTo s before).aggregates.map Aggregate.aliasName)
    (hafter : ∀ m ∈ e.bareNames, m ∉ after.filterMap Operation.calcAlias?) :
    ∃ rows t, defineCalcs d [] (Plan.upTo s before).preCalcs = .ok rows ∧
      aggregateTerm (scope d rows) ⟨n, f, e⟩ = .ok t ∧ as.find? n = some ⟨t, false⟩ := by
  obtain ⟨calcs, hcalcs, hcalcsAfter⟩ := Plan.exists_preCalcs_ofStatement hs
  obtain ⟨aggs, haggs⟩ := Plan.exists_aggregates_ofStatement hs
  obtain ⟨all, hall, h⟩ := bind_eq_ok.mp h
  obtain ⟨groups, hgroups, hpost⟩ := bind_eq_ok.mp h
  rw [hcalcs] at hall
  obtain ⟨rows, hrows, hall⟩ := defineCalcs_append.mp hall
  rw [haggs] at hgroups
  obtain ⟨some, hsome, hgroups⟩ := defineAggregates_append.mp hgroups
  obtain ⟨t, ht, hgroups⟩ := defineAggregates_cons.mp hgroups
  -- Later definitions are under other aliases.
  have hnew : n ∉ aggs.map Aggregate.aliasName ∧
      n ∉ (Plan.ofStatement s).postCalcs.map Calc.aliasName := by
    have hnodup := (Plan.aliases_ofStatement s).nodup_iff.mpr hd
    have hpost := (List.nodup_append.mp (List.nodup_append.mp hnodup).1).2.1
    rw [Plan.postAliases, haggs, List.map_append, List.map_cons, List.append_assoc,
      List.cons_append] at hpost
    have hn := (List.nodup_cons.mp (List.nodup_append.mp hpost).2.1).1
    rwa [List.mem_append, not_or] at hn
  have hread : ∀ m ∈ e.bareNames, some.find? m = rows.find? m := by
    intro m hm
    rw [find?_defineAggregates hsome (hbefore m hm), find?_defineCalcs hall]
    intro hmem
    obtain ⟨c, hc, rfl⟩ := List.mem_map.mp hmem
    exact hafter _ hm (hcalcsAfter c hc)
  obtain ⟨u, hu, heq⟩ := exists_aggregateTerm rows ht
  obtain rfl : u = t := heq (field_eq_of_find? hread)
  refine ⟨rows, u, hrows, hu, ?_⟩
  rw [find?_defineCalcs hpost hnew.2, find?_defineAggregates hgroups hnew.1, find?_cons,
    if_pos rfl]

end Sql

/-! ## Valid statements -/

namespace Check

variable {d : Snapshot} {rules : Rules} {s : Statement} {before after : List Operation}
  {f : AggregateFn} {e : Expr} {n : String}

/-- A statement with code has definitions of its aliases. -/
theorem exists_definitions {code : String} (h : s.generate .sql d = .ok code) :
    ∃ as, Sql.definitions d (Plan.ofStatement s) = .ok as := by
  obtain ⟨q, hq, -⟩ := Sql.generate_eq_ok.mp h
  obtain ⟨rows, groups, as, windows, he⟩ := Sql.exists_emits hq
  exact ⟨as, he.definitions_eq⟩

/-- In a valid statement an aggregate that reads rows reads no calculation behind it. -/
theorem not_mem_laterCalcs (hp : Passes s d)
    (hs : s.operations = before ++ .aggregate f e n :: after)
    (hr : s.ReadsRows d before e after) :
    ∀ m ∈ e.bareNames, m ∉ after.filterMap Operation.calcAlias? := by
  intro m hm hmem
  have hlater : m ∈ after.filterMap Operation.alias? := by
    obtain ⟨op, hop, hcalc⟩ := List.mem_filterMap.mp hmem
    refine List.mem_filterMap.mpr ⟨op, hop, ?_⟩
    cases op with
    | calculate x a => exact hcalc
    | _ => cases hcalc
  have hearlier : m ∉ before.filterMap Operation.alias? := by
    have hnodup := hp.nodup
    rw [Statement.aliases, hs, List.filterMap_append] at hnodup
    intro hb
    exact (List.nodup_append.mp hnodup).2.2 m hb m (List.mem_cons_of_mem n hlater) rfl
  exact hr.after m hm (isColumn_of_mem_later hp hs rfl hm hearlier hlater) hmem

/-- **In a valid statement the text of an aggregate that reads rows of the source is the one that it
has without the other aggregates.** -/
theorem aliasText_withOnly {code : String} (hv : (s.check d rules).valid = true)
    (hs : s.operations = before ++ .aggregate f e n :: after) (hr : s.ReadsRows d before e after)
    (hg : s.generate .sql d = .ok code) :
    ∃ code' t, (s.withOnly n).generate .sql d = .ok code' ∧
      Sql.aliasText d s n = .ok (some t) ∧ Sql.aliasText d (s.withOnly n) n = .ok (some t) := by
  have hp := valid_iff.mp hv
  have hs' := s.operations_withOnly hp.nodup hs
  have hnodup' := hp.nodup.sublist (s.aliases_withOnly_sublist n)
  obtain ⟨hops, hfilter⟩ := exists_generate_iff.mp ⟨code, hg⟩
  obtain ⟨code', hg'⟩ : ∃ code', (s.withOnly n).generate .sql d = .ok code' :=
    exists_generate_iff.mpr ⟨fun op hop => hops op (List.mem_filter.mp hop).1, hfilter⟩
  obtain ⟨as, has⟩ := exists_definitions hg
  obtain ⟨as', has'⟩ := exists_definitions hg'
  have hafter := not_mem_laterCalcs hp hs hr
  -- Without the other aggregates nothing is added behind the aggregation before this one.
  have hagree : Sql.RowsAgree d (Plan.upTo s before)
      (Plan.upTo (s.withOnly n) (before.filter fun op => !op.isAggregate)) :=
    Sql.RowsAgree.foldl ⟨rfl, rfl, fun h h' _ _ => by rw [Except.ok.inj (h.symm.trans h')]⟩ before
  obtain ⟨rows, t, hrows, ht, hfind⟩ := Sql.exists_aggregateTerm_of_definitions has hs hp.nodup
    (fun m hm hmem => hr.before m hm (List.mem_append_left _ hmem)) hafter
  obtain ⟨rows', t', hrows', ht', hfind'⟩ :=
    Sql.exists_aggregateTerm_of_definitions has' hs' hnodup'
      (fun m _ hmem => by rw [hagree.aggregates] at hmem; cases hmem)
      (fun m hm hmem => hafter m hm ((List.filter_sublist.filterMap _).subset hmem))
  obtain ⟨u, hu, heq⟩ := Sql.exists_aggregateTerm rows' ht
  obtain rfl : u = t := heq (Sql.field_eq_of_find? fun m hm =>
    hagree.rows hrows hrows' m (hr.before m hm))
  obtain rfl : u = t' := Except.ok.inj (hu.symm.trans ht')
  refine ⟨code', Sql.termText u, hg', ?_, ?_⟩
  · rw [Sql.aliasText, has]
    exact congrArg Except.ok (congrArg (Option.map fun t => Sql.termText t.term) hfind)
  · rw [Sql.aliasText, has']
    exact congrArg Except.ok (congrArg (Option.map fun t => Sql.termText t.term) hfind')

/-- The total of a column and the average of a product of others, by region. -/
def averageValue : List Char :=
  "transform S to T as sum(x) as t, price * size as value, avg(value) as m grouped by k".toList

/-- What stands before the average. -/
def beforeAverage : List Operation :=
  [.aggregate .sum (.field none "x") "t",
   .calculate (.binary .multiply (.field none "price") (.field none "size")) "value"]

theorem aliasText_withOnly_averageValue : ∃ s, Statement.parse averageValue = .ok s ∧
    (s.check .empty {}).valid = true ∧
    s.operations = beforeAverage ++ [.aggregate .avg (.field none "value") "m"] ∧
    s.ReadsRows .empty beforeAverage (.field none "value") [] ∧
    s.generate .sql .empty =
      .ok "SELECT k, SUM(x) AS t, AVG((price * size)) AS m FROM S GROUP BY k" ∧
    ∃ code t, (s.withOnly "m").generate .sql .empty = .ok code ∧
      Sql.aliasText .empty s "m" = .ok (some t) ∧
      Sql.aliasText .empty (s.withOnly "m") "m" = .ok (some t) := by
  obtain ⟨s, hs, h⟩ := exists_parse averageValue rfl
    (fun _ s => (s.check .empty {}).valid &&
      decide (s.operations = beforeAverage ++ [.aggregate .avg (.field none "value") "m"]) &&
      decide (s.ReadsRows .empty beforeAverage (.field none "value") []) &&
      decide ((s.generate .sql .empty).toOption =
        some "SELECT k, SUM(x) AS t, AVG((price * size)) AS m FROM S GROUP BY k"))
    (by decide +kernel)
  simp only [Bool.and_eq_true, decide_eq_true_iff] at h
  obtain ⟨⟨⟨hv, hops⟩, hr⟩, hcode⟩ := h
  have hg := eq_ok_of_toOption hcode
  exact ⟨s, hs, hv, hops, hr, hg, aliasText_withOnly hv hops hr hg⟩

/-- The total of the prices under the name of the column, and the largest price. -/
def totalAndLargest : List Char :=
  "show price, max(price) as top from S by k".toList

/-- An aggregate that stands before another one can change its text: its alias is inlined, though the
name is that of a column. -/
theorem aliasText_ne_of_totalAndLargest : ∃ s, Statement.parse totalAndLargest = .ok s ∧
    (s.check .empty {}).valid = true ∧
    Sql.aliasText .empty s "top" = .ok (some "MAX(SUM(price))") ∧
    Sql.aliasText .empty (s.withOnly "top") "top" = .ok (some "MAX(price)") := by
  obtain ⟨s, hs, h⟩ := exists_parse totalAndLargest rfl
    (fun _ s => (s.check .empty {}).valid &&
      decide ((Sql.aliasText .empty s "top").toOption = some (some "MAX(SUM(price))")) &&
      decide ((Sql.aliasText .empty (s.withOnly "top") "top").toOption =
        some (some "MAX(price)")))
    (by decide +kernel)
  simp only [Bool.and_eq_true, decide_eq_true_iff] at h
  exact ⟨s, hs, h.1.1, eq_ok_of_toOption h.1.2, eq_ok_of_toOption h.2⟩

end Check

end DataPhrase
