/-
# How deep aggregates are nested

The depth of a term is the largest number of aggregate calls around one of its parts. Settling names
keeps depths: a term is as deep as the expression it comes from, given the depths of what its fields
stand for (`depth_ofExpr`).
-/
import DataPhrase.Code.Resolve
import DataPhrase.Proofs.Settled
import DataPhrase.Validation.Check

namespace DataPhrase

open Code

/-! ## Calls of aggregates -/

namespace Template

/-- The text begins with a word that calls an aggregate and an opening parenthesis. -/
def opensAggregate (s : List Char) : Bool :=
  AggregateFn.words.any fun w =>
    w.1.toList.isPrefixOf (Text.lower s) &&
      ((s.drop w.1.length).dropWhile Text.isBlank).head? == some '('

/-- An aggregate is called in the text that follows the character `before`. -/
def callsAfter (before : Option Char) : List Char → Bool
  | [] => false
  | c :: r => (!before.any Text.isNameChar && opensAggregate (c :: r)) || callsAfter (some c) r

/-- The template calls an aggregate. -/
def callsAggregate (t : Template) : Bool :=
  callsAfter none t.text.toList

end Template

/-- No metric is registered, and no function has a template that calls an aggregate. -/
structure Snapshot.AggregateFree (d : Snapshot) : Prop where
  metrics : ∀ e ∈ d.entries, e.definition.category ≠ .metric
  functions : ∀ e ∈ d.entries, e.definition.category = .function →
    ∀ t ∈ e.template .sql, t.callsAggregate = false

/-- A call of that name is emitted as a call of an aggregate: no function of the dictionary has the
name. -/
def Snapshot.emitsAggregate (d : Snapshot) (name : String) : Bool :=
  (AggregateFn.ofName? name).isSome && (d.functions name).isEmpty

/-! ## Terms and conditions -/

namespace Code

mutual

/-- How deep aggregates are nested in a term. -/
def Term.depth : Term → Nat
  | .literal _ | .column _ _ | .written _ | .star => 0
  | .countRows => 1
  | .aggregate _ e | .percentile _ e _ => e.depth + 1
  | .call n args => Term.depthAll args + (AggregateFn.ofName? n).isSome.toNat
  | .template t args => Term.depthAll args + t.callsAggregate.toNat
  | .binary _ l r => max l.depth r.depth
  | .negate e | .group e => e.depth

/-- How deep aggregates are nested in a list of terms. -/
def Term.depthAll : List Term → Nat
  | [] => 0
  | e :: r => max e.depth (Term.depthAll r)

end

mutual

/-- How deep aggregates are nested in a condition. -/
def Cond.depth : Cond → Nat
  | .isNull _ e | .holds e => e.depth
  | .compare _ l r => max l.depth r.depth
  | .logical _ cs => Cond.depthAll cs
  | .not c => c.depth

/-- How deep aggregates are nested in a list of conditions. -/
def Cond.depthAll : List Cond → Nat
  | [] => 0
  | c :: r => max c.depth (Cond.depthAll r)

end

end Code

/-! ## Expressions and conditions of statements -/

section Source

variable (d : Snapshot) (f : FieldRef → Nat)

mutual

/-- How deep aggregates are nested in an expression whose fields have the depths `f`. -/
def Expr.depth : Expr → Nat
  | .literal _ | .metric _ _ | .star => 0
  | .field q n => f (q, n)
  | .call n args => Expr.depthAll args + (d.emitsAggregate n).toNat
  | .binary _ l r => max l.depth r.depth
  | .negate e => e.depth

/-- How deep aggregates are nested in a list of expressions. -/
def Expr.depthAll : List Expr → Nat
  | [] => 0
  | e :: r => max e.depth (Expr.depthAll r)

end

mutual

/-- How deep aggregates are nested in a condition whose fields have the depths `f`. -/
def Condition.depth : Condition → Nat
  | .comparison l _ r => max (l.depth d f) (r.depth d f)
  | .logical _ cs => Condition.depthAll cs
  | .not c => c.depth
  | .call n args => Expr.depthAll d f args + (d.emitsAggregate n).toNat

/-- How deep aggregates are nested in a list of conditions. -/
def Condition.depthAll : List Condition → Nat
  | [] => 0
  | c :: r => max c.depth (Condition.depthAll r)

end

end Source

/-! ## Settling keeps depths -/

namespace Code

variable {d : Snapshot} {field : FieldRef → Term} {f : FieldRef → Nat} {t : Term}

/-- A call is deeper than its arguments if it is emitted as a call of an aggregate. -/
theorem depth_callTerm (hd : d.AggregateFree) {n : String} {args : List Term}
    (h : callTerm ⟨.sql, d, field⟩ n args = .ok t) :
    t.depth = Term.depthAll args + (d.emitsAggregate n).toNat := by
  rw [callTerm, functionTemplate] at h
  split at h
  · next hn =>
    cases h
    have hempty : d.functions n = [] := hn
    rw [Term.depth, Snapshot.emitsAggregate, hempty, List.isEmpty_nil, Bool.and_true]
  · next es hne =>
    split at h
    · next t' ht =>
      obtain ⟨e, he, hte⟩ := List.exists_of_findSome?_eq_some ht
      have hmem := List.mem_filter.mp he
      have hcat := beq_iff_eq.mp ((Bool.and_eq_true _ _).mp hmem.2).1
      have hcalls := hd.functions e hmem.1 hcat t' hte
      have hemits : d.emitsAggregate n = false := by
        rw [Snapshot.emitsAggregate, List.isEmpty_eq_false_iff.mpr hne, Bool.and_false]
      change applyTemplate n t' args = .ok t at h
      rw [applyTemplate] at h
      split at h
      · cases h
      · cases h
        rw [Term.depth, hcalls, hemits]
    · cases h

theorem not_metricTerm (hd : d.AggregateFree) {sec n : String} :
    metricTerm ⟨.sql, d, field⟩ sec n ≠ .ok t := by
  have hnone : ((d.lookup sec n).filter fun e => e.definition.category == .metric) = none := by
    rw [Option.filter_eq_none_iff]
    intro e he hm
    exact hd.metrics e (List.mem_of_find?_eq_some he) (beq_iff_eq.mp hm)
  rw [metricTerm, hnone]
  exact fun h => nomatch h

mutual

/-- **A term is as deep as the expression it comes from.** -/
theorem depth_ofExpr (hd : d.AggregateFree) (hf : ∀ r, (field r).depth = f r) (e : Expr) (t : Term)
    (h : Term.ofExpr ⟨.sql, d, field⟩ e = .ok t) : t.depth = e.depth d f := by
  cases e with
  | literal v =>
    cases h
    rfl
  | field q n =>
    cases h
    exact hf (q, n)
  | metric sec n => exact absurd h (not_metricTerm hd)
  | call n args =>
    rw [Term.ofExpr] at h
    obtain ⟨ts, hts, h⟩ := bind_eq_ok.mp h
    rw [depth_callTerm hd h, depth_ofExprs hd hf args ts hts, Expr.depth]
  | binary op l r =>
    rw [Term.ofExpr] at h
    obtain ⟨tl, hl, h⟩ := bind_eq_ok.mp h
    obtain ⟨tr, hr, h⟩ := bind_eq_ok.mp h
    cases h
    rw [Term.depth, Expr.depth, depth_ofExpr hd hf l tl hl, depth_ofExpr hd hf r tr hr]
  | negate e =>
    rw [Term.ofExpr] at h
    obtain ⟨te, he, h⟩ := bind_eq_ok.mp h
    cases h
    rw [Term.depth, Expr.depth, depth_ofExpr hd hf e te he]
  | star =>
    cases h
    rfl

theorem depth_ofExprs (hd : d.AggregateFree) (hf : ∀ r, (field r).depth = f r) (es : List Expr)
    (ts : List Term) (h : Term.ofExprs ⟨.sql, d, field⟩ es = .ok ts) :
    Term.depthAll ts = Expr.depthAll d f es := by
  cases es with
  | nil =>
    cases h
    rfl
  | cons e es =>
    rw [Term.ofExprs] at h
    obtain ⟨te, he, h⟩ := bind_eq_ok.mp h
    obtain ⟨tes, hes, h⟩ := bind_eq_ok.mp h
    cases h
    rw [Term.depthAll, Expr.depthAll, depth_ofExpr hd hf e te he, depth_ofExprs hd hf es tes hes]

end

theorem depth_ofComparison (hd : d.AggregateFree) (hf : ∀ r, (field r).depth = f r) {l r : Expr}
    {op : CompareOp} {c : Cond} (h : Cond.ofComparison ⟨.sql, d, field⟩ l op r = .ok c) :
    c.depth = max (l.depth d f) (r.depth d f) := by
  unfold Cond.ofComparison at h
  split at h
  · obtain ⟨tl, hl, h⟩ := bind_eq_ok.mp h
    cases h
    rw [Cond.depth, depth_ofExpr hd hf l tl hl]
    exact (Nat.max_zero _).symm
  · obtain ⟨tl, hl, h⟩ := bind_eq_ok.mp h
    cases h
    rw [Cond.depth, depth_ofExpr hd hf l tl hl]
    exact (Nat.max_zero _).symm
  · obtain ⟨tl, hl, h⟩ := bind_eq_ok.mp h
    obtain ⟨tr, hr, h⟩ := bind_eq_ok.mp h
    cases h
    rw [Cond.depth, depth_ofExpr hd hf l tl hl, depth_ofExpr hd hf r tr hr]

mutual

/-- A condition of a query is as deep as the condition it comes from. -/
theorem depth_ofCondition (hd : d.AggregateFree) (hf : ∀ r, (field r).depth = f r) (c : Condition)
    (x : Cond) (h : Cond.ofCondition ⟨.sql, d, field⟩ c = .ok x) : x.depth = c.depth d f := by
  cases c with
  | comparison l op r =>
    rw [Condition.depth]
    exact depth_ofComparison hd hf h
  | logical op cs =>
    rw [Cond.ofCondition] at h
    obtain ⟨xs, hxs, h⟩ := bind_eq_ok.mp h
    cases h
    rw [Cond.depth, Condition.depth, depth_ofConditions hd hf cs xs hxs]
  | not c =>
    rw [Cond.ofCondition] at h
    obtain ⟨y, hy, h⟩ := bind_eq_ok.mp h
    cases h
    rw [Cond.depth, Condition.depth, depth_ofCondition hd hf c y hy]
  | call n args =>
    rw [Cond.ofCondition] at h
    obtain ⟨ts, hts, h⟩ := bind_eq_ok.mp h
    obtain ⟨t, ht, h⟩ := bind_eq_ok.mp h
    cases h
    rw [Cond.depth, Condition.depth, depth_callTerm hd ht, depth_ofExprs hd hf args ts hts]

theorem depth_ofConditions (hd : d.AggregateFree) (hf : ∀ r, (field r).depth = f r)
    (cs : List Condition) (xs : List Cond) (h : Cond.ofConditions ⟨.sql, d, field⟩ cs = .ok xs) :
    Cond.depthAll xs = Condition.depthAll d f cs := by
  cases cs with
  | nil =>
    cases h
    rfl
  | cons c cs =>
    rw [Cond.ofConditions] at h
    obtain ⟨x, hx, h⟩ := bind_eq_ok.mp h
    obtain ⟨ys, hys, h⟩ := bind_eq_ok.mp h
    cases h
    rw [Cond.depthAll, Condition.depthAll, depth_ofCondition hd hf c x hx,
      depth_ofConditions hd hf cs ys hys]

end

end Code

/-! ## Calls and fields -/

/-- The names that a condition calls: in its expressions, and for parts of its own. -/
def Condition.callNames (c : Condition) : List String :=
  c.exprs.flatMap Check.callNames ++ Check.conditionCalls c

section Source

variable {d : Snapshot} {f : FieldRef → Nat} {k : Nat}

mutual

/-- An expression that calls no aggregate is as deep as the deepest of its fields. -/
theorem Expr.depth_le_iff (e : Expr) (hc : ∀ c ∈ e.calls, d.emitsAggregate c.1 = false) :
    e.depth d f ≤ k ↔ ∀ r ∈ e.fields, f r ≤ k := by
  cases e with
  | field q n => rw [Expr.depth, Expr.fields, List.forall_mem_singleton]
  | call n args =>
    rw [Expr.calls, List.forall_mem_cons] at hc
    rw [Expr.depth, hc.1]
    exact Expr.depthAll_le_iff args hc.2
  | binary op l r =>
    rw [Expr.calls, List.forall_mem_append] at hc
    rw [Expr.depth, Expr.fields, List.forall_mem_append, Nat.max_le, Expr.depth_le_iff l hc.1,
      Expr.depth_le_iff r hc.2]
  | negate e => exact Expr.depth_le_iff e hc
  | literal | metric | star => exact iff_of_true (Nat.zero_le k) (List.forall_mem_nil _)

theorem Expr.depthAll_le_iff (es : List Expr)
    (hc : ∀ c ∈ Expr.callsAll es, d.emitsAggregate c.1 = false) :
    Expr.depthAll d f es ≤ k ↔ ∀ r ∈ Expr.fieldsAll es, f r ≤ k := by
  cases es with
  | nil => exact iff_of_true (Nat.zero_le k) (List.forall_mem_nil _)
  | cons e es =>
    rw [Expr.callsAll, List.forall_mem_append] at hc
    rw [Expr.depthAll, Expr.fieldsAll, List.forall_mem_append, Nat.max_le,
      Expr.depth_le_iff e hc.1, Expr.depthAll_le_iff es hc.2]

end

/-- Expressions that call no aggregates are no deeper than their fields. -/
theorem Expr.depthAll_le_of_callNames (es : List Expr)
    (hc : ∀ n ∈ es.flatMap Check.callNames, d.emitsAggregate n = false)
    (hf : ∀ r ∈ es.flatMap Expr.fields, f r ≤ k) : Expr.depthAll d f es ≤ k := by
  induction es with
  | nil => exact Nat.zero_le k
  | cons e es ih =>
    rw [List.flatMap_cons, List.forall_mem_append] at hc hf
    rw [Expr.depthAll]
    refine Nat.max_le.mpr ⟨(Expr.depth_le_iff e ?_).mpr hf.1, ih hc.2 hf.2⟩
    intro c hmem
    exact hc.1 c.1 (List.mem_map_of_mem hmem)

mutual

/-- A condition that calls no aggregate is no deeper than its fields. -/
theorem Condition.depth_le (c : Condition) (hc : ∀ n ∈ c.callNames, d.emitsAggregate n = false)
    (hf : ∀ r ∈ c.fields, f r ≤ k) : c.depth d f ≤ k := by
  cases c with
  | comparison l op r =>
    have h := Expr.depthAll_le_of_callNames [l, r] (List.forall_mem_append.mp hc).1 hf
    rwa [Expr.depthAll, Expr.depthAll, Expr.depthAll, Nat.max_zero] at h
  | logical op cs => exact Condition.depthAll_le cs hc hf
  | not c => exact Condition.depth_le c hc hf
  | call n args =>
    rw [Condition.callNames, List.forall_mem_append] at hc
    rw [Condition.depth, hc.2 n (List.mem_singleton_self n)]
    exact Expr.depthAll_le_of_callNames args hc.1 hf

theorem Condition.depthAll_le (cs : List Condition)
    (hc : ∀ n ∈ (Condition.exprsAll cs).flatMap Check.callNames ++ Check.conditionCallsAll cs,
      d.emitsAggregate n = false)
    (hf : ∀ r ∈ (Condition.exprsAll cs).flatMap Expr.fields, f r ≤ k) :
    Condition.depthAll d f cs ≤ k := by
  cases cs with
  | nil => exact Nat.zero_le k
  | cons c cs =>
    rw [Condition.exprsAll, List.flatMap_append, Check.conditionCallsAll] at hc
    rw [Condition.exprsAll, List.flatMap_append, List.forall_mem_append] at hf
    simp only [List.forall_mem_append] at hc
    obtain ⟨⟨h1, h2⟩, h3, h4⟩ := hc
    rw [Condition.depthAll]
    refine Nat.max_le.mpr ⟨Condition.depth_le c ?_ hf.1, Condition.depthAll_le cs ?_ hf.2⟩
    · exact List.forall_mem_append.mpr ⟨h1, h3⟩
    · exact List.forall_mem_append.mpr ⟨h2, h4⟩

end

end Source

end DataPhrase
