/-
# Names that queries mention

A query mentions a name as a bare identifier if it writes it without a source. Settling names
replaces every field by what it stands for and adds no name of its own (`bareNames_ofExpr`).
-/
import DataPhrase.Code.Sql
import DataPhrase.Proofs.Settled
import DataPhrase.Proofs.Validation.Names

namespace DataPhrase

open Code

/-! ## Names without sources -/

/-- The name of a reference that has no source. -/
def FieldRef.bareName? : FieldRef → Option String
  | (none, n) => some n
  | (some _, _) => none

/-- The names that an expression reads without a source. -/
def Expr.bareNames (e : Expr) : List String :=
  e.fields.filterMap FieldRef.bareName?

/-- The names that a condition reads without a source. -/
def Condition.bareNames (c : Condition) : List String :=
  c.fields.filterMap FieldRef.bareName?

/-- The names that an operation reads without a source. -/
def Operation.bareNames (op : Operation) : List String :=
  (Check.mentions op).filterMap FieldRef.bareName?

/-- The name itself, if it is written without a source. -/
def writtenBareNames (n : String) : List String :=
  (FieldRef.bareName? (Check.splitName n)).toList

namespace Code

mutual

/-- The names that a term mentions as bare identifiers. The texts of templates are not looked at. -/
def Term.bareNames : Term → List String
  | .literal _ | .column (some _) _ | .star | .countRows => []
  | .column none n => [n]
  | .written n => writtenBareNames n
  | .call _ args | .template _ args => Term.bareNamesAll args
  | .aggregate _ e | .percentile _ e _ | .negate e | .group e => e.bareNames
  | .binary _ l r => l.bareNames ++ r.bareNames

/-- The names that terms mention as bare identifiers. -/
def Term.bareNamesAll : List Term → List String
  | [] => []
  | e :: r => e.bareNames ++ Term.bareNamesAll r

end

mutual

/-- The names that a condition mentions as bare identifiers. -/
def Cond.bareNames : Cond → List String
  | .isNull _ e | .holds e => e.bareNames
  | .compare _ l r => l.bareNames ++ r.bareNames
  | .logical _ cs => Cond.bareNamesAll cs
  | .not c => c.bareNames

/-- The names that conditions mention as bare identifiers. -/
def Cond.bareNamesAll : List Cond → List String
  | [] => []
  | c :: r => c.bareNames ++ Cond.bareNamesAll r

end

end Code

namespace Sql

/-- The names that a window function mentions. -/
def WindowCall.bareNames : WindowCall → List String
  | .sum e | .lag e _ | .lead e _ => e.bareNames
  | .rowNumber | .rank | .denseRank | .percentRank => []

/-- The names that a window mentions. -/
def WindowTerm.bareNames (w : WindowTerm) : List String :=
  w.call.bareNames ++ (w.partitionBy ++ w.orderBy.map Prod.fst).flatMap Term.bareNames

/-- The names that a column mentions, its alias apart. -/
def Column.bareNames : Column → List String
  | .all => []
  | .plain n => writtenBareNames n
  | .term e _ => e.bareNames
  | .window w _ => w.bareNames

/-- The alias of a column. -/
def Column.alias? : Column → Option String
  | .all | .plain _ => none
  | .term _ a | .window _ a => some a

/-- The names that the clauses of a query mention as bare identifiers, `ORDER BY` apart. -/
def Query.bareNames (q : Query) : List String :=
  q.columns.flatMap Column.bareNames ++ q.joins.flatMap (fun j => j.2.bareNames) ++
    q.filters.flatMap Cond.bareNames ++ (q.period.map fun t => t.1.bareNames).getD [] ++
    q.group.flatMap Term.bareNames ++ q.having.flatMap Cond.bareNames

end Sql

/-! ## Settling -/

namespace Code

variable {sc : Scope} {t : Term}

theorem bareNames_applyTemplate {n : String} {x : Template} {args : List Term}
    (h : applyTemplate n x args = .ok t) : t.bareNames = Term.bareNamesAll args := by
  rw [applyTemplate] at h
  split at h
  · cases h
  · cases h
    rfl

theorem bareNames_callTerm {n : String} {args : List Term} (h : callTerm sc n args = .ok t) :
    t.bareNames = Term.bareNamesAll args := by
  obtain ⟨o, -, h⟩ := bind_eq_ok.mp h
  split at h
  · exact bareNames_applyTemplate h
  · cases h
    rfl

theorem bareNames_metricTerm {sec n : String} (h : metricTerm sc sec n = .ok t) :
    t.bareNames = [] := by
  rw [metricTerm] at h
  split at h
  · obtain ⟨x, hx, rfl⟩ := map_eq_ok.mp h
    exact bareNames_applyTemplate hx
  · cases h

theorem bareNames_percentileTerm {e : Term} {x : Number} (h : percentileTerm sc e x = .ok t) :
    t.bareNames = e.bareNames := by
  obtain ⟨o, -, h⟩ := bind_eq_ok.mp h
  split at h
  · split at h
    · cases h
    · cases h
      rfl
  · cases h

mutual

/-- **A term mentions the names that the fields of its expression stand for.** -/
theorem bareNames_ofExpr (e : Expr) (t : Term) (h : Term.ofExpr sc e = .ok t) :
    t.bareNames = e.fields.flatMap fun r => (sc.field r).bareNames := by
  cases e with
  | literal v =>
    cases h
    rfl
  | field q n =>
    cases h
    exact (List.append_nil _).symm
  | metric sec n => exact bareNames_metricTerm h
  | call n args =>
    obtain ⟨ts, hts, h⟩ := bind_eq_ok.mp h
    rw [bareNames_callTerm h]
    exact bareNames_ofExprs args ts hts
  | binary op l r =>
    obtain ⟨tl, hl, h⟩ := bind_eq_ok.mp h
    obtain ⟨tr, hr, h⟩ := bind_eq_ok.mp h
    cases h
    rw [Term.bareNames, Expr.fields, List.flatMap_append, bareNames_ofExpr l tl hl,
      bareNames_ofExpr r tr hr]
  | negate e =>
    obtain ⟨te, he, h⟩ := bind_eq_ok.mp h
    cases h
    exact bareNames_ofExpr e te he
  | star =>
    cases h
    rfl

theorem bareNames_ofExprs (es : List Expr) (ts : List Term) (h : Term.ofExprs sc es = .ok ts) :
    Term.bareNamesAll ts = (Expr.fieldsAll es).flatMap fun r => (sc.field r).bareNames := by
  cases es with
  | nil =>
    cases h
    rfl
  | cons e es =>
    obtain ⟨te, he, h⟩ := bind_eq_ok.mp h
    obtain ⟨tes, hes, h⟩ := bind_eq_ok.mp h
    cases h
    rw [Term.bareNamesAll, Expr.fieldsAll, List.flatMap_append, bareNames_ofExpr e te he,
      bareNames_ofExprs es tes hes]

end

theorem bareNames_ofComparison {l r : Expr} {op : CompareOp} {c : Cond}
    (h : Cond.ofComparison sc l op r = .ok c) :
    c.bareNames = (l.fields ++ r.fields).flatMap fun r => (sc.field r).bareNames := by
  unfold Cond.ofComparison at h
  rw [List.flatMap_append]
  split at h
  · obtain ⟨tl, hl, h⟩ := bind_eq_ok.mp h
    cases h
    rw [Cond.bareNames, bareNames_ofExpr l tl hl]
    exact (List.append_nil _).symm
  · obtain ⟨tl, hl, h⟩ := bind_eq_ok.mp h
    cases h
    rw [Cond.bareNames, bareNames_ofExpr l tl hl]
    exact (List.append_nil _).symm
  · obtain ⟨tl, hl, h⟩ := bind_eq_ok.mp h
    obtain ⟨tr, hr, h⟩ := bind_eq_ok.mp h
    cases h
    rw [Cond.bareNames, bareNames_ofExpr l tl hl, bareNames_ofExpr r tr hr]

mutual

/-- A condition of a query mentions the names that the fields of its condition stand for. -/
theorem bareNames_ofCondition (c : Condition) (x : Cond) (h : Cond.ofCondition sc c = .ok x) :
    x.bareNames = c.fields.flatMap fun r => (sc.field r).bareNames := by
  cases c with
  | comparison l op r =>
    rw [bareNames_ofComparison h, Condition.fields, Condition.exprs, List.flatMap_cons,
      List.flatMap_singleton]
  | logical op cs =>
    obtain ⟨xs, hxs, h⟩ := bind_eq_ok.mp h
    cases h
    exact bareNames_ofConditions cs xs hxs
  | not c =>
    obtain ⟨y, hy, h⟩ := bind_eq_ok.mp h
    cases h
    exact bareNames_ofCondition c y hy
  | call n args =>
    obtain ⟨ts, hts, h⟩ := bind_eq_ok.mp h
    obtain ⟨t, ht, h⟩ := bind_eq_ok.mp h
    cases h
    rw [Cond.bareNames, bareNames_callTerm ht, bareNames_ofExprs args ts hts, Expr.fieldsAll_eq]
    rfl

theorem bareNames_ofConditions (cs : List Condition) (xs : List Cond)
    (h : Cond.ofConditions sc cs = .ok xs) :
    Cond.bareNamesAll xs =
      ((Condition.exprsAll cs).flatMap Expr.fields).flatMap fun r => (sc.field r).bareNames := by
  cases cs with
  | nil =>
    cases h
    rfl
  | cons c cs =>
    obtain ⟨x, hx, h⟩ := bind_eq_ok.mp h
    obtain ⟨ys, hys, h⟩ := bind_eq_ok.mp h
    cases h
    rw [Cond.bareNamesAll, Condition.exprsAll, List.flatMap_append, List.flatMap_append,
      bareNames_ofCondition c x hx, bareNames_ofConditions cs ys hys]
    rfl

end

end Code

end DataPhrase
