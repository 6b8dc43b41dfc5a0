/-
# Parts of a query

A query is settled part by part: first the aliases, phase after phase, then the conditions and
windows, which see all of them. `Emits` lists what each part comes from.
-/
import DataPhrase.Code.Sql
import DataPhrase.Proofs.Settled

namespace DataPhrase.Sql

open Code

variable {d : Snapshot} {p : Plan} {q : Query} {as as' : Aliases}

/-! ## Definitions of aliases -/

theorem defineCalcs_cons {c : Calc} {cs : List Calc} :
    defineCalcs d as (c :: cs) = .ok as' ↔
      ∃ t, Term.ofExpr (scope d as) c.expression = .ok t ∧
        defineCalcs d ((c.aliasName, ⟨t, isCompound c.expression⟩) :: as) cs = .ok as' := by
  rw [defineCalcs, bind_eq_ok]

theorem defineAggregates_cons {a : Aggregate} {l : List Aggregate} :
    defineAggregates d as (a :: l) = .ok as' ↔
      ∃ t, aggregateTerm (scope d as) a = .ok t ∧
        defineAggregates d ((a.aliasName, ⟨t, false⟩) :: as) l = .ok as' := by
  rw [defineAggregates, bind_eq_ok]

theorem find?_cons (a : String) (t : AliasTerm) (as : Aliases) (n : String) :
    Aliases.find? ((a, t) :: as) n = if a = n then some t else as.find? n := by
  rw [Aliases.find?, List.find?_cons]
  by_cases h : a = n
  · rw [if_pos h, beq_iff_eq.mpr h]
    rfl
  · rw [if_neg h, beq_eq_false_iff_ne.mpr h]
    rfl

/-! ## Windows -/

/-- What the function of a window is applied to, if it reads a field. -/
def WindowCall.field? : WindowCall → Option Term
  | .sum e | .lag e _ | .lead e _ => some e
  | .rowNumber | .rank | .denseRank | .percentRank => none

theorem windowField_of_windowCall {sc : Scope} {w : Window} {c : WindowCall} {t : Term}
    (h : windowCall sc w = .ok c) (ht : c.field? = some t) : windowField sc w = .ok t := by
  rw [windowCall] at h
  split at h
  -- The four ranking functions have no field.
  iterate 4
    · cases h
      cases ht
  all_goals
    obtain ⟨e, he, rfl⟩ := map_eq_ok.mp h
    cases ht
    exact he

/-- A window in a query has its call settled, and its keys as they are written. -/
theorem windowTerm_eq_ok {w : Window} {t : WindowTerm} (h : windowTerm d as w = .ok t) :
    windowCall (scope d as) w = .ok t.call ∧ t.partitionBy ++ t.orderBy.map Prod.fst =
      (w.partitionBy ++ w.orderBy.map OrderItem.field).map as.written := by
  obtain ⟨c, hc, h⟩ := bind_eq_ok.mp h
  cases h
  refine ⟨hc, ?_⟩
  rw [List.map_append, List.map_map, List.map_map]
  rfl

/-! ## Periods -/

/-- The text of the length of a period. -/
def intervalText (p : Period) : String :=
  match p.unit with
  | .quarter => "INTERVAL '" ++ toString p.months ++ " month'"
  | unit => "INTERVAL '" ++ toString p.amount ++ " " ++ unit.name ++ "'"

/-- The conditions that a field lies in a period. -/
def periodTests (field : String) (p : Period) : List String :=
  let start := "DATE_TRUNC('" ++ p.unit.name ++ "', CURRENT_DATE)"
  match p.alignment with
  | .calendar => [field ++ " >= " ++ start ++ " - " ++ intervalText p, field ++ " < " ++ start]
  | .rolling => [field ++ " >= CURRENT_DATE - " ++ intervalText p]
  | .toDate => [field ++ " >= " ++ start]

theorem periodText_eq (field : String) (p : Period) :
    periodText field p = " AND ".intercalate (periodTests field p) := by
  rw [periodText, periodTests]
  cases p.alignment with
  | calendar =>
    rw [String.intercalate_cons_of_ne_nil (List.cons_ne_nil _ _), String.intercalate_singleton]
    have hassoc (a start : String) :
        a ++ " AND " ++ field ++ " < " ++ start = a ++ " AND " ++ (field ++ " < " ++ start) := by
      simp only [String.append_assoc]
    exact hassoc _ _
  | rolling => exact String.intercalate_singleton.symm
  | toDate => exact String.intercalate_singleton.symm

/-! ## Parts -/

/-- What the parts of a query come from: the aliases of calculations on rows, those of aggregates
added, and all; the windows, the newest first; and the conditions, settled under all aliases. -/
structure Emits (d : Snapshot) (p : Plan) (q : Query) (rows groups as : Aliases)
    (windows : List (String × WindowTerm)) : Prop where
  calcs : defineCalcs d [] p.preCalcs = .ok rows
  aggregates : defineAggregates d rows p.aggregates = .ok groups
  lateCalcs : defineCalcs d groups p.postCalcs = .ok as
  terms : List.Forall₂ (fun w x => windowTerm d as w = .ok x.2 ∧ w.aliasName = x.1) p.windows
    windows.reverse
  columns : q.columns = columnsOf p (column as windows)
  joins : List.Forall₂ (fun j x => Cond.ofCondition (scope d as) j.condition = .ok x.2) p.joins
    q.joins
  filters : List.Forall₂ (fun c x => Cond.ofCondition (scope d as) c = .ok x) p.preFilter q.filters
  having : List.Forall₂ (fun c x => Cond.ofCondition (scope d as) c = .ok x) p.postFilter q.having
  period : q.period = p.period.map fun t => (as.written t.field, t)
  group : q.group = p.group.map as.written
  order : q.order = p.order

theorem exists_emits (h : Query.ofPlan d p = .ok q) :
    ∃ rows groups as windows, Emits d p q rows groups as windows := by
  unfold Query.ofPlan at h
  obtain ⟨rows, hrows, h⟩ := bind_eq_ok.mp h
  obtain ⟨groups, hgroups, h⟩ := bind_eq_ok.mp h
  obtain ⟨as, has, h⟩ := bind_eq_ok.mp h
  obtain ⟨windows, hwindows, h⟩ := bind_eq_ok.mp h
  obtain ⟨joins, hjoins, h⟩ := bind_eq_ok.mp h
  obtain ⟨filters, hfilters, h⟩ := bind_eq_ok.mp h
  obtain ⟨having, hhaving, h⟩ := bind_eq_ok.mp h
  cases h
  refine ⟨rows, groups, as, windows, hrows, hgroups, has, ?_, rfl, ?_, forall₂_of_mapM hfilters,
    forall₂_of_mapM hhaving, rfl, rfl, rfl⟩
  · obtain ⟨terms, hterms, h⟩ := bind_eq_ok.mp hwindows
    cases h
    rw [List.reverse_reverse]
    refine (forall₂_of_mapM hterms).imp ?_
    intro w x hx
    obtain ⟨t, ht, rfl⟩ := map_eq_ok.mp hx
    exact ⟨ht, rfl⟩
  · refine (forall₂_of_mapM hjoins).imp ?_
    intro j x hx
    obtain ⟨c, hc, rfl⟩ := map_eq_ok.mp hx
    exact hc

/-- A column of a query is all of the source or the column of a name. -/
theorem mem_columnsOf {f : String → Column} {c : Column} (h : c ∈ columnsOf p f) :
    c = .all ∨ ∃ n, c = f n := by
  have hmap {α : Type} {l : List α} {g : α → String} (h : c ∈ l.map fun a => f (g a)) :
      ∃ n, c = f n := by
    obtain ⟨a, -, rfl⟩ := List.mem_map.mp h
    exact ⟨g a, rfl⟩
  rw [columnsOf] at h
  split at h
  · exact Or.inr (hmap h)
  · rcases List.mem_append.mp h with h | h
    · split at h
      · exact Or.inr (hmap h)
      · rcases List.mem_cons.mp h with rfl | h
        · exact Or.inl rfl
        · exact Or.inr (hmap h)
    · exact Or.inr (hmap h)

/-- The code of a plan is the text of its query. -/
theorem generate_eq_ok {code : String} :
    generate d p = .ok code ↔ ∃ q, Query.ofPlan d p = .ok q ∧ q.text = code :=
  map_eq_ok

end DataPhrase.Sql
