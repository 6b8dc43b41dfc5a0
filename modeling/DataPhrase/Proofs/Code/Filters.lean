/-
# Filters in target code

A query filters rows behind `WHERE` and `HAVING`, a pipe by verbs with conditions as arguments, and
a chain in the brackets of its steps. What stands there has the meaning of the conditions of the
plan before and behind its aggregates, and these are together the filter of the statement
(`filters_of_isFilled`).
-/
import DataPhrase.Code.Generate
import DataPhrase.Proofs.Code.Available
import DataPhrase.Proofs.Code.Meaning
import DataPhrase.Proofs.Code.Query
import DataPhrase.Proofs.Plan

namespace DataPhrase

open Code Script Logic Rows.Algebra

variable {d : Snapshot} {p : Plan}

/-! ## Queries -/

namespace Sql

variable {q : Query}

/-- What stands behind `WHERE`, if anything does. -/
def Query.whereTexts (q : Query) : List String :=
  joined " AND " (q.filters.map (Cond.conjunctText style) ++
    (q.period.map fun t => periodText (termText t.1) t.2).toList)

/-- What stands behind `HAVING`, if anything does. -/
def Query.havingTexts (q : Query) : List String :=
  joined " AND " (q.having.map (Cond.conjunctText style))

/-- The conditions of the period of a query. -/
def Query.periodTests (q : Query) : List String :=
  (q.period.map fun t => Sql.periodTests (termText t.1) t.2).getD []

/-- What stands in front of the conditions on rows: columns, sources and joins. -/
def Query.frontText (q : Query) : String :=
  "SELECT " ++ commas (q.columns.map Column.text) ++ " FROM " ++ qualified q.source ++
    String.join (q.joins.map fun j =>
      " INNER JOIN " ++ qualified j.1 ++ " ON " ++ j.2.text style)

/-- What stands between the conditions on rows and those on groups: the keys, if there are any. -/
def Query.groupText (q : Query) : String :=
  clause " GROUP BY " ", " (q.group.map termText)

/-- What stands behind the conditions on groups: sort keys and limit, if there are any. -/
def Query.backText (q : Query) : String :=
  clause " ORDER BY " ", " (q.order.map fun o => keyText (qualified o.field) o.direction) ++
    match q.limit with
    | some n => " LIMIT " ++ toString n
    | none => ""

/-- A clause is its opening with the joined parts, if there are any. -/
theorem clause_eq_join (opening separator : String) (parts : List String) :
    clause opening separator parts =
      String.join ((joined separator parts).map (opening ++ ·)) := by
  rw [clause, joined]
  split
  · rfl
  · rw [List.map_singleton]
    exact String.empty_append.symm

/-- The text of a query from its front to its back. -/
theorem text_eq (q : Query) : q.text =
    q.frontText ++ String.join (q.whereTexts.map (" WHERE " ++ ·)) ++ q.groupText ++
      String.join (q.havingTexts.map (" HAVING " ++ ·)) ++ q.backText := by
  have hrows := clause_eq_join " WHERE " " AND " (q.filters.map (Cond.conjunctText style) ++
    (q.period.map fun t => periodText (termText t.1) t.2).toList)
  have hgroups := clause_eq_join " HAVING " " AND " (q.having.map (Cond.conjunctText style))
  unfold Query.whereTexts Query.havingTexts
  rw [← hrows, ← hgroups]
  unfold Query.text Query.frontText Query.groupText Query.backText
  cases q.limit <;> simp only [String.append_assoc]

/-- A period has at least one condition. -/
theorem periodTests_ne_nil (field : String) (t : Period) : periodTests field t ≠ [] := by
  rw [periodTests]
  cases t.alignment <;> exact List.cons_ne_nil _ _

/-- The conditions of a period stand in the row of the others. -/
theorem whereTexts_eq (q : Query) :
    q.whereTexts = joined " AND " (q.filters.map (Cond.conjunctText style) ++ q.periodTests) := by
  rw [Query.whereTexts, Query.periodTests]
  cases q.period with
  | none => rfl
  | some t =>
    rw [Option.map_some, Option.map_some, Option.toList_some, Option.getD_some, periodText_eq]
    exact joined_append_intercalate _ (periodTests_ne_nil _ _)

/-- What stands behind `WHERE`, up to the keys, and behind `HAVING`, up to the sort keys, has the
meaning of the conditions of the plan, before and behind the aggregates, and of the period. -/
def Query.FiltersAs (q : Query) (d : Snapshot) (p : Plan) : Prop :=
  q.text = q.frontText ++ String.join (q.whereTexts.map (" WHERE " ++ ·)) ++ q.groupText ++
      String.join (q.havingTexts.map (" HAVING " ++ ·)) ++ q.backText ∧
    ∃ as, Means style (scope d as) q.whereTexts p.preFilter q.periodTests ∧
      Means style (scope d as) q.havingTexts p.postFilter []

/-- **A query filters by the conditions of its plan.** -/
theorem filtersAs_ofPlan (h : Query.ofPlan d p = .ok q) (hpre : ∀ c ∈ p.preFilter, c.IsFilled)
    (hpost : ∀ c ∈ p.postFilter, c.IsFilled) : q.FiltersAs d p := by
  obtain ⟨_, _, as, _, he⟩ := exists_emits h
  refine ⟨text_eq q, as, ?_, ?_⟩
  · rw [whereTexts_eq]
    exact means_joined hpre he.filters q.periodTests
  · have hmeans : Means style _ (joined " AND " _) _ _ := means_joined hpost he.having []
    rw [List.append_nil] at hmeans
    exact hmeans

end Sql

/-! ## Pipes -/

/-- The conditions of the period of a plan in a script. -/
def Script.Columns.periodTests (c : Columns) (period : Option Period) : List String :=
  (period.map fun t => Script.periodTests (c.written t.field) t).getD []

theorem Script.periodTests_ne_nil (field : String) (t : Period) :
    Script.periodTests field t ≠ [] := by
  rw [periodTests]
  cases t.alignment <;> exact List.cons_ne_nil _ _

namespace Pipe

variable {x : Script} {c : Columns} {sc : Scope}

/-- The arguments of a verb that keeps rows. -/
def Step.filterTexts? : Step → Option (List String)
  | .filter conditions period =>
    some (conditions.map (Cond.text style) ++
      (period.map fun t => Script.periodTests t.1 t.2).getD [])
  | _ => none

/-- The arguments of the verbs that keep rows, verb by verb. -/
def filterTexts (steps : List Step) : List (List String) :=
  steps.filterMap Step.filterTexts?

theorem filterTexts_append (l r : List Step) :
    filterTexts (l ++ r) = filterTexts l ++ filterTexts r :=
  List.filterMap_append

/-- Verbs that keep every row have no arguments of this kind. -/
theorem filterTexts_of_forall {steps : List Step} (h : ∀ st ∈ steps, st.filterTexts? = none) :
    filterTexts steps = [] :=
  List.filterMap_eq_nil_iff.mpr h

/-- The verb of conditions and a period has them as arguments, if there are any. -/
theorem filterTexts_filterSteps (conditions : List Cond) (period : Option (String × Period)) :
    filterTexts (filterSteps conditions period) =
      [conditions.map (Cond.text style) ++
        (period.map fun t => Script.periodTests t.1 t.2).getD []].filter (!·.isEmpty) := by
  rw [filterSteps]
  split
  · next h =>
    rw [Bool.and_eq_true, List.isEmpty_iff, Option.isNone_iff_eq_none] at h
    obtain ⟨rfl, rfl⟩ := h
    rfl
  · next h =>
    -- A verb that is there has an argument: a condition, or a test of the period.
    symm
    refine List.filter_eq_self.mpr fun l hl => ?_
    obtain rfl := List.mem_singleton.mp hl
    rw [Bool.not_eq_true', List.isEmpty_eq_false_iff, ne_eq, List.append_eq_nil_iff,
      List.map_eq_nil_iff]
    rintro ⟨rfl, hperiod⟩
    cases period with
    | none => exact h rfl
    | some t => exact Script.periodTests_ne_nil _ _ hperiod

/-- Calculations keep every row. -/
theorem filterTexts_mutateSteps (columns : List (String × Term)) :
    filterTexts (mutateSteps columns) = [] := by
  cases columns <;> rfl

/-- Aggregates have no conditions of their own. -/
theorem filterTexts_aggregateSteps (keys : List String) (columns : List (String × Term)) :
    filterTexts (aggregateSteps keys columns) = [] := by
  rw [aggregateSteps]
  split
  · split <;> rfl
  · split <;> rfl

/-- Windows keep every row. -/
theorem filterTexts_windowSteps {w : Window} {steps : List Step}
    (h : windowSteps c sc w = .ok steps) : filterTexts steps = [] := by
  obtain ⟨call, -, h⟩ := bind_eq_ok.mp h
  cases h
  rw [filterTexts_append, filterTexts_append, filterTexts_append]
  have hif {b : Bool} {step : Step} (hstep : step.filterTexts? = none) :
      filterTexts (if b = true then [step] else []) = [] := by
    cases b with
    | false => rfl
    | true => exact filterTexts_of_forall (List.forall_mem_singleton.mpr hstep)
  rw [hif rfl, hif rfl, hif rfl]
  rfl

/-- The call of the verb that keeps rows. -/
def filterCall (args : List String) : String :=
  "filter(" ++ commas args ++ ")"

/-- A verb that keeps rows stands in its own text. -/
theorem shows_step (st : Step) : Shows st.text (st.filterTexts?.map filterCall).toList := by
  cases st with
  | filter conditions period => exact shows_self _
  | _ => exact shows_nil _

/-- The verbs that keep rows stand in the joined text in order. -/
theorem shows_steps (separator : String) (steps : List Step) :
    Shows (separator.intercalate (steps.map Step.text)) ((filterTexts steps).map filterCall) := by
  induction steps with
  | nil => exact shows_nil _
  | cons st steps ih =>
    have hcons : (filterTexts (st :: steps)).map filterCall =
        (st.filterTexts?.map filterCall).toList ++ (filterTexts steps).map filterCall := by
      rw [filterTexts, List.filterMap_cons]
      cases st.filterTexts? <;> rfl
    rw [hcons, List.map_cons]
    cases steps with
    | nil =>
      have hnone : (filterTexts []).map filterCall = [] := rfl
      rw [List.map_nil, String.intercalate_singleton, hnone, List.append_nil]
      exact shows_step st
    | cons st' steps =>
      have hne : (st' :: steps).map Step.text ≠ [] := List.cons_ne_nil _ _
      rw [String.intercalate_cons_of_ne_nil hne]
      exact ((shows_step st).extend separator).append ih

/-- What filters rows stands in the text of the pipe. -/
theorem shows_text (x : Script) : Shows x.text ((filterTexts x.steps).map filterCall) := by
  rw [Script.text]
  cases hsteps : x.steps with
  | nil => exact shows_nil _
  | cons st steps =>
    have hne : (st :: steps).map Step.text ≠ [] := List.cons_ne_nil _ _
    rw [String.intercalate_cons_of_ne_nil hne]
    exact (shows_steps _ (st :: steps)).prepend _

/-- The verbs of a pipe that keep rows are those of the two filters of its plan. -/
theorem filterTexts_ofPlan (h : Script.ofPlan d p = .ok x) :
    ∃ pre post, p.preFilter.mapM (Cond.ofCondition ((Columns.ofPlan d p).scope .dataFramePipe)) =
        .ok pre ∧
      p.postFilter.mapM (Cond.ofCondition ((Columns.ofPlan d p).scope .dataFramePipe)) = .ok post ∧
      filterTexts x.steps = [pre.map (Cond.text style) ++ (Columns.ofPlan d p).periodTests p.period,
        post.map (Cond.text style)].filter (!·.isEmpty) := by
  unfold Script.ofPlan at h
  obtain ⟨joins, hjoins, h⟩ := bind_eq_ok.mp h
  obtain ⟨preCalcs, -, h⟩ := bind_eq_ok.mp h
  obtain ⟨pre, hpre, h⟩ := bind_eq_ok.mp h
  obtain ⟨aggregates, -, h⟩ := bind_eq_ok.mp h
  obtain ⟨postCalcs, -, h⟩ := bind_eq_ok.mp h
  obtain ⟨post, hpost, h⟩ := bind_eq_ok.mp h
  obtain ⟨windows, hwindows, h⟩ := bind_eq_ok.mp h
  cases h
  -- All verbs but those of the two filters keep every row.
  have hjoined : filterTexts joins = [] := by
    refine filterTexts_of_forall fun step hstep => ?_
    obtain ⟨j, -, hj⟩ := exists_mem_of_forall₂ (forall₂_of_mapM hjoins) hstep
    obtain ⟨ks, -, rfl⟩ := map_eq_ok.mp hj
    rfl
  have hwindowed : filterTexts windows.flatten = [] := by
    refine filterTexts_of_forall fun step hstep => ?_
    obtain ⟨steps, hsteps, hmem⟩ := List.mem_flatten.mp hstep
    obtain ⟨w, -, hw⟩ := exists_mem_of_forall₂ (forall₂_of_mapM hwindows) hsteps
    exact List.filterMap_eq_nil_iff.mp (filterTexts_windowSteps hw) step hmem
  have hselected : filterTexts (p.select.map fun names =>
      Step.select (names.map (Columns.ofPlan d p).written)).toList = [] := by
    cases p.select <;> rfl
  have hordered : filterTexts (if p.order.isEmpty then []
      else [.arrange (p.order.map (keyOf (Columns.ofPlan d p))) false]) = [] := by
    split <;> rfl
  have hlimited : filterTexts (p.limit.map Step.head).toList = [] := by
    cases p.limit <;> rfl
  refine ⟨pre, post, hpre, hpost, ?_⟩
  simp only [filterTexts_append, hjoined, filterTexts_mutateSteps, filterTexts_filterSteps,
    filterTexts_aggregateSteps, hwindowed, hselected, hordered, hlimited, List.nil_append,
    List.append_nil, Option.map_map, Option.map_none, Option.getD_none]
  exact (List.filter_append ..).symm

/-- The verbs that keep rows have two lists of arguments, of which empty ones are left out. These
have the meaning of the conditions of the plan, before and behind the aggregates, and of the
period. -/
def Script.FiltersAs (x : Script) (d : Snapshot) (p : Plan) : Prop :=
  Shows x.text ((filterTexts x.steps).map filterCall) ∧
    ∃ rows groups, filterTexts x.steps = [rows, groups].filter (!·.isEmpty) ∧
      Means style ((Columns.ofPlan d p).scope .dataFramePipe) rows p.preFilter
        ((Columns.ofPlan d p).periodTests p.period) ∧
      Means style ((Columns.ofPlan d p).scope .dataFramePipe) groups p.postFilter []

/-- **A pipe filters by the conditions of its plan.** -/
theorem filtersAs_ofPlan (h : Script.ofPlan d p = .ok x) (hpre : ∀ c ∈ p.preFilter, c.IsFilled)
    (hpost : ∀ c ∈ p.postFilter, c.IsFilled) : x.FiltersAs d p := by
  obtain ⟨pre, post, hpre', hpost', htexts⟩ := filterTexts_ofPlan h
  refine ⟨shows_text x, _, _, htexts, means_each hpre (forall₂_of_mapM hpre') _, ?_⟩
  have hmeans : Means style _ (post.map (Cond.text style) ++ _) _ _ :=
    means_each hpost (forall₂_of_mapM hpost') []
  rw [List.append_nil] at hmeans
  exact hmeans

end Pipe

/-! ## Chains -/

namespace Frame

variable {t t' : Table} {c : Columns} {sc : Scope}

/-- The text of conditions on rows, if there is any. -/
def Tests.texts (tests : Tests) : List String :=
  [tests.text].filter (!·.isEmpty)

/-- The texts in the places of a table that keep rows, step by step, with what closes them: the
bracket, or the columns of the step. -/
def Table.rowPlaces : Table → List (String × String)
  | .source _ => []
  | .merge t _ _ _ | .copy t | .assign t _ _ | .window t _ _ _ _ | .project t _ | .order t _
  | .head t _ => t.rowPlaces
  | .rows t tests => t.rowPlaces ++ tests.texts.map (·, "]")
  | .aggregate t tests _ _ | .unique t tests _ => t.rowPlaces ++ tests.texts.map (·, ", .(")

/-- A place that keeps rows, from bracket to end. -/
def placeText (x : String × String) : String :=
  "[" ++ x.1 ++ x.2

/-- The texts in the places of a table that keep rows. -/
def Table.rowTexts (t : Table) : List String :=
  t.rowPlaces.map Prod.fst

theorem map_fst_close (l : List String) (ending : String) :
    (l.map (·, ending)).map Prod.fst = l := by
  rw [List.map_map]
  exact List.map_id l

theorem Table.rowTexts_rows (t : Table) (tests : Tests) :
    (t.rows tests).rowTexts = t.rowTexts ++ tests.texts := by
  rw [rowTexts, rowPlaces, List.map_append, map_fst_close, rowTexts]

theorem Table.rowTexts_aggregate (t : Table) (tests : Tests) (columns : List (String × Term))
    (keys : List String) : (t.aggregate tests columns keys).rowTexts = t.rowTexts ++ tests.texts := by
  rw [rowTexts, rowPlaces, List.map_append, map_fst_close, rowTexts]

theorem Table.rowTexts_unique (t : Table) (tests : Tests) (keys : List String) :
    (t.unique tests keys).rowTexts = t.rowTexts ++ tests.texts := by
  rw [rowTexts, rowPlaces, List.map_append, map_fst_close, rowTexts]

/-- A place that keeps rows ends at the bracket or in front of the columns of its step. -/
theorem closing_of_mem_rowPlaces (t : Table) :
    ∀ x ∈ t.rowPlaces, x.2 = "]" ∨ x.2 = ", .(" := by
  have hclose {l : List (String × String)} {texts : List String} {ending : String}
      (hl : ∀ x ∈ l, x.2 = "]" ∨ x.2 = ", .(") (he : ending = "]" ∨ ending = ", .(") :
      ∀ x ∈ l ++ texts.map (·, ending), x.2 = "]" ∨ x.2 = ", .(" := by
    rintro x hx
    rcases List.mem_append.mp hx with hx | hx
    · exact hl x hx
    · obtain ⟨text, -, rfl⟩ := List.mem_map.mp hx
      exact he
  induction t with
  | source name => exact List.forall_mem_nil _
  | merge _ _ _ _ ih | copy _ ih | assign _ _ _ ih | window _ _ _ _ _ ih | project _ _ ih
  | order _ _ ih | head _ _ ih => exact ih
  | rows t tests ih => exact hclose ih (Or.inl rfl)
  | aggregate t tests columns keys ih => exact hclose ih (Or.inr rfl)
  | unique t tests keys ih => exact hclose ih (Or.inr rfl)

/-- Joined conditions are the text of a step, if there is any. -/
theorem filter_joined (conditions : List Cond) (period : Option (String × Period)) :
    (Logic.joined " & " (conditions.map (Cond.conjunctText style) ++
        (period.map fun t => Script.periodTests t.1 t.2).getD [])).filter (!·.isEmpty) =
      (Tests.mk conditions period).texts := by
  rw [Logic.joined, Tests.texts, Tests.text]
  split
  · next h =>
    rw [List.isEmpty_iff.mp h]
    rfl
  · rfl

/-- The conditions of a step stand in its brackets. -/
theorem shows_tests {s : String} {l : List String} (h : Shows s l) (tests : Tests)
    (ending : String) : Shows (s ++ "[" ++ tests.text ++ ending)
      (l ++ (tests.texts.map (·, ending)).map placeText) := by
  have hplace : s ++ "[" ++ tests.text ++ ending = s ++ ("[" ++ tests.text ++ ending) := by
    simp only [String.append_assoc]
  rw [hplace, Tests.texts, List.filter_cons]
  refine h.append ?_
  split
  · exact shows_self _
  · exact shows_nil _

/-- What filters rows stands in the text of the table. -/
theorem shows_text (t : Table) : Shows t.text (t.rowPlaces.map placeText) := by
  induction t with
  | source name => exact shows_nil _
  | merge t other left right ih => exact ((((ih.prepend _).extend _).extend _).extend _).extend _
  | copy t ih => exact (ih.prepend _).extend _
  | assign t aliasName e ih =>
    exact ((((ih.extend _).extend _).extend _).extend _).extend _
  | rows t tests ih =>
    rw [Table.rowPlaces, List.map_append]
    exact shows_tests ih tests _
  | aggregate t tests columns keys ih =>
    rw [Table.rowPlaces, List.map_append]
    exact ((((shows_tests ih tests _).extend _).extend _).extend _).extend _
  | unique t tests keys ih =>
    rw [Table.rowPlaces, List.map_append]
    exact ((shows_tests (ih.prepend _) tests _).extend _).extend _
  | window t order aliasName call keys ih =>
    exact (((((((ih.extend _).extend _).extend _).extend _).extend _).extend _).extend _).extend _
  | project t names ih => exact ((ih.extend _).extend _).extend _
  | order t keys ih => exact ((ih.extend _).extend _).extend _
  | head t n ih => exact (((ih.prepend _).extend _).extend _).extend _

/-- Assignments keep every row. -/
theorem rowTexts_assigned (columns : List (String × Term)) (t : Table) :
    (assigned columns t).rowTexts = t.rowTexts := by
  induction columns generalizing t with
  | nil => rfl
  | cons c columns ih => exact ih _

/-- Steps that keep all rows do so one after the other. -/
theorem rowTexts_foldlM {α : Type} {f : Table → α → Settled Table}
    (hf : ∀ t a t', f t a = .ok t' → t'.rowTexts = t.rowTexts) {l : List α}
    (h : l.foldlM f t = .ok t') : t'.rowTexts = t.rowTexts := by
  induction l generalizing t with
  | nil =>
    cases h
    rfl
  | cons a l ih =>
    rw [List.foldlM_cons] at h
    obtain ⟨t₁, h₁, h⟩ := bind_eq_ok.mp h
    rw [ih h, hf t a t₁ h₁]

/-- Joins have no conditions of this kind. -/
theorem rowTexts_joined {source : String} (t : Table) (j : Join) (t' : Table)
    (h : joined source t j = .ok t') : t'.rowTexts = t.rowTexts := by
  obtain ⟨ks, -, rfl⟩ := map_eq_ok.mp h
  rfl

theorem rowTexts_windowed (t : Table) (w : Window) (t' : Table)
    (h : windowed c sc t w = .ok t') : t'.rowTexts = t.rowTexts := by
  obtain ⟨call, -, rfl⟩ := map_eq_ok.mp h
  rfl

/-- The conditions in front of the aggregates stand where rows are reduced. -/
theorem rowTexts_reduced (tests : Tests) (columns : List (String × Term)) (keys : List String)
    (t : Table) : (reduced tests columns keys t).rowTexts = t.rowTexts ++ tests.texts := by
  rw [reduced]
  split
  · exact Table.rowTexts_aggregate t tests columns keys
  · split
    · exact Table.rowTexts_unique t tests keys
    · split
      · next h =>
        rw [Tests.texts, List.filter_cons_of_neg (by rw [h]; exact Bool.false_ne_true),
          List.filter_nil, List.append_nil]
      · exact Table.rowTexts_rows t tests

/-- The texts that keep rows are those of the two filters of the plan. -/
theorem rowTexts_ofPlan (h : Table.ofPlan d p = .ok t) :
    ∃ pre post, p.preFilter.mapM (Cond.ofCondition ((Columns.ofPlan d p).scope .tabularFrame)) =
        .ok pre ∧
      p.postFilter.mapM (Cond.ofCondition ((Columns.ofPlan d p).scope .tabularFrame)) = .ok post ∧
      t.rowTexts =
        Tests.texts ⟨pre, p.period.map fun t => ((Columns.ofPlan d p).written t.field, t)⟩ ++
          Tests.texts ⟨post, none⟩ := by
  unfold Table.ofPlan at h
  obtain ⟨base, hbase, h⟩ := bind_eq_ok.mp h
  obtain ⟨preCalcs, -, h⟩ := bind_eq_ok.mp h
  obtain ⟨pre, hpre, h⟩ := bind_eq_ok.mp h
  obtain ⟨aggregates, -, h⟩ := bind_eq_ok.mp h
  obtain ⟨postCalcs, -, h⟩ := bind_eq_ok.mp h
  obtain ⟨post, hpost, h⟩ := bind_eq_ok.mp h
  dsimp only at h
  obtain ⟨windows, hwindows, h⟩ := bind_eq_ok.mp h
  obtain rfl := Except.ok.inj h
  refine ⟨pre, post, hpre, hpost, ?_⟩
  -- Joining and copying keep every row, and so do assignments.
  have hsource :
      (if p.joins.isEmpty && assignsToSource p then base.copy else base).rowTexts = [] := by
    split <;> exact rowTexts_foldlM rowTexts_joined hbase
  generalize hreduced : reduced _ aggregates _ _ = groups at hwindows
  have hfiltered : (if post.isEmpty then assigned postCalcs groups
      else (assigned postCalcs groups).rows ⟨post, none⟩).rowTexts =
        groups.rowTexts ++ Tests.texts ⟨post, none⟩ := by
    split
    · next hnone =>
      rw [rowTexts_assigned, List.isEmpty_iff.mp hnone]
      exact (List.append_nil _).symm
    · rw [Table.rowTexts_rows, rowTexts_assigned]
  -- What follows the second filter keeps all rows.
  have hends : windows.rowTexts =
      Tests.texts ⟨pre, p.period.map fun t => ((Columns.ofPlan d p).written t.field, t)⟩ ++
        Tests.texts ⟨post, none⟩ := by
    rw [rowTexts_foldlM rowTexts_windowed hwindows, hfiltered, ← hreduced, rowTexts_reduced,
      rowTexts_assigned, hsource, List.nil_append]
  rw [← hends]
  have hselected : ∀ u : Table, u.rowTexts = windows.rowTexts →
      (if p.order.isEmpty then u else u.order (p.order.map (keyOf (Columns.ofPlan d p)))).rowTexts =
        windows.rowTexts := by
    intro u hu
    split <;> exact hu
  cases p.limit <;> cases p.select <;> exact hselected _ rfl

/-- The places of a table that keep rows, each from its bracket to the closing one or to the columns of
its step, have two lists of texts, of which empty ones are left out. These have the meaning of the
conditions of the plan, before and behind the aggregates, and of the period. -/
def Table.FiltersAs (t : Table) (d : Snapshot) (p : Plan) : Prop :=
  Shows t.text (t.rowPlaces.map placeText) ∧ (∀ x ∈ t.rowPlaces, x.2 = "]" ∨ x.2 = ", .(") ∧
    ∃ rows groups, t.rowTexts = (rows ++ groups).filter (!·.isEmpty) ∧
      Means style ((Columns.ofPlan d p).scope .tabularFrame) rows p.preFilter
        ((Columns.ofPlan d p).periodTests p.period) ∧
      Means style ((Columns.ofPlan d p).scope .tabularFrame) groups p.postFilter []

/-- **A chain filters by the conditions of its plan.** -/
theorem filtersAs_ofPlan (h : Table.ofPlan d p = .ok t) (hpre : ∀ c ∈ p.preFilter, c.IsFilled)
    (hpost : ∀ c ∈ p.postFilter, c.IsFilled) : t.FiltersAs d p := by
  obtain ⟨pre, post, hpre', hpost', htexts⟩ := rowTexts_ofPlan h
  refine ⟨shows_text t, closing_of_mem_rowPlaces t, _, _, ?_,
    means_joined hpre (forall₂_of_mapM hpre') _,
    means_joined hpost (forall₂_of_mapM hpost') []⟩
  rw [htexts, List.filter_append, ← filter_joined, ← filter_joined, Option.map_map]
  rfl

end Frame

/-! ## Statements -/

namespace Plan

/-- **The conditions before the aggregates and those behind them are together the filter.** -/
theorem conjunction_filters (s : Statement) (v : Condition → Option Bool) :
    conjunction [conjunction ((ofStatement s).preFilter.map (Condition.truth v)),
        conjunction ((ofStatement s).postFilter.map (Condition.truth v))] =
      conjunction (s.filter.toList.map (Condition.truth v)) := by
  rw [← connect_and, ← connect_append, ← List.map_append,
    connect_perm ((filters_perm s).map (Condition.truth v)), Statement.filterParts]
  cases s.filter with
  | none => rfl
  | some c =>
    rw [Option.toList_some, List.map_singleton, connect_singleton, Condition.truth_eq_conjuncts]
    rfl

end Plan

/-- **The code of a statement filters by the conditions of its plan, and these are together its
filter**, if no conjunction and no alternative in the filter is empty: whatever the truth of the
comparisons and calls, what stands in the places for conditions is true, false or unknown as the
conditions are. -/
theorem filters_of_isFilled (d : Snapshot) (s : Statement) (hs : ∀ c ∈ s.filter, c.IsFilled) :
    (∀ code, s.generate .sql d = .ok code →
      ∃ q, Sql.Query.ofPlan d (Plan.ofStatement s) = .ok q ∧ q.text = code ∧
        q.FiltersAs d (Plan.ofStatement s)) ∧
    (∀ code, s.generate .dataFramePipe d = .ok code →
      ∃ x, Pipe.Script.ofPlan d (Plan.ofStatement s) = .ok x ∧ x.text = code ∧
        x.FiltersAs d (Plan.ofStatement s)) ∧
    (∀ code, s.generate .tabularFrame d = .ok code →
      ∃ t, Frame.Table.ofPlan d (Plan.ofStatement s) = .ok t ∧
        t.code (Plan.ofStatement s).target = code ∧ t.FiltersAs d (Plan.ofStatement s)) ∧
    ∀ v, conjunction [conjunction ((Plan.ofStatement s).preFilter.map (Condition.truth v)),
        conjunction ((Plan.ofStatement s).postFilter.map (Condition.truth v))] =
      conjunction (s.filter.toList.map (Condition.truth v)) := by
  have hfilled {c : Condition}
      (hc : c ∈ (Plan.ofStatement s).preFilter ++ (Plan.ofStatement s).postFilter) :
      c.IsFilled := by
    obtain ⟨f, hf, hpart⟩ := Plan.exists_of_mem_filters hc
    exact (hs f hf).conjuncts c hpart
  have hpre : ∀ c ∈ (Plan.ofStatement s).preFilter, c.IsFilled := fun c hc =>
    hfilled (List.mem_append_left _ hc)
  have hpost : ∀ c ∈ (Plan.ofStatement s).postFilter, c.IsFilled := fun c hc =>
    hfilled (List.mem_append_right _ hc)
  refine ⟨fun code hcode => ?_, fun code hcode => ?_, fun code hcode => ?_,
    Plan.conjunction_filters s⟩
  · obtain ⟨q, hq, htext⟩ := map_eq_ok.mp hcode
    exact ⟨q, hq, htext, Sql.filtersAs_ofPlan hq hpre hpost⟩
  · obtain ⟨x, hx, htext⟩ := map_eq_ok.mp hcode
    exact ⟨x, hx, htext, Pipe.filtersAs_ofPlan hx hpre hpost⟩
  · obtain ⟨t, ht, htext⟩ := map_eq_ok.mp hcode
    exact ⟨t, ht, htext, Frame.filtersAs_ofPlan ht hpre hpost⟩

/-- The totals of the rows of two months that are open or not small, where they are large. -/
def largeOpen : Statement where
  pattern := .transformTo
  source := "S"
  target := some "T"
  operations := [.aggregate .sum (.plain "x") "t"]
  group := some ["k"]
  filter := some (.logical .and
    [.logical .or [.comparison (.plain "a") .eq (.literal (.text "open")),
        .not (.comparison (.plain "b") .lt (.plain "x"))],
      .comparison (.plain "t") .gt (.plain "k")])
  period := some ⟨"last 2 months", 2, .month, .calendar, "date"⟩

def largeOpenQuery : String :=
  "SELECT k, SUM(x) AS t FROM S WHERE (a = 'open' OR NOT (b < x)) AND " ++
    "date >= DATE_TRUNC('month', CURRENT_DATE) - INTERVAL '2 month' AND " ++
    "date < DATE_TRUNC('month', CURRENT_DATE) GROUP BY k HAVING SUM(x) > k"

def largeOpenPipe : String :=
  "T <- S %>%\n  filter(a == \"open\" | !(b < x), " ++
    "date >= lubridate::floor_date(Sys.Date(), \"month\") - lubridate::period(2, \"months\"), " ++
    "date < lubridate::floor_date(Sys.Date(), \"month\")) %>%\n  group_by(k) %>%\n  " ++
    "summarise(t = sum(x, na.rm = TRUE), .groups = \"drop\") %>%\n  filter(t > k)"

def largeOpenChain : String :=
  "T <- S[(a == \"open\" | !(b < x)) & " ++
    "date >= lubridate::floor_date(Sys.Date(), \"month\") - lubridate::period(2, \"months\") & " ++
    "date < lubridate::floor_date(Sys.Date(), \"month\"), .(t = sum(x, na.rm = TRUE)), " ++
    "by = .(k)][t > k]"

/-- Filters on rows and on groups, with a period, in each of the three targets. -/
theorem filters_largeOpen : (∀ c ∈ largeOpen.filter, c.IsFilled) ∧
    largeOpen.generate .sql .empty = .ok largeOpenQuery ∧
    largeOpen.generate .dataFramePipe .empty = .ok largeOpenPipe ∧
    largeOpen.generate .tabularFrame .empty = .ok largeOpenChain ∧
    (∃ q, Sql.Query.ofPlan .empty (Plan.ofStatement largeOpen) = .ok q ∧
      q.FiltersAs .empty (Plan.ofStatement largeOpen)) ∧
    (∃ x, Pipe.Script.ofPlan .empty (Plan.ofStatement largeOpen) = .ok x ∧
      x.FiltersAs .empty (Plan.ofStatement largeOpen)) ∧
    ∃ t, Frame.Table.ofPlan .empty (Plan.ofStatement largeOpen) = .ok t ∧
      t.FiltersAs .empty (Plan.ofStatement largeOpen) := by
  have hfilled : ∀ c ∈ largeOpen.filter, c.IsFilled := by
    have hpair (op : LogicalOp) {l r : Condition} (hl : l.IsFilled) (hr : r.IsFilled) :
        (Condition.logical op [l, r]).IsFilled :=
      .logical op (List.cons_ne_nil l [r]) (List.forall_mem_cons.mpr ⟨hl,
        List.forall_mem_singleton.mpr hr⟩)
    rintro _ ⟨⟩
    exact hpair _ (hpair _ (.comparison ..) (.not (.comparison ..))) (.comparison ..)
  have hquery : largeOpen.generate .sql .empty = .ok largeOpenQuery :=
    eq_ok_of_toOption (by decide +kernel)
  have hpipe : largeOpen.generate .dataFramePipe .empty = .ok largeOpenPipe :=
    eq_ok_of_toOption (by decide +kernel)
  have hchain : largeOpen.generate .tabularFrame .empty = .ok largeOpenChain :=
    eq_ok_of_toOption (by decide +kernel)
  obtain ⟨hqueries, hpipes, hchains, -⟩ := filters_of_isFilled .empty largeOpen hfilled
  obtain ⟨q, hq, -, hqfilters⟩ := hqueries _ hquery
  obtain ⟨x, hx, -, hxfilters⟩ := hpipes _ hpipe
  obtain ⟨t, ht, -, htfilters⟩ := hchains _ hchain
  exact ⟨hfilled, hquery, hpipe, hchain, ⟨q, hq, hqfilters⟩, ⟨x, hx, hxfilters⟩, t, ht, htfilters⟩

end DataPhrase
