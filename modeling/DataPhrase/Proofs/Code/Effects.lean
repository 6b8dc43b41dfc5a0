/-
# Columns along a script

Every step of a script reads columns of the rows that reach it, and it passes columns on: it
computes one more, keeps only some, or brings in those of another source. A script is admitted if
each of its steps reads what is there. Without joins the effects of a script are those of its plan:
first come the steps on the rows of the source, of which all columns may be there, then those behind
the aggregation (`Plan.lateEffects`).
-/
import DataPhrase.Code.Script
import DataPhrase.Proofs.Code.Mentions
import DataPhrase.Proofs.Rows.Value

namespace DataPhrase

open Code Script Rows

/-! ## Effects -/

namespace Code

/-- What a step does with columns: it reads some, computes one from some, keeps only the listed ones
after it has read some, or joins another source on some. -/
inductive ColumnEffect where
  | read (names : List String)
  | extend (aliasName : String) (names : List String)
  | close (columns names : List String)
  | widen (names : List String)

namespace ColumnEffect

/-- The columns that a step reads. -/
def names : ColumnEffect → List String
  | .read names | .extend _ names | .close _ names | .widen names => names

/-- The step drops no columns. -/
def IsOpen : ColumnEffect → Prop
  | .close _ _ => False
  | .read _ | .extend _ _ | .widen _ => True

/-- The effect of a column that is computed. -/
def ofColumn (c : String × Term) : ColumnEffect :=
  .extend c.1 c.2.bareNames

end ColumnEffect

end Code

namespace Shape

variable {s : Shape} {es rest : List ColumnEffect} {derived derived' columns names : List String}
  {n : String}

/-- The columns behind a step. -/
def after (s : Shape) : ColumnEffect → Shape
  | .read _ => s
  | .extend a _ => s.add a
  | .close columns _ => .closed columns
  | .widen _ => .opened []

/-- Every step reads columns that are there when it is reached. -/
def Admits : Shape → List ColumnEffect → Prop
  | _, [] => True
  | s, e :: r => (∀ n ∈ e.names, s.contains n = true) ∧ (s.after e).Admits r

instance decidableAdmits : (s : Shape) → (es : List ColumnEffect) → Decidable (s.Admits es)
  | _, [] => inferInstanceAs (Decidable True)
  | s, e :: r =>
    have := decidableAdmits (s.after e) r
    inferInstanceAs (Decidable ((∀ n ∈ e.names, s.contains n = true) ∧ (s.after e).Admits r))

/-- A closed shape has exactly its columns. -/
@[simp] theorem contains_closed : (closed columns).contains n = true ↔ n ∈ columns :=
  List.contains_iff_mem

/-- Reading is admitted if the shape has the names. -/
@[simp] theorem admits_read :
    s.Admits (.read names :: rest) ↔ (∀ n ∈ names, s.contains n = true) ∧ s.Admits rest :=
  Iff.rfl

/-- A column is added if what it reads is there. -/
@[simp] theorem admits_extend :
    s.Admits (.extend n names :: rest) ↔
      (∀ n ∈ names, s.contains n = true) ∧ (s.add n).Admits rest :=
  Iff.rfl

/-- A shape is closed if what that reads is there. -/
@[simp] theorem admits_close :
    s.Admits (.close columns names :: rest) ↔
      (∀ n ∈ names, s.contains n = true) ∧ (closed columns).Admits rest :=
  Iff.rfl

/-- Where every column may be there, it does not matter which ones have been computed. -/
theorem admits_opened : (opened derived).Admits es ↔ (opened derived').Admits es := by
  induction es generalizing derived derived' with
  | nil => exact Iff.rfl
  | cons e es ih =>
    refine and_congr Iff.rfl ?_
    cases e with
    | read names => exact ih
    | extend a names => exact ih
    | close columns names => exact Iff.rfl
    | widen names => exact Iff.rfl

/-- A step that drops nothing is admitted where every column may be there, and leaves it so. -/
theorem admits_opened_cons {e : ColumnEffect} (h : e.IsOpen) :
    (opened derived).Admits (e :: es) ↔ (opened derived).Admits es := by
  have hreads : ∀ n ∈ e.names, (opened derived).contains n = true := fun _ _ => rfl
  refine (and_iff_right hreads).trans ?_
  cases e with
  | close columns names => exact absurd h id
  | read names => exact Iff.rfl
  | extend a names => exact admits_opened
  | widen names => exact admits_opened

/-- An opened shape admits every effect that leaves it open. -/
theorem admits_opened_append (h : ∀ e ∈ es, e.IsOpen) :
    (opened derived).Admits (es ++ rest) ↔ (opened derived).Admits rest := by
  induction es with
  | nil => exact Iff.rfl
  | cons e es ih =>
    rw [List.forall_mem_cons] at h
    exact (admits_opened_cons h.1).trans (ih h.2)

end Shape

/-! ## Equal effects -/

/-- Wherever the ones are admitted the others are, whatever follows. -/
def SameEffects (es es' : List ColumnEffect) : Prop :=
  ∀ (s : Shape) (rest : List ColumnEffect), s.Admits (es ++ rest) ↔ s.Admits (es' ++ rest)

namespace SameEffects

variable {es es' fs fs' gs : List ColumnEffect}

theorem refl (es : List ColumnEffect) : SameEffects es es :=
  fun _ _ => Iff.rfl

/-- Effects that do the same can be exchanged one after another. -/
theorem trans (h : SameEffects es fs) (h' : SameEffects fs gs) : SameEffects es gs :=
  fun s rest => (h s rest).trans (h' s rest)

theorem cons (e : ColumnEffect) (h : SameEffects es es') : SameEffects (e :: es) (e :: es') :=
  fun s rest => and_congr Iff.rfl (h (s.after e) rest)

theorem append_left (es : List ColumnEffect) (h : SameEffects fs fs') :
    SameEffects (es ++ fs) (es ++ fs') := by
  induction es with
  | nil => exact h
  | cons e es ih => exact cons e ih

/-- Effects that do the same do so behind one another. -/
theorem append (h : SameEffects es es') (h' : SameEffects fs fs') :
    SameEffects (es ++ fs) (es' ++ fs') := by
  refine trans (fun s rest => ?_) (append_left es' h')
  rw [List.append_assoc, List.append_assoc]
  exact h s (fs ++ rest)

/-- To read nothing is to do nothing. -/
theorem read_nil : SameEffects [] [.read []] :=
  fun _ _ => (and_iff_right fun _ h => nomatch h).symm

end SameEffects

/-! ## Plans -/

/-- The effect of a calculation. -/
def Calc.effect (c : Calc) : ColumnEffect :=
  .extend c.aliasName c.expression.fieldNames

/-- The columns that a window reads: its keys and, if it does not rank, its field. -/
def Window.names (w : Window) : List String :=
  w.partitionBy.map columnOf ++ (w.orderBy.map fun o => columnOf o.field) ++
    if w.function.isRanking then [] else (w.field.map Expr.fieldNames).getD []

/-- The effect of a window. -/
def Window.effect (w : Window) : ColumnEffect :=
  .extend w.aliasName w.names

namespace Plan

/-- The columns that an aggregation leaves: the keys of the groups and what is computed for them. -/
def groupColumns (p : Plan) : List String :=
  p.group.map columnOf ++ p.aggregates.map Aggregate.aliasName

/-- What is there behind the aggregation: all columns if there is none. -/
def lateShape (p : Plan) : Shape :=
  if p.isAggregated then .closed p.groupColumns else .opened []

/-- What is done behind the aggregation. -/
def lateEffects (p : Plan) : List ColumnEffect :=
  p.postCalcs.map Calc.effect ++ [.read (p.postFilter.flatMap Condition.fieldNames)] ++
    p.windows.map Window.effect ++
    (p.select.map fun names => .close (names.map columnOf) (names.map columnOf)).toList ++
    [.read (p.order.map fun o => columnOf o.field)]

end Plan

/-! ## Names in scripts -/

namespace Script

variable {c : Columns} {sc : Scope} {d : Snapshot} {p : Plan}

/-- Fields are called by their columns, whatever their sources. -/
def KeepsNames (sc : Scope) : Prop :=
  ∀ r, sc.field r = .column none r.2

/-- Without joins and registered columns a field is called by its column. -/
theorem field_ofPlan (hj : p.joins = []) (hd : ∀ source n, d.hasColumn source n = false)
    (r : FieldRef) : (Columns.ofPlan d p).field r = r.2 := by
  obtain ⟨q, n⟩ := r
  cases q with
  | none => rfl
  | some q =>
    have hkeys : (Columns.ofPlan d p).keys = [] := by
      show joinKeys p.source p.joins = []
      rw [hj]
      rfl
    have howners : (Columns.ofPlan d p).owners n = 0 := by
      rw [Columns.owners, List.length_eq_zero_iff, List.filter_eq_nil_iff]
      intro source _
      have hnone : (Columns.ofPlan d p).dictionary.hasColumn source n = false := hd source n
      rw [hnone]
      exact Bool.false_ne_true
    rw [Columns.field, hkeys, howners]
    rfl

/-- Without joins and columns, names stay as they are. -/
theorem keepsNames_ofPlan (hj : p.joins = []) (hd : ∀ source n, d.hasColumn source n = false)
    (target : Target) : KeepsNames ((Columns.ofPlan d p).scope target) := by
  intro r
  show Term.column none ((Columns.ofPlan d p).field r) = _
  rw [field_ofPlan hj hd]

/-- Without joins and columns, a name is written without its qualifier. -/
theorem written_ofPlan (hj : p.joins = []) (hd : ∀ source n, d.hasColumn source n = false) :
    (Columns.ofPlan d p).written = columnOf := by
  funext n
  unfold Columns.written columnOf Check.splitName
  cases n.toList.dropWhile (· != '.') with
  | nil => rfl
  | cons c rest => exact field_ofPlan hj hd _

/-- Sort keys are mentioned by their columns. -/
theorem map_fst_keys (key : OrderItem → String × Direction)
    (hk : ∀ o, (key o).1 = c.written o.field) (hw : c.written = columnOf) {order : List OrderItem} :
    (order.map key).map Prod.fst = order.map fun o => columnOf o.field := by
  rw [List.map_map]
  refine List.map_congr_left fun o _ => ?_
  show (key o).1 = columnOf o.field
  rw [hk, hw]

/-- The fields of an expression are mentioned by their columns. -/
theorem flatMap_fields (hsc : KeepsNames sc) (l : List FieldRef) :
    (l.flatMap fun r => (sc.field r).bareNames) = l.map Prod.snd := by
  induction l with
  | nil => rfl
  | cons r l ih =>
    rw [List.flatMap_cons, ih, hsc]
    rfl

/-- The names in a settled expression are those of the expression. -/
theorem names_ofExpr (hsc : KeepsNames sc) {e : Expr} {t : Term} (h : Term.ofExpr sc e = .ok t) :
    t.bareNames = e.fieldNames :=
  (bareNames_ofExpr e t h).trans (flatMap_fields hsc e.fields)

/-- The names in a settled condition are those of the condition. -/
theorem names_ofCondition (hsc : KeepsNames sc) {c : Condition} {x : Cond}
    (h : Cond.ofCondition sc c = .ok x) : x.bareNames = c.fieldNames :=
  (bareNames_ofCondition c x h).trans (flatMap_fields hsc c.fields)

theorem names_mapM_ofCondition (hsc : KeepsNames sc) {cs : List Condition} {xs : List Cond}
    (h : cs.mapM (Cond.ofCondition sc) = .ok xs) :
    xs.flatMap Cond.bareNames = cs.flatMap Condition.fieldNames := by
  rw [List.flatMap_def, List.flatMap_def]
  exact congrArg List.flatten (map_eq_of_mapM h fun _ _ => names_ofCondition hsc)

/-- Calculated columns have the effects of their calculations. -/
theorem effects_calcColumns (hsc : KeepsNames sc) {cs : List Calc} {columns : List (String × Term)}
    (h : calcColumns sc cs = .ok columns) :
    columns.map ColumnEffect.ofColumn = cs.map Calc.effect := by
  refine map_eq_of_mapM h fun c x hx => ?_
  obtain ⟨t, ht, rfl⟩ := map_eq_ok.mp hx
  rw [ColumnEffect.ofColumn, names_ofExpr hsc ht, Calc.effect]

/-- Aggregated columns have the names of their aggregates. -/
theorem aliases_aggregateColumns {as : List Aggregate} {columns : List (String × Term)}
    (h : aggregateColumns sc as = .ok columns) :
    columns.map Prod.fst = as.map Aggregate.aliasName := by
  refine map_eq_of_mapM h fun a x hx => ?_
  obtain ⟨t, -, rfl⟩ := map_eq_ok.mp hx
  rfl

/-- The names in the field of a window are those of its expression. -/
theorem names_windowField (hsc : KeepsNames sc) {w : Window} {t : Term}
    (h : windowField sc w = .ok t) : t.bareNames = (w.field.map Expr.fieldNames).getD [] := by
  rw [windowField] at h
  split at h
  · next e he =>
    rw [he]
    exact names_ofExpr hsc h
  · cases h

/-- Calculated columns leave a shape open. -/
theorem isOpen_ofColumn (columns : List (String × Term)) :
    ∀ e ∈ columns.map ColumnEffect.ofColumn, e.IsOpen := by
  intro e he
  obtain ⟨c, -, rfl⟩ := List.mem_map.mp he
  exact trivial

/-- What is there once rows have been grouped by keys and reduced to columns, or not at all. -/
def reducedShape (keys : List String) (columns : List (String × Term)) : Shape :=
  if columns.isEmpty && keys.isEmpty then .opened [] else .closed (keys ++ columns.map Prod.fst)

/-- The aggregates leave the shape that the plan says. -/
theorem reducedShape_eq {columns : List (String × Term)}
    (h : aggregateColumns sc p.aggregates = .ok columns) :
    reducedShape (p.group.map columnOf) columns = p.lateShape := by
  have haliases := aliases_aggregateColumns h
  have hempty : columns.isEmpty = p.aggregates.isEmpty := by
    rw [← List.isEmpty_map (f := Prod.fst), haliases, List.isEmpty_map]
  rw [reducedShape, hempty, haliases, List.isEmpty_map, Plan.lateShape, Plan.isAggregated,
    Plan.groupColumns]
  cases p.aggregates.isEmpty <;> cases p.group.isEmpty <;> rfl

end Script

end DataPhrase
