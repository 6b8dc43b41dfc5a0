/-
# Stages on rows

The meaning of a pipeline, stage by stage: a filter keeps rows, a calculation adds columns from left
to right, a grouping remembers its keys, an aggregation reduces the rows by the keys, a selection
projects, sorting is stable, and a limit takes the first rows. And the meaning of a plan, phase by
phase.
-/
import DataPhrase.Proofs.Pipeline.Stages
import DataPhrase.Proofs.Plan
import DataPhrase.Proofs.Rows.Table

namespace DataPhrase

namespace Rows

/-! ## Stages -/

/-- A stage that works on the rows of one source, windows and periods apart. -/
inductive RowStage where
  | filter (condition : Condition)
  | group (keys : List String)
  | aggregate (aggregates : List Aggregate)
  | calculate (calcs : List Calc)
  | select (fields : List String)
  | sort (order : List OrderItem)
  | limit (n : Nat)

namespace RowStage

/-- The kind of a stage. -/
def kind : RowStage → StageKind
  | .filter _ => .filter
  | .group _ => .group
  | .aggregate _ => .aggregate
  | .calculate _ => .calculate
  | .select _ => .select
  | .sort _ => .sort
  | .limit _ => .limit

/-- What stands in the parentheses of a stage. -/
def body : RowStage → Pipeline.StageBody
  | .filter c => .filter c
  | .group keys => .group keys
  | .aggregate as => .compute (as.map Aggregate.operation)
  | .calculate cs => .compute (cs.map Calc.operation)
  | .select fields => .select fields
  | .sort order => .sort order
  | .limit n => .limit n

/-- The calculation that an operation is. -/
def calc? : Operation → Option Calc
  | .calculate e a => some ⟨a, e⟩
  | _ => none

/-- The aggregate that an operation is. -/
def aggregate? : Operation → Option Aggregate
  | .aggregate f e a => some ⟨a, f, e⟩
  | _ => none

/-- The stage on rows that a written stage is. A `calculate` stage has to hold plain calculations
only. -/
def ofWritten? (w : Pipeline.Written) : Option RowStage :=
  match w.kind, w.body with
  | .filter, .filter c => some (.filter c)
  | .group, .group keys => some (.group keys)
  | .aggregate, .compute ops => (ops.mapM aggregate?).map .aggregate
  | .calculate, .compute ops => (ops.mapM calc?).map .calculate
  | .select, .select fields => some (.select fields)
  | .sort, .sort order => some (.sort order)
  | .limit, .limit n => some (.limit n)
  | _, _ => none

theorem mapM_calc? {ops : List Operation} {cs : List Calc} (h : ops.mapM calc? = some cs) :
    ops = cs.map Calc.operation := by
  induction ops generalizing cs with
  | nil =>
    cases h
    rfl
  | cons op ops ih =>
    rw [List.mapM_cons] at h
    obtain ⟨c, hc, h⟩ := Option.bind_eq_some_iff.mp h
    obtain ⟨cs', hcs, h⟩ := Option.bind_eq_some_iff.mp h
    cases h
    cases op with
    | calculate e a =>
      cases hc
      rw [List.map_cons, ← ih hcs]
      rfl
    | _ => cases hc

theorem mapM_aggregate? {ops : List Operation} {as : List Aggregate}
    (h : ops.mapM aggregate? = some as) : ops = as.map Aggregate.operation := by
  induction ops generalizing as with
  | nil =>
    cases h
    rfl
  | cons op ops ih =>
    rw [List.mapM_cons] at h
    obtain ⟨a, ha, h⟩ := Option.bind_eq_some_iff.mp h
    obtain ⟨as', has, h⟩ := Option.bind_eq_some_iff.mp h
    cases h
    cases op with
    | aggregate f e n =>
      cases ha
      rw [List.map_cons, ← ih has]
      rfl
    | _ => cases ha

/-- The written stage has the kind and the body of the stage on rows. -/
theorem of_ofWritten? {w : Pipeline.Written} {x : RowStage} (h : ofWritten? w = some x) :
    w.kind = x.kind ∧ w.body = x.body := by
  obtain ⟨name, kind, body⟩ := w
  unfold ofWritten? at h
  dsimp only at h ⊢
  split at h
  · cases h
    exact ⟨rfl, rfl⟩
  · cases h
    exact ⟨rfl, rfl⟩
  · obtain ⟨as, has, rfl⟩ := Option.map_eq_some_iff.mp h
    exact ⟨rfl, by rw [RowStage.body, mapM_aggregate? has]⟩
  · obtain ⟨cs, hcs, rfl⟩ := Option.map_eq_some_iff.mp h
    exact ⟨rfl, by rw [RowStage.body, mapM_calc? hcs]⟩
  · cases h
    exact ⟨rfl, rfl⟩
  · cases h
    exact ⟨rfl, rfl⟩
  · cases h
    exact ⟨rfl, rfl⟩
  · cases h

/-- The columns that a stage reads. -/
def reads (w : RowStage) : List String :=
  w.body.references.map columnOf

/-- The aliases that a stage declares. -/
def defines (w : RowStage) : List String :=
  w.body.defines

/-- The stage aggregates. -/
def isAggregate : RowStage → Bool
  | .aggregate _ => true
  | _ => false

/-- The stage groups. -/
def isGroup : RowStage → Bool
  | .group _ => true
  | _ => false

/-- The stage comes before aggregation in a query: it filters, calculates or groups. -/
def isEarly : RowStage → Bool
  | .filter _ | .calculate _ | .group _ => true
  | _ => false

theorem isAggregate_of_isEarly {w : RowStage} (h : w.isEarly = true) : w.isAggregate = false := by
  cases w with
  | aggregate as => cases h
  | _ => rfl

end RowStage

/-- The stages of a text, if all of them work on rows. -/
def rowStages? (text : List Char) : Option (List RowStage) :=
  (Pipeline.stagesOf? text).bind fun x => x.2.mapM RowStage.ofWritten?

/-! ## Running stages -/

/-- The rows so far, and the group keys to be used by an aggregation. -/
structure State (V : Type) where
  rows : List (Row V)
  keys : List String := []

namespace Algebra

variable {V : Type} [DecidableEq V] (A : Algebra V)

/-- One stage. -/
def step (st : State V) : RowStage → State V
  | .filter c => { st with rows := st.rows.filter (A.keeps c) }
  | .group keys => { st with keys := keys }
  | .aggregate as => { st with rows := A.reduce st.keys as st.rows }
  | .calculate cs => { st with rows := st.rows.map (A.calculateAll cs) }
  | .select fields => { st with rows := st.rows.map (A.project fields) }
  | .sort order => { st with rows := A.sort order st.rows }
  | .limit n => { st with rows := st.rows.take n }

/-- The rows after the stages of a list, one after another. -/
def run (ws : List RowStage) (table : List (Row V)) : List (Row V) :=
  (ws.foldl A.step ⟨table, []⟩).rows

/-! ## Evaluating plans -/

/-- The rows of a plan, phase by phase: calculations and filter on the rows of the source, grouping
and aggregates, calculations and filter on what is left, order, selection, limit. -/
def evaluate (p : Plan) (table : List (Row V)) : List (Row V) :=
  let rows := (table.map (A.calculateAll p.preCalcs)).filter (A.keepsAll p.preFilter)
  let rows := if p.isAggregated then A.reduce p.group p.aggregates rows else rows
  let rows := (rows.map (A.calculateAll p.postCalcs)).filter (A.keepsAll p.postFilter)
  let rows := A.sort p.order rows
  let rows := match p.select with
    | some fields => rows.map (A.project fields)
    | none => rows
  match p.limit with
  | some n => rows.take n
  | none => rows

end Algebra

/-- The pipeline as its query understands it: where rows are grouped but never aggregated, what
filters, calculates and groups comes first, then each tuple of keys is reduced to one row, then
comes what selects, sorts and limits. -/
def settled (ws : List RowStage) : List RowStage :=
  if ws.any RowStage.isGroup && !ws.any RowStage.isAggregate then
    ws.filter RowStage.isEarly ++ .aggregate [] :: ws.filter fun w => !w.isEarly
  else ws

/-- The stage filters by a condition with a part that reads no column. -/
def RowStage.hasConstantPart : RowStage → Bool
  | .filter c => c.conjuncts.any fun p => p.fieldNames.isEmpty
  | _ => false

/-- A filter behind an aggregation without groups has a part that reads no column. -/
def filtersConstantly (ws : List RowStage) : Bool :=
  match ws.dropWhile fun w => !(w.isAggregate || w.isGroup) with
  | .aggregate _ :: back => back.any RowStage.hasConstantPart
  | _ => false

end Rows

end DataPhrase
