/-
# Conditions of statements

What holds of every condition that is read, and of the conjunction of two conditions of which it
holds, holds of the filter and of all join conditions of a statement, whatever its surface form
(`allConditions_of_parse`); so these are in normal form. The conjuncts of the filter of a pipeline
are those of its filter stages, one stage after another (`filterParts_draftOf`).
-/
import DataPhrase.Proofs.Ambiguity.Joins
import DataPhrase.Proofs.Grammar.NormalForm
import DataPhrase.Proofs.Pipeline.Columns
import DataPhrase.Proofs.Plan
import DataPhrase.Proofs.Statement.Parse
import DataPhrase.Proofs.Statement.Spelling

namespace DataPhrase

open Text Lexeme

variable {P : Condition → Prop} {op : Operation} {st : Statement} {s r text : List Char}

/-! ## Joins and filters -/

/-- The condition of the operation, if it joins, has the property. -/
def Operation.JoinsOn (P : Condition → Prop) (op : Operation) : Prop :=
  ∀ c ∈ op.joinedOn?, P c

/-- An operation with an alias does not join. -/
theorem Operation.joinsOn_of_alias? (h : op.alias?.isSome = true) : op.JoinsOn P := by
  cases op with
  | join other c => cases h
  | _ => exact fun _ hc => absurd hc (Option.not_mem_none _)

theorem Operation.joinsOn_select (fields : List String) : (Operation.select fields).JoinsOn P :=
  fun _ hc => absurd hc (Option.not_mem_none _)

theorem Operation.joinsOn_join {other : String} {c : Condition} (h : P c) :
    (Operation.join other c).JoinsOn P := by
  rintro _ ⟨⟩
  exact h

namespace Statement

/-- The conditions of a statement: its filter and what its joins are on. -/
def conditions (st : Statement) : List Condition :=
  st.filter.toList ++ st.joinConditions

/-- The filter and the joins have the property. -/
structure AllConditions (P : Condition → Prop) (st : Statement) : Prop where
  operations : ∀ op ∈ st.operations, op.JoinsOn P
  filter : ∀ c ∈ st.filter, P c

/-- What holds of all conditions holds of the listed ones. -/
theorem AllConditions.forall (h : st.AllConditions P) : ∀ c ∈ st.conditions, P c := by
  refine List.forall_mem_append.mpr ⟨fun c hc => h.filter c (Option.mem_toList.mp hc), ?_⟩
  intro c hc
  obtain ⟨op, hop, hc⟩ := List.mem_filterMap.mp hc
  exact h.operations op hop c hc

end Statement

/-! ## What the three forms read -/

section Read

variable (hread : Yields P Condition.read) (hand : ∀ a b, P a → P b → P (.and [a, b]))

include hread

/-! ### Transform statements -/

namespace Transform

namespace Clauses

/-- The filter and the joins among the clauses have the property. -/
structure AllConditions (P : Condition → Prop) (c : Clauses) : Prop where
  joins : ∀ op ∈ c.joins, op.JoinsOn P
  operations : ∀ ops ∈ c.operations, ∀ op ∈ ops, op.JoinsOn P
  filter : ∀ x ∈ c.filter, P x

variable {c d : Clauses}

/-- A clause that is read keeps all conditions of a record good. -/
theorem Adds.allConditions (h : c.Adds d) (hc : c.AllConditions P) : d.AllConditions P := by
  cases h with
  | join other hx =>
    refine { hc with joins := List.forall_mem_append.mpr ⟨hc.joins, ?_⟩ }
    exact List.forall_mem_singleton.mpr (Operation.joinsOn_join (hread _ _ _ hx))
  | operations hops =>
    refine { hc with operations := ?_ }
    rintro _ ⟨⟩
    have hitem : Yields (Operation.JoinsOn P) Operation.read := by
      intro s op r h
      obtain ⟨item, n, q, -, -, rfl⟩ := gives_operation.mp h
      exact Operation.joinsOn_of_alias? (Pipeline.isSome_alias?_named item n)
    exact hitem.listOf _ _ _ hops
  | filter hx =>
    refine { hc with filter := ?_ }
    rintro _ ⟨⟩
    exact hread _ _ _ hx
  | _ => exact { hc with }

omit hread in
/-- The conditions of a transform statement are those of its clauses. -/
theorem AllConditions.statement (hc : c.AllConditions P) (source target : String) :
    (c.statement source target).AllConditions P where
  operations := forall_operations hc.joins hc.operations
    (fun fields _ => Operation.joinsOn_select fields) source target
  filter := hc.filter

end Clauses

/-- All conditions of a transform statement that is read are good. -/
theorem allConditions_of_read (h : (read s).Gives st r) : st.AllConditions P := by
  obtain ⟨_, _, -, h⟩ := Reader.gives_bind.mp h
  obtain ⟨source, _, -, h⟩ := Reader.gives_bind.mp h
  obtain ⟨_, _, -, h⟩ := Reader.gives_bind.mp h
  obtain ⟨target, _, -, h⟩ := Reader.gives_bind.mp h
  obtain ⟨clauses, _, hc, h⟩ := Reader.gives_bind.mp h
  obtain ⟨rfl, -⟩ := Reader.gives_pure.mp h
  have hempty : ({} : Clauses).AllConditions P := by constructor <;> simp
  have hclauses := Clauses.invariant_of_readAll hc
    (fun _ _ h => Clauses.Adds.allConditions hread h) hempty
  exact hclauses.statement source target

end Transform

/-! ### Pipelines -/

namespace Pipeline

/-- The conditions in the parentheses of a stage have the property. -/
def StageBody.AllConditions (P : Condition → Prop) : StageBody → Prop
  | .filter c | .join _ c => P c
  | .compute ops => ∀ op ∈ ops, op.JoinsOn P
  | _ => True

theorem yields_readBody_allConditions (kind : StageKind) :
    Yields (StageBody.AllConditions P) (readBody kind) := by
  intro s body r h
  have hfits := fits_of_readBody h
  cases body with
  | compute ops =>
    exact fun op hop => Operation.joinsOn_of_alias? (isSome_alias?_of_fits hfits op hop)
  | filter c =>
    cases kind with
    | filter =>
      obtain ⟨_, _, hc, h⟩ := Reader.gives_bind.mp h
      obtain ⟨⟨⟩, -⟩ := Reader.gives_pure.mp h
      exact hread _ _ _ hc
    | _ => exact hfits.elim
  | join other c =>
    cases kind with
    | join =>
      obtain ⟨_, _, -, h⟩ := Reader.gives_bind.mp h
      obtain ⟨_, _, -, h⟩ := Reader.gives_bind.mp h
      obtain ⟨_, _, hc, h⟩ := Reader.gives_bind.mp h
      obtain ⟨⟨⟩, -⟩ := Reader.gives_pure.mp h
      exact hread _ _ _ hc
    | _ => exact hfits.elim
  | _ => exact trivial

/-- All conditions of stages are good. -/
theorem allConditions_of_writtenStages {ws : List Written} (h : (writtenStages s).Gives ws r) :
    ∀ w ∈ ws, w.body.AllConditions P := by
  have hwritten : Yields (fun w => w.body.AllConditions P) written := by
    unfold written
    refine yields_andThen fun _ => yields_andThen fun named => ?_
    exact (yields_readBody_allConditions hread named.2).bind fun body hb =>
      yields_andThen fun _ => yields_pure hb
  induction s using writtenStages.induct generalizing ws r with
  | case1 s t hs _ _ ih =>
    obtain ⟨w, q, ws', hw, hws, rfl⟩ := (gives_writtenStages_arrow hs).mp h
    exact List.forall_mem_cons.mpr ⟨hwritten _ _ _ hw, ih q hw.suffix hws⟩
  | case2 s hs =>
    obtain ⟨rfl, -⟩ := (gives_writtenStages_end fun t ht => hs t ht).mp h
    exact fun _ hw => absurd hw List.not_mem_nil

omit hread in
include hand in
/-- A stage more keeps the property of the conditions of a statement. -/
theorem Draft.allConditions_take {d : Draft} {w : Written} (hd : d.statement.AllConditions P)
    (hw : w.body.AllConditions P) : (d.take w).statement.AllConditions P := by
  obtain ⟨name, kind, body⟩ := w
  have hops (ops : List Operation) (h : ∀ op ∈ ops, op.JoinsOn P) :
      ∀ op ∈ d.statement.operations ++ ops, op.JoinsOn P :=
    List.forall_mem_append.mpr ⟨hd.operations, h⟩
  cases body with
  | filter c =>
    refine { hd with filter := ?_ }
    rintro _ ⟨⟩
    cases hf : d.statement.filter with
    | none => exact hw
    | some old => exact hand old c (hd.filter old hf) hw
  | compute ops => exact { hd with operations := hops ops hw }
  | select fields =>
    have hselect := List.forall_mem_singleton.mpr (Operation.joinsOn_select (P := P) fields)
    exact { hd with operations := hops _ hselect }
  | join other c =>
    have hjoin : (Operation.join other c).JoinsOn P := Operation.joinsOn_join hw
    exact { hd with operations := hops _ (List.forall_mem_singleton.mpr hjoin) }
  | _ => exact { hd with }

omit hread in
include hand in
/-- All conditions of a draft are those of its stages. -/
theorem allConditions_draftOf {source : String} {ws : List Written}
    (hws : ∀ w ∈ ws, w.body.AllConditions P) : (draftOf source ws).statement.AllConditions P := by
  induction ws using List.reverseRecOn with
  | nil => constructor <;> simp [draftOf, Draft.start]
  | append_singleton ws w ih =>
    rw [List.forall_mem_append, List.forall_mem_singleton] at hws
    rw [draftOf_append]
    exact Draft.allConditions_take hand (ih hws.1) hws.2

include hand in
/-- All conditions of a pipeline that is read are good. -/
theorem allConditions_of_read (h : (read text).Gives st []) : st.AllConditions P := by
  obtain ⟨source, ws, hws, -, rfl⟩ := exists_stagesOf? h
  obtain ⟨q, r, -, hstages⟩ := gives_of_stagesOf? hws
  exact allConditions_draftOf hand (allConditions_of_writtenStages hread hstages)

end Pipeline

/-! ### Questions -/

namespace Question

omit hread in
/-- What is asked for computes or selects. -/
theorem isSome_alias?_of_asked {a : Asked} (h : (asked s).Gives a r)
    (keys : Option (List String)) : ∀ op ∈ a.operations keys, op.alias?.isSome = true := by
  have hbare (n : String) : ∀ op ∈ (Asked.bare n).operations keys, op.alias?.isSome = true := by
    intro op hop
    cases keys with
    | none => cases hop
    | some keys =>
      rw [Asked.operations] at hop
      split at hop
      · cases hop
      · rw [List.mem_singleton.mp hop]
        rfl
  have hoperation {op : Operation} (h : op.alias?.isSome = true) :
      ∀ o ∈ (Asked.operation op).operations keys, o.alias?.isSome = true :=
    List.forall_mem_singleton.mpr h
  rcases asked_cases h with ⟨w, f, q, -, -, h⟩ | ⟨-, item, n, q, -, -, hx⟩
  · obtain ⟨field, _, -, h⟩ := Reader.gives_bind.mp h
    obtain ⟨n, _, -, h⟩ := Reader.gives_bind.mp h
    obtain ⟨rfl, -⟩ := Reader.gives_pure.mp h
    exact hoperation rfl
  · unfold Asked.ofItem at hx
    split at hx
    · cases hx
      exact hoperation (Pipeline.isSome_alias?_named _ _)
    · cases hx
      exact hbare _
    · cases hx
      exact hbare _
    · cases hx
    · cases hx
      exact hoperation rfl
    · cases hx
      exact hoperation rfl

namespace Clauses

/-- The filter and the joins among the clauses have the property. -/
structure AllConditions (P : Condition → Prop) (c : Clauses) : Prop where
  joins : ∀ op ∈ c.joins, op.JoinsOn P
  filter : ∀ x ∈ c.filter, P x

variable {c d : Clauses}

theorem Adds.allConditions (h : c.Adds d) (hc : c.AllConditions P) : d.AllConditions P := by
  cases h with
  | join other hx =>
    refine { hc with joins := List.forall_mem_append.mpr ⟨hc.joins, ?_⟩ }
    exact List.forall_mem_singleton.mpr (Operation.joinsOn_join (hread _ _ _ hx))
  | filter hx =>
    refine { hc with filter := ?_ }
    rintro _ ⟨⟩
    exact hread _ _ _ hx
  | _ => exact { hc with }

omit hread in
/-- The conditions of a question are those of its clauses. -/
theorem AllConditions.statement (hc : c.AllConditions P) {items : List Asked}
    (hitems : ∀ a ∈ items, ∀ op ∈ a.operations c.group, op.alias?.isSome = true)
    (source : String) (limit : Option Nat) :
    (statement source limit items c).AllConditions P where
  operations := forall_operations hc.joins
    (fun a ha op hop => Operation.joinsOn_of_alias? (hitems a ha op hop))
    (Operation.joinsOn_select _) source limit
  filter := hc.filter

end Clauses

/-- All conditions of a question that is read are good. -/
theorem allConditions_of_read (h : (read s).Gives st r) : st.AllConditions P := by
  obtain ⟨_, limit, _, -, -, first, items, clauses, source, _, _, hf, hi, hc, -, rfl⟩ :=
    gives_read.mp h
  obtain ⟨_, hi, -⟩ := gives_askedRest.mp hi
  have hempty : ({} : Clauses).AllConditions P := by constructor <;> simp
  have hclauses := Clauses.invariant_of_readAll hc
    (fun _ _ h => Clauses.Adds.allConditions hread h) hempty
  have hitems := List.forall_mem_cons.mpr ⟨isSome_alias?_of_asked hf clauses.group,
    hi.forall fun _ _ _ h => isSome_alias?_of_asked h clauses.group⟩
  exact hclauses.statement hitems source limit

end Question

include hand

/-- **What holds of the conditions that are read holds of all conditions of a statement**, if it
holds of the conjunction of two conditions whenever it holds of both. -/
theorem allConditions_of_parse (h : Statement.parse text = .ok st) : st.AllConditions P := by
  obtain ⟨p, tokens, -, h⟩ := parse_eq_ok.mp h
  cases p with
  | transformTo => exact Transform.allConditions_of_read hread h
  | arrowPipeline => exact Pipeline.allConditions_of_read hread hand h
  | naturalQuery => exact Question.allConditions_of_read hread h

end Read

/-! ## The filter of a pipeline -/

namespace Pipeline

variable {ws : List Written} {w : Written} {source : String}

namespace Written

/-- The condition of a filter stage. -/
def condition? (w : Written) : Option Condition :=
  match w.body with
  | .filter c => some c
  | _ => none

/-- Only a filtering stage has a condition. -/
theorem isSome_condition? (h : w.body.Fits w.kind) :
    w.condition?.isSome = true ↔ w.kind = .filter := by
  obtain ⟨name, kind, body⟩ := w
  cases body with
  | filter c =>
    cases kind with
    | filter => exact iff_of_true rfl rfl
    | _ => exact h.elim
  | _ =>
    refine iff_of_false Bool.false_ne_true ?_
    rintro rfl
    exact h.elim

theorem forall_condition? (h : w.body.AllConditions P) : ∀ c ∈ w.condition?, P c := by
  obtain ⟨name, kind, body⟩ := w
  cases body with
  | filter c =>
    rintro _ ⟨⟩
    exact h
  | _ => exact fun _ hc => absurd hc (Option.not_mem_none _)

end Written

/-- A stage that is no filter leaves the filter, and the condition of a filter is added to it. -/
theorem filter_take (d : Draft) (w : Written) : (d.take w).statement.filter =
    match w.condition? with
    | none => d.statement.filter
    | some c => (d.statement.addFilter c).filter := by
  obtain ⟨name, kind, body⟩ := w
  cases body <;> rfl

/-- A draft has no filter if no stage gave one. -/
theorem filter_take_eq_none {d : Draft} : (d.take w).statement.filter = none ↔
    d.statement.filter = none ∧ w.condition? = none := by
  rw [filter_take]
  cases w.condition? with
  | none => exact (and_iff_left rfl).symm
  | some c => exact iff_of_false nofun nofun

/-- The conjuncts of a filter stage go behind those that there are. -/
theorem filterParts_take {d : Draft} (hd : ∀ c ∈ d.statement.filter, c.IsWritten)
    (hw : ∀ c ∈ w.condition?, c.IsWritten) : (d.take w).statement.filterParts =
      d.statement.filterParts ++ w.condition?.toList.flatMap Condition.conjuncts := by
  rw [Statement.filterParts, Statement.filterParts, filter_take]
  cases hcond : w.condition? with
  | none => exact (List.append_nil _).symm
  | some c =>
    cases hf : d.statement.filter with
    | none => simp [Statement.addFilter, hf]
    | some old =>
      have hboth := List.forall_mem_cons.mpr
        ⟨hd old hf, List.forall_mem_singleton.mpr (hw c hcond)⟩
      simp [Statement.addFilter, hf, Condition.conjuncts_and hboth]

theorem filter_draftOf_eq_none : (draftOf source ws).statement.filter = none ↔
    ∀ w ∈ ws, w.condition? = none := by
  induction ws using List.reverseRecOn with
  | nil => exact iff_of_true rfl nofun
  | append_singleton ws w ih =>
    rw [draftOf_append, filter_take_eq_none, ih, List.forall_mem_append, List.forall_mem_singleton]

/-- **The conjuncts of the filter are those of the filter stages**, one stage after another. -/
theorem filterParts_draftOf (hws : ∀ w ∈ ws, w.body.AllConditions Condition.IsWritten) :
    (draftOf source ws).statement.filterParts =
      (ws.filterMap Written.condition?).flatMap Condition.conjuncts := by
  induction ws using List.reverseRecOn with
  | nil => rfl
  | append_singleton ws w ih =>
    rw [List.forall_mem_append, List.forall_mem_singleton] at hws
    have hdraft : (draftOf source ws).statement.AllConditions Condition.IsWritten :=
      allConditions_draftOf (fun a b ha hb => Condition.isWritten_and
        (List.forall_mem_cons.mpr ⟨ha, List.forall_mem_singleton.mpr hb⟩)) hws.1
    rw [draftOf_append, filterParts_take hdraft.filter (w.forall_condition? hws.2), ih hws.1,
      List.filterMap_append, List.flatMap_append]
    cases h : w.condition? <;> simp [h]

/-- The filter of a pipeline is made from those of its filter stages. -/
structure FiltersBy (ws : List Written) (st : Statement) : Prop where
  kinds : st.stages.map Stage.kind = ws.map Written.kind
  filters : ∀ w ∈ ws, w.condition?.isSome = true ↔ w.kind = .filter
  normal : ∀ w ∈ ws, ∀ c ∈ w.condition?, c.IsNormal
  parts : st.filterParts = (ws.filterMap Written.condition?).flatMap Condition.conjuncts
  filter_none : st.filter = none ↔ ∀ t ∈ st.stages, t.kind ≠ .filter

/-- **The filter of a pipeline is made of the conditions of its stages.** -/
theorem filtersBy_of_read (h : (read text).Gives st []) :
    ∃ source ws, stagesOf? text = some (source, ws) ∧ FiltersBy ws st := by
  obtain ⟨source, ws, hws, -, rfl⟩ := exists_stagesOf? h
  obtain ⟨q, r, -, hstages⟩ := gives_of_stagesOf? hws
  have hnormal := allConditions_of_writtenStages
    (fun _ _ _ h => Condition.isNormal_of_read h) hstages
  have hwritten := allConditions_of_writtenStages
    (fun _ _ _ h => Condition.isWritten_of_read h) hstages
  have hfilters : ∀ w ∈ ws, w.condition?.isSome = true ↔ w.kind = .filter :=
    fun w hw => w.isSome_condition? (fits_of_writtenStages hstages w hw)
  have hkinds : (draftOf source ws).statement.stages.map Stage.kind = ws.map Written.kind := by
    have := congrArg (List.map Prod.fst) (records_draftOf source ws)
    rwa [List.map_map, List.map_map] at this
  refine ⟨source, ws, hws, hkinds, hfilters, fun w hw => w.forall_condition? (hnormal w hw),
    filterParts_draftOf hwritten, ?_⟩
  have hstage : (∀ t ∈ (draftOf source ws).statement.stages, t.kind ≠ .filter) ↔
      ∀ w ∈ ws, w.kind ≠ .filter := by
    rw [← List.forall_mem_map (P := (· ≠ StageKind.filter)), hkinds, List.forall_mem_map]
  refine filter_draftOf_eq_none.trans (Iff.trans ?_ hstage.symm)
  refine forall₂_congr fun w hw => ?_
  rw [Ne, ← hfilters w hw, Bool.not_eq_true, Option.isSome_eq_false_iff, Option.isNone_iff_eq_none]

end Pipeline

/-! ## All statements -/

/-- **The conditions of a statement are in normal form**: in the filter and in what the joins are
on, at whatever depth, a connective joins two conditions at least and a conjunction no conjunctions,
so that such a condition is the conjunction of its conjuncts and none of these splits further. The
conjuncts of the filter of a pipeline are those of its filter stages in order, and there is a filter
exactly if there is such a stage. -/
theorem isNormal_of_parse (h : Statement.parse text = .ok st) :
    (∀ c ∈ st.conditions, c.IsNormal ∧ Condition.and c.conjuncts = c ∧
      ∀ a ∈ c.conjuncts, a.conjuncts = [a]) ∧
    (st.pattern = .arrowPipeline → ∃ source ws,
      Pipeline.stagesOf? text = some (source, ws) ∧ Pipeline.FiltersBy ws st) := by
  constructor
  · have hnormal := allConditions_of_parse (fun _ _ _ h => Condition.isNormal_of_read h)
      (fun a b ha hb => Condition.isNormal_and (List.cons_ne_nil a [b])
        (List.forall_mem_cons.mpr ⟨ha, List.forall_mem_singleton.mpr hb⟩)) h
    intro c hc
    have hc := hnormal.forall c hc
    exact ⟨hc, hc.and_conjuncts, fun a ha => hc.conjuncts_conjunct ha⟩
  · intro hp
    obtain ⟨p, tokens, -, h⟩ := parse_eq_ok.mp h
    obtain rfl : p = .arrowPipeline := (pattern_of_grammar h).symm.trans hp
    exact Pipeline.filtersBy_of_read h

/-- Two filters with a group around a join. -/
def nestedFilters : List Char :=
  ("S -> filter((a = 1 and b = 2) and (c = 3 or (d = 4 or e = 5))) -> join(T, S.k = T.k) " ++
    "-> filter(f = 6)").toList

/-- Two filters with nested conjunctions, which become one conjunction of four parts. -/
theorem isNormal_of_parse_nestedFilters : ∃ st, Statement.parse nestedFilters = .ok st ∧
    st.pattern = .arrowPipeline ∧ st.conditions.length = 2 ∧ st.filterParts.length = 4 ∧
    (∀ c ∈ st.conditions, c.IsNormal) ∧
    ∃ source ws, Pipeline.stagesOf? nestedFilters = some (source, ws) ∧
      Pipeline.FiltersBy ws st := by
  obtain ⟨st, hst, h⟩ := exists_parse nestedFilters
    (congrArg String.toList String.ofList_append.symm)
    (fun _ st => decide (st.pattern = .arrowPipeline ∧ st.conditions.length = 2 ∧
      st.filterParts.length = 4))
    (by decide +kernel)
  obtain ⟨hpattern, hconditions, hparts⟩ := of_decide_eq_true h
  obtain ⟨hnormal, hpipeline⟩ := isNormal_of_parse hst
  exact ⟨st, hst, hpattern, hconditions, hparts, fun c hc => (hnormal c hc).1,
    hpipeline hpattern⟩

end DataPhrase
