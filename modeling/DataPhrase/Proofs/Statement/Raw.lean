/-
# Statements as they are read

Whatever the surface form, a statement that is read mentions no metrics, and its aliases are plain
names: those that are written are words, and those that are made up join words by underscores.
-/
import DataPhrase.Proofs.Pipeline.Stages
import DataPhrase.Proofs.Plan
import DataPhrase.Proofs.Statement.ClauseRun
import DataPhrase.Proofs.Statement.Parse

namespace DataPhrase

open Text Lexeme

variable {s r text : List Char} {n m : String}

/-! ## Plain names -/

/-- Plain names make a plain name when put together. -/
theorem isPlain_append (hn : IsPlain n) (hm : IsPlain m) : IsPlain (n ++ m) := by
  rw [IsPlain, String.toList_append, List.mem_append, not_or]
  exact ⟨hn, hm⟩

/-- Plain names with a plain separator make a plain name. -/
theorem isPlain_intercalate {sep : String} (hs : IsPlain sep) {l : List String}
    (hl : ∀ n ∈ l, IsPlain n) : IsPlain (sep.intercalate l) := by
  induction l with
  | nil =>
    rw [String.intercalate_nil]
    exact List.not_mem_nil
  | cons n l ih =>
    rw [List.forall_mem_cons] at hl
    by_cases hne : l = []
    · rw [hne, String.intercalate_singleton]
      exact hl.1
    · rw [String.intercalate_cons_of_ne_nil hne]
      exact isPlain_append (isPlain_append hl.1 hs) (ih hl.2)

theorem isPlain_underscore : IsPlain "_" := by
  rw [IsPlain]
  decide

namespace AggregateFn

/-- The names of aggregates are plain. -/
theorem isPlain_name (f : AggregateFn) : IsPlain f.name := by
  cases f <;>
  · rw [IsPlain, name]
    decide

/-- A word that calls an aggregate is plain in lower case. -/
theorem isPlain_lower {w : List Char} {f : AggregateFn}
    (h : ofName? (String.ofList w) = some f) : IsPlain (String.ofList (lower w)) := by
  obtain ⟨x, hx, -⟩ := Option.map_eq_some_iff.mp h
  have hsame := List.find?_some hx
  rw [sameWord, String.toList_ofList, beq_iff_eq] at hsame
  have hwords : (words.all fun x => !(lower x.1.toList).contains '.') = true := by decide
  have hdot := List.all_eq_true.mp hwords x (List.mem_of_find?_eq_some hx)
  rw [hsame, Bool.not_eq_true', ← Bool.not_eq_true, List.contains_iff_mem] at hdot
  rw [IsPlain, String.toList_ofList]
  exact hdot

end AggregateFn

theorem WindowFn.isPlain_name (f : WindowFn) : IsPlain f.name := by
  cases f <;>
  · rw [IsPlain, name]
    decide

/-! ## Raw statements -/

/-- The condition mentions fields by plain names only, and no metrics. -/
def Condition.IsRaw (c : Condition) : Prop :=
  ∀ e ∈ c.exprs, e.IsWritten

/-- The operation mentions no metrics, and its alias is a plain name. Where it does not aggregate, it
mentions fields by plain names; the field of a spoken aggregate can have several points. -/
structure Operation.IsRaw (op : Operation) : Prop where
  metrics : ∀ e ∈ op.exprs, e.metrics = []
  written : op.isAggregate = false → ∀ e ∈ op.exprs, e.IsWritten
  aliasName : ∀ n ∈ op.alias?, IsPlain n

/-- The statement mentions no metrics, and its aliases are plain names. -/
structure Statement.IsRaw (st : Statement) : Prop where
  operations : ∀ op ∈ st.operations, op.IsRaw
  filter : ∀ c ∈ st.filter, c.IsRaw

/-- A condition that is written names no metric by its section. -/
theorem Condition.IsWritten.isRaw {c : Condition} (h : c.IsWritten) : c.IsRaw :=
  h.exprs

/-- An operation that is written names no metric by its section. -/
theorem Operation.IsWritten.isRaw {op : Operation} (h : op.IsWritten) : op.IsRaw :=
  ⟨fun e he => (h.exprs e he).metrics, fun _ => h.exprs, h.aliasName⟩

/-- The aliases of a raw statement are plain. -/
theorem Statement.IsRaw.isPlain {st : Statement} (h : st.IsRaw) : ∀ a ∈ st.aliases, IsPlain a := by
  intro a ha
  obtain ⟨op, hop, hal⟩ := List.mem_filterMap.mp ha
  exact (h.operations op hop).aliasName a hal

theorem isRaw_of_operationList {ops : List Operation} (h : (operationList s).Gives ops r) :
    ∀ op ∈ ops, op.IsRaw := by
  obtain ⟨op, q, ops', hop, hops, rfl⟩ := gives_listOf.mp h
  rw [List.forall_mem_cons]
  refine ⟨(Operation.isWritten_of_read hop).isRaw, ?_⟩
  exact hops.forall fun _ _ _ h => (Operation.isWritten_of_read h).isRaw

/-! ## Transform statements -/

namespace Transform

namespace Clauses

/-- The operations and the filter among the clauses are raw. -/
structure IsRaw (c : Clauses) : Prop where
  joins : ∀ op ∈ c.joins, op.IsRaw
  operations : ∀ ops ∈ c.operations, ∀ op ∈ ops, op.IsRaw
  filter : ∀ x ∈ c.filter, x.IsRaw

variable {c d : Clauses}

theorem Adds.isRaw (h : c.Adds d) (hc : c.IsRaw) : d.IsRaw := by
  cases h with
  | join other hx =>
    refine ⟨?_, hc.operations, hc.filter⟩
    exact List.forall_mem_append.mpr ⟨hc.joins, List.forall_mem_singleton.mpr
      (Operation.isWritten_join (Condition.isWritten_of_read hx)).isRaw⟩
  | operations hops =>
    refine ⟨hc.joins, ?_, hc.filter⟩
    intro ops' hops'
    cases hops'
    exact isRaw_of_operationList hops
  | filter hx =>
    refine ⟨hc.joins, hc.operations, ?_⟩
    intro x' hx'
    cases hx'
    exact (Condition.isWritten_of_read hx).isRaw
  | _ => exact ⟨hc.joins, hc.operations, hc.filter⟩

theorem isRaw_of_readAll (h : (readAll c s).Gives d r) (hc : c.IsRaw) : d.IsRaw :=
  invariant_of_readAll h (fun _ _ => Adds.isRaw) hc

/-- The statement of raw clauses is raw. -/
theorem IsRaw.statement (hc : c.IsRaw) (source target : String) :
    (c.statement source target).IsRaw where
  operations := forall_operations hc.joins hc.operations
    (fun fields _ => (Operation.isWritten_select fields).isRaw) source target
  filter := hc.filter

end Clauses

/-- Transform statements are raw when they are read. -/
theorem isRaw_of_read {st : Statement} (h : (read s).Gives st r) : st.IsRaw := by
  obtain ⟨_, _, -, h⟩ := Reader.gives_bind.mp h
  obtain ⟨source, _, -, h⟩ := Reader.gives_bind.mp h
  obtain ⟨_, _, -, h⟩ := Reader.gives_bind.mp h
  obtain ⟨target, _, -, h⟩ := Reader.gives_bind.mp h
  obtain ⟨clauses, _, hc, h⟩ := Reader.gives_bind.mp h
  obtain ⟨rfl, -⟩ := Reader.gives_pure.mp h
  refine (Clauses.isRaw_of_readAll hc ⟨?_, ?_, ?_⟩).statement source target
  · exact fun _ h => absurd h List.not_mem_nil
  · exact fun _ h => absurd h (Option.not_mem_none _)
  · exact fun _ h => absurd h (Option.not_mem_none _)

end Transform

/-! ## Pipelines -/

namespace Pipeline

/-- Stages that are written leave a raw draft raw. -/
theorem isRaw_of_foldl {d : Draft} {ws : List Written} (hd : d.statement.IsRaw)
    (hws : ∀ w ∈ ws, w.body.IsWritten) : (ws.foldl Draft.take d).statement.IsRaw := by
  induction ws generalizing d with
  | nil => exact hd
  | cons w ws ih =>
    rw [List.forall_mem_cons] at hws
    refine ih ?_ hws.2
    obtain ⟨name, kind, body⟩ := w
    have hops : ∀ ops : List Operation, (∀ op ∈ ops, op.IsRaw) →
        ∀ op ∈ d.statement.operations ++ ops, op.IsRaw := by
      intro ops h op hop
      rcases List.mem_append.mp hop with hop | hop
      · exact hd.operations op hop
      · exact h op hop
    cases body with
    | filter c =>
      have hc : c.IsWritten := hws.1
      refine ⟨hd.operations, ?_⟩
      intro x hx
      cases hx
      cases hf : d.statement.filter with
      | none => exact hc.isRaw
      | some old =>
        -- the two filters are joined with `and`, which has the expressions of both
        intro e he
        rw [Condition.exprs_and, List.flatMap_cons, List.flatMap_cons, List.flatMap_nil,
          List.append_nil] at he
        rcases List.mem_append.mp he with he | he
        · exact hd.filter old hf e he
        · exact hc.isRaw e he
    | group fields => exact ⟨hd.operations, hd.filter⟩
    | compute ops => exact ⟨hops ops fun op hop => (hws.1.2 op hop).isRaw, hd.filter⟩
    | select fields =>
      refine ⟨hops [_] ?_, hd.filter⟩
      intro op hop
      obtain rfl := List.mem_singleton.mp hop
      exact (Operation.isWritten_select fields).isRaw
    | sort order => exact ⟨hd.operations, hd.filter⟩
    | join other c =>
      have hc : c.IsWritten := hws.1
      refine ⟨hops [_] ?_, hd.filter⟩
      intro op hop
      obtain rfl := List.mem_singleton.mp hop
      exact (Operation.isWritten_join hc).isRaw
    | during p => exact ⟨hd.operations, hd.filter⟩
    | limit k => exact ⟨hd.operations, hd.filter⟩

/-- Pipelines are raw when they are read. -/
theorem isRaw_of_read {st : Statement} (h : (read text).Gives st []) : st.IsRaw := by
  obtain ⟨source, ws, hws, -, rfl⟩ := exists_stagesOf? h
  refine isRaw_of_foldl ⟨?_, ?_⟩ (isWritten_of_stagesOf? hws)
  · exact fun _ h => absurd h List.not_mem_nil
  · exact fun _ h => absurd h (Option.not_mem_none _)

end Pipeline

/-! ## Questions -/

namespace Question

/-- A name without its qualifier is plain. -/
theorem isPlain_shortName (n : String) : IsPlain (shortName n) := by
  rw [IsPlain, shortName, String.toList_ofList, List.mem_reverse]
  intro hd
  have hdot := List.all_eq_true.mp (List.all_takeWhile (p := (· != '.'))) _ hd
  exact absurd hdot (by decide)

/-- An alias that is made up for a call is plain if the call and its fields are. -/
theorem isPlain_defaultAlias {function : String} (hf : IsPlain function) {e : Expr}
    (he : e.IsWritten) : IsPlain (defaultAlias function e) := by
  rw [defaultAlias]
  split
  · refine isPlain_append hf ?_
    rw [IsPlain]
    decide
  · split
    · exact hf
    · refine isPlain_append (isPlain_append hf isPlain_underscore) ?_
      exact isPlain_intercalate isPlain_underscore fun n hn => he.isPlain hn

theorem metrics_fieldOf (n : String) : (fieldOf n).metrics = [] := by
  rw [fieldOf]
  split <;> rfl

/-- The operations that an item stands for are raw. -/
def Asked.IsRaw (a : Asked) : Prop :=
  ∀ keys, ∀ op ∈ a.operations keys, op.IsRaw

/-- What is asked for is raw if its operation is. -/
theorem isRaw_operation {op : Operation} (h : op.IsRaw) : (Asked.operation op).IsRaw := by
  intro keys op' hop
  obtain rfl := List.mem_singleton.mp hop
  exact h

theorem isRaw_aggregate {f : AggregateFn} {e : Expr} {a : String} (he : e.metrics = [])
    (ha : IsPlain a) : (Operation.aggregate f e a).IsRaw := by
  constructor
  · intro x hx
    obtain rfl := List.mem_singleton.mp hx
    exact he
  · exact fun h => Bool.noConfusion h
  · intro n hn
    cases hn
    exact ha

theorem isRaw_bare (n : String) : (Asked.bare n).IsRaw := by
  intro keys op hop
  cases keys with
  | none => cases hop
  | some keys =>
    rw [Asked.operations] at hop
    split at hop
    · cases hop
    · obtain rfl := List.mem_singleton.mp hop
      exact isRaw_aggregate (metrics_fieldOf n) (isPlain_shortName n)

/-- An alias that is read is plain. -/
theorem isPlain_of_optionalAlias {a : Option String} (h : (optionalAlias s).Gives a r) :
    ∀ n ∈ a, IsPlain n := by
  rcases gives_optionalAlias.mp h with ⟨q, n, -, hn, rfl⟩ | ⟨-, rfl, -⟩
  · rintro m ⟨⟩
    exact isPlain_of_identifier hn
  · rintro m ⟨⟩

/-- An item that is asked for is raw. -/
theorem isRaw_ofItem {item : Item} {a : Option String} {x : Asked}
    (h : Asked.ofItem (item, a) = .ok x) (hi : ∀ e ∈ item.exprs, e.IsWritten)
    (ha : ∀ n ∈ a, IsPlain n) : x.IsRaw := by
  unfold Asked.ofItem at h
  split at h
  · next item' n heq =>
    cases heq
    cases h
    exact isRaw_operation (Operation.isWritten_named hi (ha n rfl)).isRaw
  · cases h
    exact isRaw_bare _
  · cases h
    exact isRaw_bare _
  · cases h
  · next f e heq =>
    cases heq
    cases h
    have he := hi e (List.mem_singleton_self e)
    exact isRaw_operation (isRaw_aggregate he.metrics (isPlain_defaultAlias f.isPlain_name he))
  · next f e p o heq =>
    cases heq
    cases h
    refine isRaw_operation ⟨fun x hx => (hi x hx).metrics, fun _ => hi, ?_⟩
    intro n hn
    cases hn
    cases e with
    | none => exact f.isPlain_name
    | some e => exact isPlain_defaultAlias f.isPlain_name (hi e (List.mem_singleton_self e))

/-- A spoken aggregate is raw. -/
theorem isRaw_of_spokenRest {w : List Char} {f : AggregateFn} {x : Asked}
    (hw : AggregateFn.ofName? (String.ofList w) = some f) (h : (spokenRest w f s).Gives x r) :
    x.IsRaw := by
  obtain ⟨field, _, -, h⟩ := Reader.gives_bind.mp h
  obtain ⟨a, _, ha, h⟩ := Reader.gives_bind.mp h
  obtain ⟨rfl, -⟩ := Reader.gives_pure.mp h
  refine isRaw_operation (isRaw_aggregate (metrics_fieldOf field) ?_)
  cases a with
  | none =>
    exact isPlain_append (isPlain_append (AggregateFn.isPlain_lower hw) isPlain_underscore)
      (isPlain_shortName field)
  | some a => exact isPlain_of_optionalAlias ha a rfl

/-- Whatever a question asks for is raw. -/
theorem isRaw_of_asked {x : Asked} (h : (asked s).Gives x r) : x.IsRaw := by
  rcases asked_cases h with ⟨w, f, q, hf, -, h⟩ | ⟨-, item, a, q, hi, ha, hx⟩
  · exact isRaw_of_spokenRest hf h
  · exact isRaw_ofItem hx (Item.isWritten_of_read hi) (isPlain_of_optionalAlias ha)

namespace Clauses

/-- The joins and the filter among the clauses are raw. -/
structure IsRaw (c : Clauses) : Prop where
  joins : ∀ op ∈ c.joins, op.IsRaw
  filter : ∀ x ∈ c.filter, x.IsRaw

variable {c d : Clauses}

theorem Adds.isRaw (h : c.Adds d) (hc : c.IsRaw) : d.IsRaw := by
  cases h with
  | join other hx =>
    refine ⟨?_, hc.filter⟩
    exact List.forall_mem_append.mpr ⟨hc.joins, List.forall_mem_singleton.mpr
      (Operation.isWritten_join (Condition.isWritten_of_read hx)).isRaw⟩
  | filter hx =>
    refine ⟨hc.joins, ?_⟩
    intro x' hx'
    cases hx'
    exact (Condition.isWritten_of_read hx).isRaw
  | _ => exact ⟨hc.joins, hc.filter⟩

theorem isRaw_of_readAll (h : (readAll c s).Gives d r) (hc : c.IsRaw) : d.IsRaw :=
  invariant_of_readAll h (fun _ _ => Adds.isRaw) hc

end Clauses

/-- The statement of a question is raw if its parts are. -/
theorem isRaw_statement {c : Clauses} (hc : c.IsRaw) {items : List Asked}
    (hi : ∀ a ∈ items, a.IsRaw) (source : String) (limit : Option Nat) :
    (statement source limit items c).IsRaw where
  operations := forall_operations hc.joins (fun a ha => hi a ha c.group)
    (Operation.isWritten_select _).isRaw source limit
  filter := hc.filter

/-- Questions are raw when they are read. -/
theorem isRaw_of_read {st : Statement} (h : (read s).Gives st r) : st.IsRaw := by
  obtain ⟨_, limit, _, -, -, first, items, clauses, source, _, _, hf, hi, hc, -, rfl⟩ :=
    gives_read.mp h
  obtain ⟨_, hi, -⟩ := gives_askedRest.mp hi
  refine isRaw_statement (Clauses.isRaw_of_readAll hc ⟨?_, ?_⟩) ?_ source limit
  · exact fun _ h => absurd h List.not_mem_nil
  · exact fun _ h => absurd h (Option.not_mem_none _)
  · exact List.forall_mem_cons.mpr ⟨isRaw_of_asked hf, hi.forall fun _ _ _ h => isRaw_of_asked h⟩

end Question

/-! ## All statements -/

/-- **Every statement that a text makes is raw.** -/
theorem isRaw_of_parse {st : Statement} (h : Statement.parse text = .ok st) : st.IsRaw := by
  obtain ⟨p, tokens, -, h⟩ := parse_eq_ok.mp h
  cases p with
  | transformTo => exact Transform.isRaw_of_read h
  | arrowPipeline => exact Pipeline.isRaw_of_read h
  | naturalQuery => exact Question.isRaw_of_read h

end DataPhrase
