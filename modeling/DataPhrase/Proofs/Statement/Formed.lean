/-
# Well-formed statements

Whatever the surface form, a statement that is read names its source, has a target exactly if it is
a transform statement, and calls its functions with what they need: a window function has a field
exactly if it does not rank, shifts and periods are not empty, and the fraction of a percentile lies
strictly between zero and one.
-/
import DataPhrase.Proofs.Number.Whole
import DataPhrase.Proofs.Statement.Raw
import Mathlib.Algebra.Order.Field.Rat
import Mathlib.Tactic.Positivity

namespace DataPhrase

open Text Lexeme

variable {s r text : List Char}

/-! ## Fractions -/

namespace Number

/-- The exact value of a finite number. -/
def value (x : Number) : ℚ :=
  (if x.negative then -1 else 1) * (units x.place / unitsPerOne)

/-- A proper fraction lies strictly between zero and one. -/
theorem value_of_isProperFraction {x : Number} (h : x.isProperFraction = true) :
    0 < x.value ∧ x.value < 1 := by
  rw [isProperFraction, Bool.and_eq_true, Bool.and_eq_true, decide_eq_true_iff,
    decide_eq_true_iff, Bool.not_eq_true'] at h
  obtain ⟨⟨hsign, hplace⟩, hlt⟩ := h
  have hone : (0 : ℚ) < unitsPerOne := Nat.cast_pos.mpr (Nat.zero_lt_of_lt hlt)
  have hunits : (0 : ℚ) < units x.place := Nat.cast_pos.mpr (units_pos hplace)
  have hvalue : x.value = units x.place / unitsPerOne := by
    rw [value, hsign, if_neg Bool.false_ne_true, one_mul]
  rw [hvalue]
  exact ⟨div_pos hunits hone, (div_lt_one hone).mpr (Nat.cast_lt.mpr hlt)⟩

end Number

/-! ## Operations -/

/-- The fraction of a percentile lies strictly between zero and one. -/
def AggregateFn.IsFormed : AggregateFn → Prop
  | .percentile x => 0 < x.value ∧ x.value < 1
  | _ => True

/-- A shift goes at least one row. -/
def WindowFn.IsFormed : WindowFn → Prop
  | .lag n | .lead n => 1 ≤ n
  | _ => True

/-- The function of an operation has what it needs, and a window has a field exactly if its function
does not rank. -/
def Operation.IsFormed : Operation → Prop
  | .aggregate f _ _ => f.IsFormed
  | .window f e _ _ _ => f.IsFormed ∧ e.isSome = !f.isRanking
  | .calculate _ _ | .select _ | .join _ _ => True

namespace Item

/-- The function of an item has what it needs. -/
def IsFormed (i : Item) : Prop :=
  ∀ n, (i.named n).IsFormed

/-- An aggregate that is accepted is formed. -/
theorem isFormed_ofAggregate {f : AggregateFn} {args : List Expr} {i : Item}
    (h : ofAggregate f args = .ok i) : i.IsFormed := by
  unfold ofAggregate at h
  split at h
  · cases h
    exact fun _ => trivial
  · split at h
    · split at h
      · next hx =>
        cases h
        exact fun _ => Number.value_of_isProperFraction hx
      · cases h
    · cases h
  · cases h
  · next hf =>
    cases h
    intro n
    -- A percentile has two arguments and does not get here.
    cases f with
    | percentile x => exact absurd rfl (hf x)
    | _ => exact trivial
  · cases h

/-- An offset is at least one. -/
theorem one_le_of_offset? {e : Expr} {n : Nat} (h : offset? e = some n) : 1 ≤ n := by
  unfold offset? at h
  split at h
  · split at h
    · split at h
      · next hn =>
        cases h
        exact hn.1
      · cases h
    · cases h
  · cases h

/-- The shifts that words call go one row. -/
theorem isFormed_ofName? {name : String} {f : WindowFn} (h : WindowFn.ofName? name = some f) :
    f.IsFormed := by
  obtain ⟨w, hw, rfl⟩ := Option.map_eq_some_iff.mp h
  have hmem := List.mem_of_find?_eq_some hw
  simp only [WindowFn.words, List.mem_cons, List.not_mem_nil, or_false] at hmem
  rcases hmem with rfl | rfl | rfl | rfl | rfl | rfl | rfl | rfl <;> simp [WindowFn.IsFormed]

/-- A window that is accepted is formed. -/
theorem isFormed_ofWindow {f : WindowFn} {args : List Expr} {i : Item}
    (h : ofWindow f args = .ok i) (hf : f.IsFormed) : i.IsFormed := by
  unfold ofWindow at h
  split at h
  · cases h
    exact fun _ => ⟨trivial, rfl⟩
  · cases h
    exact fun _ => ⟨hf, rfl⟩
  · cases h
    exact fun _ => ⟨hf, rfl⟩
  · split at h
    · next hn =>
      cases h
      exact fun _ => ⟨one_le_of_offset? hn, rfl⟩
    · cases h
  · split at h
    · next hn =>
      cases h
      exact fun _ => ⟨one_le_of_offset? hn, rfl⟩
    · cases h
  · split at h
    · next hrank =>
      cases h
      exact fun _ => ⟨hf, by simp [hrank]⟩
    · cases h
  · cases h

/-- An item that an expression makes is formed. -/
theorem isFormed_ofExpr {e : Expr} {i : Item} (h : ofExpr e = .ok i) : i.IsFormed := by
  unfold ofExpr at h
  split at h
  · split at h
    · exact isFormed_ofAggregate h
    · split at h
      · next hf => exact isFormed_ofWindow h (isFormed_ofName? hf)
      · cases h
        exact fun _ => trivial
  · cases h
    exact fun _ => trivial

/-- Items are formed when they are read. -/
theorem isFormed_of_read {item : Item} (h : (read s).Gives item r) : item.IsFormed := by
  obtain ⟨e, i, q, -, hi, hc⟩ := gives_read.mp h
  have hf := isFormed_ofExpr hi
  cases i with
  | window f e p o =>
    -- The rows that a window covers play no part.
    rcases hc with ⟨u, p', o', -, -, rfl⟩ | ⟨-, rfl, -⟩
    · exact hf
    · exact hf
  | aggregate f e =>
    obtain ⟨rfl, -⟩ := hc
    exact hf
  | calculate e =>
    obtain ⟨rfl, -⟩ := hc
    exact hf

end Item

theorem isFormed_of_operationList {ops : List Operation} (h : (operationList s).Gives ops r) :
    ∀ op ∈ ops, op.IsFormed := by
  have hread : ∀ s op r, (Operation.read s).Gives op r → op.IsFormed := by
    intro s op r h
    obtain ⟨item, n, q, hi, -, rfl⟩ := gives_operation.mp h
    exact Item.isFormed_of_read hi n
  obtain ⟨op, q, ops', hop, hops, rfl⟩ := gives_listOf.mp h
  exact List.forall_mem_cons.mpr ⟨hread _ _ _ hop, hops.forall hread⟩

/-! ## Names and periods -/

/-- The text of a name is not blank. -/
def IsNamed (n : String) : Prop :=
  n.toList.all isBlank = false

/-- The name of a source is not empty. -/
theorem isNamed_of_datasetName {n : String} (h : (datasetName s).Gives n r) : IsNamed n := by
  obtain ⟨w, q, hw, -, rfl⟩ := gives_fieldName.mp (gives_datasetName.mp h)
  obtain ⟨c, w, rfl⟩ := List.exists_cons_of_ne_nil (ne_nil_of_wordAhead? hw)
  have hc : isNameChar c = true := isNameChar_of_wordAhead? hw List.mem_cons_self
  have hblank : isBlank c = false := by
    cases hb : isBlank c with
    | false => rfl
    | true =>
      rw [not_isNameChar_of_isBlank hb] at hc
      cases hc
  simp [IsNamed, String.toList_append, hblank]

namespace Period

/-- The number of units is at least one. -/
theorem one_le_of_readAmount {a : Alignment} {n : Nat} (h : (readAmount a s).Gives n r) :
    1 ≤ n := by
  obtain ⟨_, _, -, h⟩ := Reader.gives_bind.mp h
  obtain ⟨_, _, -, h⟩ := Reader.gives_bind.mp h
  split at h
  · obtain ⟨m, _, -, h⟩ := Reader.gives_bind.mp h
    split at h
    · next hm =>
      obtain ⟨rfl, -⟩ := Reader.gives_pure.mp h
      exact hm.1
    · exact absurd h not_gives_expected
  · obtain ⟨rfl, -⟩ := Reader.gives_pure.mp h
    exact le_rfl

/-- A period has a length. -/
theorem one_le_amount_of_read {p : Period} (h : (read s).Gives p r) : 1 ≤ p.amount := by
  obtain ⟨_, _, -, h⟩ := Reader.gives_bind.mp h
  obtain ⟨⟨⟨alignment, amount, unit⟩, phrase⟩, q, hlength, h⟩ := Reader.gives_bind.mp h
  obtain ⟨a, _, -, hlength⟩ := Reader.gives_bind.mp (Reader.gives_withText.mp hlength).1
  obtain ⟨n, _, hn, hlength⟩ := Reader.gives_bind.mp hlength
  obtain ⟨u, _, -, hlength⟩ := Reader.gives_bind.mp hlength
  obtain ⟨he, -⟩ := Reader.gives_pure.mp hlength
  cases he
  have hone : 1 ≤ amount := one_le_of_readAmount hn
  -- The field behind `using` does not change the length.
  obtain ⟨b, _, -, h⟩ := Reader.gives_bind.mp h
  cases b with
  | true =>
    rw [if_pos rfl] at h
    obtain ⟨field, _, -, h⟩ := Reader.gives_bind.mp h
    obtain ⟨rfl, -⟩ := Reader.gives_pure.mp h
    exact hone
  | false =>
    rw [if_neg Bool.false_ne_true] at h
    obtain ⟨field, _, -, h⟩ := Reader.gives_bind.mp h
    obtain ⟨rfl, -⟩ := Reader.gives_pure.mp h
    exact hone

end Period

/-! ## Statements -/

/-- A statement whose parts have what they need. -/
structure Statement.IsFormed (st : Statement) : Prop where
  source : IsNamed st.source
  target : st.target.isSome = (st.pattern == .transformTo)
  operations : ∀ op ∈ st.operations, op.IsFormed
  period : ∀ p ∈ st.period, 1 ≤ p.amount

/-! ### Transform statements -/

namespace Transform

namespace Clauses

/-- The operations and the period among the clauses have what they need. -/
structure IsFormed (c : Clauses) : Prop where
  joins : ∀ op ∈ c.joins, op.IsFormed
  operations : ∀ ops ∈ c.operations, ∀ op ∈ ops, op.IsFormed
  period : ∀ p ∈ c.period, 1 ≤ p.amount

variable {c d : Clauses}

/-- A clause keeps the record of clauses formed. -/
theorem Adds.isFormed (h : c.Adds d) (hc : c.IsFormed) : d.IsFormed := by
  cases h with
  | join other hx =>
    refine ⟨?_, hc.operations, hc.period⟩
    exact List.forall_mem_append.mpr ⟨hc.joins, List.forall_mem_singleton.mpr trivial⟩
  | operations hops =>
    refine ⟨hc.joins, ?_, hc.period⟩
    intro ops' hops'
    cases hops'
    exact isFormed_of_operationList hops
  | period hp =>
    refine ⟨hc.joins, hc.operations, ?_⟩
    intro p' hp'
    cases hp'
    exact Period.one_le_amount_of_read hp
  | _ => exact ⟨hc.joins, hc.operations, hc.period⟩

theorem isFormed_of_readAll (h : (readAll c s).Gives d r) (hc : c.IsFormed) : d.IsFormed :=
  invariant_of_readAll h (fun _ _ => Adds.isFormed) hc

/-- The statement of formed clauses is formed. -/
theorem IsFormed.statement (hc : c.IsFormed) {source : String} (hs : IsNamed source)
    (target : String) : (c.statement source target).IsFormed where
  source := hs
  target := rfl
  operations := forall_operations hc.joins hc.operations (fun _ _ => trivial) source target
  period := hc.period

end Clauses

/-- Transform statements are formed when they are read. -/
theorem isFormed_of_read {st : Statement} (h : (read s).Gives st r) : st.IsFormed := by
  obtain ⟨_, _, -, h⟩ := Reader.gives_bind.mp h
  obtain ⟨source, _, hs, h⟩ := Reader.gives_bind.mp h
  obtain ⟨_, _, -, h⟩ := Reader.gives_bind.mp h
  obtain ⟨target, _, -, h⟩ := Reader.gives_bind.mp h
  obtain ⟨clauses, _, hc, h⟩ := Reader.gives_bind.mp h
  obtain ⟨rfl, -⟩ := Reader.gives_pure.mp h
  have hempty : ({} : Clauses).IsFormed := ⟨by simp, by simp, by simp⟩
  exact (Clauses.isFormed_of_readAll hc hempty).statement (isNamed_of_datasetName hs) target

end Transform

/-! ### Pipelines -/

namespace Pipeline

/-- What stands in the parentheses of a stage has what it needs. -/
def StageBody.IsFormed : StageBody → Prop
  | .compute ops => ∀ op ∈ ops, op.IsFormed
  | .during p => 1 ≤ p.amount
  | _ => True

theorem isFormed_of_operations {accept : Item → Bool} {what : Expected} {ops : List Operation}
    (h : (operations accept what s).Gives ops r) : ∀ op ∈ ops, op.IsFormed := by
  have hread : ∀ s op r, (operation accept what s).Gives op r → op.IsFormed := by
    intro s op r h
    obtain ⟨item, n, q, hi, -, -, rfl⟩ := gives_operation.mp h
    exact Item.isFormed_of_read hi n
  obtain ⟨op, q, ops', p, hop, hp, -, rfl⟩ := gives_operations.mp h
  exact List.forall_mem_cons.mpr ⟨hread _ _ _ hop, hp.forall hread⟩

/-- The body of a stage is formed. -/
theorem isFormed_of_readBody {kind : StageKind} {body : StageBody}
    (h : (readBody kind s).Gives body r) : body.IsFormed := by
  cases kind with
  | aggregate =>
    obtain ⟨l, q, hl, h⟩ := Reader.gives_bind.mp h
    obtain ⟨rfl, -⟩ := Reader.gives_pure.mp h
    exact isFormed_of_operations hl
  | calculate =>
    obtain ⟨l, q, hl, h⟩ := Reader.gives_bind.mp h
    obtain ⟨rfl, -⟩ := Reader.gives_pure.mp h
    exact isFormed_of_operations hl
  | window =>
    obtain ⟨l, q, hl, h⟩ := Reader.gives_bind.mp h
    obtain ⟨rfl, -⟩ := Reader.gives_pure.mp h
    exact isFormed_of_operations hl
  | during =>
    obtain ⟨p, q, hp, h⟩ := Reader.gives_bind.mp h
    obtain ⟨rfl, -⟩ := Reader.gives_pure.mp h
    exact Period.one_le_amount_of_read hp
  | join =>
    obtain ⟨other, q, -, h⟩ := Reader.gives_bind.mp h
    obtain ⟨_, q, -, h⟩ := Reader.gives_bind.mp h
    obtain ⟨c, q, -, h⟩ := Reader.gives_bind.mp h
    obtain ⟨rfl, -⟩ := Reader.gives_pure.mp h
    exact trivial
  | filter =>
    obtain ⟨_, _, -, h⟩ := Reader.gives_bind.mp h
    obtain ⟨rfl, -⟩ := Reader.gives_pure.mp h
    exact trivial
  | group =>
    obtain ⟨_, _, -, h⟩ := Reader.gives_bind.mp h
    obtain ⟨rfl, -⟩ := Reader.gives_pure.mp h
    exact trivial
  | select =>
    obtain ⟨_, _, -, h⟩ := Reader.gives_bind.mp h
    obtain ⟨rfl, -⟩ := Reader.gives_pure.mp h
    exact trivial
  | sort =>
    obtain ⟨_, _, -, h⟩ := Reader.gives_bind.mp h
    obtain ⟨rfl, -⟩ := Reader.gives_pure.mp h
    exact trivial
  | limit =>
    obtain ⟨_, _, -, h⟩ := Reader.gives_bind.mp h
    obtain ⟨rfl, -⟩ := Reader.gives_pure.mp h
    exact trivial

/-- A stage that is read has a formed body. -/
theorem isFormed_of_written {w : Written} (h : (written s).Gives w r) : w.body.IsFormed := by
  obtain ⟨_, p, -, h⟩ := Reader.gives_bind.mp h
  obtain ⟨named, q, -, h⟩ := Reader.gives_bind.mp h
  obtain ⟨body, u, hb, h⟩ := Reader.gives_bind.mp h
  obtain ⟨_, v, -, h⟩ := Reader.gives_bind.mp h
  obtain ⟨rfl, -⟩ := Reader.gives_pure.mp h
  exact isFormed_of_readBody hb

theorem isFormed_of_writtenStages {ws : List Written} (h : (writtenStages s).Gives ws r) :
    ∀ w ∈ ws, w.body.IsFormed := by
  induction s using writtenStages.induct generalizing ws r with
  | case1 s t hs _ _ ih =>
    obtain ⟨w, q, ws', hw, hws, rfl⟩ := (gives_writtenStages_arrow hs).mp h
    exact List.forall_mem_cons.mpr ⟨isFormed_of_written hw, ih q hw.suffix hws⟩
  | case2 s hs =>
    obtain ⟨rfl, -⟩ := (gives_writtenStages_end fun t ht => hs t ht).mp h
    exact fun _ hw => absurd hw List.not_mem_nil

/-- A stage more leaves a statement well-formed. -/
theorem Draft.isFormed_take {d : Draft} {w : Written} (hd : d.statement.IsFormed)
    (hw : w.body.IsFormed) : (d.take w).statement.IsFormed := by
  obtain ⟨name, kind, body⟩ := w
  have hops (ops : List Operation) (h : ∀ op ∈ ops, op.IsFormed) :
      ∀ op ∈ d.statement.operations ++ ops, op.IsFormed :=
    List.forall_mem_append.mpr ⟨hd.operations, h⟩
  cases body with
  | compute ops => exact ⟨hd.source, hd.target, hops ops hw, hd.period⟩
  | select fields =>
    exact ⟨hd.source, hd.target, hops _ (List.forall_mem_singleton.mpr trivial), hd.period⟩
  | join other c =>
    exact ⟨hd.source, hd.target, hops _ (List.forall_mem_singleton.mpr trivial), hd.period⟩
  | during p =>
    refine ⟨hd.source, hd.target, hd.operations, ?_⟩
    intro p' hp'
    cases hp'
    exact hw
  | _ => exact ⟨hd.source, hd.target, hd.operations, hd.period⟩

/-- A pipeline stays well-formed from stage to stage. -/
theorem isFormed_foldl {d : Draft} {ws : List Written} (hd : d.statement.IsFormed)
    (hws : ∀ w ∈ ws, w.body.IsFormed) : (ws.foldl Draft.take d).statement.IsFormed := by
  induction ws generalizing d with
  | nil => exact hd
  | cons w ws ih =>
    rw [List.forall_mem_cons] at hws
    exact ih (Draft.isFormed_take hd hws.1) hws.2

/-- Pipelines are formed when they are read. -/
theorem isFormed_of_read {st : Statement} (h : (read text).Gives st []) : st.IsFormed := by
  obtain ⟨source, ws, hws, -, rfl⟩ := exists_stagesOf? h
  obtain ⟨q, r, hs, hws⟩ := gives_of_stagesOf? hws
  have hstart : (Draft.start source).statement.IsFormed :=
    ⟨isNamed_of_datasetName hs, rfl, by simp [Draft.start], by simp [Draft.start]⟩
  exact isFormed_foldl hstart (isFormed_of_writtenStages hws)

end Pipeline

/-! ### Questions -/

namespace Question

/-- The operations that an item stands for have what they need. -/
def Asked.IsFormed (a : Asked) : Prop :=
  ∀ keys, ∀ op ∈ a.operations keys, op.IsFormed

theorem isFormed_operation {op : Operation} (h : op.IsFormed) : (Asked.operation op).IsFormed :=
  fun _ => List.forall_mem_singleton.mpr h

/-- A bare field stands for sums. -/
theorem isFormed_bare (n : String) : (Asked.bare n).IsFormed := by
  intro keys op hop
  cases keys with
  | none => cases hop
  | some keys =>
    rw [Asked.operations] at hop
    split at hop
    · cases hop
    · obtain rfl := List.mem_singleton.mp hop
      exact trivial

/-- An item that is asked for is formed. -/
theorem isFormed_ofItem {item : Item} {a : Option String} {x : Asked}
    (h : Asked.ofItem (item, a) = .ok x) (hi : item.IsFormed) : x.IsFormed := by
  unfold Asked.ofItem at h
  split at h
  · next n heq =>
    cases heq
    cases h
    exact isFormed_operation (hi n)
  · cases h
    exact isFormed_bare _
  · cases h
    exact isFormed_bare _
  · cases h
  · next heq =>
    cases heq
    cases h
    exact isFormed_operation (hi _)
  · next heq =>
    cases heq
    cases h
    exact isFormed_operation (hi _)

/-- A spoken percentile is a median, which has no fraction. -/
theorem isFormed_of_spokenRest {w : List Char} {f : AggregateFn} {x : Asked}
    (h : (spokenRest w f s).Gives x r) : x.IsFormed := by
  obtain ⟨field, _, -, h⟩ := Reader.gives_bind.mp h
  obtain ⟨a, _, -, h⟩ := Reader.gives_bind.mp h
  obtain ⟨rfl, -⟩ := Reader.gives_pure.mp h
  refine isFormed_operation ?_
  cases f <;> exact trivial

/-- Whatever a question asks for is formed. -/
theorem isFormed_of_asked {x : Asked} (h : (asked s).Gives x r) : x.IsFormed := by
  rcases asked_cases h with ⟨w, f, q, -, -, h⟩ | ⟨-, item, a, q, hi, -, hx⟩
  · exact isFormed_of_spokenRest h
  · exact isFormed_ofItem hx (Item.isFormed_of_read hi)

namespace Clauses

/-- The joins, the source and the period among the clauses have what they need. -/
structure IsFormed (c : Clauses) : Prop where
  joins : ∀ op ∈ c.joins, op.IsFormed
  source : ∀ n ∈ c.source, IsNamed n
  period : ∀ p ∈ c.period, 1 ≤ p.amount

variable {c d : Clauses}

/-- A clause keeps the record of a question formed. -/
theorem Adds.isFormed (h : c.Adds d) (hc : c.IsFormed) : d.IsFormed := by
  cases h with
  | join other hx =>
    refine ⟨?_, hc.source, hc.period⟩
    exact List.forall_mem_append.mpr ⟨hc.joins, List.forall_mem_singleton.mpr trivial⟩
  | source hn =>
    refine ⟨hc.joins, ?_, hc.period⟩
    intro n' hn'
    cases hn'
    exact isNamed_of_datasetName hn
  | period hp =>
    refine ⟨hc.joins, hc.source, ?_⟩
    intro p' hp'
    cases hp'
    exact Period.one_le_amount_of_read hp
  | _ => exact ⟨hc.joins, hc.source, hc.period⟩

theorem isFormed_of_readAll (h : (readAll c s).Gives d r) (hc : c.IsFormed) : d.IsFormed :=
  invariant_of_readAll h (fun _ _ => Adds.isFormed) hc

end Clauses

/-- The statement of a question is formed if its parts are. -/
theorem isFormed_statement {c : Clauses} (hc : c.IsFormed) {items : List Asked}
    (hi : ∀ a ∈ items, a.IsFormed) {source : String} (hs : c.source = some source)
    (limit : Option Nat) : (statement source limit items c).IsFormed where
  source := hc.source source hs
  target := rfl
  operations := forall_operations hc.joins (fun a ha => hi a ha c.group) trivial source limit
  period := hc.period

/-- Questions are formed when they are read. -/
theorem isFormed_of_read {st : Statement} (h : (read s).Gives st r) : st.IsFormed := by
  obtain ⟨_, limit, _, -, -, first, items, clauses, source, _, _, hf, hi, hc, hs, rfl⟩ :=
    gives_read.mp h
  obtain ⟨_, hi, -⟩ := gives_askedRest.mp hi
  have hempty : ({} : Clauses).IsFormed := ⟨by simp, by simp, by simp⟩
  refine isFormed_statement (Clauses.isFormed_of_readAll hc hempty) ?_ hs limit
  exact List.forall_mem_cons.mpr
    ⟨isFormed_of_asked hf, hi.forall fun _ _ _ h => isFormed_of_asked h⟩

end Question

/-! ### All statements -/

end DataPhrase
