/-
# What the readers of items give

An item is an expression whose call at the top decides what it computes; a window may go on with
the rows it covers. Its expressions are written expressions, and its alias is a plain name.
-/
import DataPhrase.Proofs.Grammar.Names
import DataPhrase.Statement.Item

namespace DataPhrase

open Lexeme

variable {s r : List Char}

/-! ## Items -/

namespace Item

/-- The item is the one that was read off in front of `q`, up to the rows that a window covers. -/
def Covers (q : List Char) (item : Item) (r : List Char) : Item → Prop
  | .window f e p o =>
    (∃ u p' o', after? "over" q = some u ∧ (overClause u).Gives (p', o') r ∧
      item = .window f e p' o') ∨ (after? "over" q = none ∧ item = .window f e p o ∧ q = r)
  | i => item = i ∧ q = r

/-- An item is read as an expression that has the form of one, with the window clause behind it. -/
theorem gives_read {item : Item} : (read s).Gives item r ↔
    ∃ e i q, (Expr.read (trim s)).Gives e q ∧ ofExpr e = .ok i ∧ Covers q item r i := by
  unfold read
  rw [Reader.gives_bind]
  constructor
  · rintro ⟨_, p, hp, h⟩
    rw [gives_skipBlanks] at hp
    subst hp
    obtain ⟨i, q, hi, h⟩ := Reader.gives_bind.mp h
    obtain ⟨e, he, hf⟩ := Reader.gives_refine.mp hi
    have hi : ofExpr e = .ok i := by
      split at hf
      · next j hj =>
        cases hf
        exact hj
      · cases hf
    refine ⟨e, i, q, he, hi, ?_⟩
    -- only a window goes on behind its expression
    cases i with
    | window f e p o =>
      obtain ⟨b, u, hb, h⟩ := Reader.gives_bind.mp h
      rcases gives_eatWord.mp hb with ⟨ho, rfl⟩ | ⟨ho, rfl, rfl⟩
      · rw [if_pos rfl] at h
        obtain ⟨⟨p', o'⟩, v, hv, h⟩ := Reader.gives_bind.mp h
        obtain ⟨rfl, rfl⟩ := Reader.gives_pure.mp h
        exact Or.inl ⟨u, p', o', ho, hv, rfl⟩
      · rw [if_neg Bool.false_ne_true] at h
        obtain ⟨rfl, rfl⟩ := Reader.gives_pure.mp h
        exact Or.inr ⟨ho, rfl, rfl⟩
    | aggregate f e =>
      obtain ⟨rfl, rfl⟩ := Reader.gives_pure.mp h
      exact ⟨rfl, rfl⟩
    | calculate e =>
      obtain ⟨rfl, rfl⟩ := Reader.gives_pure.mp h
      exact ⟨rfl, rfl⟩
  · rintro ⟨e, i, q, he, hi, h⟩
    refine ⟨(), trim s, gives_skipBlanks.mpr rfl, Reader.gives_bind.mpr ⟨i, q, ?_, ?_⟩⟩
    · refine Reader.gives_refine.mpr ⟨e, he, ?_⟩
      rw [hi]
    · cases i with
      | window f e p o =>
        rcases h with ⟨u, p', o', ho, hv, rfl⟩ | ⟨ho, rfl, rfl⟩
        · refine Reader.gives_bind.mpr ⟨true, u, gives_eatWord.mpr (Or.inl ⟨ho, rfl⟩), ?_⟩
          rw [if_pos rfl]
          exact Reader.gives_bind.mpr ⟨(p', o'), r, hv, Reader.gives_pure.mpr ⟨rfl, rfl⟩⟩
        · refine Reader.gives_bind.mpr ⟨false, q, gives_eatWord.mpr (Or.inr ⟨ho, rfl, rfl⟩), ?_⟩
          rw [if_neg Bool.false_ne_true]
          exact Reader.gives_pure.mpr ⟨rfl, rfl⟩
      | aggregate f e =>
        obtain ⟨rfl, rfl⟩ := h
        exact Reader.gives_pure.mpr ⟨rfl, rfl⟩
      | calculate e =>
        obtain ⟨rfl, rfl⟩ := h
        exact Reader.gives_pure.mpr ⟨rfl, rfl⟩

/-- Blanks in front of an item do not matter. -/
theorem gives_read_trim {item : Item} : (read (trim s)).Gives item r ↔ (read s).Gives item r := by
  rw [gives_read, gives_read, trim_trim]

/-- The expressions of an item. -/
def exprs : Item → List Expr
  | .aggregate _ e | .calculate e => [e]
  | .window _ e _ _ => e.toList

/-- A window clause adds no expression. -/
theorem exprs_of_covers {q : List Char} {item i : Item} (h : Covers q item r i) :
    item.exprs = i.exprs := by
  cases i with
  | window f e p o =>
    rcases h with ⟨u, p', o', -, -, rfl⟩ | ⟨-, rfl, -⟩ <;> rfl
  | aggregate f e =>
    obtain ⟨rfl, -⟩ := h
    rfl
  | calculate e =>
    obtain ⟨rfl, -⟩ := h
    rfl

/-- The expressions of an aggregate are its arguments. -/
theorem exprs_ofAggregate {f : AggregateFn} {args : List Expr} {i : Item}
    (h : ofAggregate f args = .ok i) {e : Expr} (he : e ∈ i.exprs) : e = .star ∨ e ∈ args := by
  unfold ofAggregate at h
  split at h
  · cases h
    exact Or.inl (List.mem_singleton.mp he)
  · split at h
    · split at h
      · cases h
        obtain rfl := List.mem_singleton.mp he
        exact Or.inr List.mem_cons_self
      · cases h
    · cases h
  · cases h
  · cases h
    exact Or.inr he
  · cases h

/-- The expressions of a window call are its arguments. -/
theorem exprs_ofWindow {f : WindowFn} {args : List Expr} {i : Item}
    (h : ofWindow f args = .ok i) {e : Expr} (he : e ∈ i.exprs) : e ∈ args := by
  unfold ofWindow at h
  split at h
  · cases h
    simpa [exprs] using he
  · cases h
    simpa [exprs] using he
  · cases h
    simpa [exprs] using he
  · split at h
    · cases h
      obtain rfl : e = _ := by simpa [exprs] using he
      exact List.mem_cons_self
    · cases h
  · split at h
    · cases h
      obtain rfl : e = _ := by simpa [exprs] using he
      exact List.mem_cons_self
    · cases h
  · split at h
    · cases h
      simp [exprs] at he
    · cases h
  · cases h

/-- The expressions of an item that a written expression stands for are written. -/
theorem isWritten_ofExpr {x : Expr} {i : Item} (h : ofExpr x = .ok i) (hx : x.IsWritten) :
    ∀ e ∈ i.exprs, e.IsWritten := by
  have hargs : ∀ n args, x = .call n args → ∀ e ∈ args, e.IsWritten := by
    rintro n args rfl e he
    refine ⟨fun f hf => hx.fields f ?_, ?_⟩
    · rw [Expr.fields, Expr.fieldsAll_eq]
      exact List.mem_flatMap.mpr ⟨e, he, hf⟩
    · have hm := hx.metrics
      rw [Expr.metrics, Expr.metricsAll_eq, List.flatMap_eq_nil_iff] at hm
      exact hm e he
  intro e he
  unfold ofExpr at h
  split at h
  · next n args =>
    split at h
    · rcases exprs_ofAggregate h he with rfl | he
      · exact Expr.isWritten_star
      · exact hargs n args rfl e he
    · split at h
      · exact hargs n args rfl e (exprs_ofWindow h he)
      · cases h
        obtain rfl := List.mem_singleton.mp he
        exact hx
  · cases h
    obtain rfl := List.mem_singleton.mp he
    exact hx

/-- The expressions of an item that is read are written. -/
theorem isWritten_of_read {item : Item} (h : (read s).Gives item r) :
    ∀ e ∈ item.exprs, e.IsWritten := by
  obtain ⟨x, i, q, hx, hi, hc⟩ := gives_read.mp h
  rw [exprs_of_covers hc]
  exact isWritten_ofExpr hi (Expr.isWritten_of_read hx)

end Item

/-! ## Operations -/

/-- An alias is a name behind `as`. -/
theorem gives_requiredAlias {n : String} : (requiredAlias s).Gives n r ↔
    ∃ q, after? "as" s = some q ∧ (identifier q).Gives n r := by
  unfold requiredAlias
  rw [Reader.gives_bind]
  constructor
  · rintro ⟨_, p, hp, h⟩
    rw [gives_skipBlanks] at hp
    subst hp
    obtain ⟨b, q, hb, h⟩ := Reader.gives_bind.mp h
    rcases gives_eatWord.mp hb with ⟨ha, rfl⟩ | ⟨ha, rfl, rfl⟩
    · rw [if_pos rfl] at h
      rw [after?_trim] at ha
      exact ⟨q, ha, h⟩
    · rw [if_neg Bool.false_ne_true] at h
      exact absurd h not_gives_expected
  · rintro ⟨q, ha, h⟩
    refine ⟨(), trim s, gives_skipBlanks.mpr rfl, Reader.gives_bind.mpr ⟨true, q, ?_, ?_⟩⟩
    · exact gives_eatWord.mpr (Or.inl ⟨by rw [after?_trim, ha], rfl⟩)
    · rw [if_pos rfl]
      exact h

/-- An operation is an item and the alias behind it. -/
theorem gives_operation {op : Operation} : (Operation.read s).Gives op r ↔
    ∃ item n q, (Item.read s).Gives item q ∧ (requiredAlias q).Gives n r ∧ item.named n = op := by
  unfold Operation.read
  rw [Reader.gives_bind]
  constructor
  · rintro ⟨item, q, hi, h⟩
    obtain ⟨n, u, hn, h⟩ := Reader.gives_bind.mp h
    obtain ⟨rfl, rfl⟩ := Reader.gives_pure.mp h
    exact ⟨item, n, q, hi, hn, rfl⟩
  · rintro ⟨item, n, q, hi, hn, rfl⟩
    exact ⟨item, q, hi, Reader.gives_bind.mpr ⟨n, r, hn, Reader.gives_pure.mpr ⟨rfl, rfl⟩⟩⟩

namespace Operation

/-- The expressions of an operation, those of the condition of a join included. -/
def exprs : Operation → List Expr
  | .aggregate _ e _ | .calculate e _ => [e]
  | .window _ e _ _ _ => e.toList
  | .select _ => []
  | .join _ c => c.exprs

/-- The expressions of the operation are written, and its alias is a plain name. -/
structure IsWritten (op : Operation) : Prop where
  exprs : ∀ e ∈ op.exprs, e.IsWritten
  aliasName : ∀ n ∈ op.alias?, IsPlain n

/-- Naming an item keeps its expressions. -/
theorem exprs_named (item : Item) (n : String) : (item.named n).exprs = item.exprs := by
  cases item <;> rfl

theorem alias?_named (item : Item) (n : String) : (item.named n).alias? = some n := by
  cases item <;> rfl

/-- A named item has only written names when the item and the alias do. -/
theorem isWritten_named {item : Item} {n : String} (hi : ∀ e ∈ item.exprs, e.IsWritten)
    (hn : IsPlain n) : (item.named n).IsWritten := by
  refine ⟨?_, ?_⟩
  · rw [exprs_named]
    exact hi
  · intro m hm
    rw [alias?_named] at hm
    cases hm
    exact hn

/-- An alias that was read has no point in it. -/
theorem isPlain_of_requiredAlias {n : String} (h : (requiredAlias s).Gives n r) : IsPlain n := by
  obtain ⟨q, -, h⟩ := gives_requiredAlias.mp h
  exact isPlain_of_identifier h

/-- Every operation that was read has only written names. -/
theorem isWritten_of_read {op : Operation} (h : (Operation.read s).Gives op r) : op.IsWritten := by
  obtain ⟨item, n, q, hi, hn, rfl⟩ := gives_operation.mp h
  exact isWritten_named (Item.isWritten_of_read hi) (isPlain_of_requiredAlias hn)

theorem isWritten_select (fields : List String) : (Operation.select fields).IsWritten := by
  refine ⟨?_, ?_⟩
  · intro e he
    cases he
  · intro n hn
    cases hn

theorem isWritten_join {source : String} {c : Condition} (h : c.IsWritten) :
    (Operation.join source c).IsWritten := by
  refine ⟨h.exprs, ?_⟩
  intro n hn
  cases hn

end Operation

end DataPhrase
