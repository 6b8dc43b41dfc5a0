/-
# Values of arithmetic

A query spells out the arithmetic of an expression with as few parentheses as the ranks of the
operations seem to allow. Read back with these ranks the text has the value of the expression under
every assignment of integers to its fields, unless a product has a quotient or a remainder at the
front of its right operand: that one is written without parentheses and taken apart.
-/
import DataPhrase.Code.Sql
import DataPhrase.Proofs.Code.Formula
import DataPhrase.Proofs.Grammar.Expr
import DataPhrase.Proofs.Number.Whole

namespace DataPhrase

open Code Text

/-! ## Expressions over integers -/

/-- `x a (y b z)` is `(x a y) b z`. -/
def ArithOp.associates : ArithOp → ArithOp → Bool
  | .add, .add | .add, .subtract | .multiply, .multiply => true
  | _, _ => false

namespace Expr

/-- The value of an expression of integers, fields and arithmetic. -/
def integerValue : Expr → Value
  | .literal (.number x) => fun _ => x.toInt?
  | .field _ n => fun env => some (env n)
  | .binary op l r => Value.binary op l.integerValue r.integerValue
  | .negate e => Value.negate e.integerValue
  | .literal (.text _) | .literal (.boolean _) | .literal .null | .metric _ _ | .call _ _ | .star =>
    fun _ => none

/-- The expression is made of integers, of fields without qualifiers that no alias hides, and of
arithmetic. -/
def IsArithmetic (as : Sql.Aliases) : Expr → Prop
  | .literal (.number x) => x.IsSpelled
  | .field none n => isIdentifier n = true ∧ as.find? n = none
  | .binary _ l r => l.IsArithmetic as ∧ r.IsArithmetic as
  | .negate e => e.IsArithmetic as
  | _ => False

/-- The operation of a sum, a difference, a product, a quotient or a remainder. -/
def root? : Expr → Option ArithOp
  | .binary op _ _ => some op
  | _ => none

/-- A quotient or a remainder is the first of the products, quotients and remainders in a row, which
follow each other without parentheses, or comes after products only. -/
def opensWithQuotient : Expr → Bool
  | .binary .divide _ _ | .binary .modulo _ _ => true
  | .binary .multiply l _ => l.opensWithQuotient
  | _ => false

/-- No product in the expression has a right operand that opens with a quotient. -/
def KeepsQuotients : Expr → Prop
  | .binary op l r =>
    l.KeepsQuotients ∧ r.KeepsQuotients ∧ (op = .multiply → r.opensWithQuotient = false)
  | .negate e => e.KeepsQuotients
  | _ => True

/-- The text of the expression opens with a minus sign. -/
def opensWithMinus : Expr → Bool
  | .literal (.number x) => x.negative
  | .negate _ => true
  | _ => false

/-- No negation stands in front of another minus sign. -/
def PartsMinuses : Expr → Prop
  | .binary _ l r => l.PartsMinuses ∧ r.PartsMinuses
  | .negate e => e.PartsMinuses ∧ e.opensWithMinus = false
  | _ => True

/-! ## Symbols -/

/-- The symbols of an operand, in parentheses where the operation needs them. -/
def operandSymbols (parent : ArithOp) (right : Bool) (e : Expr) (ss : List Symbol) : List Symbol :=
  match e.root? with
  | some child => if needsParens child parent right then .opening :: ss ++ [.closing] else ss
  | none => ss

/-- The symbols that an expression is written with. -/
def symbols : Expr → List Symbol
  | .literal (.number x) =>
    if x.negative then [.sign .subtract, .number x.text.tail] else [.number x.text]
  | .field _ n => [.name n]
  | .binary op l r =>
    operandSymbols op false l l.symbols ++ .sign op :: operandSymbols op true r r.symbols
  | .negate (.binary op l r) =>
    .sign .subtract :: .opening :: (Expr.binary op l r).symbols ++ [.closing]
  | .negate e => .sign .subtract :: e.symbols
  | _ => []

end Expr

/-- A minus is one symbol, and parentheses stand around an operation behind it. -/
theorem Expr.symbols_negate (e : Expr) : (Expr.negate e).symbols = .sign .subtract ::
    (if e.root?.isSome then .opening :: e.symbols ++ [.closing] else e.symbols) := by
  cases e <;> rfl

/-- The operation of a term that is one. -/
def Code.Term.root? : Term → Option ArithOp
  | .binary op _ _ => some op
  | _ => none

/-- The text of a negated term puts parentheses around an operation. -/
theorem Code.Term.text_negate (st : Style) (t : Term) : (Term.negate t).text st =
    "-" ++ if t.root?.isSome then parens (t.text st) else t.text st := by
  cases t <;> simp [Term.text, Term.root?]

section Text

variable {comments : Bool}

/-- Digits are one symbol, a number. -/
theorem lexes_number {ds : List Char} (hne : ds ≠ []) (hds : ∀ c ∈ ds, isDigit c = true) :
    Lexes comments ds [.number ds] := by
  obtain ⟨c, cs, rfl⟩ := List.exists_cons_of_ne_nil hne
  have hrun : Symbol.ofRun (c :: cs) = .number (c :: cs) := by
    have hc := hds c List.mem_cons_self
    rw [Symbol.ofRun, List.head?_cons, Option.any_some, if_pos hc]
  rw [← hrun]
  refine lexes_run hne fun d hd => ?_
  have hdigit : d.isDigit = true := hds d hd
  simp [isRunChar, isNameChar, isAlphanumeric, hdigit]

theorem isRunChar_of_isNameChar {c : Char} (h : isNameChar c = true) : isRunChar c = true := by
  rw [isRunChar, h, Bool.true_or]

/-- An emitted identifier is one symbol, quoted or bare. -/
theorem lexes_ident {n : String} (h : isIdentifier n = true) :
    Lexes comments (Sql.ident n).toList [.name n] := by
  obtain ⟨c, cs, hn, hc, hcs⟩ := isIdentifier_iff.mp h
  unfold Sql.ident
  split
  · have hquote : ∀ d ∈ n.toList, d ≠ '"' := by
      rw [hn]
      rintro d hd rfl
      exact absurd (hcs _ hd) (by decide)
    have hquoted : Lexes comments ('"' :: n.toList ++ ['"']) [.name (String.ofList n.toList)] :=
      lexes_quoted hquote
    rw [String.ofList_toList] at hquoted
    rw [String.toList_append, String.toList_append]
    exact hquoted
  · have hrun : Symbol.ofRun n.toList = .name n := by
      rw [Symbol.ofRun, hn, List.head?_cons, Option.any_some,
        (Expr.not_other_of_isNameStart hc).2.2, if_neg Bool.false_ne_true, ← hn,
        String.ofList_toList]
    rw [← hrun, hn]
    exact lexes_run (List.cons_ne_nil c cs) fun d hd => isRunChar_of_isNameChar (hcs d hd)

/-- The text of an identifier opens with no minus sign. -/
theorem head_ident {n : String} (h : isIdentifier n = true) (r : List Char) :
    ((Sql.ident n).toList ++ r).head? ≠ some '-' := by
  obtain ⟨c, cs, hn, hc, -⟩ := isIdentifier_iff.mp h
  unfold Sql.ident
  split
  · rw [String.toList_append, String.toList_append]
    show some '"' ≠ some '-'
    decide
  · rw [hn, List.cons_append, List.head?_cons]
    rintro ⟨⟩
    exact absurd hc (by decide)

/-- An operand is lexed as its symbols, since it is in parentheses exactly if they are. -/
theorem lexes_operand {e : Expr} {t : Term} (hroot : t.root? = e.root?) (parent : ArithOp)
    (right : Bool) {text : String} {ss : List Symbol} (h : Lexes comments text.toList ss) :
    Lexes comments (operandText parent right t text).toList
      (e.operandSymbols parent right ss) := by
  unfold Expr.operandSymbols
  rw [← hroot]
  cases t with
  | binary child l r =>
    show Lexes comments (if needsParens child parent right then parens text else text).toList
      (if needsParens child parent right then .opening :: ss ++ [.closing] else ss)
    split
    · rw [parens, String.toList_append, String.toList_append]
      exact h.parens
    · exact h
  | _ => exact h

/-- Digits never start with a minus. -/
theorem head_digits {ds : List Char} (hne : ds ≠ []) (hds : ∀ c ∈ ds, isDigit c = true)
    (r : List Char) : (ds ++ r).head? ≠ some '-' := by
  obtain ⟨c, cs, rfl⟩ := List.exists_cons_of_ne_nil hne
  rw [List.cons_append, List.head?_cons]
  rintro ⟨⟩
  exact absurd (hds _ List.mem_cons_self) (by decide)

variable {dictionary : Snapshot} {as : Sql.Aliases}

/-- The text that an arithmetic expression becomes, with its symbols. -/
theorem exists_text {e : Expr} (he : e.IsArithmetic as)
    (hminus : comments = true → e.PartsMinuses) :
    ∃ t, Term.ofExpr (Sql.scope dictionary as) e = .ok t ∧ t.root? = e.root? ∧
      Lexes comments (t.text Sql.style).toList e.symbols ∧
      (e.opensWithMinus = false → e.root? = none →
        ∀ r, ((t.text Sql.style).toList ++ r).head? ≠ some '-') := by
  cases e with
  | literal v =>
    cases v with
    | number x =>
      obtain ⟨ds, hne, hds, htext, -⟩ := he
      refine ⟨.literal (.number x), Term.ofExpr.eq_1 _ _, rfl, ?_, ?_⟩
      · show Lexes comments (String.ofList x.text).toList (if x.negative then _ else _)
        rw [String.toList_ofList, htext]
        cases x.negative with
        | true => exact (lexes_number hne hds).negate fun _ => head_digits hne hds
        | false => exact lexes_number hne hds
      · intro hsign _ r
        have hpositive : x.negative = false := hsign
        show ((String.ofList x.text).toList ++ r).head? ≠ some '-'
        rw [String.toList_ofList, htext, hpositive]
        exact head_digits hne hds r
    | text s => exact he.elim
    | boolean b => exact he.elim
    | null => exact he.elim
  | field q n =>
    cases q with
    | some q => exact he.elim
    | none =>
      obtain ⟨hn, has⟩ := he
      have hfield : as.field (none, n) = .column none n := by
        rw [Sql.Aliases.field, has]
      refine ⟨.column none n, ?_, rfl, lexes_ident hn, fun _ _ => head_ident hn⟩
      rw [Term.ofExpr]
      exact congrArg Except.ok hfield
  | binary op l r =>
    obtain ⟨tl, hl, hlroot, hltext, -⟩ := exists_text he.1 fun hc => (hminus hc).1
    obtain ⟨tr, hr, hrroot, hrtext, -⟩ := exists_text he.2 fun hc => (hminus hc).2
    refine ⟨.binary op tl tr, ?_, rfl, ?_, fun _ hroot => nomatch hroot⟩
    · rw [Term.ofExpr, hl, hr]
      rfl
    · have htext := (lexes_operand hlroot op false hltext).binary op
        (lexes_operand hrroot op true hrtext)
      rw [Term.text, String.toList_append, String.toList_append, String.toList_append,
        String.toList_append, List.append_assoc, List.append_assoc, List.append_assoc]
      exact htext
  | negate e =>
    obtain ⟨t, ht, hroot, htext, hhead⟩ := exists_text (e := e) he fun hc => (hminus hc).1
    refine ⟨.negate t, ?_, rfl, ?_, fun hsign => nomatch hsign⟩
    · rw [Term.ofExpr, ht]
      rfl
    · rw [Term.text_negate, Expr.symbols_negate, ← hroot, String.toList_append]
      split
      · have hparens := htext.parens
        rw [parens, String.toList_append, String.toList_append]
        exact hparens.negate fun _ r hr => by cases hr
      · next hsome =>
        have hnone : e.root? = none := by
          rwa [hroot, Bool.not_eq_true, Option.isSome_eq_false_iff, Option.isNone_iff_eq_none] at hsome
        exact htext.negate fun hc => hhead (hminus hc).2 hnone
  | metric s n => exact he.elim
  | call n args => exact he.elim
  | star => exact he.elim

end Text

/-! ## Values -/

/-- The operations that stand in a row at the front of an expression, without parentheses between
them, can each take their first operand from `op`. -/
def Expr.follows (op : ArithOp) : Expr → Bool
  | .binary child l _ =>
    child.precedence != op.precedence || (op.associates child && l.follows op)
  | _ => true

/-- Where a sign may be regrouped, both groupings have one value. -/
theorem Value.binary_associates {op child : ArithOp} (h : op.associates child = true)
    (a b c : Value) :
    Value.binary child (Value.binary op a b) c = Value.binary op a (Value.binary child b c) := by
  have hcases : op = .add ∧ (child = .add ∨ child = .subtract) ∨
      op = .multiply ∧ child = .multiply := by
    revert h
    cases op <;> cases child <;> decide
  funext env
  unfold Value.binary
  cases a env with
  | none => rfl
  | some x =>
    cases b env with
    | none => rfl
    | some y =>
      cases c env with
      | none => rcases hcases with ⟨rfl, rfl | rfl⟩ | ⟨rfl, rfl⟩ <;> rfl
      | some z =>
        rcases hcases with ⟨rfl, rfl | rfl⟩ | ⟨rfl, rfl⟩
        · exact congrArg some (Int.add_assoc x y z)
        · exact congrArg some (Int.add_sub_assoc x y z)
        · exact congrArg some (Int.mul_assoc x y z)

/-- Every expression may stand behind a plus without parentheses. -/
theorem Expr.follows_add (e : Expr) : e.follows .add = true := by
  cases e with
  | binary child l r =>
    rw [Expr.follows, l.follows_add]
    cases child <;> rfl
  | _ => rfl

/-- An expression that does not open with a quotient may stand behind a times without parentheses.
-/
theorem Expr.follows_multiply {e : Expr} (h : e.opensWithQuotient = false) :
    e.follows .multiply = true := by
  cases e with
  | binary child l r =>
    cases child with
    | add => rfl
    | subtract => rfl
    | multiply =>
      rw [Expr.follows, Expr.follows_multiply (e := l) h]
      rfl
    | divide => cases h
    | modulo => cases h
  | _ => rfl

/-- The symbols of a constant, a field or a negation are one operand. Those of an operation are a
chain, and so they are behind an operation of the same rank that they follow. -/
structure Expr.IsRead (e : Expr) : Prop where
  operand : e.root? = none → IsOperand ArithOp.precedence e.symbols e.integerValue
  chain : ∀ child, e.root? = some child →
    IsChain ArithOp.precedence child.precedence none e.symbols e.integerValue
  drawn : ∀ child, e.root? = some child → ∀ op, op.precedence = child.precedence →
    e.follows op = true → ∀ x : Formula,
      IsChain ArithOp.precedence op.precedence (some (x, op)) e.symbols
        (Value.binary op x.value e.integerValue)

namespace Expr.IsRead

variable {e : Expr} {op parent : ArithOp} {right : Bool}

/-- An operand left without parentheses binds at least as tightly as the sign around it. -/
theorem precedence_le {child : ArithOp} (h : needsParens child parent right = false) :
    parent.precedence ≤ child.precedence := by
  rw [needsParens, Bool.or_eq_false_iff, decide_eq_false_iff_not] at h
  exact Nat.le_of_not_lt h.1

/-- An operand binds as tightly as the operation that it belongs to. -/
theorem chain_operandSymbols (h : e.IsRead) :
    IsChain ArithOp.precedence parent.precedence none (e.operandSymbols parent right e.symbols)
      e.integerValue := by
  unfold Expr.operandSymbols
  cases hroot : e.root? with
  | none => exact (h.operand hroot).chain
  | some child =>
    show IsChain _ _ _ (if needsParens child parent right then _ else _) _
    cases hparens : needsParens child parent right with
    | true => exact (h.chain child hroot).parens.chain
    | false => exact (h.chain child hroot).mono (precedence_le hparens)

/-- Behind an operation of the rank of its own one an operand is taken as a whole, or follows it. -/
theorem drawn_operandSymbols (h : e.IsRead) (hop : op.precedence = parent.precedence)
    (hfollows : ∀ child, e.root? = some child → needsParens child parent right = false →
      child.precedence = parent.precedence → e.follows op = true) (x : Formula) :
    IsChain ArithOp.precedence op.precedence (some (x, op))
      (e.operandSymbols parent right e.symbols) (Value.binary op x.value e.integerValue) := by
  have behind : ∀ ss, IsOperand ArithOp.precedence ss e.integerValue →
      IsChain ArithOp.precedence op.precedence (some (x, op)) ss
        (Value.binary op x.value e.integerValue) := fun ss hss =>
    IsChain.behind (k := op.precedence + 1) hss.chain (Nat.lt_succ_self _) x
  unfold Expr.operandSymbols
  cases hroot : e.root? with
  | none => exact behind _ (h.operand hroot)
  | some child =>
    show IsChain _ _ _ (if needsParens child parent right then _ else _) _
    cases hparens : needsParens child parent right with
    | true => exact behind _ (h.chain child hroot).parens
    | false =>
      rcases Nat.eq_or_lt_of_le (precedence_le hparens) with heq | hlt
      · exact h.drawn child hroot op (hop.trans heq) (hfollows child hroot hparens heq.symm) x
      · exact (h.chain child hroot).behind (hop ▸ hlt) x

end Expr.IsRead

/-- A right operand without parentheses follows the operation, unless a product has a quotient
there. -/
theorem Expr.follows_of_right {op child : ArithOp} {r : Expr}
    (h : op = .multiply → r.opensWithQuotient = false) (hparens : needsParens child op true = false)
    (hrank : child.precedence = op.precedence) : r.follows op = true := by
  have hassociative : op = .add ∨ op = .multiply := by
    revert hparens hrank
    cases op <;> cases child <;> decide
  rcases hassociative with rfl | rfl
  · exact r.follows_add
  · exact Expr.follows_multiply (h rfl)

/-- An expression that is an operand is read as its own value. -/
theorem Expr.isRead_of_operand {e : Expr} (hroot : e.root? = none)
    (h : IsOperand ArithOp.precedence e.symbols e.integerValue) : e.IsRead := by
  refine ⟨fun _ => h, ?_, ?_⟩
  · intro child hchild
    rw [hroot] at hchild
    cases hchild
  · intro child hchild
    rw [hroot] at hchild
    cases hchild

theorem Expr.isRead_number {x : Number} (h : x.IsSpelled) :
    (Expr.literal (.number x)).IsRead := by
  obtain ⟨ds, -, hds, htext, hvalue⟩ := h
  have hnumber : IsOperand ArithOp.precedence [.number ds]
      fun _ => some (Lexeme.natOfDigits ds : Int) := by
    have hoperand : IsOperand ArithOp.precedence [.number ds] (Formula.number ds).value :=
      IsOperand.number ds
    rwa [Formula.value, if_pos (List.all_eq_true.mpr hds)] at hoperand
  refine Expr.isRead_of_operand rfl ?_
  rw [Expr.symbols, Expr.integerValue, htext, hvalue]
  cases x.negative with
  | true => exact hnumber.negate
  | false => exact hnumber

/-- The two operands of an operation are read, one after the other, as the operation. -/
theorem Expr.IsRead.binary {op : ArithOp} {l r : Expr} (hl : l.IsRead) (hr : r.IsRead)
    (hquotient : op = .multiply → r.opensWithQuotient = false) : (Expr.binary op l r).IsRead := by
  have right : ∀ x : Formula, IsChain ArithOp.precedence op.precedence (some (x, op))
      (r.operandSymbols op true r.symbols) (Value.binary op x.value r.integerValue) :=
    hr.drawn_operandSymbols rfl fun _ _ => Expr.follows_of_right hquotient
  refine ⟨?_, ?_, ?_⟩
  · rintro ⟨⟩
  · rintro _ ⟨⟩
    exact hl.chain_operandSymbols.binary right
  · rintro _ ⟨⟩ op' hrank hfollows x
    rw [Expr.follows, Bool.or_eq_true, Bool.and_eq_true, bne_iff_ne] at hfollows
    obtain ⟨hassociates, hleft⟩ := hfollows.resolve_left (not_not_intro hrank.symm)
    have left : IsChain ArithOp.precedence op'.precedence (some (x, op'))
        (l.operandSymbols op false l.symbols) (Value.binary op' x.value l.integerValue) :=
      hl.drawn_operandSymbols hrank (fun _ _ _ _ => hleft) x
    rw [hrank] at left ⊢
    have both := left.binary right
    rwa [Value.binary_associates hassociates] at both

/-- A negated expression is read as the negated value. -/
theorem Expr.IsRead.negate {e : Expr} (h : e.IsRead) : (Expr.negate e).IsRead := by
  refine Expr.isRead_of_operand rfl ?_
  rw [Expr.symbols_negate, Expr.integerValue]
  cases hroot : e.root? with
  | none => exact (h.operand hroot).negate
  | some child => exact (h.chain child hroot).parens.negate

/-- Every expression whose quotients keep their parentheses is read with its own value. -/
theorem Expr.isRead {as : Sql.Aliases} {e : Expr} (he : e.IsArithmetic as)
    (hquotients : e.KeepsQuotients) : e.IsRead := by
  cases e with
  | literal v =>
    cases v with
    | number x => exact Expr.isRead_number he
    | text s => exact he.elim
    | boolean b => exact he.elim
    | null => exact he.elim
  | field q n => exact Expr.isRead_of_operand rfl (IsOperand.name n)
  | binary op l r =>
    obtain ⟨hl, hr, hquotient⟩ := hquotients
    exact (Expr.isRead he.1 hl).binary (Expr.isRead he.2 hr) hquotient
  | negate e => exact (Expr.isRead (e := e) he hquotients).negate
  | metric s n => exact he.elim
  | call n args => exact he.elim
  | star => exact he.elim

/-! ## Queries -/

/-- The text of an arithmetic expression in a query reads back with its value under every assignment
of integers to its fields, provided that no product has a right operand that opens with a quotient.
Where two minus signs open a comment, no negation may stand in front of another minus sign. -/
theorem Sql.value_read?_termText {dictionary : Snapshot} {as : Sql.Aliases} {comments : Bool}
    {e : Expr} (he : e.IsArithmetic as) (hquotients : e.KeepsQuotients)
    (hminus : comments = true → e.PartsMinuses) :
    ∃ t f, Term.ofExpr (Sql.scope dictionary as) e = .ok t ∧
      Formula.read? ArithOp.precedence comments (Sql.termText t) = some f ∧
      ∀ env, f.value env = e.integerValue env := by
  obtain ⟨t, ht, -, htext, -⟩ := exists_text he hminus
  have hread := Expr.isRead he hquotients
  have hchain : IsChain ArithOp.precedence 0 none e.symbols e.integerValue := by
    cases hroot : e.root? with
    | none => exact (hread.operand hroot).chain
    | some child => exact (hread.chain child hroot).mono (Nat.zero_le _)
  obtain ⟨f, hf, hvalue⟩ := hchain.ofSymbols?
  refine ⟨t, f, ht, ?_, fun env => congrFun hvalue env⟩
  have hsymbols := htext [] fun c hc => nomatch hc
  rw [List.append_nil] at hsymbols
  rw [Formula.read?, symbols?, Sql.termText, hsymbols]
  show (some (e.symbols ++ [])).bind _ = _
  rw [List.append_nil]
  exact hf

/-- The expression `(a - (b - 2)) * (-c + d)`. -/
def Expr.groupedProduct : Expr :=
  .binary .multiply
    (.binary .subtract (.plain "a")
      (.binary .subtract (.plain "b") (.number ⟨false, 4611686018427387904⟩)))
    (.binary .add (.negate (.plain "c")) (.plain "d"))

theorem Sql.value_read?_termText_groupedProduct :
    Expr.groupedProduct.IsArithmetic [] ∧ Expr.groupedProduct.KeepsQuotients ∧
      Expr.groupedProduct.PartsMinuses ∧
      ∃ t f, Term.ofExpr (Sql.scope .empty []) Expr.groupedProduct = .ok t ∧
        Formula.read? ArithOp.precedence true (Sql.termText t) = some f ∧
        ∀ env, f.value env = Expr.groupedProduct.integerValue env := by
  have hname : ∀ n ∈ ["a", "b", "c", "d"], isIdentifier n = true ∧
      Sql.Aliases.find? [] n = none := by decide +kernel
  have htwo : Number.toInt? ⟨false, 4611686018427387904⟩ = some 2 := by decide +kernel
  have he : Expr.groupedProduct.IsArithmetic [] :=
    ⟨⟨hname "a" (by decide), hname "b" (by decide), Number.isSpelled_of_lt htwo (by decide)⟩,
      hname "c" (by decide), hname "d" (by decide)⟩
  have hquotients : Expr.groupedProduct.KeepsQuotients := by
    simp [Expr.groupedProduct, Expr.KeepsQuotients, Expr.opensWithQuotient, Expr.plain, Expr.number]
  have hminus : Expr.groupedProduct.PartsMinuses := by
    simp [Expr.groupedProduct, Expr.PartsMinuses, Expr.opensWithMinus, Expr.plain, Expr.number]
  exact ⟨he, hquotients, hminus, Sql.value_read?_termText he hquotients fun _ => hminus⟩

/-- The expression `a * (b % c)`. -/
def Expr.remainderProduct : Expr :=
  .binary .multiply (.plain "a") (.binary .modulo (.plain "b") (.plain "c"))

/-- A remainder as the right operand of a product is taken apart: twice the remainder of three by
two is two, and reads back as the remainder of six. -/
theorem Sql.value_ne_of_remainderProduct :
    ∃ t f, Term.ofExpr (Sql.scope .empty []) Expr.remainderProduct = .ok t ∧
      Sql.termText t = "a * b % c" ∧
      Formula.read? ArithOp.precedence false (Sql.termText t) = some f ∧
      f.value (fun n => if n = "b" then 3 else 2) = some 0 ∧
      Expr.remainderProduct.integerValue (fun n => if n = "b" then 3 else 2) = some 2 := by
  have htext : Sql.termText (.binary .multiply (.column none "a")
      (.binary .modulo (.column none "b") (.column none "c"))) = "a * b % c" := by
    decide +kernel
  refine ⟨.binary .multiply (.column none "a")
      (.binary .modulo (.column none "b") (.column none "c")),
    .binary .modulo (.binary .multiply (.name "a") (.name "b")) (.name "c"), rfl, htext, ?_, ?_, ?_⟩
  · rw [htext]
    decide +kernel
  · decide
  · decide

end DataPhrase
