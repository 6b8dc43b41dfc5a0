/-
# Arithmetic of scripts

A script spells out arithmetic with the parentheses that the ranks of the statement seem to allow,
but its own remainder binds more tightly than products. Read back with the ranks of scripts the text
has the value of the expression under every assignment of rational numbers to its fields, whatever
the remainder of two numbers is, unless a remainder has a product or a quotient as its left operand:
that one is written without parentheses and taken apart.
-/
import DataPhrase.Code.Script
import DataPhrase.Proofs.Code.Intended
import Mathlib.Algebra.Field.Rat
import Mathlib.Tactic.Ring
import Mathlib.Tactic.FieldSimp

namespace DataPhrase

open Code Text

/-! ## Rational values -/

/-- The rational number that a finite number is. -/
def Number.toRat? (x : Number) : Option ℚ :=
  if x.isFinite then
    some (if x.negative then -((units x.place : ℚ) / unitsPerOne)
      else (units x.place : ℚ) / unitsPerOne)
  else none

/-- The value of an operation on rational numbers, given the remainder of two of them. There is no
quotient by zero. -/
def ArithOp.onRationals? (rem : ℚ → ℚ → Option ℚ) : ArithOp → ℚ → ℚ → Option ℚ
  | .add, a, b => some (a + b)
  | .subtract, a, b => some (a - b)
  | .multiply, a, b => some (a * b)
  | .divide, a, b => if b = 0 then none else some (a / b)
  | .modulo, a, b => rem a b

/-- The value of an operation where both operands have one. -/
def ArithOp.combine (rem : ℚ → ℚ → Option ℚ) (op : ArithOp) (a b : Option ℚ) : Option ℚ :=
  a.bind fun x => b.bind fun y => op.onRationals? rem x y

section Value

variable (rem : ℚ → ℚ → Option ℚ) (env : String → ℚ)

/-- The value of an expression of numbers, fields and arithmetic. -/
def Expr.rationalValue : Expr → Option ℚ
  | .literal (.number x) => x.toRat?
  | .field _ n => some (env n)
  | .binary op l r => op.combine rem l.rationalValue r.rationalValue
  | .negate e => e.rationalValue.map (-·)
  | .literal (.text _) | .literal (.boolean _) | .literal .null | .metric _ _ | .call _ _ | .star =>
    none

/-- The value of a tree. A word that starts with a digit is the number nearest to it. -/
def Code.Tree.value : Tree → Option ℚ
  | .atom (.word w) =>
    if w.head?.any isDigit then (Expr.numberOf? w).bind Number.toRat?
    else some (env (String.ofList w))
  | .group e => e.value
  | .negate e => e.value.map (-·)
  | .binary (.op op) l r => op.combine rem l.value r.value
  | .atom (.quoted _ _) | .atom (.hole _) | .star | .void | .beside _ _ | .binary .comma _ _ => none

end Value

/-! ## Expressions -/

namespace Expr

/-- The expression is made of numbers, of fields without qualifiers, and of arithmetic. -/
def IsNumeric : Expr → Prop
  | .literal (.number _) => True
  | .field none n => isIdentifier n = true
  | .binary _ l r => l.IsNumeric ∧ r.IsNumeric
  | .negate e => e.IsNumeric
  | _ => False

/-- No remainder in the expression has a product or a quotient as its left operand. -/
def KeepsRemainders : Expr → Prop
  | .binary op l r => l.KeepsRemainders ∧ r.KeepsRemainders ∧
    (op = .modulo → l.root? ≠ some .multiply ∧ l.root? ≠ some .divide)
  | .negate e => e.KeepsRemainders
  | _ => True

end Expr

/-! ## Scripts -/

/-- How tightly operations bind in scripts: remainders above products, and these above sums. -/
def Script.rank : ArithOp → Nat
  | .add | .subtract => 1
  | .multiply | .divide => 2
  | .modulo => 3

/-- How scripts are read. -/
def Script.dialect : Dialect where
  doubled := true
  rank := Script.rank

theorem Script.dialect_spells (countRows distinct : String) :
    Script.dialect.Spells (Script.style countRows distinct) := by
  intro op
  cases op with
  | modulo => exact (by decide : "%%".toList = signText true .modulo)
  | _ => rfl

/-! ## Operations of equal rank -/

namespace Code.Tree

variable {rank : ArithOp → Nat}

/-- The operation `l s r` without parentheses: what is as tight in `r` takes its left operand from
it. -/
def attach (rank : ArithOp → Nat) (l : Tree) (s : ArithOp) : Tree → Tree
  | .binary (.op o) a b =>
    if rank o = rank s then .binary (.op o) (attach rank l s a) b
    else .binary (.op s) l (.binary (.op o) a b)
  | e => .binary (.op s) l e

theorem marks_attach (l : Tree) (s : ArithOp) (r : Tree) :
    (attach rank l s r).marks = l.marks ++ .sign (.op s) :: r.marks := by
  fun_induction attach rank l s r with
  | case1 o a b h ih => rw [marks, ih, marks, List.append_assoc]; rfl
  | case2 o a b h => rfl
  | case3 e h => rfl

/-- The sign at the top of the tree binds exactly as tightly as `s`. -/
def HasRank (rank : ArithOp → Nat) (s : ArithOp) (e : Tree) : Prop :=
  ∃ o, e.sign? = some (.op o) ∧ rank o = rank s

theorem HasRank.atLeast {s : ArithOp} {e : Tree} {k : Nat} (h : e.HasRank rank s)
    (hk : k ≤ rank s + 1) : e.AtLeast rank k := by
  obtain ⟨o, ho, hrank⟩ := h
  intro s' hs'
  rw [ho] at hs'
  cases hs'
  show k ≤ rank o + 1
  rwa [hrank]

/-- The operands of an operation that bind at least as tightly as it can be attached. -/
theorem isGrouped_attach {l r : Tree} {s : ArithOp} (hl : l.IsGrouped rank) (hr : r.IsGrouped rank)
    (hleft : l.AtLeast rank (rank s + 1)) (hright : r.AtLeast rank (rank s + 1)) :
    (attach rank l s r).IsGrouped rank ∧ (attach rank l s r).HasRank rank s := by
  fun_induction attach rank l s r with
  | case1 o a b h ih =>
    obtain ⟨ha, hb, hfirst, hsecond⟩ := hr
    have hrank : a.AtLeast rank (rank s + 1) := h ▸ hfirst
    obtain ⟨hgrouped, htop⟩ := ih ha hrank
    have htight : (attach rank l s a).AtLeast rank (rank o + 1) := htop.atLeast (by omega)
    exact ⟨⟨hgrouped, hb, htight, hsecond⟩, o, rfl, h⟩
  | case2 o a b h =>
    have hle : rank s + 1 ≤ rank o + 1 := hright (.op o) rfl
    refine ⟨⟨hl, hr, hleft, ?_⟩, s, rfl, rfl⟩
    rintro _ ⟨⟩
    show rank s + 1 + 1 ≤ rank o + 1
    omega
  | case3 e h =>
    refine ⟨⟨hl, hr, hleft, ?_⟩, s, rfl, rfl⟩
    intro s' hs'
    cases s' with
    | comma => exact absurd (hright .comma hs') (Nat.not_succ_le_zero _)
    | op o =>
      cases e with
      | binary s'' a b =>
        cases hs'
        exact absurd rfl (h o a b)
      | _ => cases hs'

/-- An operand that binds more tightly is not taken apart. -/
theorem attach_of_atLeast {l r : Tree} {s : ArithOp} (h : r.AtLeast rank (rank s + 2)) :
    attach rank l s r = .binary (.op s) l r := by
  cases r with
  | binary s' a b =>
    cases s' with
    | comma => rfl
    | op o =>
      have hlt : rank s + 2 ≤ rank o + 1 := h (.op o) rfl
      rw [attach, if_neg (by omega)]
  | _ => rfl

end Code.Tree

section Value

variable {rem : ℚ → ℚ → Option ℚ} {env : String → ℚ}

/-- Sums take sums and differences apart, and products take products and quotients apart. -/
theorem ArithOp.combine_assoc {s o : ArithOp} (h : Script.rank o = Script.rank s)
    (hs : s = .add ∨ s = .multiply) (a b c : Option ℚ) :
    o.combine rem (s.combine rem a b) c = s.combine rem a (o.combine rem b c) := by
  have hcases : s = .add ∧ (o = .add ∨ o = .subtract) ∨
      s = .multiply ∧ (o = .multiply ∨ o = .divide) := by
    revert h
    rcases hs with rfl | rfl <;> cases o <;> decide
  cases a with
  | none => rfl
  | some x =>
    cases b with
    | none => rfl
    | some y =>
      cases c with
      | none => rcases hcases with ⟨rfl, rfl | rfl⟩ | ⟨rfl, rfl | rfl⟩ <;> rfl
      | some z =>
        rcases hcases with ⟨rfl, rfl | rfl⟩ | ⟨rfl, rfl | rfl⟩
        · exact congrArg some (add_assoc x y z)
        · exact congrArg some (add_sub_assoc x y z)
        · exact congrArg some (mul_assoc x y z)
        · show (if z = 0 then none else some (x * y / z)) =
            (if z = 0 then none else some (y / z)).bind fun w => some (x * w)
          split
          · rfl
          · exact congrArg some (mul_div_assoc x y z)

theorem Code.Tree.value_attach {s : ArithOp} (hs : s = .add ∨ s = .multiply) (l r : Tree) :
    (Tree.attach Script.rank l s r).value rem env =
      s.combine rem (l.value rem env) (r.value rem env) := by
  fun_induction Tree.attach Script.rank l s r with
  | case1 o a b h ih =>
    rw [Tree.value, ih, ArithOp.combine_assoc h hs]
    rfl
  | case2 o a b h => rfl
  | case3 e h => rfl

theorem ArithOp.combine_of_some (op : ArithOp) {a b a' b' : Option ℚ}
    (ha : ∀ x, a = some x → a' = some x) (hb : ∀ x, b = some x → b' = some x) {v : ℚ}
    (h : op.combine rem a b = some v) : op.combine rem a' b' = some v := by
  obtain ⟨x, hx, h⟩ := Option.bind_eq_some_iff.mp h
  obtain ⟨y, hy, h⟩ := Option.bind_eq_some_iff.mp h
  rw [ha x hx, hb y hy]
  exact h

end Value

/-! ## Reading back -/

/-- The tree is grouped as scripts read it, has the rank of the expression at its top, and has the
value of the expression wherever there is one. -/
structure Expr.IsReadAs (e : Expr) (f : Tree) : Prop where
  grouped : f.IsGrouped Script.rank
  operand : e.root? = none → f.sign? = none
  rank : ∀ op, e.root? = some op → f.HasRank Script.rank op
  value : ∀ rem env v, e.rationalValue rem env = some v → f.value rem env = some v

namespace Expr.IsReadAs

variable {e l r : Expr} {f a b : Tree} {op : ArithOp}

theorem of_operand (hroot : e.root? = none) (hgrouped : f.IsGrouped Script.rank)
    (hsign : f.sign? = none)
    (hvalue : ∀ rem env v, e.rationalValue rem env = some v → f.value rem env = some v) :
    e.IsReadAs f := by
  refine ⟨hgrouped, fun _ => hsign, ?_, hvalue⟩
  intro op hop
  rw [hroot] at hop
  cases hop

/-- In its parentheses an operand binds as tightly as all operations without them do. -/
theorem operand_atLeast (h : e.IsReadAs f) {right : Bool} {k : Nat}
    (hk : ∀ c, e.root? = some c → needsParens c op right = false → k ≤ Script.rank c + 1) :
    (Tree.operand op right e.root? f).IsGrouped Script.rank ∧
      (Tree.operand op right e.root? f).AtLeast Script.rank k ∧
      ∀ rem env v, e.rationalValue rem env = some v →
        (Tree.operand op right e.root? f).value rem env = some v := by
  unfold Tree.operand
  cases hroot : e.root? with
  | none => exact ⟨h.grouped, Tree.atLeast_of_sign? (h.operand hroot), h.value⟩
  | some c =>
    simp only
    split
    · exact ⟨h.grouped, Tree.atLeast_of_sign? rfl, h.value⟩
    · next hparens =>
      have hle := hk c hroot (Bool.eq_false_iff.mpr hparens)
      exact ⟨h.grouped, (h.rank c hroot).atLeast hle, h.value⟩

theorem negate (h : e.IsReadAs f) :
    (Expr.negate e).IsReadAs (.negate (if e.root?.isSome then .group f else f)) := by
  have hoperand : (if e.root?.isSome then Tree.group f else f).IsGrouped Script.rank ∧
      (if e.root?.isSome then Tree.group f else f).sign? = none := by
    cases hroot : e.root? with
    | none => exact ⟨h.grouped, h.operand hroot⟩
    | some c => exact ⟨h.grouped, rfl⟩
  refine of_operand rfl hoperand rfl ?_
  intro rem env v hv
  obtain ⟨x, hx, rfl⟩ := Option.map_eq_some_iff.mp hv
  have hvalue : (if e.root?.isSome then Tree.group f else f).value rem env = f.value rem env := by
    split <;> rfl
  rw [Tree.value, hvalue, h.value rem env x hx]
  rfl

/-- Of an operation the right operand is attached to the left one. -/
theorem binary (hl : l.IsReadAs a) (hr : r.IsReadAs b)
    (hmodulo : op = .modulo → l.root? ≠ some .multiply ∧ l.root? ≠ some .divide) :
    (Expr.binary op l r).IsReadAs (Tree.attach Script.rank (Tree.operand op false l.root? a) op
      (Tree.operand op true r.root? b)) := by
  have hleft : ∀ c, l.root? = some c → needsParens c op false = false →
      Script.rank op + 1 ≤ Script.rank c + 1 := by
    intro c hc hparens
    rw [hc] at hmodulo
    revert hparens hmodulo
    cases op <;> cases c <;> decide
  have hright : ∀ c, r.root? = some c → needsParens c op true = false →
      Script.rank op + 1 ≤ Script.rank c + 1 := by
    intro c _ hparens
    revert hparens
    cases op <;> cases c <;> decide
  obtain ⟨hga, hla, hva⟩ := hl.operand_atLeast hleft
  obtain ⟨hgb, hlb, hvb⟩ := hr.operand_atLeast hright
  obtain ⟨hgrouped, hrank⟩ := Tree.isGrouped_attach hga hgb hla hlb
  refine ⟨hgrouped, nofun, ?_, ?_⟩
  · rintro _ ⟨⟩
    exact hrank
  · intro rem env v hv
    have hcombine := op.combine_of_some (hva rem env) (hvb rem env) hv
    by_cases hop : op = .add ∨ op = .multiply
    · rw [Tree.value_attach hop]
      exact hcombine
    · -- The other operations have an operand of equal rank on the right in parentheses.
      have htight : ∀ c, r.root? = some c → needsParens c op true = false →
          Script.rank op + 2 ≤ Script.rank c + 1 := by
        intro c _ hparens
        revert hparens hop
        cases op <;> cases c <;> decide
      rw [Tree.attach_of_atLeast (hr.operand_atLeast htight).2.1]
      exact hcombine

theorem number (x : Number) : (Expr.number x).IsReadAs (Tree.number x) := by
  refine of_operand rfl (Tree.isGrouped_number x) (Tree.sign?_number x) ?_
  intro rem env v hv
  change x.toRat? = some v at hv
  by_cases hfinite : x.isFinite = true
  · have hword : (Tree.atom (.word x.unsignedText)).value rem env =
        Number.toRat? ⟨false, x.place⟩ := by
      rw [Tree.value, if_pos (Number.head?_unsignedText hfinite),
        Number.numberOf?_unsignedText hfinite, Option.bind_some]
    rw [← hv]
    unfold Tree.number Number.toRat?
    rw [if_pos hfinite]
    split
    · rw [Tree.value, hword, Number.toRat?, if_pos (by exact hfinite)]
      rfl
    · rw [hword, Number.toRat?, if_pos (by exact hfinite)]
      rfl
  · rw [Number.toRat?, if_neg hfinite] at hv
    cases hv

theorem field (q : Option String) {n : String} (h : isIdentifier n = true) :
    (Expr.field q n).IsReadAs (.atom (.word n.toList)) := by
  obtain ⟨c, cs, hn, hc, -⟩ := isIdentifier_iff.mp h
  refine of_operand rfl trivial rfl ?_
  intro rem env v hv
  rw [Tree.value, hn, List.head?_cons, Option.any_some, (Expr.not_other_of_isNameStart hc).2.2,
    if_neg Bool.false_ne_true, ← hn, String.ofList_toList]
  exact hv

end Expr.IsReadAs

section Text

variable {c : Script.Columns} {target : Target} {countRows distinct : String}

/-- The text of an arithmetic expression has the marks of a tree that scripts read as it. -/
theorem exists_isReadAs {e : Expr} (he : e.IsNumeric) (hkeeps : e.KeepsRemainders) :
    ∃ t f, Term.ofExpr (c.scope target) e = .ok t ∧ t.root? = e.root? ∧
      marks? Script.dialect.doubled (piecesOfText (t.text (Script.style countRows distinct))) =
        some f.marks ∧
      e.IsReadAs f := by
  cases e with
  | literal v =>
    cases v with
    | number x =>
      exact ⟨.literal (.number x), _, Term.ofExpr.eq_1 _ _, rfl, marks?_number x, .number x⟩
    | text s => exact he.elim
    | boolean b => exact he.elim
    | null => exact he.elim
  | field q n =>
    cases q with
    | some q => exact he.elim
    | none =>
      obtain ⟨d, ds, hn, -, hds⟩ := isIdentifier_iff.mp he
      refine ⟨.column none n, .atom (.word n.toList), rfl, rfl, ?_, .field none he⟩
      show marks? true (n.toList.map .char) = _
      rw [hn]
      exact marks?_word (List.cons_ne_nil d ds) fun c hc => isRunChar_of_isNameChar (hds c hc)
  | binary op l r =>
    obtain ⟨tl, a, hl, hlroot, hlmarks, hlread⟩ := exists_isReadAs he.1 hkeeps.1
    obtain ⟨tr, b, hr, hrroot, hrmarks, hrread⟩ := exists_isReadAs he.2 hkeeps.2.1
    refine ⟨.binary op tl tr, _, ?_, rfl, ?_, hlread.binary hrread hkeeps.2.2⟩
    · rw [Term.ofExpr, hl, hr]
      rfl
    · rw [Term.text, Tree.marks_attach, ← hlroot, ← hrroot]
      exact marks?_binaryText (Script.dialect_spells countRows distinct) op
        (marks?_operandText hlmarks op false) (marks?_operandText hrmarks op true)
  | negate e =>
    obtain ⟨t, f, ht, hroot, hmarks, hread⟩ := exists_isReadAs (e := e) he hkeeps
    refine ⟨.negate t, _, ?_, rfl, ?_, hread.negate⟩
    · rw [Term.ofExpr, ht]
      rfl
    · rw [← hroot]
      exact marks?_negateText hmarks
  | metric s n => exact he.elim
  | call n args => exact he.elim
  | star => exact he.elim

end Text

/-! ## Scripts -/

/-- The text of an arithmetic expression in a script reads back with its value under every assignment
of rational numbers to its fields, whatever the remainder of two numbers is, provided that no
remainder has a product or a quotient as its left operand. -/
theorem Script.value_read?_text {c : Script.Columns} {target : Target} {countRows distinct : String}
    {e : Expr} (he : e.IsNumeric) (hkeeps : e.KeepsRemainders) :
    ∃ t f, Term.ofExpr (c.scope target) e = .ok t ∧
      Script.dialect.read? (t.text (Script.style countRows distinct)) = some f ∧
      ∀ rem env v, e.rationalValue rem env = some v → f.value rem env = some v := by
  obtain ⟨t, f, ht, -, hmarks, hread⟩ := exists_isReadAs he hkeeps
  exact ⟨t, f, ht, (Dialect.read?_eq_some_iff hmarks).mpr hread.grouped, hread.value⟩

/-- The expression `(a % b) * c - -(d + 0.5)`. -/
def Expr.scaledRemainder : Expr :=
  .binary .subtract
    (.binary .multiply (.binary .modulo (.plain "a") (.plain "b")) (.plain "c"))
    (.negate (.binary .add (.plain "d") (.number ⟨false, 4602678819172646912⟩)))

theorem Script.value_read?_text_scaledRemainder :
    Expr.scaledRemainder.IsNumeric ∧ Expr.scaledRemainder.KeepsRemainders ∧
      ∃ t f, Term.ofExpr ((Script.Columns.mk .empty "S" ["S"] []).scope .dataFramePipe)
          Expr.scaledRemainder = .ok t ∧
        Script.dialect.read? (t.text (Script.style "n()" "n_distinct")) = some f ∧
        ∀ rem env v, Expr.scaledRemainder.rationalValue rem env = some v →
          f.value rem env = some v := by
  have hname : ∀ n ∈ ["a", "b", "c", "d"], isIdentifier n = true := by decide +kernel
  have he : Expr.scaledRemainder.IsNumeric :=
    ⟨⟨⟨hname "a" (by decide), hname "b" (by decide)⟩, hname "c" (by decide)⟩,
      hname "d" (by decide), trivial⟩
  have hkeeps : Expr.scaledRemainder.KeepsRemainders := by
    simp [Expr.scaledRemainder, Expr.KeepsRemainders, Expr.root?, Expr.plain, Expr.number]
  exact ⟨he, hkeeps, Script.value_read?_text he hkeeps⟩

/-- The expression `a * b % c`. -/
def Expr.productRemainder : Expr :=
  .binary .modulo (.binary .multiply (.plain "a") (.plain "b")) (.plain "c")

/-- The remainder with the sign of the divisor. -/
def flooredRemainder (a b : ℚ) : Option ℚ :=
  if b = 0 then none else some (a - b * (a / b).floor)

/-- A product as the left operand of a remainder is taken apart: the remainder of six by two is zero,
and reads back as twice the remainder of three. -/
theorem Script.value_ne_of_productRemainder :
    ∃ t f, Term.ofExpr ((Script.Columns.mk .empty "S" ["S"] []).scope .dataFramePipe)
        Expr.productRemainder = .ok t ∧
      t.text (Script.style "n()" "n_distinct") = "a * b %% c" ∧
      Script.dialect.read? (t.text (Script.style "n()" "n_distinct")) = some f ∧
      f.value flooredRemainder (fun n => if n = "b" then 3 else 2) = some 2 ∧
      Expr.productRemainder.rationalValue flooredRemainder (fun n => if n = "b" then 3 else 2) =
        some 0 := by
  refine ⟨.binary .modulo (.binary .multiply (.column none "a") (.column none "b"))
      (.column none "c"),
    .binary (.op .multiply) (.atom (.word ['a']))
      (.binary (.op .modulo) (.atom (.word ['b'])) (.atom (.word ['c']))), rfl, ?_, ?_, ?_, ?_⟩
  · decide +kernel
  · decide +kernel
  · decide +kernel
  · decide +kernel

end DataPhrase
