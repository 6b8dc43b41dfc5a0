/-
# Terms of target code

Expressions and conditions in a target dialect, with names, functions and metrics settled. Their
text is made by one printer for all dialects; a style says how each dialect spells its parts.
-/
import DataPhrase.Dictionary.Template
import DataPhrase.Number.Shortest
import DataPhrase.Condition.Basic
import DataPhrase.Statement.Function

namespace DataPhrase.Code

/-! ## Terms -/

/-- An expression of target code. A group is always in parentheses; a name that is written with
points is spelled part by part. -/
inductive Term where
  | literal (v : Literal)
  | column (qualifier : Option String) (name : String)
  | written (name : String)
  | star
  | call (name : String) (args : List Term)
  | template (t : Template) (args : List Term)
  | countRows
  | aggregate (function : AggregateFn) (e : Term)
  | percentile (t : Template) (e : Term) (fraction : Number)
  | binary (op : ArithOp) (left right : Term)
  | negate (e : Term)
  | group (e : Term)
  deriving Inhabited

/-- A condition of target code. -/
inductive Cond where
  | isNull (negated : Bool) (e : Term)
  | compare (op : CompareOp) (left right : Term)
  | logical (op : LogicalOp) (children : List Cond)
  | not (c : Cond)
  | holds (e : Term)
  deriving Inhabited

namespace Cond

/-- The condition is an alternative. -/
def isOr : Cond → Bool
  | .logical .or _ => true
  | _ => false

/-- The condition is a conjunction or an alternative. -/
def isLogical : Cond → Bool
  | .logical _ _ => true
  | _ => false

end Cond

/-! ## Styles -/

/-- How a dialect spells the parts of terms and conditions. -/
structure Style where
  literal : Literal → String
  name : String → String
  dotted : String → String
  operator : ArithOp → String
  countRows : String
  aggregate : AggregateFn → String → String
  isNull : Bool → String → String
  compare : CompareOp → String
  connective : LogicalOp → String
  negation : String

/-- The text in parentheses. -/
def parens (s : String) : String :=
  "(" ++ s ++ ")"

/-- The texts parted by commas. -/
def commas (ss : List String) : String :=
  ", ".intercalate ss

/-! ## Text -/

/-- An operation under another needs parentheses: it binds less tightly, or it is the right operand
of a subtraction, division or remainder of its own rank. -/
def needsParens (child parent : ArithOp) (right : Bool) : Bool :=
  decide (child.precedence < parent.precedence) ||
    (right && (parent == .subtract || parent == .divide || parent == .modulo) &&
      child.precedence == parent.precedence)

/-- The text of an operand, given the text of the term itself. -/
def operandText (parent : ArithOp) (right : Bool) (e : Term) (text : String) : String :=
  match e with
  | .binary child _ _ => if needsParens child parent right then parens text else text
  | _ => text

mutual

/-- The text of a term. -/
def Term.text (st : Style) : Term → String
  | .literal v => st.literal v
  | .column none n => st.name n
  | .column (some q) n => st.dotted q ++ "." ++ st.name n
  | .written n => st.dotted n
  | .star => "*"
  | .call n args => n ++ parens (commas (Term.texts st args))
  | .template t args => t.fill (Term.texts st args)
  | .countRows => st.countRows
  | .aggregate f e => st.aggregate f (e.text st)
  | .percentile t e x => t.fill [e.text st, String.ofList x.text]
  | .binary op l r =>
    operandText op false l (l.text st) ++ " " ++ st.operator op ++ " " ++
      operandText op true r (r.text st)
  | .negate (.binary op l r) => "-" ++ parens (Term.text st (.binary op l r))
  | .negate e => "-" ++ e.text st
  | .group e => parens (e.text st)

/-- The texts of a list of terms. -/
def Term.texts (st : Style) : List Term → List String
  | [] => []
  | e :: r => e.text st :: Term.texts st r

end

theorem Term.texts_eq_map (st : Style) (es : List Term) :
    Term.texts st es = es.map (Term.text st) := by
  induction es with
  | nil => rfl
  | cons e es ih => rw [Term.texts, ih, List.map_cons]

mutual

/-- The text of a condition. Conjunctions and alternatives inside others are in parentheses. -/
def Cond.text (st : Style) : Cond → String
  | .isNull negated e => st.isNull negated (e.text st)
  | .compare op l r => l.text st ++ " " ++ st.compare op ++ " " ++ r.text st
  | .logical op cs => (st.connective op).intercalate (Cond.childTexts st cs)
  | .not c => st.negation ++ parens (c.text st)
  | .holds e => e.text st

/-- The texts of the children of a conjunction or an alternative. -/
def Cond.childTexts (st : Style) : List Cond → List String
  | [] => []
  | c :: r => (if c.isLogical then parens (c.text st) else c.text st) :: Cond.childTexts st r

end

/-- The text of a condition that stands in a conjunction. -/
def Cond.conjunctText (st : Style) (c : Cond) : String :=
  if c.isOr then parens (c.text st) else c.text st

end DataPhrase.Code
