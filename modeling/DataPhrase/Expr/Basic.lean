/-
# Expressions

Values computed from the fields of a row. A metric stands for a definition of the dictionary and
takes the place of a field once a reading of the statement has been chosen.
-/
import DataPhrase.Number.Basic

namespace DataPhrase

/-! ## Parts -/

/-- A constant. -/
inductive Literal where
  | number (x : Number)
  | text (s : String)
  | boolean (b : Bool)
  | null
  deriving DecidableEq, Repr, Inhabited

/-- An arithmetic operation on two operands. -/
inductive ArithOp where
  | add
  | subtract
  | multiply
  | divide
  | modulo
  deriving DecidableEq, Repr, Inhabited

/-- The sign of an operation as statements write it. -/
def ArithOp.symbol : ArithOp → String
  | .add => "+"
  | .subtract => "-"
  | .multiply => "*"
  | .divide => "/"
  | .modulo => "%"

/-- How tightly an operation binds: products above sums. -/
def ArithOp.precedence : ArithOp → Nat
  | .add | .subtract => 1
  | .multiply | .divide | .modulo => 2

/-! ## Expressions -/

/-- A value expression. -/
inductive Expr where
  | literal (value : Literal)
  | field (qualifier : Option String) (name : String)
  | metric (sectionName : String) (name : String)
  | call (name : String) (args : List Expr)
  | binary (op : ArithOp) (left right : Expr)
  | negate (operand : Expr)
  | star
  deriving Inhabited, Repr

/-- A mention of a field: its qualifier, if it has one, and its name. -/
abbrev FieldRef := Option String × String

namespace Expr

/-- The constant `x`. -/
def number (x : Number) : Expr := .literal (.number x)

/-- The constant text `s`. -/
def text (s : String) : Expr := .literal (.text s)

/-- A field without qualifier. -/
def plain (name : String) : Expr := .field none name

/-- The expression is the star of `count(*)`. -/
def isStar : Expr → Bool
  | .star => true
  | _ => false

/-! ## Fields and calls -/

mutual

/-- The fields that an expression mentions, in the order it is written. -/
def fields : Expr → List FieldRef
  | .field q n => [(q, n)]
  | .call _ args => fieldsAll args
  | .binary _ l r => l.fields ++ r.fields
  | .negate e => e.fields
  | .literal _ | .metric _ _ | .star => []

/-- The fields that a list of expressions mentions. -/
def fieldsAll : List Expr → List FieldRef
  | [] => []
  | e :: r => e.fields ++ fieldsAll r

end

/-- The names of the fields that an expression mentions, without their qualifiers. -/
def fieldNames (e : Expr) : List String :=
  e.fields.map Prod.snd

mutual

/-- The calls in an expression with their arguments, an outer call before the calls inside it. -/
def calls : Expr → List (String × List Expr)
  | .call n args => (n, args) :: callsAll args
  | .binary _ l r => l.calls ++ r.calls
  | .negate e => e.calls
  | .literal _ | .field _ _ | .metric _ _ | .star => []

/-- The calls in a list of expressions. -/
def callsAll : List Expr → List (String × List Expr)
  | [] => []
  | e :: r => e.calls ++ callsAll r

end

mutual

/-- The metrics that an expression mentions. -/
def metrics : Expr → List (String × String)
  | .metric s n => [(s, n)]
  | .call _ args => metricsAll args
  | .binary _ l r => l.metrics ++ r.metrics
  | .negate e => e.metrics
  | .literal _ | .field _ _ | .star => []

/-- The metrics that a list of expressions mentions. -/
def metricsAll : List Expr → List (String × String)
  | [] => []
  | e :: r => e.metrics ++ metricsAll r

end

mutual

/-- The expression with every field for which `f` has an answer replaced by that answer. -/
def mapFields (f : FieldRef → Option Expr) : Expr → Expr
  | .field q n => (f (q, n)).getD (.field q n)
  | .call n args => .call n (mapFieldsAll f args)
  | .binary op l r => .binary op (l.mapFields f) (r.mapFields f)
  | .negate e => .negate (e.mapFields f)
  | .literal v => .literal v
  | .metric s n => .metric s n
  | .star => .star

/-- A list of expressions with their fields replaced. -/
def mapFieldsAll (f : FieldRef → Option Expr) : List Expr → List Expr
  | [] => []
  | e :: r => e.mapFields f :: mapFieldsAll f r

end

end Expr

end DataPhrase
