/-
# Conditions

Truth-valued conditions on rows. A conjunction built with `Condition.and` never has a conjunction
among its children, so that `conjuncts` is the finest split at the top.
-/
import DataPhrase.Expr.Basic

namespace DataPhrase

/-! ## Parts -/

/-- A comparison of two values. -/
inductive CompareOp where
  | eq
  | ne
  | lt
  | le
  | gt
  | ge
  deriving DecidableEq, Repr, Inhabited

/-- A connective of any number of conditions. -/
inductive LogicalOp where
  | and
  | or
  deriving DecidableEq, Repr, Inhabited

/-! ## Conditions -/

/-- A condition on a row. -/
inductive Condition where
  | comparison (left : Expr) (op : CompareOp) (right : Expr)
  | logical (op : LogicalOp) (children : List Condition)
  | not (operand : Condition)
  | call (name : String) (args : List Expr)
  deriving Inhabited, Repr

namespace Condition

/-- The conditions of which a condition is the conjunction. -/
def conjuncts : Condition → List Condition
  | .logical .and cs => cs
  | c => [c]

/-- The conjunction of a list of conditions, conjunctions among them dissolved. -/
def and (cs : List Condition) : Condition :=
  match cs.flatMap conjuncts with
  | [c] => c
  | flat => .logical .and flat

mutual

/-- The expressions that a condition compares or passes on, in the order it is written. -/
def exprs : Condition → List Expr
  | .comparison l _ r => [l, r]
  | .logical _ cs => exprsAll cs
  | .not c => c.exprs
  | .call _ args => args

/-- The expressions of a list of conditions. -/
def exprsAll : List Condition → List Expr
  | [] => []
  | c :: r => c.exprs ++ exprsAll r

end

/-- The fields that a condition mentions. -/
def fields (c : Condition) : List FieldRef :=
  c.exprs.flatMap Expr.fields

/-- The names of the fields that a condition mentions, without their qualifiers. -/
def fieldNames (c : Condition) : List String :=
  c.fields.map Prod.snd

mutual

/-- The condition with `f` applied to each of its expressions. -/
def mapExprs (f : Expr → Expr) : Condition → Condition
  | .comparison l op r => .comparison (f l) op (f r)
  | .logical op cs => .logical op (mapExprsAll f cs)
  | .not c => .not (c.mapExprs f)
  | .call n args => .call n (args.map f)

/-- A list of conditions with `f` applied to each of their expressions. -/
def mapExprsAll (f : Expr → Expr) : List Condition → List Condition
  | [] => []
  | c :: r => c.mapExprs f :: mapExprsAll f r

end

end Condition

end DataPhrase
