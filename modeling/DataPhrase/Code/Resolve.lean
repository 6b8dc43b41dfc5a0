/-
# Settling names

The fields, functions and metrics of an expression are settled against the dictionary and against
the columns that the target has in scope. A statement may ask for something that a target cannot
express, or call a dictionary entry with too few arguments.
-/
import DataPhrase.Code.Term
import DataPhrase.Dictionary.Snapshot
import DataPhrase.Target

namespace DataPhrase

/-! ## Errors -/

/-- What a target cannot express. -/
inductive Unsupported where
  | functionTemplate (name : String)
  | percentileEntry
  | metricTemplate (sectionName name : String)
  | starAggregate (function : String)
  | windowField (function : String)
  | windowOrder (function : String) (keys : Nat)
  | windowRanking (function : String)
  | joinCondition (source : String)
  deriving DecidableEq, Repr

namespace Unsupported

/-- The kind of construct at fault. -/
def construct : Unsupported → String
  | .functionTemplate _ | .percentileEntry => "function"
  | .metricTemplate _ _ => "metric"
  | .starAggregate _ => "aggregate"
  | .windowField _ | .windowOrder _ _ | .windowRanking _ => "window_function"
  | .joinCondition _ => "join_condition"

/-- What is at fault with it. -/
def detail (target : Target) : Unsupported → String
  | .functionTemplate n => "`" ++ n ++ "` has no " ++ target.name ++ " template"
  | .percentileEntry => "no `percentile` entry is registered"
  | .metricTemplate s n => "`" ++ s ++ "." ++ n ++ "` has no " ++ target.name ++ " template"
  | .starAggregate f => "`" ++ f ++ "(*)` has no meaning"
  | .windowField f => "`" ++ f ++ "` needs a field"
  | .windowOrder f n => "`" ++ f ++ "` needs exactly one order key, got " ++ toString n
  | .windowRanking f => "`" ++ f ++ "` has no by-reference equivalent; use row_number"
  | .joinCondition s => "joins with " ++ s ++ " must be equalities between fields"

end Unsupported

/-- Why no code is generated. -/
inductive GenerationError where
  | unsupported (target : Target) (what : Unsupported)
  | templateArity (name : String) (index given : Nat)
  deriving DecidableEq, Repr

/-- The wording of an error. -/
def GenerationError.message : GenerationError → String
  | .unsupported target what =>
    what.construct ++ " is not supported by the " ++ target.name ++ " target: " ++
      what.detail target
  | .templateArity name index given =>
    "template for `" ++ name ++ "` uses placeholder \x7b" ++ toString index ++ "\x7d but only " ++
      toString given ++ " argument(s) were given"

/-- A template with its arguments put in, or the first placeholder without one. -/
def Template.render (name : String) (t : Template) (args : List String) :
    Except GenerationError String :=
  match t.missing? args.length with
  | some i => .error (.templateArity name i args.length)
  | none => .ok (t.fill args)

end DataPhrase

namespace DataPhrase.Code

/-! ## Scope -/

/-- What the names of a statement mean in a target. -/
structure Scope where
  target : Target
  dictionary : Snapshot
  field : FieldRef → Term

/-- The result of settling names. -/
abbrev Settled (α : Type) := Except GenerationError α

/-- A template with enough arguments. -/
def applyTemplate (name : String) (t : Template) (args : List Term) : Settled Term :=
  match t.missing? args.length with
  | some i => .error (.templateArity name i args.length)
  | none => .ok (.template t args)

/-- The template of a function for a target: none if no function has the name, and an error if
those that have it lack a template for the target. -/
def functionTemplate (sc : Scope) (name : String) : Settled (Option Template) :=
  match sc.dictionary.functions name with
  | [] => .ok none
  | es =>
    match es.findSome? fun e => e.template sc.target with
    | some t => .ok (some t)
    | none => .error (.unsupported sc.target (.functionTemplate name))

/-- A call of a function: its template, or a plain call where the dictionary does not know it. -/
def callTerm (sc : Scope) (name : String) (args : List Term) : Settled Term := do
  match ← functionTemplate sc name with
  | some t => applyTemplate name t args
  | none => .ok (.call name args)

/-- A percentile of a term. -/
def percentileTerm (sc : Scope) (e : Term) (fraction : Number) : Settled Term := do
  match ← functionTemplate sc "percentile" with
  | some t =>
    match t.missing? 2 with
    | some i => .error (.templateArity "percentile" i 2)
    | none => .ok (.percentile t e fraction)
  | none => .error (.unsupported sc.target .percentileEntry)

/-- The template of a metric. -/
def metricTerm (sc : Scope) (sectionName name : String) : Settled Term :=
  match ((sc.dictionary.lookup sectionName name).filter
      fun e => e.definition.category == .metric).bind fun e => e.template sc.target with
  | some t => (applyTemplate name t []).map .group
  | none => .error (.unsupported sc.target (.metricTemplate sectionName name))

/-! ## Expressions and conditions -/

mutual

/-- An expression with its names settled. -/
def Term.ofExpr (sc : Scope) : Expr → Settled Term
  | .literal v => .ok (.literal v)
  | .field q n => .ok (sc.field (q, n))
  | .metric s n => metricTerm sc s n
  | .call n args => do callTerm sc n (← Term.ofExprs sc args)
  | .binary op l r => do
    let l ← Term.ofExpr sc l
    let r ← Term.ofExpr sc r
    .ok (.binary op l r)
  | .negate e => do
    let e ← Term.ofExpr sc e
    .ok (.negate e)
  | .star => .ok .star

/-- A list of expressions with their names settled. -/
def Term.ofExprs (sc : Scope) : List Expr → Settled (List Term)
  | [] => .ok []
  | e :: r => do
    let e ← Term.ofExpr sc e
    let es ← Term.ofExprs sc r
    .ok (e :: es)

end

/-- A comparison; with null on the right, equality is a test for null. -/
def Cond.ofComparison (sc : Scope) (left : Expr) (op : CompareOp) (right : Expr) :
    Settled Cond := do
  match op, right with
  | .eq, .literal .null => .ok (.isNull false (← Term.ofExpr sc left))
  | .ne, .literal .null => .ok (.isNull true (← Term.ofExpr sc left))
  | _, _ =>
    let l ← Term.ofExpr sc left
    let r ← Term.ofExpr sc right
    .ok (.compare op l r)

mutual

/-- A condition with its names settled. -/
def Cond.ofCondition (sc : Scope) : Condition → Settled Cond
  | .comparison l op r => Cond.ofComparison sc l op r
  | .logical op cs => do .ok (.logical op (← Cond.ofConditions sc cs))
  | .not c => do .ok (.not (← Cond.ofCondition sc c))
  | .call n args => do
    let args ← Term.ofExprs sc args
    .ok (.holds (← callTerm sc n args))

/-- A list of conditions with their names settled. -/
def Cond.ofConditions (sc : Scope) : List Condition → Settled (List Cond)
  | [] => .ok []
  | c :: r => do
    let c ← Cond.ofCondition sc c
    let cs ← Cond.ofConditions sc r
    .ok (c :: cs)

end

end DataPhrase.Code
