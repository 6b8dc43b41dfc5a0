/-
# Items and lists

What an operation computes, read before its alias: an aggregate, a window or a plain calculation.
The call at the top of an expression decides which.
-/
import DataPhrase.Condition.Reader
import DataPhrase.Statement.Basic

namespace DataPhrase

open Lexeme

/-! ## Items -/

/-- An operation that lacks its alias. -/
inductive Item where
  | aggregate (function : AggregateFn) (field : Expr)
  | window (function : WindowFn) (field : Option Expr) (partitionBy : List String)
      (orderBy : List OrderItem)
  | calculate (expression : Expr)

namespace Item

/-- The operation that computes the item under the given alias. -/
def named (aliasName : String) : Item → Operation
  | .aggregate f e => .aggregate f e aliasName
  | .window f e p o => .window f e p o aliasName
  | .calculate e => .calculate e aliasName

/-- The call of an aggregate with its arguments. -/
def ofAggregate (function : AggregateFn) (args : List Expr) : Except Expected Item :=
  match function, args with
  | .count, [] => .ok (.aggregate .count .star)
  | .percentile _, [e, fraction] =>
    match fraction with
    | .literal (.number x) =>
      if x.isProperFraction then .ok (.aggregate (.percentile x) e) else .error .percentileFraction
    | _ => .error .percentileFraction
  | .percentile _, _ => .error .percentileArguments
  | f, [e] => .ok (.aggregate f e)
  | _, _ => .error .oneArgument

/-- The largest distance of a shift. -/
def maxOffset : Nat := Nat.pow 2 32 - 1

/-- The distance that an argument of a shift gives. -/
def offset? : Expr → Option Nat
  | .literal (.number x) =>
    match x.toNat? with
    | some n => if 1 ≤ n ∧ n ≤ maxOffset then some n else none
    | none => none
  | _ => none

/-- The call of a window function with its arguments, over all rows in no order. -/
def ofWindow (function : WindowFn) (args : List Expr) : Except Expected Item :=
  match function, args with
  | .cumulativeSum, [e] => .ok (.window .cumulativeSum (some e) [] [])
  | .lag n, [e] => .ok (.window (.lag n) (some e) [] [])
  | .lead n, [e] => .ok (.window (.lead n) (some e) [] [])
  | .lag _, [e, d] =>
    match offset? d with
    | some n => .ok (.window (.lag n) (some e) [] [])
    | none => .error .positiveOffset
  | .lead _, [e, d] =>
    match offset? d with
    | some n => .ok (.window (.lead n) (some e) [] [])
    | none => .error .positiveOffset
  | f, [] => if f.isRanking then .ok (.window f none [] []) else .error .windowArguments
  | _, _ => .error .windowArguments

/-- What an expression computes. -/
def ofExpr : Expr → Except Expected Item
  | .call name args =>
    match AggregateFn.ofName? name with
    | some f => ofAggregate f args
    | none =>
      match WindowFn.ofName? name with
      | some f => ofWindow f args
      | none => .ok (.calculate (.call name args))
  | e => .ok (.calculate e)

/-- The item computes an aggregate. -/
def isAggregate : Item → Bool
  | .aggregate _ _ => true
  | _ => false

/-- The item computes a window function. -/
def isWindow : Item → Bool
  | .window _ _ _ _ => true
  | _ => false

end Item

/-! ## Reading items -/

/-- A sort key with an optional direction. -/
def OrderItem.read : Phrase OrderItem := do
  let field ← fieldName
  if (← eatWord "desc") then pure ⟨field, .desc⟩
  else if (← eatWord "descending") then pure ⟨field, .desc⟩
  else if (← eatWord "asc") then pure ⟨field, .asc⟩
  else if (← eatWord "ascending") then pure ⟨field, .asc⟩
  else pure ⟨field, .asc⟩

/-- One or more sort keys. -/
def orderList : Phrase (List OrderItem) :=
  listOf OrderItem.read

namespace Item

/-- The partition keys and sort keys of a window, in parentheses. -/
def overClause : Phrase (List String × List OrderItem) := do
  mark "("
  let partitionBy ←
    if (← eatWord "partition") then do
      keyword "by"
      fieldList
    else pure []
  let orderBy ←
    if (← eatWord "order") then do
      keyword "by"
      orderList
    else pure []
  mark ")"
  pure (partitionBy, orderBy)

/-- An item. A call with the wrong arguments is reported at its start. -/
def read : Phrase Item := do
  skipBlanks
  let item ← Reader.refine Expr.read fun e =>
    match ofExpr e with
    | .ok item => .ok item
    | .error what => .error (.unexpected (some what))
  match item with
  | .window f e p o =>
    if (← eatWord "over") then do
      let (p, o) ← overClause
      pure (.window f e p o)
    else pure (.window f e p o)
  | item => pure item

end Item

/-- The alias of an operation, after `as`. -/
def requiredAlias : Phrase String := do
  skipBlanks
  if (← eatWord "as") then identifier else expected .aliasName

/-- An item with its alias. -/
def Operation.read : Phrase Operation := do
  let item ← Item.read
  let aliasName ← requiredAlias
  pure (item.named aliasName)

/-- One or more operations. -/
def operationList : Phrase (List Operation) :=
  listOf Operation.read

end DataPhrase
