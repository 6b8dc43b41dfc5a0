/-
# Clauses on their own

A clause says the same whatever clauses stand in front of it: what is read behind its first word is
a value, and the value is added to the clauses that are there. Values of different kinds can be
added in any order.
-/
import DataPhrase.Proofs.Statement.ClauseRun
import DataPhrase.Proofs.Statement.Spelling

namespace DataPhrase

open Lexeme

/-! ## Laws of readers -/

instance {ε : Type} : LawfulMonad (Reader ε) := by
  refine LawfulMonad.mk' _ (fun p => ?_) (fun a f => ?_) (fun p f g => ?_)
  · funext s
    show (p s).andThen _ = p s
    cases p s <;> rfl
  · funext s
    show (f a s).widen _ = f a s
    cases f a s <;> rfl
  · funext s
    show ((p s).andThen fun a r _ => f a r).andThen _ = (p s).andThen fun a r _ => _
    cases p s with
    | error e => rfl
    | ok x =>
      show ((f x.value x.rest).widen _).andThen _ = ((f x.value x.rest).andThen _).widen _
      cases f x.value x.rest with
      | error e => rfl
      | ok y =>
        show (g y.value y.rest).widen _ = ((g y.value y.rest).widen _).widen _
        cases g y.value y.rest <;> rfl

/-! ## Values -/

namespace ClauseForm

variable {C K A : Type} [DecidableEq K]

/-- The clauses of a form have values of type `A`. -/
structure Parts (f : ClauseForm C K) (A : Type) where
  /-- Read the value of a clause of the kind behind its first word. -/
  read : K → Phrase A
  /-- The kind of clause that has the value. -/
  kind : A → K
  /-- The clauses with one more. -/
  add : C → A → C
  /-- The kind of which there can be several clauses. -/
  join : K
  read_eq (c : C) (k : K) : f.read c k = read k >>= fun a => pure (add c a)
  yields_kind (k : K) : Yields (fun a => kind a = k) (read k)
  has_add (c : C) (a : A) (k : K) : f.has (add c a) k = (f.has c k || (kind a == k && !(k == join)))
  add_comm (c : C) (a b : A) (h : kind a ≠ kind b) : add (add c a) b = add (add c b) a

end ClauseForm

/-! ## Transform statements -/

namespace Transform

/-- The value of a clause. -/
inductive Clause where
  | join (source : String) (condition : Condition)
  | operations (ops : List Operation)
  | group (fields : List String)
  | filter (condition : Condition)
  | order (keys : List OrderItem)
  | select (fields : List String)
  | period (period : Period)
  | limit (n : Nat)

namespace Clause

/-- The kind of clause that has the value. -/
def kind : Clause → ClauseKind
  | .join _ _ => .join
  | .operations _ => .operations
  | .group _ => .group
  | .filter _ => .filter
  | .order _ => .order
  | .select _ => .select
  | .period _ => .period
  | .limit _ => .limit

/-- Read the value of a clause behind its first word. -/
def read : ClauseKind → Phrase Clause
  | .join => do
    keyword "with"
    let other ← datasetName
    keyword "on"
    let condition ← Condition.read
    pure (.join other condition)
  | .operations => do
    let operations ← operationList
    pure (.operations operations)
  | .group => do
    keyword "by"
    let fields ← fieldList
    pure (.group fields)
  | .filter => do
    let condition ← Condition.read
    pure (.filter condition)
  | .order => do
    keyword "by"
    let order ← orderList
    pure (.order order)
  | .select => do
    let fields ← fieldList
    pure (.select fields)
  | .period => do
    let period ← Period.read
    pure (.period period)
  | .limit => do
    let n ← integer
    pure (.limit n)

/-- A clause that was read is of the kind it was read as. -/
theorem yields_kind (k : ClauseKind) : Yields (fun a => kind a = k) (read k) := by
  cases k with
  | join =>
    exact yields_andThen fun _ => yields_andThen fun _ => yields_andThen fun _ =>
      yields_andThen fun _ => yields_pure rfl
  | group | order => exact yields_andThen fun _ => yields_andThen fun _ => yields_pure rfl
  | _ => exact yields_andThen fun _ => yields_pure rfl

end Clause

namespace Clauses

/-- The clauses with one more. -/
def add (c : Clauses) : Clause → Clauses
  | .join other condition => { c with joins := c.joins ++ [.join other condition] }
  | .operations ops => { c with operations := some ops }
  | .group fields => { c with group := some fields }
  | .filter condition => { c with filter := some condition }
  | .order keys => { c with order := some keys }
  | .select fields => { c with select := some fields }
  | .period p => { c with period := some p }
  | .limit n => { c with limit := some n }

/-- Reading a clause of a transform statement is reading its value and adding it. -/
theorem readClause_eq (c : Clauses) (k : ClauseKind) :
    c.readClause k = Clause.read k >>= fun a => pure (c.add a) := by
  -- the laws apply to readers under their own type only
  obtain ⟨p, hp⟩ : ∃ p : Phrase Condition, Condition.read = p := ⟨_, rfl⟩
  cases k <;> simp only [readClause, Clause.read, hp, bind_assoc, pure_bind, add]

/-- Adding a clause marks its kind as there, except for joins. -/
theorem has_add (c : Clauses) (a : Clause) (k : ClauseKind) :
    (c.add a).has k = (c.has k || (a.kind == k && !(k == .join))) := by
  cases a <;> cases k <;>
    first | rfl | exact (Bool.or_true _).symm | exact (Bool.or_false _).symm

/-- Clauses of different kinds are added in either order. -/
theorem add_comm (c : Clauses) (a b : Clause) (h : a.kind ≠ b.kind) :
    (c.add a).add b = (c.add b).add a := by
  cases a <;> cases b <;> first | rfl | exact absurd rfl h

/-- The clauses of a transform statement by their values. -/
def parts : form.Parts Clause where
  read := Clause.read
  kind := Clause.kind
  add := add
  join := .join
  read_eq := readClause_eq
  yields_kind := Clause.yields_kind
  has_add := has_add
  add_comm := add_comm

end Clauses

end Transform

/-! ## Questions -/

namespace Question

/-- The value of a clause. -/
inductive Clause where
  | source (name : String)
  | group (keys : List String)
  | filter (condition : Condition)
  | order (keys : List OrderItem)
  | period (period : Period)
  | join (source : String) (condition : Condition)

namespace Clause

/-- The kind of clause that has the value. -/
def kind : Clause → ClauseKind
  | .source _ => .source
  | .group _ => .group
  | .filter _ => .filter
  | .order _ => .order
  | .period _ => .period
  | .join _ _ => .join

/-- Read the value of a clause behind its first word. -/
def read : ClauseKind → Phrase Clause
  | .source => do
    let source ← datasetName
    pure (.source source)
  | .group => do
    let first ← fieldName
    let rest ← keysRest
    pure (.group (first :: rest))
  | .filter => do
    let condition ← Condition.read
    pure (.filter condition)
  | .order => do
    keyword "by"
    let order ← orderList
    pure (.order order)
  | .period => do
    let period ← Period.read
    pure (.period period)
  | .join => do
    keyword "with"
    let other ← datasetName
    keyword "on"
    let condition ← Condition.read
    pure (.join other condition)

/-- A clause that was read is of the kind it was read as. -/
theorem yields_kind (k : ClauseKind) : Yields (fun a => kind a = k) (read k) := by
  cases k with
  | join =>
    exact yields_andThen fun _ => yields_andThen fun _ => yields_andThen fun _ =>
      yields_andThen fun _ => yields_pure rfl
  | group | order => exact yields_andThen fun _ => yields_andThen fun _ => yields_pure rfl
  | _ => exact yields_andThen fun _ => yields_pure rfl

end Clause

namespace Clauses

/-- The clauses with one more. -/
def add (c : Clauses) : Clause → Clauses
  | .source name => { c with source := some name }
  | .group keys => { c with group := some keys }
  | .filter condition => { c with filter := some condition }
  | .order keys => { c with order := some keys }
  | .period p => { c with period := some p }
  | .join other condition => { c with joins := c.joins ++ [.join other condition] }

/-- Reading a clause of a question is reading its value and adding it. -/
theorem readClause_eq (c : Clauses) (k : ClauseKind) :
    c.readClause k = Clause.read k >>= fun a => pure (c.add a) := by
  obtain ⟨p, hp⟩ : ∃ p : Phrase Condition, Condition.read = p := ⟨_, rfl⟩
  obtain ⟨keys, hkeys⟩ : ∃ p : Phrase (List String), keysRest = p := ⟨_, rfl⟩
  cases k <;> simp only [readClause, Clause.read, hp, hkeys, bind_assoc, pure_bind, add]

/-- Adding a clause marks its kind as there, except for joins. -/
theorem has_add (c : Clauses) (a : Clause) (k : ClauseKind) :
    (c.add a).has k = (c.has k || (a.kind == k && !(k == .join))) := by
  cases a <;> cases k <;>
    first | rfl | exact (Bool.or_true _).symm | exact (Bool.or_false _).symm

/-- Clauses of different kinds are added in either order. -/
theorem add_comm (c : Clauses) (a b : Clause) (h : a.kind ≠ b.kind) :
    (c.add a).add b = (c.add b).add a := by
  cases a <;> cases b <;> first | rfl | exact absurd rfl h

/-- The clauses of a question by their values. -/
def parts : form.Parts Clause where
  read := Clause.read
  kind := Clause.kind
  add := add
  join := .join
  read_eq := readClause_eq
  yields_kind := Clause.yields_kind
  has_add := has_add
  add_comm := add_comm

end Clauses

end Question

end DataPhrase
