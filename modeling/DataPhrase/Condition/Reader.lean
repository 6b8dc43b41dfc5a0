/-
# Reading conditions

Alternatives of conjunctions of comparisons and calls, with `not` in front of either. A group in
parentheses is a condition when a comparison sign or a connective stands directly inside it, and an
expression otherwise.
-/
import DataPhrase.Condition.Basic
import DataPhrase.Expr.Reader

namespace DataPhrase.Condition

open Text Lexeme

/-! ## Comparisons -/

/-- The comparison whose sign stands in front, with the number of characters of the sign. -/
def sign? : List Char → Option (CompareOp × Nat)
  | '=' :: '=' :: _ => some (.eq, 2)
  | '!' :: '=' :: _ => some (.ne, 2)
  | '<' :: '>' :: _ => some (.ne, 2)
  | '<' :: '=' :: _ => some (.le, 2)
  | '>' :: '=' :: _ => some (.ge, 2)
  | '=' :: _ => some (.eq, 1)
  | '<' :: _ => some (.lt, 1)
  | '>' :: _ => some (.gt, 1)
  | _ => none

/-- A comparison or a call. An operand that is followed by nothing or by a connective is itself
reported; otherwise the place where the sign is missing is. -/
def simple (s : List Char) : Outcome Cause s Condition :=
  match Expr.read s with
  | .error e => .error e
  | .ok ⟨left, r, hr⟩ =>
    match sign? (trim r) with
    | some (op, n) =>
      ((Expr.read ((trim r).drop n)).map fun right => .comparison left op right).widen
        ((List.drop_suffix n _).trans ((trim_suffix r).trans hr))
    | none =>
      match left with
      | .call name args => .done (.call name args) (trim r) ((trim_suffix r).trans hr)
      | _ =>
        if (trim r).isEmpty || atWord "and" r || atWord "or" r then
          .stop (.unexpected (some .comparison)) (trim s) (trim_suffix s)
        else .stop (.unexpected (some .comparison)) (trim r) ((trim_suffix r).trans hr)

/-! ## Groups -/

/-- A word that only conditions contain. -/
def isConnective (w : List Char) : Bool :=
  sameWord w "and".toList || sameWord w "or".toList || sameWord w "not".toList

/-- The text in front, a group with `depth` parentheses open, shows before it closes that it holds a
condition. `word` is the word that is being read, last character first; `quote` is the quote of the
literal that is open, in which a backslash has no meaning. -/
def showsCondition (depth : Nat) (quote : Option Char) (word : List Char) : List Char → Bool
  | [] => false
  | c :: r =>
    match quote with
    | some q => showsCondition depth (if c = q then none else some q) [] r
    | none =>
      if isNameChar c then showsCondition depth none (c :: word) r
      else if depth = 1 ∧ isConnective word.reverse then true
      else if Token.isQuote c then showsCondition depth (some c) [] r
      else if c = '(' then showsCondition (depth + 1) none [] r
      else if c = ')' then
        if depth ≤ 1 then false else showsCondition (depth - 1) none [] r
      else if depth = 1 ∧ (c = '=' ∨ c = '<' ∨ c = '>' ∨ c = '!') then true
      else showsCondition depth none [] r

/-- A group in front holds a condition. -/
def groupAhead : List Char → Bool
  | '(' :: r => showsCondition 1 none [] r
  | _ => false

/-! ## Conditions -/

/-- The alternative of a list of conditions; a single one stands for itself. -/
def or : List Condition → Condition
  | [c] => c
  | cs => .logical .or cs

mutual

/-- A condition: alternatives parted by `or`. -/
def read (s : List Char) : Outcome Cause s Condition :=
  (conjunction s).andThen fun c r hr =>
    have := hr.length_le
    (alternatives r).map fun cs => or (c :: cs)
termination_by 6 * s.length + 5

/-- The further alternatives, each after `or`. -/
def alternatives (s : List Char) : Outcome Cause s (List Condition) :=
  match nextWord s with
  | none => .done [] s (List.suffix_refl s)
  | some ⟨x, _⟩ =>
    if sameWord x.value "or".toList then
      ((conjunction x.rest).andThen fun c r hr =>
        have := hr.length_le
        (alternatives r).map (c :: ·)).widen x.suffix
    else .done [] s (List.suffix_refl s)
termination_by 6 * s.length + 4

/-- Conditions parted by `and`. -/
def conjunction (s : List Char) : Outcome Cause s Condition :=
  (negation s).andThen fun c r hr =>
    have := hr.length_le
    (conjunctionRest r).map fun cs => and (c :: cs)
termination_by 6 * s.length + 3

/-- The further parts of a conjunction, each after `and`. -/
def conjunctionRest (s : List Char) : Outcome Cause s (List Condition) :=
  match nextWord s with
  | none => .done [] s (List.suffix_refl s)
  | some ⟨x, _⟩ =>
    if sameWord x.value "and".toList then
      ((negation x.rest).andThen fun c r hr =>
        have := hr.length_le
        (conjunctionRest r).map (c :: ·)).widen x.suffix
    else .done [] s (List.suffix_refl s)
termination_by 6 * s.length + 2

/-- A condition with any number of `not` in front. -/
def negation (s : List Char) : Outcome Cause s Condition :=
  match nextWord s with
  | some ⟨x, _⟩ =>
    if sameWord x.value "not".toList then ((negation x.rest).map .not).widen x.suffix
    else simple s
  | none =>
    match h : trim s with
    | [] => simple s
    | c :: t =>
      have hs : c :: t <:+ s := h ▸ trim_suffix s
      have := length_lt_of_cons_suffix hs
      if groupAhead (c :: t) then
        ((read t).andThen fun inner r _ => (mark ")" r).map fun _ => inner).widen
          (suffix_of_cons_suffix hs)
      else simple s
termination_by 6 * s.length + 1

end

end DataPhrase.Condition
