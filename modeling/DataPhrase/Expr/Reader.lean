/-
# Reading expressions

Sums of products of signed operands, all operations grouping to the left. A minus directly in front
of a number belongs to the number, and a minus followed by `>` is an arrow, never an operation.
-/
import DataPhrase.Expr.Basic
import DataPhrase.Lexeme
import DataPhrase.Token.Basic

namespace DataPhrase.Expr

open Text Lexeme

/-! ## Constants -/

/-- The characters of a number: digits and points. -/
def isNumberChar (c : Char) : Bool :=
  isDigit c || c == '.'

/-- The number that a run of digits and points writes; more than one point writes none. -/
def numberOf? (cs : List Char) : Option Number :=
  let whole := cs.takeWhile isDigit
  match cs.dropWhile isDigit with
  | [] => some (.ofNat (natOfDigits whole))
  | _ :: places =>
    if places.all isDigit then some (.ofDecimal (natOfDigits (whole ++ places)) places.length)
    else none

/-- A number without sign, in front of which nothing is skipped. -/
def decimal : Phrase Number :=
  (Reader.takeWhile isNumberChar).refine fun cs =>
    match numberOf? cs with
    | some x => .ok x
    | none => .error (.unexpected (some .number))

/-- The character that a backslash in front of `c` makes of it. -/
def unescape (c : Char) : Char :=
  if c = 'n' then '\n' else if c = 't' then '\t' else if c = 'r' then '\r' else c

theorem suffix_behind {r : List Char} (x : Read r (List Char)) (c : Char) : x.rest <:+ c :: r :=
  x.suffix.trans (List.suffix_cons c r)

theorem suffix_behind_escape {r : List Char} (x : Read r (List Char)) (c : Char) :
    x.rest <:+ '\\' :: c :: r :=
  (suffix_behind x c).trans (List.suffix_cons _ _)

/-- The value of a literal after its opening quote `q`. -/
def literalValue (q : Char) : (s : List Char) → Option (Read s (List Char))
  | [] => none
  | ['\\'] => none
  | '\\' :: c :: r =>
    (literalValue q r).map fun x => ⟨unescape c :: x.value, x.rest, suffix_behind_escape x c⟩
  | c :: r =>
    if c = q then some ⟨[], r, List.suffix_cons c r⟩
    else (literalValue q r).map fun x => ⟨c :: x.value, x.rest, suffix_behind x c⟩

/-- A literal in quotes, in front of which nothing is skipped. -/
def quotedText (s : List Char) : Outcome Cause s String :=
  match s with
  | [] => .fail (.unexpected (some .string))
  | c :: r =>
    if Token.isQuote c then
      match literalValue c r with
      | some x => .ok ((x.map String.ofList).widen (List.suffix_cons c r))
      | none => .fail (.unexpected (some .closingQuote))
    else .fail (.unexpected (some .string))

/-- The constant that a word in any case stands for. -/
def constant? (word : List Char) : Option Literal :=
  let w := lower word
  if w = "true".toList then some (.boolean true)
  else if w = "false".toList then some (.boolean false)
  else if w = "null".toList then some .null
  else none

/-! ## Operations -/

/-- The sum or difference whose sign stands in front. -/
def sumSign? : List Char → Option ArithOp
  | '+' :: _ => some .add
  | '-' :: '>' :: _ => none
  | '-' :: _ => some .subtract
  | _ => none

/-- The product, quotient or remainder whose sign stands in front. -/
def productSign? : List Char → Option ArithOp
  | '*' :: _ => some .multiply
  | '/' :: _ => some .divide
  | '%' :: _ => some .modulo
  | _ => none

/-! ## Expressions -/

mutual

/-- An expression: a sum of products. -/
def read (s : List Char) : Outcome Cause s Expr :=
  (product s).andThen fun left r hr =>
    have := hr.length_le
    sumRest left r
termination_by 9 * s.length + 6

/-- The further summands after `left`. -/
def sumRest (left : Expr) (s : List Char) : Outcome Cause s Expr :=
  match h : trim s with
  | [] => .done left [] List.nil_suffix
  | c :: t =>
    have hs : c :: t <:+ s := h ▸ trim_suffix s
    have := length_lt_of_cons_suffix hs
    match sumSign? (c :: t) with
    | none => .done left (c :: t) hs
    | some op =>
      ((product t).andThen fun right r hr =>
        have := hr.length_le
        sumRest (.binary op left right) r).widen (suffix_of_cons_suffix hs)
termination_by 9 * s.length + 5

/-- A product of signed operands. -/
def product (s : List Char) : Outcome Cause s Expr :=
  (signed s).andThen fun left r hr =>
    have := hr.length_le
    productRest left r
termination_by 9 * s.length + 4

/-- The further factors after `left`. -/
def productRest (left : Expr) (s : List Char) : Outcome Cause s Expr :=
  match h : trim s with
  | [] => .done left [] List.nil_suffix
  | c :: t =>
    have hs : c :: t <:+ s := h ▸ trim_suffix s
    have := length_lt_of_cons_suffix hs
    match productSign? (c :: t) with
    | none => .done left (c :: t) hs
    | some op =>
      ((signed t).andThen fun right r hr =>
        have := hr.length_le
        productRest (.binary op left right) r).widen (suffix_of_cons_suffix hs)
termination_by 9 * s.length + 3

/-- An operand with any number of minus signs. -/
def signed (s : List Char) : Outcome Cause s Expr :=
  match h : trim s with
  | [] => .stop (.unexpected (some .expression)) [] List.nil_suffix
  | c :: t =>
    have hs : c :: t <:+ s := h ▸ trim_suffix s
    have := length_lt_of_cons_suffix hs
    if sumSign? (c :: t) = some .subtract then
      match h' : trim t with
      | [] => .stop (.unexpected (some .expression)) [] List.nil_suffix
      | d :: u =>
        have ht : d :: u <:+ s := (h' ▸ trim_suffix t : d :: u <:+ t).trans
          (suffix_of_cons_suffix hs)
        if isDigit d then ((decimal (d :: u)).map fun x => .number x.neg).widen ht
        else ((signed t).map .negate).widen (suffix_of_cons_suffix hs)
    else (operand c t).widen hs
termination_by 9 * s.length + 2

/-- An operand that starts with `c`: a group, a constant, a call or a field. -/
def operand (c : Char) (t : List Char) : Outcome Cause (c :: t) Expr :=
  if c = '(' then
    ((read t).andThen fun e r _ => (mark ")" r).map fun _ => e).widen (List.suffix_cons c t)
  else if Token.isQuote c then (quotedText (c :: t)).map .text
  else if isDigit c then (decimal (c :: t)).map .number
  else if isNameStart c then
    let name := c :: t.takeWhile isNameChar
    let rest := t.dropWhile isNameChar
    have hr : rest <:+ c :: t := (List.dropWhile_suffix isNameChar).trans (List.suffix_cons c t)
    match constant? name with
    | some v => .done (.literal v) rest hr
    | none =>
      match h : trim rest with
      | '(' :: u =>
        have hu : '(' :: u <:+ t := (h ▸ trim_suffix rest : '(' :: u <:+ rest).trans
          (List.dropWhile_suffix isNameChar)
        have := length_lt_of_cons_suffix hu
        ((arguments u).andThen fun args r _ =>
          (mark ")" r).map fun _ => .call (String.ofList name) args).widen
          ((suffix_of_cons_suffix hu).trans (List.suffix_cons c t))
      | '.' :: d :: u =>
        have hu : '.' :: d :: u <:+ c :: t :=
          (h ▸ trim_suffix rest : '.' :: d :: u <:+ rest).trans hr
        if isNameStart d then
          .done (.field (some (String.ofList name)) (String.ofList (d :: u.takeWhile isNameChar)))
            (u.dropWhile isNameChar)
            ((List.dropWhile_suffix isNameChar).trans
              (suffix_of_cons_suffix (suffix_of_cons_suffix hu)))
        else .done (.field none (String.ofList name)) ('.' :: d :: u) hu
      | _ => .done (.field none (String.ofList name)) (trim rest) ((trim_suffix rest).trans hr)
  else .fail (.unexpected (some .expression))
termination_by 9 * t.length + 8

/-- The arguments of a call: none, a star alone, or expressions parted by commas. -/
def arguments (s : List Char) : Outcome Cause s (List Expr) :=
  match h : trim s with
  | ')' :: t => .done [] (')' :: t) (h ▸ trim_suffix s)
  | '*' :: t => .done [.star] t (suffix_of_cons_suffix (h ▸ trim_suffix s))
  | _ =>
    (read s).andThen fun e r hr =>
      have := hr.length_le
      (argumentsRest r).map (e :: ·)
termination_by 9 * s.length + 7

/-- The further arguments of a call, each after a comma. -/
def argumentsRest (s : List Char) : Outcome Cause s (List Expr) :=
  match h : s.dropWhile isListGap with
  | ',' :: t =>
    have ht : ',' :: t <:+ s := h ▸ List.dropWhile_suffix isListGap
    have := length_lt_of_cons_suffix ht
    ((read t).andThen fun e r hr =>
      have := hr.length_le
      (argumentsRest r).map (e :: ·)).widen (suffix_of_cons_suffix ht)
  | _ => .done [] s (List.suffix_refl s)
termination_by 9 * s.length + 6

end

end DataPhrase.Expr
