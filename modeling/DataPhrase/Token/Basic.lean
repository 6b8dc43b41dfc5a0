/-
# Tokens

A statement falls into tokens at gaps and at arrows outside literals and groups. Literals in quotes
and groups in parentheses stay whole; a backslash inside a literal takes the next character with it.
-/
import DataPhrase.Reading
import DataPhrase.SyntaxError
import DataPhrase.Text.Case

namespace DataPhrase

open Text

/-! ## Tokens -/

/-- What a token is: an arrow, exactly one literal, or anything else. -/
inductive TokenKind where
  | word
  | text
  | arrow
  deriving DecidableEq, Repr

/-- A token with its place in the statement. -/
structure Token where
  kind : TokenKind
  text : List Char
  offset : Nat
  deriving DecidableEq, Repr

namespace Token

/-- The token is the keyword `w`, in any case. -/
def isWord (w : String) (t : Token) : Bool :=
  t.kind == .word && sameWord t.text w.toList

/-! ## Literals and groups -/

/-- The two quotes that open a literal. -/
def isQuote (c : Char) : Bool :=
  c == '"' || c == '\''

/-- The characters of a literal after its opening quote `q`, the closing quote included. -/
def literalRest (q : Char) : (s : List Char) → Option (Read s (List Char))
  | [] => none
  | ['\\'] => none
  | '\\' :: c :: r =>
    (literalRest q r).map fun x =>
      ⟨'\\' :: c :: x.value, x.rest,
        x.suffix.trans ((List.suffix_cons c r).trans (List.suffix_cons _ _))⟩
  | c :: r =>
    if c = q then some ⟨[c], r, List.suffix_cons c r⟩
    else (literalRest q r).map fun x =>
      ⟨c :: x.value, x.rest, x.suffix.trans (List.suffix_cons c r)⟩

/-- The characters of a group after its opening parenthesis, `depth` groups open inside it. -/
def groupRest (depth : Nat) (s : List Char) : Outcome Cause s (List Char) :=
  match s with
  | [] => .fail .unbalancedParenthesis
  | c :: r =>
    if isQuote c then
      match literalRest c r with
      | none => .fail .unterminatedString
      | some x =>
        have := x.suffix.length_le
        ((groupRest depth x.rest).map (c :: x.value ++ ·)).widen
          (x.suffix.trans (List.suffix_cons c r))
    else if c = '(' then
      ((groupRest (depth + 1) r).map (c :: ·)).widen (List.suffix_cons c r)
    else if c = ')' then
      match depth with
      | 0 => .done [c] r (List.suffix_cons c r)
      | depth + 1 => ((groupRest depth r).map (c :: ·)).widen (List.suffix_cons c r)
    else ((groupRest depth r).map (c :: ·)).widen (List.suffix_cons c r)
termination_by s.length

/-- The unbreakable piece that starts with `c`: a literal, a group or the character alone. A group
that is never closed is reported at its opening parenthesis, a literal at its opening quote. -/
def piece (c : Char) (r : List Char) : Except (Stop Cause (c :: r)) (Read r (List Char)) :=
  if isQuote c then
    match literalRest c r with
    | none => .error (.here .unterminatedString)
    | some x => .ok ⟨c :: x.value, x.rest, x.suffix⟩
  else if c = '(' then
    match groupRest 0 r with
    | .ok x => .ok ⟨c :: x.value, x.rest, x.suffix⟩
    | .error e =>
      if e.cause = .unbalancedParenthesis then .error (.here e.cause)
      else .error (e.widen (List.suffix_cons c r))
  else if c = ')' then .error (.here .unbalancedParenthesis)
  else .ok ⟨[c], r, List.suffix_refl r⟩

/-- A gap or an arrow starts here, so that a word ends. -/
def atBreak : List Char → Bool
  | [] => true
  | '-' :: '>' :: _ => true
  | c :: _ => isGap c

/-- The characters of a word up to the next gap or arrow. -/
def wordRest (s : List Char) : Outcome Cause s (List Char) :=
  if atBreak s then .done [] s (List.suffix_refl s)
  else
    match s with
    | [] => .done [] [] (List.suffix_refl _)
    | c :: r =>
      match piece c r with
      | .error e => .error e
      | .ok x =>
        have := x.suffix.length_le
        ((wordRest x.rest).map (x.value ++ ·)).widen (x.suffix.trans (List.suffix_cons c r))
termination_by s.length

/-- The word that starts with `c`, and whether it is exactly one literal. -/
def word (c : Char) (r : List Char) :
    Except (Stop Cause (c :: r)) (Read r (TokenKind × List Char)) :=
  match piece c r with
  | .error e => .error e
  | .ok x =>
    match wordRest x.rest with
    | .error e => .error (e.widen (x.suffix.trans (List.suffix_cons c r)))
    | .ok y =>
      let kind := if isQuote c && y.value.isEmpty then .text else .word
      .ok ⟨(kind, x.value ++ y.value), y.rest, y.suffix.trans x.suffix⟩

/-! ## The tokens of a statement -/

/-- The tokens of a text that begins at byte `offset` of the statement. -/
def scan (offset : Nat) (s : List Char) : Except SyntaxError (List Token) :=
  match s with
  | [] => .ok []
  | '-' :: '>' :: r => (scan (offset + 2) r).map (⟨.arrow, ['-', '>'], offset⟩ :: ·)
  | c :: r =>
    if isGap c then scan (offset + 1) r
    else
      match word c r with
      | .error e => .error ⟨e.cause, offset + (byteCount (c :: r) - byteCount e.rest)⟩
      | .ok x =>
        have := x.suffix.length_le
        (scan (offset + byteCount x.value.2) x.rest).map (⟨x.value.1, x.value.2, offset⟩ :: ·)
termination_by s.length

end Token

/-- The tokens of a statement, or the first literal or group that is not closed properly. -/
def tokenize (text : List Char) : Except SyntaxError (List Token) :=
  Token.scan 0 text

end DataPhrase
