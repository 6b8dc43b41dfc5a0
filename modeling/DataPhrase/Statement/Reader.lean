/-
# Reading statements

The tokens of a text decide its surface form, and the grammar of that form reads it.
-/
import DataPhrase.Token.Basic
import DataPhrase.Statement.Transform
import DataPhrase.Statement.Pipeline
import DataPhrase.Statement.Question

namespace DataPhrase

/-! ## Surface forms -/

/-- The surface form that the tokens of a text show: `transform` and a later `to` before the first
arrow, an arrow, or a verb in front. -/
def Pattern.ofTokens? (tokens : List Token) : Option Pattern :=
  let head := tokens.takeWhile fun t => t.kind != .arrow
  let afterTransform := (head.dropWhile fun t => !t.isWord "transform").drop 1
  if afterTransform.any (·.isWord "to") then some .transformTo
  else if head.length < tokens.length then some .arrowPipeline
  else
    match tokens with
    | first :: _ => if Question.verbs.any first.isWord then some .naturalQuery else none
    | [] => none

/-- The surface form of a text with its tokens. -/
def classify (text : List Char) : Except SyntaxError (Pattern × List Token) := do
  let tokens ← tokenize text
  match Pattern.ofTokens? tokens with
  | some p => pure (p, tokens)
  | none => throw ⟨.unclassifiable, (tokens.head?.map Token.offset).getD 0⟩

/-! ## Whole statements -/

/-- The offset of an ending `rest` of `text`. -/
def offsetOf (text rest : List Char) : Nat :=
  Text.byteCount text - Text.byteCount rest

/-- Read a whole text. -/
def readWhole {α : Type} (p : Phrase α) (text : List Char) : Except SyntaxError α :=
  match p text with
  | .error e => .error ⟨e.cause, offsetOf text e.rest⟩
  | .ok x =>
    if x.rest.isEmpty then .ok x.value
    else .error ⟨.unexpected (some .endOfStatement), offsetOf text x.rest⟩

/-- The grammar of a surface form. -/
def Pattern.grammar : Pattern → Phrase Statement
  | .transformTo => Transform.read
  | .arrowPipeline => Pipeline.read
  | .naturalQuery => Question.read

/-- The statement that a text makes. -/
def Statement.parse (text : List Char) : Except SyntaxError Statement := do
  let (pattern, _) ← classify text
  readWhole pattern.grammar text

end DataPhrase
