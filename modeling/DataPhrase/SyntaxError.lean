/-
# Syntax errors

A statement that cannot be read is answered with the cause and the byte offset of the place. The
wording of every cause is here.
-/
import DataPhrase.Text.Class

namespace DataPhrase

/-! ## What was expected -/

/-- What a reader was looking for when it stopped. -/
inductive Expected where
  | word (w : String)
  | mark (m : String)
  | identifier
  | datasetName
  | integer
  | number
  | string
  | closingQuote
  | expression
  | comparison
  | percentileFraction
  | percentileArguments
  | oneArgument
  | positiveOffset
  | windowArguments
  | aliasName
  | timePeriod
  | periodLength
  | timeUnit
  | transformClause
  | stage
  | aggregateFunction
  | windowFunction
  | arrowOrEnd
  | queryVerb
  | queryClause
  | calculatedAlias
  | endOfStatement
  | other (what : String)
  deriving DecidableEq, Repr

/-- The wording of an expectation. -/
def Expected.text : Expected → String
  | .word w => "'" ++ w ++ "'"
  | .mark m => "'" ++ m ++ "'"
  | .identifier => "identifier"
  | .datasetName => "dataset name"
  | .integer => "integer"
  | .number => "number"
  | .string => "string"
  | .closingQuote => "closing quote"
  | .expression => "expression"
  | .comparison => "comparison operator"
  | .percentileFraction => "percentile fraction between 0 and 1"
  | .percentileArguments => "percentile(field, fraction)"
  | .oneArgument => "aggregate with one argument"
  | .positiveOffset => "positive integer offset"
  | .windowArguments => "window function arguments"
  | .aliasName => "alias ('as <name>')"
  | .timePeriod => "time period (last, previous, past, this)"
  | .periodLength => "positive period length"
  | .timeUnit => "time unit (day, week, month, quarter, year)"
  | .transformClause =>
    "clause (joined with, as, grouped by, where, ordered by, selecting, during, limit)"
  | .stage =>
    "stage (filter, group, aggregate, calculate, window, select, sort, join, during, limit)"
  | .aggregateFunction => "aggregate function"
  | .windowFunction => "window function"
  | .arrowOrEnd => "'->' or end of statement"
  | .queryVerb => "query verb"
  | .queryClause => "clause (from, by, where, ordered by, for, joined with)"
  | .calculatedAlias => "alias for calculated item ('as <name>')"
  | .endOfStatement => "end of statement"
  | .other what => what

/-! ## Causes -/

/-- Why a statement cannot be read. -/
inductive Cause where
  | unclassifiable
  | unterminatedString
  | unbalancedParenthesis
  | duplicateClause
  | unexpected (what : Option Expected)
  deriving DecidableEq, Repr

/-- The short name of a cause. -/
def Cause.code : Cause → String
  | .unclassifiable => "UnclassifiableStatement"
  | .unterminatedString => "UnterminatedString"
  | .unbalancedParenthesis => "UnbalancedParenthesis"
  | .duplicateClause => "DuplicateClause"
  | .unexpected _ => "UnexpectedToken"

/-- What was expected, where that is known. -/
def Cause.expected? : Cause → Option String
  | .unexpected what => what.map Expected.text
  | _ => none

/-- A cause with the byte offset of its place in the statement. -/
structure SyntaxError where
  cause : Cause
  offset : Nat
  deriving DecidableEq, Repr

namespace SyntaxError

/-- The error on one line. -/
def message (e : SyntaxError) : String :=
  "syntax error: " ++ e.cause.code ++
    (match e.cause.expected? with
      | some what => ", expected " ++ what
      | none => "") ++
    " (at position " ++ toString e.offset ++ ")"

/-! ## The place in the text -/

/-- The characters that lie within the first `n` bytes. -/
def takeBytes (n : Nat) : List Char → List Char
  | [] => []
  | c :: r => if c.utf8Size ≤ n then c :: takeBytes (n - c.utf8Size) r else []

/-- The characters after the last line break. -/
def lastLine (s : List Char) : List Char :=
  (s.reverse.takeWhile (· != '\n')).reverse

/-- The characters before the first line break, without a carriage return in front of it. -/
def firstLine (s : List Char) : List Char :=
  let line := s.takeWhile (· != '\n')
  if line.length < s.length ∧ line.getLast? = some '\r' then line.dropLast else line

/-- The error with the line it is on and a caret under its place. -/
def render (e : SyntaxError) (text : List Char) : String :=
  let before := takeBytes e.offset text
  let inLine := lastLine before
  let line := firstLine (text.drop (before.length - inLine.length))
  e.message ++ " (line " ++ toString (1 + before.count '\n') ++ ")\n  " ++
    String.ofList line ++ "\n  " ++ String.ofList (List.replicate inLine.length ' ') ++ "^"

end SyntaxError

end DataPhrase
