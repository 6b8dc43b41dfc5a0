/-
# Writing data values

Two layouts: everything on one line without blanks, and one item a line with an indent of two.
-/
import DataPhrase.Json.Basic
import DataPhrase.Number.Shortest

namespace DataPhrase.Json

/-! ## Leaves -/

/-- A hexadecimal digit in lower case. -/
def hexDigit (n : Nat) : Char :=
  Nat.digitChar n

/-- A character inside a quoted text. -/
def quotedChar (c : Char) : List Char :=
  if c = '"' then ['\\', '"']
  else if c = '\\' then ['\\', '\\']
  else if c = '\x08' then ['\\', 'b']
  else if c = '\x0c' then ['\\', 'f']
  else if c = '\n' then ['\\', 'n']
  else if c = '\r' then ['\\', 'r']
  else if c = '\t' then ['\\', 't']
  else if c.toNat < 0x20 then
    ['\\', 'u', '0', '0', hexDigit (c.toNat / 16), hexDigit (c.toNat % 16)]
  else [c]

/-- A text in quotes. -/
def quoted (s : String) : List Char :=
  '"' :: (s.toList.flatMap quotedChar ++ ['"'])

/-- A value that holds no other. An infinite number has no text of its own. -/
def leaf : Json → List Char
  | .bool true => "true".toList
  | .bool false => "false".toList
  | .int n => Number.intChars n
  | .real x => if x.isFinite then x.dataText else "null".toList
  | .text s => quoted s
  | _ => "null".toList

/-! ## One line -/

mutual

/-- The value on one line, in front of `tail`. -/
def lineOnto : Json → List Char → List Char
  | .array xs, tail => '[' :: lineItems xs (']' :: tail)
  | .object fs, tail => '\x7b' :: lineFields fs ('\x7d' :: tail)
  | v, tail => leaf v ++ tail

/-- Items parted by commas, in front of `tail`. -/
def lineItems : List Json → List Char → List Char
  | [], tail => tail
  | [x], tail => x.lineOnto tail
  | x :: y :: r, tail => x.lineOnto (',' :: lineItems (y :: r) tail)

/-- Fields parted by commas, in front of `tail`. -/
def lineFields : List (String × Json) → List Char → List Char
  | [], tail => tail
  | [(k, v)], tail => quoted k ++ ':' :: v.lineOnto tail
  | (k, v) :: y :: r, tail => quoted k ++ ':' :: v.lineOnto (',' :: lineFields (y :: r) tail)

end

/-- The value on one line. -/
def line (v : Json) : String :=
  String.ofList (v.lineOnto [])

/-! ## One item a line -/

/-- A line break and `n` steps of indent. -/
def breakLine (n : Nat) : List Char :=
  '\n' :: List.replicate (2 * n) ' '

mutual

/-- The value with its lines indented by `n` steps, in front of `tail`. -/
def prettyOnto (n : Nat) : Json → List Char → List Char
  | .array [], tail => '[' :: ']' :: tail
  | .array (x :: r), tail => '[' :: prettyItems n (x :: r) tail
  | .object [], tail => '\x7b' :: '\x7d' :: tail
  | .object (f :: r), tail => '\x7b' :: prettyFields n (f :: r) tail
  | v, tail => leaf v ++ tail

/-- Items one a line and the closing bracket, in front of `tail`. -/
def prettyItems (n : Nat) : List Json → List Char → List Char
  | [], tail => tail
  | [x], tail => breakLine (n + 1) ++ x.prettyOnto (n + 1) (breakLine n ++ ']' :: tail)
  | x :: y :: r, tail =>
    breakLine (n + 1) ++ x.prettyOnto (n + 1) (',' :: prettyItems n (y :: r) tail)

/-- Fields one a line and the closing brace, in front of `tail`. -/
def prettyFields (n : Nat) : List (String × Json) → List Char → List Char
  | [], tail => tail
  | [(k, v)], tail =>
    breakLine (n + 1) ++ quoted k ++ ':' :: ' ' ::
      v.prettyOnto (n + 1) (breakLine n ++ '\x7d' :: tail)
  | (k, v) :: y :: r, tail =>
    breakLine (n + 1) ++ quoted k ++ ':' :: ' ' ::
      v.prettyOnto (n + 1) (',' :: prettyFields n (y :: r) tail)

end

/-- The value with one item a line. -/
def pretty (v : Json) : String :=
  String.ofList (prettyOnto 0 v [])

end DataPhrase.Json
