/-
# Words in running text

The words between blanks, where words begin and end, and where a word or a phrase stands in a text.
Letters are compared without regard to case. The program searches for a word with the regular
expression `(?i)\bWORD\b` of a library. That the library searches as it documents is assumed here:
the leftmost match is found, `\b` is an edge of a word of Unicode, and `(?i)` compares the simple
case foldings of letters.
-/
import DataPhrase.Text.Case
import DataPhrase.Text.Class

namespace DataPhrase.Text

/-! ## Blanks around words -/

/-- The words of a text: its runs of characters between blanks. -/
def words (s : List Char) : List (List Char) :=
  (s.splitBy fun a b => isBlank a == isBlank b).filter fun w => !w.any isBlank

/-- The text without the blanks at its end. -/
def trimEnd (s : List Char) : List Char :=
  (s.reverse.dropWhile isBlank).reverse

/-! ## Boundaries -/

/-- The character, if there is one, belongs to a word. -/
def inWord : Option Char → Bool
  | some c => isWordChar c
  | none => false

/-- A word begins or ends between two neighbours. -/
def isBoundary (before after : Option Char) : Bool :=
  inWord before != inWord after

/-! ## Searching -/

/-- The text after `word`, if the text starts with it. -/
def afterFolded : List Char → List Char → Option (List Char)
  | [], s => some s
  | _ :: _, [] => none
  | w :: ws, c :: s => if sameFolded w c then afterFolded ws s else none

/-- The last character of a text, or else the one before it. -/
def lastOr (before : Option Char) (word : List Char) : Option Char :=
  match word.getLast? with
  | some c => some c
  | none => before

/-- The text starts with `word` as a whole word, where `before` is the character before it. -/
def startsWord (word : List Char) (before : Option Char) (s : List Char) : Bool :=
  isBoundary before s.head? &&
    match afterFolded word s with
    | some r => isBoundary (lastOr before (s.take (s.length - r.length))) r.head?
    | none => false

/-- The byte offset of the first place where `word` stands as a whole word, in a text that begins
at `offset` after the character `before`. -/
def findWord (word : List Char) (before : Option Char) (offset : Nat) : List Char → Option Nat
  | [] => if startsWord word before [] then some offset else none
  | c :: r =>
    if startsWord word before (c :: r) then some offset
    else findWord word (some c) (offset + c.utf8Size) r

end DataPhrase.Text
