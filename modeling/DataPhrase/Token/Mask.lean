/-
# Masked literals

A statement with the inside of its literals blanked out byte by byte, so that places in it are
places in the statement. A literal that is not closed is blanked to the end. The place of a name in
a statement is its first occurrence as a whole word outside literals.
-/
import DataPhrase.Text.Word
import DataPhrase.Token.Basic

namespace DataPhrase

/-- Where in a statement a character stands. -/
inductive MaskState where
  | outside
  | inside (quote : Char)
  | escaped (quote : Char)
  deriving DecidableEq, Repr

/-- As many blanks as the character has bytes. -/
def blanksFor (c : Char) : List Char :=
  List.replicate c.utf8Size ' '

/-- Mask a text that is entered in the given state. -/
def maskFrom : MaskState → List Char → List Char
  | _, [] => []
  | .outside, c :: r =>
    if Token.isQuote c then c :: maskFrom (.inside c) r else c :: maskFrom .outside r
  | .inside q, c :: r =>
    if c = '\\' then blanksFor c ++ maskFrom (.escaped q) r
    else if c = q then c :: maskFrom .outside r
    else blanksFor c ++ maskFrom (.inside q) r
  | .escaped q, c :: r => blanksFor c ++ maskFrom (.inside q) r

/-- The statement with its literals blanked out. -/
def mask (text : List Char) : List Char :=
  maskFrom .outside text

/-- The byte offset of the first whole word `subject` outside literals. -/
def locate (text subject : List Char) : Option Nat :=
  Text.findWord subject none 0 (mask text)

end DataPhrase
