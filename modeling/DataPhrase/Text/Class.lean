/-
# Classes of characters

The classes that the surface syntax is written in: blanks, letters, digits and the characters of
words. Several notions of a blank live side by side, each used by the rule that names it.
-/
import DataPhrase.Text.Property

namespace DataPhrase.Text

/-! ## Blanks -/

/-- A character of the property `White_Space`: what may stand between the words of a phrase. -/
def isBlank (c : Char) : Bool :=
  inRuns whiteSpaceRuns c.toNat

/-- Space, tab, line feed, form feed or carriage return: what parts the tokens of a statement. -/
def isGap (c : Char) : Bool :=
  c == ' ' || c == '\t' || c == '\n' || c == '\x0c' || c == '\r'

/-- Space, tab, line feed or carriage return: what may stand before the comma of a list. -/
def isListGap (c : Char) : Bool :=
  c == ' ' || c == '\t' || c == '\n' || c == '\r'

/-! ## Letters and digits -/

/-- An ASCII decimal digit. -/
def isDigit (c : Char) : Bool :=
  c.isDigit

/-- A character of the property `Alphabetic`. -/
def isLetter (c : Char) : Bool :=
  c.isAlpha || (decide (0x80 ≤ c.toNat) && inRuns alphabeticRuns c.toNat)

/-- A letter or a character of the category `Number`. -/
def isAlphanumeric (c : Char) : Bool :=
  isLetter c || c.isDigit || (decide (0x80 ≤ c.toNat) && inRuns numberRuns c.toNat)

/-! ## Names -/

/-- A name starts with a letter or an underscore. -/
def isNameStart (c : Char) : Bool :=
  isLetter c || c == '_'

/-- A name goes on with letters, numbers and underscores. -/
def isNameChar (c : Char) : Bool :=
  isAlphanumeric c || c == '_'

/-! ## Words in running text -/

/-- A decimal digit of any script. -/
def isAnyDigit (c : Char) : Bool :=
  c.isDigit || (decide (0x80 ≤ c.toNat) && inRuns decimalDigitRuns c.toNat)

/-- A character that does not break a word: a letter, a mark, a decimal digit, a connector such as
the underscore, or one of the two joiners. -/
def isWordChar (c : Char) : Bool :=
  isLetter c || isAnyDigit c || c == '_' ||
    (decide (0x80 ≤ c.toNat) &&
      (inRuns markRuns c.toNat || inRuns connectorRuns c.toNat ||
        c.toNat == 0x200C || c.toNat == 0x200D))

/-! ## Measures -/

/-- The number of bytes of the text in UTF-8. -/
def byteCount : List Char → Nat
  | [] => 0
  | c :: r => c.utf8Size + byteCount r

@[simp] theorem byteCount_nil : byteCount [] = 0 := rfl

@[simp] theorem byteCount_cons (c : Char) (r : List Char) :
    byteCount (c :: r) = c.utf8Size + byteCount r := rfl

/-- The bytes of two texts in a row add up. -/
@[simp] theorem byteCount_append (a b : List Char) :
    byteCount (a ++ b) = byteCount a + byteCount b := by
  induction a with
  | nil => simp
  | cons c r ih => simp [ih, Nat.add_assoc]

end DataPhrase.Text
