/-
# Time phrases

Periods such as `last 3 months using order_date`: an anchor word, a length, a unit and the field.
-/
import DataPhrase.Lexeme
import DataPhrase.Statement.Basic
import DataPhrase.Text.Word

namespace DataPhrase

open Text Lexeme

/-! ## Spelling -/

/-- A phrase in lower case with one space between its words. -/
def normalizePhrase (s : List Char) : List Char :=
  List.intercalate [' '] ((words s).map lower)

namespace Period

/-- The field that a period limits when it names none. -/
def defaultField : String := "date"

/-- The alignment that an anchor word stands for. -/
def anchor? (word : List Char) : Option Alignment :=
  let w := lower word
  if w = "last".toList ∨ w = "previous".toList then some .calendar
  else if w = "past".toList then some .rolling
  else if w = "this".toList then some .toDate
  else none

/-- The largest length of a period. -/
def maxAmount : Nat := Nat.pow 2 32 - 1

/-! ## Reading -/

/-- The anchor word. -/
def readAnchor : Phrase Alignment := fun s =>
  match nextWord s with
  | none => .stop (.unexpected (some .timePeriod)) (trim s) (trim_suffix s)
  | some x =>
    match anchor? x.1.value with
    | some a => .ok (x.1.map fun _ => a)
    | none => .stop (.unexpected (some .timePeriod)) (trim s) (trim_suffix s)

/-- The unit word. -/
def readUnit : Phrase TimeUnit := fun s =>
  match nextWord s with
  | none => .stop (.unexpected (some .timeUnit)) (trim s) (trim_suffix s)
  | some x =>
    match TimeUnit.ofWord? x.1.value with
    | some u => .ok (x.1.map fun _ => u)
    | none => .stop (.unexpected (some .timeUnit)) (trim s) (trim_suffix s)

/-- The number of units, one when none is written; the current unit has no number. -/
def readAmount (alignment : Alignment) : Phrase Nat := do
  skipBlanks
  let startsNumber := (← Reader.look).head?.any isDigit
  if alignment ≠ .toDate ∧ startsNumber then
    let n ← integer
    if 1 ≤ n ∧ n ≤ maxAmount then pure n else expected .periodLength
  else pure 1

/-- A period. -/
def read : Phrase Period := do
  skipBlanks
  let ((alignment, amount, unit), text) ← Reader.withText do
    let alignment ← readAnchor
    let amount ← readAmount alignment
    let unit ← readUnit
    pure (alignment, amount, unit)
  let field ← if (← eatWord "using") then fieldName else pure defaultField
  pure ⟨String.ofList (normalizePhrase text), amount, unit, alignment, field⟩

end Period

end DataPhrase
