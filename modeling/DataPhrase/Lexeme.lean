/-
# Lexemes

The smallest parts of statements: words, marks, names, lists and whole numbers. Blanks in front of
them do not count, and keywords may be written in any case.
-/
import DataPhrase.Reading
import DataPhrase.SyntaxError
import DataPhrase.Text.Case

namespace DataPhrase

open Text

/-- A reader of a part of a statement. -/
abbrev Phrase (α : Type) := Reader Cause α

namespace Lexeme

/-- Stop here, where `e` was expected. -/
def expected {α : Type} (e : Expected) : Phrase α :=
  Reader.fail (.unexpected (some e))

/-- Skip the blanks in front. -/
def skipBlanks : Phrase Unit :=
  Reader.skipWhile isBlank

/-- The text without the blanks in front. -/
def trim (s : List Char) : List Char :=
  s.dropWhile isBlank

theorem trim_suffix (s : List Char) : trim s <:+ s :=
  List.dropWhile_suffix isBlank

/-! ## Words -/

/-- The word in front, blanks before it skipped, with what follows it. -/
def nextWord (s : List Char) : Option { x : Read s (List Char) // x.rest.length < s.length } :=
  match h : trim s with
  | [] => none
  | c :: r =>
    have hs : c :: r <:+ s := h ▸ trim_suffix s
    if isNameStart c then
      some ⟨⟨c :: r.takeWhile isNameChar, r.dropWhile isNameChar,
          (List.dropWhile_suffix isNameChar).trans (suffix_of_cons_suffix hs)⟩,
        Nat.lt_of_le_of_lt (List.dropWhile_suffix isNameChar).length_le
          (length_lt_of_cons_suffix hs)⟩
    else none

/-- The word in front, empty if there is none. -/
def peekWord (s : List Char) : List Char :=
  match nextWord s with
  | some x => x.1.value
  | none => []

/-- The word in front is `w`. -/
def atWord (w : String) (s : List Char) : Bool :=
  sameWord (peekWord s) w.toList

/-- Take the word `w` if it is in front; if not, take nothing. -/
def eatWord (w : String) : Phrase Bool :=
  fun s =>
    match nextWord s with
    | some x =>
      if sameWord x.1.value w.toList then .ok (x.1.map fun _ => true)
      else .done false s (List.suffix_refl s)
    | none => .done false s (List.suffix_refl s)

/-- Require the word `w`. -/
def keyword (w : String) : Phrase Unit := do
  if ← eatWord w then pure ()
  else do
    skipBlanks
    expected (.word w)

/-! ## Marks -/

/-- Take the mark `m` if it is in front; blanks are skipped in any case. -/
def eatMark (m : String) : Phrase Bool :=
  fun s =>
    if m.toList.isPrefixOf (trim s) then
      .done true ((trim s).drop m.toList.length) ((List.drop_suffix _ _).trans (trim_suffix s))
    else .done false (trim s) (trim_suffix s)

/-- Require the mark `m`. -/
def mark (m : String) : Phrase Unit := do
  if ← eatMark m then pure () else expected (.mark m)

/-! ## Names -/

/-- An identifier. -/
def identifier : Phrase String :=
  fun s =>
    match nextWord s with
    | some x => .ok (x.1.map String.ofList)
    | none => .stop (.unexpected (some .identifier)) (trim s) (trim_suffix s)

/-- The dotted rest of a name: points, each directly followed by a word. -/
def dotted (s : List Char) : Read s (List Char) :=
  match _h : s with
  | '.' :: c :: r =>
    if isNameStart c then
      have hr : r.dropWhile isNameChar <:+ '.' :: c :: r :=
        (List.dropWhile_suffix isNameChar).trans
          ((List.suffix_cons c r).trans (List.suffix_cons _ _))
      have := (List.dropWhile_suffix (l := r) isNameChar).length_le
      let x := dotted (r.dropWhile isNameChar)
      ⟨'.' :: c :: r.takeWhile isNameChar ++ x.value, x.rest, x.suffix.trans hr⟩
    else ⟨[], _, List.suffix_refl _⟩
  | s => ⟨[], s, List.suffix_refl s⟩
termination_by s.length
decreasing_by
  subst _h
  simp only [List.length_cons]
  omega

/-- A name with any number of parts, such as `region` or `Customers.region`. -/
def fieldName : Phrase String := do
  let first ← identifier
  fun s => .ok ((dotted s).map fun more => first ++ String.ofList more)

/-- The name of a source or a target. -/
def datasetName : Phrase String := do
  skipBlanks
  if (peekWord (← Reader.look)).isEmpty then expected .datasetName else fieldName

/-! ## Lists -/

/-- The further items of a list, each after a comma. -/
def moreOf {α : Type} (p : Phrase α) (s : List Char) : Outcome Cause s (List α) :=
  match h : s.dropWhile isListGap with
  | ',' :: t =>
    have ht : ',' :: t <:+ s := h ▸ List.dropWhile_suffix isListGap
    have := length_lt_of_cons_suffix ht
    ((p t).andThen fun a r hr =>
      have := hr.length_le
      (moreOf p r).map (a :: ·)).widen (suffix_of_cons_suffix ht)
  | _ => .done [] s (List.suffix_refl s)
termination_by s.length

/-- One or more items parted by commas. -/
def listOf {α : Type} (p : Phrase α) : Phrase (List α) := do
  let a ← p
  let r ← moreOf p
  pure (a :: r)

/-- One or more field names parted by commas. -/
def fieldList : Phrase (List String) :=
  listOf fieldName

/-! ## Whole numbers -/

/-- The value of a run of decimal digits. -/
def natOfDigits (ds : List Char) : Nat :=
  ds.foldl (fun n c => 10 * n + (c.toNat - '0'.toNat)) 0

/-- The largest whole number a statement may hold. -/
def maxInteger : Nat := Nat.pow 2 64 - 1

/-- A whole number. -/
def integer : Phrase Nat := do
  skipBlanks
  (Reader.takeWhile isDigit).refine fun ds =>
    if ds.isEmpty ∨ maxInteger < natOfDigits ds then .error (.unexpected (some .integer))
    else .ok (natOfDigits ds)

end Lexeme

end DataPhrase
