/-
# Regular expressions

Expressions on texts of characters, and the places that matching moves between. A set of places is
kept as the bits of a number, so that one step moves all places at once. A text matches if some part
of it does. The styles of aliases are regular expressions of a library. Its documentation is what is
followed here and in the modules beside this one, for the syntax, the classes, the flags and what
matches; that the library does as it documents is assumed.
-/
import DataPhrase.Text.Runs
import DataPhrase.Text.Word

namespace DataPhrase

open Text

/-! ## Conditions on places -/

/-- The edge of a word: any, none, or one of a kind. Half an edge looks at one side only. -/
inductive WordEdge where
  | any
  | none
  | start
  | finish
  | startHalf
  | finishHalf
  deriving DecidableEq, Repr

/-- A condition on a place between two characters. -/
inductive Anchor where
  | textStart
  | textEnd
  | lineStart (carriage : Bool)
  | lineEnd (carriage : Bool)
  | edge (ascii : Bool) (kind : WordEdge)
  deriving DecidableEq, Repr

/-- An ASCII character of words. -/
def isAsciiWordChar (c : Char) : Bool :=
  c.isAlphanum || c == '_'

/-- The edge lies between two neighbours, of which the text says whether they belong to words. -/
def WordEdge.holds (before after : Bool) : WordEdge → Bool
  | .any => before != after
  | .none => before == after
  | .start => !before && after
  | .finish => before && !after
  | .startHalf => !before
  | .finishHalf => !after

/-- The condition holds between two neighbours. With `carriage` a line ends in a carriage return, a
line feed, or both in a row. -/
def Anchor.holds (before after : Option Char) : Anchor → Bool
  | .textStart => before.isNone
  | .textEnd => after.isNone
  | .lineStart carriage =>
    before.isNone || before == some '\n' ||
      (carriage && before == some '\r' && after != some '\n')
  | .lineEnd carriage =>
    after.isNone || (!carriage && after == some '\n') ||
      (carriage && (after == some '\r' || (after == some '\n' && before != some '\r')))
  | .edge ascii kind =>
    if ascii then kind.holds (before.any isAsciiWordChar) (after.any isAsciiWordChar)
    else kind.holds (inWord before) (inWord after)

/-! ## Expressions -/

/-- A regular expression. -/
inductive Regex where
  | empty
  | one (set : Runs)
  | anchor (a : Anchor)
  | seq (a b : Regex)
  | alt (a b : Regex)
  | rep (a : Regex) (least : Nat) (most : Option Nat)
  | capture (a : Regex)
  deriving Repr, Inhabited

namespace Regex

/-- The empty expression. -/
def isEmpty : Regex → Bool
  | .empty => true
  | _ => false

/-- The expression matches nothing but the empty text. -/
def onlyEmpty : Regex → Bool
  | .empty | .anchor _ => true
  | .one _ => false
  | .seq a b | .alt a b => onlyEmpty a && onlyEmpty b
  | .rep a _ most => onlyEmpty a || most == some 0
  | .capture a => onlyEmpty a

/-- The expression does not match the empty text. -/
def neverEmpty : Regex → Bool
  | .empty | .anchor _ => false
  | .one set => !set.isEmpty
  | .seq a b => neverEmpty a || neverEmpty b
  | .alt a b => neverEmpty a && neverEmpty b
  | .rep a least _ => decide (0 < least) && neverEmpty a
  | .capture a => neverEmpty a

/-- The expression at least `least` times in a row, and at most `most` times if given. What matches
the empty text only need not be repeated. -/
def repeated (a : Regex) (least : Nat) (most : Option Nat) : Regex :=
  let least := if a.onlyEmpty then min least 1 else least
  let most := if a.onlyEmpty then some (min (most.getD 1) 1) else most
  if most = some 0 then .empty
  else if least = 1 ∧ most = some 1 then a
  else .rep a least most

/-- Expressions in a row. -/
def sequenceOf : List Regex → Regex
  | [] => .empty
  | [a] => a
  | a :: r => .seq a (sequenceOf r)

/-- One of several expressions. Sets of characters become one set. -/
def choiceOf : List Regex → Regex
  | [] => .one []
  | [a] => a
  | a :: r =>
    match a, choiceOf r with
    | .one x, .one y => .one (Runs.union x y)
    | a, b => .alt a b

/-! ## Moves -/

/-- What an expression does in one text: sets of places are the bits of numbers. -/
inductive Move where
  | stay
  | step (places : Nat)
  | check (places : Nat)
  | seq (a b : Move)
  | alt (a b : Move)
  | rep (a : Move) (least : Nat) (most : Option Nat)

/-- The places `i`, `i + 1` and so on at which a list says yes. -/
def placesFrom (i : Nat) : List Bool → Nat
  | [] => 0
  | b :: r => (if b then 1 <<< i else 0) ||| placesFrom (i + 1) r

/-- The characters in front of and after each place of a text. -/
def neighbours (before : Option Char) : List Char → List (Option Char × Option Char)
  | [] => [(before, none)]
  | c :: r => (before, some c) :: neighbours (some c) r

/-- The moves of an expression in a text. -/
def moves (text : List Char) : Regex → Move
  | .empty => .stay
  | .one set => .step (placesFrom 0 (text.map fun c => inRuns set c.toNat))
  | .anchor a => .check (placesFrom 0 ((neighbours none text).map fun n => a.holds n.1 n.2))
  | .seq a b => .seq (moves text a) (moves text b)
  | .alt a b => .alt (moves text a) (moves text b)
  | .rep a least most => .rep (moves text a) least most
  | .capture a => moves text a

/-- Apply `f` to a set of places `n` times. -/
def iterate (f : Nat → Nat) : Nat → Nat → Nat
  | 0, s => s
  | n + 1, s =>
    let t := f s
    if t = s then s else iterate f n t

/-- The places that at most `n` applications of `f` reach. -/
def reach (f : Nat → Nat) : Nat → Nat → Nat
  | 0, s => s
  | n + 1, s =>
    let t := s ||| f s
    if t = s then s else reach f n t

/-- The places at which matches end that begin in the set `s`. A text of fewer than `bound`
characters is not moved through in more than `bound` steps that move, so more rounds of a
repetition reach nothing new. -/
def Move.ends (bound : Nat) : Move → Nat → Nat
  | .stay, s => s
  | .step places, s => (s &&& places) <<< 1
  | .check places, s => s &&& places
  | .seq a b, s => ends bound b (ends bound a s)
  | .alt a b, s => ends bound a s ||| ends bound b s
  | .rep a least most, s =>
    reach (ends bound a)
      (match most with
        | some m => min (m - least) bound
        | none => bound)
      (iterate (ends bound a) (min least bound) s)

/-- Some part of the text matches. -/
def isMatch (r : Regex) (s : String) : Bool :=
  let text := s.toList
  let bound := text.length + 2
  (r.moves text).ends bound ((1 <<< (text.length + 1)) - 1) != 0

end Regex

end DataPhrase
