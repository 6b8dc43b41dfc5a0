/-
# Sets of code points

A set of code points is a list of runs, first and last code point each. In normal form the runs
ascend and do not touch. Sets are written as words: a code point, a run `first-last`, or every
second code point `first:last`, all in hexadecimal.
-/
import DataPhrase.Text.Case
import DataPhrase.Text.Property

namespace DataPhrase.Text

/-- A set of code points. -/
abbrev Runs := List (Nat × Nat)

namespace Runs

/-! ## Normal form -/

/-- Runs that ascend by their first code points, with those joined that touch. -/
def join : Runs → Runs
  | [] => []
  | [a] => [a]
  | a :: b :: r =>
    if b.1 ≤ a.2 + 1 then join ((a.1, max a.2 b.2) :: r) else a :: join (b :: r)
termination_by rs => rs.length

/-- The set in normal form. -/
def normal (rs : Runs) : Runs :=
  join (rs.mergeSort fun a b => decide (a.1 ≤ b.1))

/-! ## Operations -/

/-- The last code point. -/
def maxCode : Nat := 0x10FFFF

/-- All code points. -/
def full : Runs := [(0, maxCode)]

/-- What lies in one of the sets. -/
def union (a b : Runs) : Runs :=
  normal (a ++ b)

/-- The code points from `n` on that lie in none of the ascending runs. -/
def gaps (n : Nat) : Runs → Runs
  | [] => if n ≤ maxCode then [(n, maxCode)] else []
  | (a, b) :: r => if n < a then (n, a - 1) :: gaps (b + 1) r else gaps (b + 1) r

/-- What does not lie in the set. -/
def compl (a : Runs) : Runs :=
  gaps 0 (normal a)

/-- What lies in both sets. -/
def inter (a b : Runs) : Runs :=
  compl (union (compl a) (compl b))

/-- What lies in the first set only. -/
def minus (a b : Runs) : Runs :=
  inter a (compl b)

/-- What lies in one of the sets and not in both. -/
def either (a b : Runs) : Runs :=
  minus (union a b) (inter a b)

/-- The code points `first`, `first + step` and so on up to `last`. -/
def every (first last step : Nat) : Runs :=
  (List.range ((last - first) / step + 1)).map fun i => (first + i * step, first + i * step)

/-! ## Reading -/

/-- The value of a hexadecimal digit. -/
def hexDigit? (c : Char) : Option Nat :=
  if c.isDigit then some (c.toNat - '0'.toNat)
  else if 'a' ≤ c ∧ c ≤ 'f' then some (c.toNat - 'a'.toNat + 10)
  else if 'A' ≤ c ∧ c ≤ 'F' then some (c.toNat - 'A'.toNat + 10)
  else none

/-- The value of a run of hexadecimal digits. -/
def hexValue (ds : List Char) : Nat :=
  (ds.filterMap hexDigit?).foldl (fun n d => 16 * n + d) 0

/-- The set that a word writes. -/
def ofWord (w : List Char) : Runs :=
  let first := hexValue (w.takeWhile fun c => (hexDigit? c).isSome)
  match w.dropWhile fun c => (hexDigit? c).isSome with
  | '-' :: r => [(first, hexValue r)]
  | ':' :: r => every first (hexValue r) 2
  | _ => [(first, first)]

/-- The words of a text that stand between blanks and ends of lines. -/
def wordsOf (text : String) : List String :=
  (text.splitToList Char.isWhitespace).filter (· != "")

/-- The set that a text of words writes. -/
def ofText (text : String) : Runs :=
  normal ((wordsOf text).flatMap fun w => ofWord w.toList)

/-! ## Ignoring case -/

/-- Each folded code point in front of the code points that fold to it. -/
def foldFamilies : List (List Nat) :=
  let pairs := foldRuns.flatMap fun r =>
    (every r.1 r.2.1 r.2.2.1).map fun c => (r.2.2.2 + (c.1 - r.1), c.1)
  ((pairs.mergeSort fun a b => decide (a.1 ≤ b.1)).splitBy fun a b => a.1 == b.1).map fun g =>
    (g.head?.map Prod.fst).toList ++ g.map Prod.snd

/-- The set with every case variant of its members. -/
def fold (rs : Runs) : Runs :=
  let met := foldFamilies.filter fun g => g.any (inRuns rs)
  union rs (met.flatMap fun g => g.map fun c => (c, c))

/-- The set with both cases of its ASCII letters. -/
def foldAscii (rs : Runs) : Runs :=
  let letters := (List.range 26).filter fun i => inRuns rs (0x41 + i) || inRuns rs (0x61 + i)
  union rs (letters.flatMap fun i => [(0x41 + i, 0x41 + i), (0x61 + i, 0x61 + i)])

end Runs

end DataPhrase.Text
