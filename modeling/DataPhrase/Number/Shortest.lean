/-
# Shortest decimal text

The text of a number is the shortest decimal that reads back as the same number; among the shortest
ones, the nearest to it. On each decimal grid only the two neighbours of the value have to be tried.
-/
import DataPhrase.Number.Basic

namespace DataPhrase.Number

/-! ## Reading back -/

/-- A decimal `digits * 10 ^ exponent`. -/
structure Decimal where
  digits : Nat
  exponent : Int
  deriving DecidableEq, Repr

/-- Numerator and denominator of a decimal, in units. -/
def Decimal.ratio (x : Decimal) : Nat × Nat :=
  if 0 ≤ x.exponent then (x.digits * Nat.pow 10 x.exponent.toNat * unitsPerOne, 1)
  else (x.digits * unitsPerOne, Nat.pow 10 (-x.exponent).toNat)

/-- The place of the magnitude that the decimal reads as. -/
def Decimal.place (x : Decimal) : Nat :=
  placeOfUnits x.ratio.1 x.ratio.2

/-! ## Candidates -/

/-- Which of two equally near and equally short decimals is written. -/
inductive Tie where
  | up
  | even
  deriving DecidableEq, Repr

/-- The number of decimal digits of a positive natural number. -/
def digitCount (n : Nat) : Nat :=
  (Nat.toDigits 10 n).length

/-- The exponent of the leading digit of the magnitude at place `p`, which is not zero. -/
def leadingExponent (p : Nat) : Int :=
  let u := units p
  if unitsPerOne ≤ u then (digitCount (u / unitsPerOne) : Int) - 1
  else
    -- for `n` in units with `u * 10 ^ k` the least to reach one, the exponent is `-k`
    let guess := (Nat.log2 (unitsPerOne / u)) * 30103 / 100000
    if unitsPerOne ≤ u * Nat.pow 10 guess then -(guess : Int)
    else if unitsPerOne ≤ u * Nat.pow 10 (guess + 1) then -((guess + 1 : Nat) : Int)
    else -((guess + 2 : Nat) : Int)

/-- The neighbour of the value on the grid of multiples of `10 ^ exponent` that reads back and is
nearest to it, if one does. -/
def onGrid (tie : Tie) (p : Nat) (exponent : Int) : Option Decimal :=
  -- the value is `n / d` steps of the grid
  let n := if 0 ≤ exponent then units p else units p * Nat.pow 10 (-exponent).toNat
  let d := if 0 ≤ exponent then unitsPerOne * Nat.pow 10 exponent.toNat else unitsPerOne
  let below : Decimal := ⟨n / d, exponent⟩
  let above : Decimal := ⟨n / d + 1, exponent⟩
  if n % d = 0 then some below
  else
    match decide (below.place = p ∧ below.digits ≠ 0), decide (above.place = p) with
    | true, false => some below
    | false, true => some above
    | false, false => none
    | true, true =>
      let twice := 2 * (n % d)
      if twice < d then some below
      else if d < twice then some above
      else match tie with
        | .up => some above
        | .even => if (n / d) % 2 = 0 then some below else some above

/-- The first hit on the grids with `digits`, `digits + 1`, … leading digits. -/
def firstHit (tie : Tie) (p : Nat) (leading : Int) (digits : Nat) : Nat → Option Decimal
  | 0 => none
  | tries + 1 =>
    match onGrid tie p (leading - digits + 1) with
    | some x => some x
    | none => firstHit tie p leading (digits + 1) tries

/-- Cut the trailing zeros of a decimal with at most `n` of them. -/
def Decimal.trim (x : Decimal) : Nat → Decimal
  | 0 => x
  | n + 1 =>
    if x.digits % 10 = 0 ∧ x.digits ≠ 0 then Decimal.trim ⟨x.digits / 10, x.exponent + 1⟩ n else x

/-- The shortest decimal that reads back as the magnitude at the finite place `p`. -/
def shortest (tie : Tie) (p : Nat) : Decimal :=
  if p = 0 then ⟨0, 0⟩
  else
    match firstHit tie p (leadingExponent p) 1 17 with
    | some x => x.trim 17
    | none => ⟨units p, 0⟩

/-! ## Notations -/

/-- The digits of a natural number, most significant first. -/
def digitChars (n : Nat) : List Char :=
  Nat.toDigits 10 n

/-- Digits and exponent written with a point where one is needed and no exponent. -/
def positional (x : Decimal) : List Char :=
  let ds := digitChars x.digits
  if 0 ≤ x.exponent then ds ++ List.replicate x.exponent.toNat '0'
  else
    let cut := (-x.exponent).toNat
    if cut < ds.length then
      ds.take (ds.length - cut) ++ '.' :: ds.drop (ds.length - cut)
    else '0' :: '.' :: (List.replicate (cut - ds.length) '0' ++ ds)

/-- The text of a number in generated code: positional, a minus sign for every negative number,
zero included. -/
def text (x : Number) : List Char :=
  let body := if x.isFinite then positional (shortest .up x.place) else ['i', 'n', 'f']
  if x.negative then '-' :: body else body

/-- The text of an integer. -/
def intChars (n : Int) : List Char :=
  if n < 0 then '-' :: digitChars n.natAbs else digitChars n.natAbs

/-- The text of a finite number in a data file: a point or an exponent always shows that it is not
an integer; exponents are used below `10 ^ -5` and from `10 ^ 16` on. -/
def dataText (x : Number) : List Char :=
  let d := shortest .even x.place
  let ds := digitChars d.digits
  let pointAt : Int := ds.length + d.exponent
  let body :=
    if x.place = 0 then ['0', '.', '0']
    else if 0 ≤ d.exponent ∧ pointAt ≤ 16 then positional d ++ ['.', '0']
    else if -5 < pointAt ∧ pointAt ≤ 16 then positional d
    else
      let mantissa := match ds with
        | [] => []
        | [c] => [c]
        | c :: r => c :: '.' :: r
      mantissa ++ 'e' :: intChars (pointAt - 1)
  if x.negative then '-' :: body else body

end DataPhrase.Number
