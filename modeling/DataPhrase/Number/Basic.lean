/-
# Numbers

The numbers of statements are the finite double-precision numbers and the two infinities. A
magnitude is stored as its place in the increasing list of all magnitudes, so that neighbours have
neighbouring places; its exact value is a whole number of units of size `2 ^ -1074`. All arithmetic
is exact arithmetic on natural numbers followed by one rounding.
-/

namespace DataPhrase

/-! ## Places -/

/-- A number: a sign and the place of its magnitude, counted from zero. -/
structure Number where
  negative : Bool
  place : Nat
  deriving DecidableEq, Repr, Inhabited

namespace Number

/-- Magnitudes with one exponent take up this many places. -/
def binade : Nat := Nat.pow 2 52

/-- The place after all finite magnitudes. -/
def infinitePlace : Nat := 2047 * binade

/-- One is this many units. -/
def unitsPerOne : Nat := Nat.pow 2 1074

/-- The exact value of the magnitude at place `p`, in units. -/
def units (p : Nat) : Nat :=
  if p < binade then p else (binade + p % binade) * Nat.pow 2 (p / binade - 1)

/-- The number is neither infinity. -/
def isFinite (x : Number) : Bool :=
  decide (x.place < infinitePlace)

/-- Zero without a sign. -/
def zero : Number := ⟨false, 0⟩

/-- The number with the other sign. -/
def neg (x : Number) : Number :=
  ⟨!x.negative, x.place⟩

/-! ## Rounding -/

/-- The whole number nearest to `n / d`; a half goes to the even neighbour. -/
def roundDivEven (n d : Nat) : Nat :=
  let q := n / d
  let twice := 2 * (n % d)
  if twice < d then q
  else if d < twice then q + 1
  else if q % 2 = 0 then q else q + 1

/-- The place of the magnitude nearest to `n / d` units; a half goes to the even place, and what
is too large goes to infinity. -/
def placeOfUnits (n d : Nat) : Nat :=
  let shift := Nat.log2 (n / d) - 52
  min infinitePlace (shift * binade + roundDivEven n (d * Nat.pow 2 shift))

/-- The place of the magnitude nearest to the fraction `n / d`. -/
def placeOfRatio (n d : Nat) : Nat :=
  placeOfUnits (n * unitsPerOne) d

/-- The number nearest to a natural number. -/
def ofNat (n : Nat) : Number :=
  ⟨false, placeOfRatio n 1⟩

/-- The number nearest to `digits / 10 ^ places`. -/
def ofDecimal (digits places : Nat) : Number :=
  ⟨false, placeOfRatio digits (Nat.pow 10 places)⟩

/-- The rounded product of two finite numbers. -/
def mul (x y : Number) : Number :=
  ⟨x.negative != y.negative, placeOfUnits (units x.place * units y.place) unitsPerOne⟩

/-- The rounded quotient of two finite numbers, the second not zero. -/
def div (x y : Number) : Number :=
  ⟨x.negative != y.negative, placeOfRatio (units x.place) (units y.place)⟩

/-! ## Comparison -/

/-- The number lies strictly between zero and one. -/
def isProperFraction (x : Number) : Bool :=
  !x.negative && decide (0 < x.place) && decide (units x.place < unitsPerOne)

/-- The natural number that the number is, if it is one. -/
def toNat? (x : Number) : Option Nat :=
  if x.isFinite && units x.place % unitsPerOne == 0 && (!x.negative || x.place == 0) then
    some (units x.place / unitsPerOne)
  else none

end Number

end DataPhrase
