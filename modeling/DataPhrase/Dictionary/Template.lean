/-
# Templates

Snippets of target code with numbered placeholders in braces. Digits in braces are a placeholder
when their value fits 64 bits; every other brace is plain text. Arguments are put in all at once,
so braces inside an argument stay as they are.
-/
import DataPhrase.Text.Class

namespace DataPhrase

/-! ## Pieces -/

/-- A piece of a template: a plain character, or a placeholder with the digits it is written in. -/
inductive Piece where
  | char (c : Char)
  | hole (digits : List Char)
  deriving DecidableEq, Repr

namespace Piece

/-- The value of a run of decimal digits. -/
def index (digits : List Char) : Nat :=
  digits.foldl (fun n c => 10 * n + (c.toNat - '0'.toNat)) 0

/-- The piece as it is written. -/
def source : Piece → List Char
  | .char c => [c]
  | .hole ds => '\x7b' :: ds ++ ['\x7d']

/-- The placeholder that a piece is. -/
def hole? : Piece → Option Nat
  | .char _ => none
  | .hole ds => some (index ds)

end Piece

/-- A snippet of target code. -/
structure Template where
  text : String
  deriving DecidableEq, Repr, Inhabited

namespace Template

/-- The largest number of a placeholder. -/
def maxIndex : Nat := Nat.pow 2 64 - 1

/-- The digits of the placeholder that starts after an opening brace, with what follows it. -/
def holeAhead? (s : List Char) : Option (List Char × List Char) :=
  let ds := s.takeWhile Text.isDigit
  match s.dropWhile Text.isDigit with
  | '\x7d' :: r => if ds ≠ [] ∧ Piece.index ds ≤ maxIndex then some (ds, r) else none
  | _ => none

theorem length_of_holeAhead? {s ds r : List Char} (h : holeAhead? s = some (ds, r)) :
    r.length < s.length := by
  unfold holeAhead? at h
  have hs := (List.dropWhile_suffix (l := s) Text.isDigit).length_le
  split at h
  · next t ht =>
    rw [ht] at hs
    dsimp only at h
    split at h
    · simp only [Option.some.injEq, Prod.mk.injEq] at h
      obtain ⟨-, rfl⟩ := h
      simp at hs
      omega
    · simp at h
  · simp at h

/-- The pieces of a text. -/
def piecesOf (s : List Char) : List Piece :=
  match s with
  | [] => []
  | c :: r =>
    if c = '\x7b' then
      match h : holeAhead? r with
      | some (ds, t) =>
        have := length_of_holeAhead? h
        .hole ds :: piecesOf t
      | none => .char c :: piecesOf r
    else .char c :: piecesOf r
termination_by s.length

/-- The pieces of a template. -/
def pieces (t : Template) : List Piece :=
  piecesOf t.text.toList

/-- The numbers of the placeholders, in order. -/
def holes (t : Template) : List Nat :=
  t.pieces.filterMap Piece.hole?

/-- The number of arguments that a template needs: one more than its largest placeholder. The sum is
one of 64 bits, so the largest placeholder that there is does not count. -/
def arity (t : Template) : Nat :=
  (t.holes.map fun i => (UInt64.ofNat i + 1).toNat).foldl max 0

/-- The first placeholder that has none of `given` arguments. -/
def missing? (t : Template) (given : Nat) : Option Nat :=
  t.holes.find? fun i => given ≤ i

/-- The text with every placeholder replaced by its argument; one without argument vanishes. -/
def fill (t : Template) (args : List String) : String :=
  String.join (t.pieces.map fun
    | .char c => String.singleton c
    | .hole ds => args.getD (Piece.index ds) "")

end Template

end DataPhrase
