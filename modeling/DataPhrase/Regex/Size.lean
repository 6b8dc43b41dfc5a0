/-
# Size of regular expressions

How much room the machines of an expression take that read a text byte by byte, forwards and
backwards. An expression is refused if one of them is too large.
-/
import DataPhrase.Regex.Basic

namespace DataPhrase.Regex

open Text

/-! ## Bytes of characters -/

/-- Runs of bytes that, one after another, write the code points of a run. -/
abbrev ByteRuns := List (Nat × Nat)

/-- The byte runs of the numbers from `a` to `b`, each written in one leading digit and `k` further
digits of 64 values. Digits are cut so that each run of numbers is a product of digit runs. -/
def digitRuns (a b : Nat) : Nat → List ByteRuns
  | 0 => [[(a, b)]]
  | k + 1 =>
    let m := Nat.pow 64 (k + 1)
    let whole : List ByteRuns := List.replicate 1 (List.replicate (k + 1) (0, 63))
    let head (x y : Nat) (rests : List ByteRuns) := rests.map fun r => (x, y) :: r
    if a / m = b / m then head (a / m) (a / m) (digitRuns (a % m) (b % m) k)
    else
      let low := if a % m = 0 then [] else head (a / m) (a / m) (digitRuns (a % m) (m - 1) k)
      let high := if b % m = m - 1 then [] else head (b / m) (b / m) (digitRuns 0 (b % m) k)
      let first := if a % m = 0 then a / m else a / m + 1
      let last := if b % m = m - 1 then b / m + 1 else b / m
      low ++ (if first < last then head first (last - 1) whole else []) ++ high

/-- The code points that are written in `k + 1` bytes, first and last. -/
def byteBlocks : List (Nat × Nat × Nat) :=
  [(0, 0, 0x7F), (1, 0x80, 0x7FF), (2, 0x800, 0xD7FF), (2, 0xE000, 0xFFFF), (3, 0x10000, 0x10FFFF)]

/-- The byte runs of a set. -/
def byteRuns (set : Runs) : List ByteRuns :=
  set.flatMap fun r => byteBlocks.flatMap fun block =>
    let a := max r.1 block.2.1
    let b := min r.2 block.2.2
    if a ≤ b then digitRuns a b block.1 else []

/-- The length of the longest common beginning. -/
def commonLength : ByteRuns → ByteRuns → Nat
  | x :: xs, y :: ys => if x = y then commonLength xs ys + 1 else 0
  | _, _ => 0

/-- The number of beginnings of the lists, those of neighbours counted once. -/
def beginnings (before : ByteRuns) : List ByteRuns → Nat
  | [] => 0
  | x :: r =>
    let shared := if x.length = before.length then commonLength before x else 0
    x.length - shared + beginnings x r

/-! ## Room -/

/-- The room that an expression takes forwards and backwards. -/
structure Room where
  forward : Nat
  backward : Nat

/-- Room that is the same in both directions. -/
def Room.both (n : Nat) : Room := ⟨n, n⟩

instance : Add Room := ⟨fun a b => ⟨a.forward + b.forward, a.backward + b.backward⟩⟩

/-- The room of `n` copies. -/
def Room.times (n : Nat) (a : Room) : Room := ⟨n * a.forward, n * a.backward⟩

/-- The room of a state of a machine. -/
def stateRoom : Nat := 32

/-- The room of a set of characters. A single character takes a state for each byte, ASCII
characters take one state with a branch for each run. -/
def setRoom (set : Runs) : Room :=
  match set with
  | [] => .both stateRoom
  | [(a, b)] =>
    if a = b then .both (stateRoom * (Char.ofNat a).utf8Size) else general set
  | _ => general set
where
  /-- The room of a set that is no single character. -/
  general (set : Runs) : Room :=
    if set.all fun r => decide (r.2 ≤ 0x7F) then .both (2 * stateRoom + 8 * set.length)
    else
      let runs := byteRuns set
      let all := beginnings [] runs
      ⟨2 * stateRoom + 40 * (all - runs.length) + 8 * runs.length,
        2 * stateRoom + stateRoom * all + 4 * runs.length⟩

/-- The room of an expression. -/
def room : Regex → Room
  | .empty | .anchor _ => .both stateRoom
  | .one set => setRoom set
  | .seq a b => room a + room b
  | .alt a b => room a + room b + .both (2 * stateRoom + 8)
  | .rep a least most =>
    match most with
    | none =>
      if least = 0 then
        room a + .both (if a.neverEmpty then stateRoom + 8 else 3 * stateRoom + 16)
      else (room a).times least + .both (stateRoom + 8)
    | some m =>
      if least = m then (room a).times m
      else
        (room a).times m + .both ((m - least) * (stateRoom + 8) + stateRoom) +
          .both (if least = 0 ∧ m ≠ 1 then stateRoom else 0)
  | .capture a => room a + ⟨2 * stateRoom, 0⟩

/-- The room that the frame around an expression takes. -/
def frameRoom : Room := ⟨6 * stateRoom + 16, 4 * stateRoom + 16⟩

/-- The room that a machine may take. -/
def maxRoom : Nat := 10 * 1024 * 1024

/-- Both machines of the expression are small enough. -/
def fits (r : Regex) : Bool :=
  let total := r.room + frameRoom
  decide (total.forward ≤ maxRoom) && decide (total.backward ≤ maxRoom)

end DataPhrase.Regex
