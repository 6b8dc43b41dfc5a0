/-
# Reading data values

Values nest at most 127 deep. A number without point and exponent that fits 64 bits is an integer;
any other is read as its leading 64-bit run of digits times or divided by a power of ten, each
step rounded.
-/
import DataPhrase.Json.Basic
import DataPhrase.Reading

namespace DataPhrase.Json

open Text

/-! ## Texts -/

/-- The value of a hexadecimal digit of either case. -/
def hexValue? (c : Char) : Option Nat :=
  if c.isDigit then some (c.toNat - '0'.toNat)
  else if 'a' ≤ c ∧ c ≤ 'f' then some (c.toNat - 'a'.toNat + 10)
  else if 'A' ≤ c ∧ c ≤ 'F' then some (c.toNat - 'A'.toNat + 10)
  else none

/-- Take the next character. -/
def next : Reader Unit Char
  | [] => .fail ()
  | c :: r => .done c r (List.suffix_cons c r)

/-- Take a hexadecimal digit. -/
def hex : Reader Unit Nat := do
  match hexValue? (← next) with
  | some n => pure n
  | none => .fail ()

/-- Take four hexadecimal digits. -/
def hex4 : Reader Unit Nat := do
  let a ← hex
  let b ← hex
  let c ← hex
  let d ← hex
  pure (((a * 16 + b) * 16 + c) * 16 + d)

/-- Require the character `c`. -/
def char (c : Char) : Reader Unit Unit := do
  if (← next) = c then pure () else .fail ()

/-- The character that an escape after `u` stands for; a leading surrogate needs its partner. -/
def codeEscape : Reader Unit Char := do
  let n ← hex4
  if 0xD800 ≤ n ∧ n ≤ 0xDBFF then
    char '\\'
    char 'u'
    let m ← hex4
    if 0xDC00 ≤ m ∧ m ≤ 0xDFFF then
      pure (Char.ofNat (0x10000 + (n - 0xD800) * 0x400 + (m - 0xDC00)))
    else .fail ()
  else if 0xDC00 ≤ n ∧ n ≤ 0xDFFF then .fail ()
  else pure (Char.ofNat n)

/-- The character that an escape stands for, read after its backslash. -/
def escape : Reader Unit Char := do
  match ← next with
  | '"' => pure '"'
  | '\\' => pure '\\'
  | '/' => pure '/'
  | 'b' => pure '\x08'
  | 'f' => pure '\x0c'
  | 'n' => pure '\n'
  | 'r' => pure '\r'
  | 't' => pure '\t'
  | 'u' => codeEscape
  | _ => .fail ()

/-- The characters up to the closing quote. -/
def quotedRest (s : List Char) : Outcome Unit s (List Char) :=
  match s with
  | [] => .fail ()
  | c :: r =>
    if c = '"' then .done [] r (List.suffix_cons c r)
    else if c = '\\' then
      ((escape r).andThen fun e r' hr =>
        have := hr.length_le
        (quotedRest r').map (e :: ·)).widen (List.suffix_cons c r)
    else if c.toNat < 0x20 then .fail ()
    else ((quotedRest r).map (c :: ·)).widen (List.suffix_cons c r)
termination_by s.length

/-- A quoted text. -/
def quotedText : Reader Unit String := do
  char '"'
  let cs ← quotedRest
  pure (String.ofList cs)

/-! ## Numbers -/

/-- The value of a run of digits that continues `n`. -/
def digitsValue (n : Nat) (ds : List Char) : Nat :=
  ds.foldl (fun n c => 10 * n + (c.toNat - '0'.toNat)) n

/-- Take digits into `n` while it fits a word. -/
def wordDigits (n : Nat) : List Char → Nat × List Char
  | [] => (n, [])
  | c :: r =>
    let m := 10 * n + (c.toNat - '0'.toNat)
    if m ≤ maxFullWord then wordDigits m r else (n, c :: r)

/-- Scale by a power of ten: multiply or divide by at most `10 ^ 308` at a time. `none` when the
result is infinite. -/
def scale (x : Number) (exponent : Int) : Option Number :=
  if 308 < exponent then
    if x.place = 0 then some x else none
  else if 0 ≤ exponent then
    let y := x.mul (.ofNat (Nat.pow 10 exponent.toNat))
    if y.isFinite then some y else none
  else
    let places := (-exponent).toNat
    some (divide x (places / 308 + 1) places)
where
  /-- Divide by `10 ^ places` in steps. -/
  divide (x : Number) : Nat → Nat → Number
    | 0, _ => x
    | steps + 1, places =>
      if places ≤ 308 then x.div (.ofNat (Nat.pow 10 places))
      else if x.place = 0 then x
      else divide (x.div (.ofNat (Nat.pow 10 308))) steps (places - 308)

/-- The largest exponent that is read in full. -/
def maxExponent : Nat := Nat.pow 2 31 - 1

/-- Clip an exponent to 32 bits. -/
def clip (n : Int) : Int :=
  max (-(maxExponent + 1 : Nat)) (min maxExponent n)

/-- The number of a sign, a word of digits and a power of ten, unless it is infinite. -/
def realOf (negative : Bool) (word : Nat) (exponent : Int) : Option Json :=
  (scale (.ofNat word) exponent).map fun x => .real ⟨negative, x.place⟩

/-- Read an exponent, if there is one, and finish the number. -/
def finishReal (negative : Bool) (word : Nat) (exponent : Int) : Reader Unit Json := do
  match ← Reader.look with
  | c :: r =>
    if c = 'e' ∨ c = 'E' then
      Reader.drop 1
      let down := r.head? = some '-'
      if down ∨ r.head? = some '+' then Reader.drop 1
      let ds ← Reader.takeWhile Char.isDigit
      if ds.isEmpty then .fail ()
      let n := digitsValue 0 ds
      if n ≤ maxExponent then
        answer (realOf negative word (clip (if down then exponent - n else exponent + n)))
      else if word ≠ 0 ∧ ¬down then .fail ()
      else pure (.real ⟨negative, 0⟩)
    else answer (realOf negative word exponent)
  | [] => answer (realOf negative word exponent)
where
  /-- The number, or a failure when it is out of range. -/
  answer : Option Json → Reader Unit Json
    | some v => pure v
    | none => .fail ()

/-- Read the digits after a point. Those that do not fit the word any more are dropped. -/
def fraction (negative : Bool) (word : Nat) (exponent : Int) : Reader Unit Json := do
  Reader.drop 1
  let ds ← Reader.takeWhile Char.isDigit
  if ds.isEmpty then .fail ()
  let (n, dropped) := wordDigits word ds
  finishReal negative n (exponent - (ds.length - dropped.length : Nat))

/-- A number. -/
def number : Reader Unit Json := do
  let negative := (← Reader.look).head? = some '-'
  if negative then Reader.drop 1
  let ds ← Reader.takeWhile Char.isDigit
  if ds.isEmpty ∨ (ds.head? = some '0' ∧ ds.length ≠ 1) then .fail ()
  let (word, dropped) := wordDigits 0 ds
  match (← Reader.look).head? with
  | some '.' => fraction negative word dropped.length
  | some 'e' => finishReal negative word dropped.length
  | some 'E' => finishReal negative word dropped.length
  | _ =>
    if dropped ≠ [] then finishReal negative word dropped.length
    else if ¬negative then pure (.int word)
    else if word = 0 ∨ Nat.pow 2 63 < word then pure (.real ⟨true, (Number.ofNat word).place⟩)
    else pure (.int (-word))

/-! ## Values -/

/-- Require the characters of a word. -/
def word : List Char → Reader Unit Unit
  | [] => pure ()
  | c :: r => do char c; word r

/-- A value that holds no other. -/
def scalar : Reader Unit Json := do
  match (← Reader.look).head? with
  | some 'n' => do word "null".toList; pure .null
  | some 't' => do word "true".toList; pure (.bool true)
  | some 'f' => do word "false".toList; pure (.bool false)
  | some '"' => return .text (← quotedText)
  | _ => number

/-- The key of a field with the colon after it. -/
def key : Reader Unit String := do
  Reader.skipWhile isListGap
  let k ← quotedText
  Reader.skipWhile isListGap
  char ':'
  pure k

mutual

/-- A value nested in at most `depth - 1` others. -/
def value (depth : Nat) (s : List Char) : Outcome Unit s Json :=
  match h : s.dropWhile isListGap with
  | [] => .stop () [] List.nil_suffix
  | c :: r =>
    have hs : c :: r <:+ s := h ▸ List.dropWhile_suffix isListGap
    have _hl := length_lt_of_cons_suffix hs
    if c = '[' ∨ c = '\x7b' then
      if depth ≤ 1 then .stop () r (suffix_of_cons_suffix hs)
      else
        match h' : r.dropWhile isListGap with
        | [] => .stop () [] List.nil_suffix
        | d :: t =>
          have ht : d :: t <:+ r := h' ▸ List.dropWhile_suffix isListGap
          have hr := suffix_of_cons_suffix hs
          have ht' := suffix_of_cons_suffix ht
          if c = '[' then
            if d = ']' then .done (.array []) t (ht'.trans hr)
            else ((items (depth - 1) r).map Json.array).widen hr
          else if d = '\x7d' then .done (.object []) t (ht'.trans hr)
          else ((fields (depth - 1) r).map Json.object).widen hr
    else (scalar (c :: r)).widen hs
termination_by (s.length, 0)

/-- The items of an array up to its closing bracket. -/
def items (depth : Nat) (s : List Char) : Outcome Unit s (List Json) :=
  (value depth s).andThen fun v r hr =>
    match h : r.dropWhile isListGap with
    | [] => .stop () [] List.nil_suffix
    | c :: t =>
      have ht : c :: t <:+ r := h ▸ List.dropWhile_suffix isListGap
      have _hl : t.length < s.length :=
        Nat.lt_of_lt_of_le (length_lt_of_cons_suffix ht) hr.length_le
      if c = ']' then .done [v] t (suffix_of_cons_suffix ht)
      else if c = ',' then
        ((items depth t).map (v :: ·)).widen (suffix_of_cons_suffix ht)
      else .stop () (c :: t) ht
termination_by (s.length, 1)

/-- The fields of an object up to its closing brace. -/
def fields (depth : Nat) (s : List Char) : Outcome Unit s (List (String × Json)) :=
  (key s).andThen fun k r hr =>
    have _ := hr.length_le
    (value depth r).andThen fun v r' hr' =>
      match h : r'.dropWhile isListGap with
      | [] => .stop () [] List.nil_suffix
      | c :: t =>
        have ht : c :: t <:+ r' := h ▸ List.dropWhile_suffix isListGap
        have _hl : t.length < s.length :=
          Nat.lt_of_lt_of_le (length_lt_of_cons_suffix ht) (hr'.trans hr).length_le
        if c = '\x7d' then .done [(k, v)] t (suffix_of_cons_suffix ht)
        else if c = ',' then
          ((fields depth t).map ((k, v) :: ·)).widen (suffix_of_cons_suffix ht)
        else .stop () (c :: t) ht
termination_by (s.length, 1)
decreasing_by
  · rcases Nat.lt_or_eq_of_le ‹r.length ≤ s.length› with h | h
    · exact Prod.Lex.left _ _ h
    · rw [h]; exact Prod.Lex.right _ (by decide)
  · exact Prod.Lex.left _ _ ‹t.length < s.length›

end

/-- The value that a whole text holds, blanks around it apart. -/
def read (s : List Char) : Option Json :=
  match value 128 s with
  | .ok x => if (x.rest.dropWhile isListGap).isEmpty then some x.value else none
  | .error _ => none

end DataPhrase.Json
