/-
# Reading regular expressions

Expressions are alternatives of sequences of repeated atoms: characters, escapes, classes in
brackets, anchors and groups. Letters after `(?` set how the rest of the group is read. An
expression that is nested too deep or that takes too much room cannot be read.
-/
import DataPhrase.Regex.Class
import DataPhrase.Regex.Size

namespace DataPhrase.Regex

open Text

/-! ## Depth -/

/-- An expression with the depth of nesting in which it is written. -/
structure Deep where
  regex : Regex
  depth : Nat

namespace Deep

/-- The depth of expressions side by side: two or more are one level deeper. -/
def depthOf : List Deep → Nat
  | [] => 0
  | [a] => a.depth
  | as => (as.map Deep.depth).foldl max 0 + 1

/-- Expressions in a row. -/
def ofSequence (as : List Deep) : Deep :=
  ⟨sequenceOf ((as.map Deep.regex).filter fun r => !r.isEmpty), depthOf as⟩

/-- One of several expressions. -/
def ofChoice (as : List Deep) : Deep :=
  ⟨choiceOf (as.map Deep.regex), depthOf as⟩

/-- An expression as a group. -/
def ofGroup (captures : Bool) (a : Deep) : Deep :=
  ⟨if captures then .capture a.regex else a.regex, a.depth + 1⟩

end Deep

/-- The greatest depth of an expression. -/
def maxDepth : Nat := 250

/-! ## Repetition -/

/-- How often an atom is repeated: at least `least` times, and at most `most` times if given. -/
structure Count where
  least : Nat
  most : Option Nat

/-- An expression repeated. -/
def Deep.ofCount (a : Deep) (n : Count) : Deep :=
  ⟨a.regex.repeated n.least n.most, a.depth + 1⟩

/-- The greatest number of repetitions. -/
def maxCount : Nat := 0xFFFFFFFF

/-- A number between blanks. -/
def number (f : Flags) : Reader Unit (Option Nat) := do
  Reader.skipWhile isBlank
  let ds ← gather f Char.isDigit
  Reader.skipWhile isBlank
  space f
  let n := ds.foldl (fun n c => 10 * n + (c.toNat - '0'.toNat)) 0
  if ds.isEmpty then pure none else if n ≤ maxCount then pure (some n) else .fail ()

/-- A count in braces, read after the opening brace. -/
def braceCount (f : Flags) : Reader Unit Count := do
  space f
  let least ← required (← number f)
  if (← peek) = some ',' then do
    Reader.drop 1
    space f
    if (← peek) = some '\x7d' then do
      Reader.drop 1
      pure ⟨least, none⟩
    else do
      let most ← required (← number f)
      expect '\x7d'
      if least ≤ most then pure ⟨least, some most⟩ else .fail ()
  else do
    expect '\x7d'
    pure ⟨least, some least⟩

/-- The character begins a sign of repetition. -/
def isRepeat (c : Char) : Bool :=
  c == '*' || c == '+' || c == '?' || c == '\x7b'

/-- A sign of repetition after its first character `c`, with the mark that makes it take as little
as possible. -/
def count (f : Flags) (c : Char) : Reader Unit Count := do
  let n ← (
    if c = '*' then pure ⟨0, none⟩
    else if c = '+' then pure ⟨1, none⟩
    else if c = '?' then pure ⟨0, some 1⟩
    else do
      let n ← braceCount f
      space f
      pure n)
  if (← peek) = some '?' then do
    Reader.drop 1
    pure n
  else pure n

/-! ## Groups -/

/-- How the rest of a group is read, and the names that groups have so far. -/
structure Scope where
  flags : Flags := {}
  names : List (List Char) := []

/-- What the characters after an opening parenthesis say: that a group begins, or how the rest of
the group around them is read. -/
inductive Opening where
  | flags (f : Flags)
  | group (captures : Bool) (inner : Scope)

/-- The flags of a group, up to a colon or the closing parenthesis. No flag is given twice. A dash
denies the flags after it, and one at least must follow. -/
def readFlags (sc : Scope) (given : List Char) (on : Bool) (s : List Char) :
    Outcome Unit s Opening :=
  match s with
  | ':' :: r =>
    if given.head? = some '-' then .fail ()
    else .done (.group false sc) r (List.suffix_cons _ r)
  | ')' :: r =>
    if given.isEmpty ∨ given.head? = some '-' then .fail ()
    else .done (.flags sc.flags) r (List.suffix_cons _ r)
  | c :: r =>
    if given.contains c then .fail ()
    else if c = '-' then (readFlags sc (c :: given) false r).widen (List.suffix_cons _ r)
    else
      match sc.flags.set on c with
      | some f => (readFlags { sc with flags := f } (c :: given) on r).widen (List.suffix_cons _ r)
      | none => .fail ()
  | [] => .fail ()

/-- A character of the name of a group. -/
def isGroupChar (c : Char) : Bool :=
  isAlphanumeric c || c == '_' || c == '.' || c == '[' || c == ']'

/-- A group with a name, read at the name. No two groups have the same name. -/
def namedGroup (sc : Scope) : Reader Unit Opening := do
  let name ← Reader.takeWhile isGroupChar
  expect '>'
  match name with
  | c :: _ =>
    if (c = '_' ∨ isLetter c) ∧ !sc.names.contains name then
      pure (.group true { sc with names := name :: sc.names })
    else .fail ()
  | [] => .fail ()

/-- The characters after an opening parenthesis. -/
def opening (sc : Scope) : Reader Unit Opening := do
  space sc.flags
  match ← Reader.look with
  | '?' :: 'P' :: '<' :: _ =>
    Reader.drop 3
    namedGroup sc
  | '?' :: '<' :: _ =>
    Reader.drop 2
    namedGroup sc
  | '?' :: _ =>
    Reader.drop 1
    readFlags sc [] true
  | _ => pure (.group true sc)

/-! ## Atoms -/

/-- The set of any character, with or without the ends of lines. -/
def anyChar (f : Flags) : Option Runs :=
  if !f.unicode then none
  else if f.dotAll then some Runs.full
  else if f.carriage then some (Runs.compl [(0x0A, 0x0A), (0x0D, 0x0D)])
  else some (Runs.compl [(0x0A, 0x0A)])

/-- A character, in either case where the flags ask for it. -/
def charSet (f : Flags) (c : Char) : Regex :=
  .one (f.fold [(c.toNat, c.toNat)])

/-- An atom that is no group, read after its first character. -/
def atom (f : Flags) : Char → Reader Unit Deep
  | '.' => return ⟨.one (← required (anyChar f)), 0⟩
  | '^' => pure ⟨.anchor (if f.multiLine then .lineStart f.carriage else .textStart), 0⟩
  | '$' => pure ⟨.anchor (if f.multiLine then .lineEnd f.carriage else .textEnd), 0⟩
  | '[' => do
    let d ← charClass f
    pure ⟨.one d.set, d.depth⟩
  | '\\' => do
    match ← escaped f with
    | .char c => pure ⟨charSet f c, 0⟩
    | .set s => pure ⟨.one s, 0⟩
    | .anchor a => pure ⟨.anchor a, 0⟩
  | c => pure ⟨charSet f c, 0⟩

/-- An atom with the signs of repetition that follow it. -/
def counted (f : Flags) (a : Deep) (s : List Char) : Outcome Unit s Deep :=
  let x := skipSpace f s
  match h : x.rest with
  | [] => .done a s (List.suffix_refl s)
  | c :: t =>
    have hs : c :: t <:+ s := x.suffix_of_rest_eq h
    have _ht := length_lt_of_cons_suffix hs
    if isRepeat c then
      ((count f c t).andThen fun n r hr =>
        have := hr.length_le
        counted f (a.ofCount n) r).widen (suffix_of_cons_suffix hs)
    else .done a s (List.suffix_refl s)
termination_by s.length

/-! ## Expressions -/

mutual

/-- Alternatives up to the end or a closing parenthesis. Flags hold on across the bar. -/
def alternatives (sc : Scope) (s : List Char) : Outcome Unit s (List Deep × Scope) :=
  (sequence sc s).andThen fun x r hr =>
    if h : r.head? = some '|' then
      have := length_tail_lt_of_head? h
      have := hr.length_le
      ((alternatives x.2 r.tail).map fun y => (Deep.ofSequence x.1 :: y.1, y.2)).widen
        (List.tail_suffix r)
    else .done ([Deep.ofSequence x.1], x.2) r (List.suffix_refl r)
termination_by (s.length, 2)
decreasing_by
  · exact Prod.Lex.right _ (by decide)
  · exact Prod.Lex.left _ _ (by omega)

/-- Repeated atoms in a row, with the scope after them. Flags count as an empty expression, which
cannot be repeated. -/
def sequence (sc : Scope) (s : List Char) : Outcome Unit s (List Deep × Scope) :=
  let x := skipSpace sc.flags s
  match h : x.rest with
  | [] => .done ([], sc) [] List.nil_suffix
  | c :: t =>
    have hs : c :: t <:+ s := x.suffix_of_rest_eq h
    have _ht := length_lt_of_cons_suffix hs
    if c = '|' ∨ c = ')' then .done ([], sc) (c :: t) hs
    else if isRepeat c then .stop () (c :: t) hs
    else if c = '(' then
      ((opening sc t).andThen fun start r hr =>
        have := hr.length_le
        match start with
        | .flags f => (sequence { sc with flags := f } r).map fun y => (⟨.empty, 0⟩ :: y.1, y.2)
        | .group captures inner =>
          (alternatives inner r).andThen fun g r' hr' =>
            have := hr'.length_le
            (expect ')' r').andThen fun _ u hu =>
              have := hu.length_le
              (counted sc.flags ((Deep.ofChoice g.1).ofGroup captures) u).andThen fun a v hv =>
                have := hv.length_le
                (sequence { sc with names := g.2.names } v).map fun y => (a :: y.1, y.2)).widen
        (suffix_of_cons_suffix hs)
    else
      ((atom sc.flags c t).andThen fun g r hr =>
        have := hr.length_le
        (counted sc.flags g r).andThen fun a v hv =>
          have := hv.length_le
          (sequence sc v).map fun y => (a :: y.1, y.2)).widen (suffix_of_cons_suffix hs)
termination_by (s.length, 1)
decreasing_by all_goals exact Prod.Lex.left _ _ (by omega)

end

/-- The expression that a text writes, if it writes one. -/
def read? (pattern : String) : Option Regex :=
  match alternatives {} pattern.toList with
  | .ok x =>
    let d := Deep.ofChoice x.value.1
    if x.rest.isEmpty ∧ d.depth ≤ maxDepth ∧ d.regex.fits then some d.regex else none
  | .error _ => none

end DataPhrase.Regex
