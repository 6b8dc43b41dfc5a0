/-
# Escapes and classes

How single characters of a regular expression are written, and the classes in brackets: characters,
ranges, named classes and classes in classes, joined by operations on sets.
-/
import DataPhrase.Reading
import DataPhrase.Regex.Basic
import DataPhrase.Regex.Property

namespace DataPhrase.Regex

open Text

/-! ## Flags -/

/-- How letters, lines and blanks of an expression are read. Without `unicode` classes and edges of
words know ASCII only. -/
structure Flags where
  ignoreCase : Bool := false
  multiLine : Bool := false
  dotAll : Bool := false
  spaced : Bool := false
  unicode : Bool := true
  carriage : Bool := false

namespace Flags

/-- The flags with the one of a letter set. -/
def set (f : Flags) (on : Bool) : Char → Option Flags
  | 'i' => some { f with ignoreCase := on }
  | 'm' => some { f with multiLine := on }
  | 's' => some { f with dotAll := on }
  | 'x' => some { f with spaced := on }
  | 'u' => some { f with unicode := on }
  | 'R' => some { f with carriage := on }
  | 'U' => some f
  | _ => none

/-- The set with the case variants that the flags ask for. -/
def fold (f : Flags) (s : Runs) : Runs :=
  if !f.ignoreCase then s else if f.unicode then s.fold else s.foldAscii

/-- The set, or what does not lie in it. Among ASCII characters only, what does not lie in a set is
not allowed, since it would be single bytes. -/
def negate (f : Flags) (negated : Bool) (s : Runs) : Option Runs :=
  if !negated then some s else if f.unicode then some s.compl else none

end Flags

/-! ## Skipping -/

/-- Skip what the flags let stand between the parts of an expression: blanks and comments. -/
def skipSpace (f : Flags) (s : List Char) : Read s Unit :=
  if f.spaced then
    match s with
    | [] => ⟨(), [], List.suffix_refl _⟩
    | c :: r =>
      if isBlank c then (skipSpace f r).widen (List.suffix_cons c r)
      else if c = '#' then
        have := (List.dropWhile_suffix (l := r) (· != '\n')).length_le
        have hr := (List.dropWhile_suffix (l := r) (· != '\n')).trans (List.suffix_cons c r)
        (skipSpace f (r.dropWhile (· != '\n'))).widen hr
      else ⟨(), c :: r, List.suffix_refl _⟩
  else ⟨(), s, List.suffix_refl s⟩
termination_by s.length

/-- Skip blanks and comments where the flags allow them. -/
def space (f : Flags) : Reader Unit Unit :=
  fun s => .ok (skipSpace f s)

/-- The characters in front that satisfy `p`, with what may be skipped before and after each. -/
def gatherFrom (f : Flags) (p : Char → Bool) (s : List Char) : Read s (List Char) :=
  let x := skipSpace f s
  match h : x.rest with
  | [] => ⟨[], [], List.nil_suffix⟩
  | c :: r =>
    have hs : c :: r <:+ s := x.suffix_of_rest_eq h
    have := length_lt_of_cons_suffix hs
    if p c then ((gatherFrom f p r).map fun cs => c :: cs).widen (suffix_of_cons_suffix hs)
    else ⟨[], c :: r, hs⟩
termination_by s.length

/-- Gather the characters in front that satisfy `p`. -/
def gather (f : Flags) (p : Char → Bool) : Reader Unit (List Char) :=
  fun s => .ok (gatherFrom f p s)

/-- The next character. -/
def next : Reader Unit Char
  | [] => .fail ()
  | c :: r => .done c r (List.suffix_cons c r)

/-- The next character, which must be `c`. -/
def expect (c : Char) : Reader Unit Unit := do
  if (← next) = c then pure () else .fail ()

/-- The character that comes next, which stays. -/
def peek : Reader Unit (Option Char) :=
  fun s => .done s.head? s (List.suffix_refl s)

/-! ## Escapes -/

/-- What a backslash and the characters after it stand for. -/
inductive Escaped where
  | char (c : Char)
  | set (s : Runs)
  | anchor (a : Anchor)

/-- The character whose code is written in hexadecimal digits. -/
def charOfHex? (ds : List Char) : Option Char :=
  let n := Runs.hexValue ds
  if ds.isEmpty || ds.any fun c => (Runs.hexDigit? c).isNone then none
  else if n < 0xD800 ∨ (0xE000 ≤ n ∧ n < 0x110000) then some (Char.ofNat n)
  else none

/-- The next `n` characters, with what may be skipped before each. -/
def gatherCount (f : Flags) : Nat → Reader Unit (List Char)
  | 0 => pure []
  | n + 1 => do
    space f
    let c ← next
    return c :: (← gatherCount f n)

/-- The value of an outcome that may be missing. -/
def required {α : Type} : Option α → Reader Unit α
  | some a => pure a
  | none => .fail ()

/-- A character given by its code: `digits` digits, or any number of them in braces. Two digits
without braces are a byte where only ASCII is known, so it must be ASCII. -/
def hexEscape (f : Flags) (digits : Nat) : Reader Unit Char := do
  space f
  if (← peek) = some '\x7b' then do
    Reader.drop 1
    let ds ← gather f (· != '\x7d')
    expect '\x7d'
    space f
    required (charOfHex? ds)
  else do
    let c ← required (charOfHex? (← gatherCount f digits))
    space f
    if !f.unicode && digits == 2 && decide (0x80 ≤ c.toNat) then .fail () else pure c

/-- A named class: one letter, or a name in braces. -/
def propertyEscape (f : Flags) (negated : Bool) : Reader Unit Runs := do
  if !f.unicode then .fail () else
  space f
  let set ← (do
    if (← peek) = some '\x7b' then do
      Reader.drop 1
      let name ← gather f (· != '\x7d')
      expect '\x7d'
      required (bracedClass? name)
    else do
      let c ← next
      space f
      required (namedClass? [c]))
  required (f.negate negated (f.fold set))

/-- A character of the name of an edge. -/
def isEdgeChar (c : Char) : Bool :=
  c.isAlpha || c == '-'

/-- The edges that have a name. -/
def namedEdge? (name : List Char) : Option WordEdge :=
  match String.ofList name with
  | "start" => some .start
  | "end" => some .finish
  | "start-half" => some .startHalf
  | "end-half" => some .finishHalf
  | _ => none

/-- The name in braces that may follow the sign of an edge. Braces around anything but letters and
dashes are a count. -/
def edgeName (f : Flags) : Reader Unit WordEdge := do
  if (← peek) != some '\x7b' then pure .any else
  match ← Reader.look with
  | _ :: r =>
    match (skipSpace f r).rest with
    | [] => .fail ()
    | c :: _ =>
      if isEdgeChar c then do
        Reader.drop 1
        let name ← gather f isEdgeChar
        expect '\x7d'
        required (namedEdge? name)
      else pure .any
  | [] => pure .any

/-- The digits, the blanks and the characters of words. -/
def shortClass (f : Flags) (c : Char) : Option Runs :=
  match c with
  | 'd' => some (if f.unicode then decimalDigitRuns else [(0x30, 0x39)])
  | 's' => some (if f.unicode then whiteSpaceRuns else [(9, 13), (32, 32)])
  | 'w' =>
    some (if f.unicode then
        Runs.normal (alphabeticRuns ++ markRuns ++ decimalDigitRuns ++ connectorRuns ++
          [(0x200C, 0x200D)])
      else [(0x30, 0x39), (0x41, 0x5A), (0x5F, 0x5F), (0x61, 0x7A)])
  | _ => none

/-- The characters that a letter after a backslash stands for. -/
def letterEscape? : Char → Option Char
  | 'a' => some '\x07'
  | 'f' => some '\x0c'
  | 'n' => some '\n'
  | 'r' => some '\r'
  | 't' => some '\t'
  | 'v' => some '\x0b'
  | _ => none

/-- The escape after a backslash. -/
def escaped (f : Flags) : Reader Unit Escaped := do
  let c ← next
  match shortClass f c, shortClass f c.toLower with
  | some s, _ => return .set s
  | none, some s => return .set (← required (f.negate true s))
  | none, none =>
    match c with
    | 'p' => return .set (← propertyEscape f false)
    | 'P' => return .set (← propertyEscape f true)
    | 'x' => return .char (← hexEscape f 2)
    | 'u' => return .char (← hexEscape f 4)
    | 'U' => return .char (← hexEscape f 8)
    | 'b' => return .anchor (.edge (!f.unicode) (← edgeName f))
    | 'B' => pure (.anchor (.edge (!f.unicode) .none))
    | '<' => pure (.anchor (.edge (!f.unicode) .start))
    | '>' => pure (.anchor (.edge (!f.unicode) .finish))
    | 'A' => pure (.anchor .textStart)
    | 'z' => pure (.anchor .textEnd)
    | c =>
      match letterEscape? c with
      | some d => pure (.char d)
      | none => if c.toNat < 0x80 ∧ !c.isAlphanum then pure (.char c) else .fail ()

/-! ## Members of classes -/

/-- The named classes of ASCII characters. -/
def asciiClass? : String → Option Runs
  | "alnum" => some [(0x30, 0x39), (0x41, 0x5A), (0x61, 0x7A)]
  | "alpha" => some [(0x41, 0x5A), (0x61, 0x7A)]
  | "ascii" => some [(0, 0x7F)]
  | "blank" => some [(9, 9), (32, 32)]
  | "cntrl" => some [(0, 0x1F), (0x7F, 0x7F)]
  | "digit" => some [(0x30, 0x39)]
  | "graph" => some [(0x21, 0x7E)]
  | "lower" => some [(0x61, 0x7A)]
  | "print" => some [(0x20, 0x7E)]
  | "punct" => some [(0x21, 0x2F), (0x3A, 0x40), (0x5B, 0x60), (0x7B, 0x7E)]
  | "space" => some [(9, 13), (32, 32)]
  | "upper" => some [(0x41, 0x5A)]
  | "word" => some [(0x30, 0x39), (0x41, 0x5A), (0x5F, 0x5F), (0x61, 0x7A)]
  | "xdigit" => some [(0x30, 0x39), (0x41, 0x46), (0x61, 0x66)]
  | _ => none

/-- A member of a class: a character, which may begin a range, or a set. -/
inductive Member where
  | char (c : Char)
  | set (s : Runs)

/-- A member of a class, read after its first character `c`. -/
def member (f : Flags) (c : Char) : Reader Unit Member := do
  if c = '\\' then
    match ← escaped f with
    | .char c => pure (.char c)
    | .set s => pure (.set s)
    | .anchor _ => .fail ()
  else pure (.char c)

/-- The code point of a member that is a character. Without `unicode` it must be ASCII. -/
def Member.code? (f : Flags) : Member → Option Nat
  | .char c => if f.unicode || decide (c.toNat < 0x80) then some c.toNat else none
  | .set _ => none

/-- The set of a member. -/
def Member.runs? (f : Flags) : Member → Option Runs
  | .char c => ((Member.char c).code? f).map fun n => [(n, n)]
  | .set s => some s

/-- The first character of a text that is neither a blank nor the first sign of a comment. -/
def firstMark (comment : Bool) : List Char → Option Char
  | [] => none
  | c :: r =>
    if isBlank c then firstMark comment r
    else if !comment && c == '#' then firstMark true r
    else some c

/-- The character that stands after a dash. -/
def afterDash (f : Flags) (r : List Char) : Option Char :=
  if f.spaced then (firstMark false r).or r.head? else r.head?

/-- The text goes on with a dash that makes a range: no bracket and no dash follows it. -/
def startsRange (f : Flags) : List Char → Bool
  | '-' :: r => afterDash f r != some ']' && afterDash f r != some '-'
  | _ => false

/-- A member or a range of a class, read after its first character `c`. -/
def memberOrRange (f : Flags) (c : Char) : Reader Unit Runs := do
  let first ← member f c
  space f
  if startsRange f (← Reader.look) then do
    Reader.drop 1
    space f
    let last ← member f (← next)
    let a ← required (first.code? f)
    let b ← required (last.code? f)
    if a ≤ b then pure [(a, b)] else .fail ()
  else required (first.runs? f)

/-- A named class such as `[:alpha:]`, read at its opening bracket: its set, whether it is negated,
and the number of its characters. -/
def asciiClassAhead? (s : List Char) : Option (Runs × Bool × Nat) :=
  match s with
  | '[' :: ':' :: r =>
    let (negated, body) :=
      match r with
      | '^' :: r => (true, r)
      | r => (false, r)
    let name := body.takeWhile (· != ':')
    match body.drop name.length with
    | ':' :: ']' :: _ =>
      (asciiClass? (String.ofList name)).map fun set =>
        (set, negated, name.length + 4 + negated.toNat)
    | _ => none
  | _ => none

/-! ## Classes in brackets -/

/-- Operations between the parts of a class. -/
inductive SetOp where
  | inter
  | minus
  | either

/-- The operation that two characters in a row write. -/
def setOp? (c : Char) (after : Option Char) : Option SetOp :=
  if after != some c then none
  else if c = '&' then some .inter
  else if c = '-' then some .minus
  else if c = '~' then some .either
  else none

/-- The value of an operation. -/
def SetOp.apply (a b : Runs) : SetOp → Runs
  | .inter => a.inter b
  | .minus => a.minus b
  | .either => a.either b

/-- A set with the depth of nesting in which it is written. -/
structure DeepSet where
  set : Runs
  depth : Nat

/-- A part of a class: the members so far, their number and the depth of the deepest. -/
structure ClassPart where
  set : Runs := []
  size : Nat := 0
  depth : Nat := 0

namespace ClassPart

/-- The part with one more member. -/
def add (p : ClassPart) (s : Runs) (depth : Nat) : ClassPart :=
  ⟨p.set.union s, p.size + 1, max p.depth depth⟩

/-- The part as one set; several members are one level deeper. -/
def deep (p : ClassPart) : DeepSet :=
  ⟨p.set, if p.size ≤ 1 then p.depth else p.depth + 1⟩

end ClassPart

/-- What stands in front of a part of a class. -/
abbrev ClassLeft := Option (DeepSet × SetOp)

/-- A part of a class joined to what stands in front of it. -/
def joinParts (f : Flags) (left : ClassLeft) (part : ClassPart) : DeepSet :=
  match left with
  | none => part.deep
  | some (a, op) =>
    ⟨op.apply (f.fold a.set) (f.fold part.set), max a.depth part.deep.depth + 1⟩

/-- The caret that negates a class. -/
def classCaret (f : Flags) : Reader Unit Bool := do
  space f
  if (← peek) = some '^' then do
    Reader.drop 1
    space f
    pure true
  else pure false

/-- Dashes in front of a class, or a bracket as its first member. -/
def classStart (f : Flags) : Reader Unit ClassPart := do
  let dashes ← gather f (· == '-')
  if dashes.isEmpty then do
    if (← peek) = some ']' then do
      Reader.drop 1
      space f
      pure (({} : ClassPart).add [(0x5D, 0x5D)] 0)
    else pure {}
  else pure ⟨[(0x2D, 0x2D)], dashes.length, 0⟩

mutual

/-- A class after its opening bracket. -/
def charClass (f : Flags) (s : List Char) : Outcome Unit s DeepSet :=
  (classCaret f s).andThen fun negated r hr =>
    have := hr.length_le
    (classStart f r).andThen fun start r' hr' =>
      have := hr'.length_le
      (classRest f none start r').andThen fun d u _ =>
        match f.negate negated (f.fold d.set) with
        | some set => .done ⟨set, d.depth + 1⟩ u (List.suffix_refl u)
        | none => .fail ()
termination_by (s.length, 1)
decreasing_by
  simp only [Prod.lex_def]
  omega

/-- The rest of a class, with the part that is being read and what stands in front of it. -/
def classRest (f : Flags) (left : ClassLeft) (part : ClassPart) (s : List Char) :
    Outcome Unit s DeepSet :=
  let x := skipSpace f s
  match h : x.rest with
  | [] => .fail ()
  | c :: r =>
    have hs : c :: r <:+ s := x.suffix_of_rest_eq h
    have _hl := length_lt_of_cons_suffix hs
    have hr : r <:+ s := suffix_of_cons_suffix hs
    if c = ']' then .done (joinParts f left part) r hr
    else
      match setOp? c r.head? with
      | some op =>
        have ht : r.tail <:+ s := (List.tail_suffix r).trans hr
        have _htl := (List.tail_suffix r).length_le
        (classRest f (some (joinParts f left part, op)) {} r.tail).widen ht
      | none =>
        if c = '[' then
          match asciiClassAhead? (c :: r) with
          | some (set, negated, n) =>
            match f.negate negated (f.fold set) with
            | some set =>
              have hd : r.drop (n - 1) <:+ s := (List.drop_suffix _ r).trans hr
              have _hdl := (List.drop_suffix (n - 1) r).length_le
              (classRest f left (part.add set 0) (r.drop (n - 1))).widen hd
            | none => .fail ()
          | none =>
            ((charClass f r).andThen fun d r' hr' =>
              have := hr'.length_le
              classRest f left (part.add d.set d.depth) r').widen hr
        else
          ((memberOrRange f c r).andThen fun set r' hr' =>
            have := hr'.length_le
            classRest f left (part.add set 0) r').widen hr
termination_by (s.length, 0)

end

end DataPhrase.Regex
