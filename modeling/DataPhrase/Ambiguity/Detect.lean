/-
# Detecting ambiguous sites

The sites of a statement, ordered by kind and then by subject: its calendar period, names of
metrics with different definitions, and columns that several of its sources have. The calendar
phrase of a period stands where the text outside its literals speaks of the last or the previous
days, weeks, months, quarters or years. The program finds it with a regular expression of a library,
which `CalendarPhrase.scan` spells out under the assumption that the library matches as it documents:
matches are leftmost, do not overlap, take the first alternative that leads to a match, and blanks,
digits and edges of words are those of Unicode.
-/
import DataPhrase.Ambiguity.Site
import DataPhrase.Dictionary.Snapshot
import DataPhrase.NameSet
import DataPhrase.Statement.Phrase
import DataPhrase.Text.Word
import DataPhrase.Token.Mask

namespace DataPhrase.CalendarPhrase

open Text

/-! ## Calendar phrases -/

/-- The text after the first of the words that it starts with. -/
def afterAny (words : List String) (s : List Char) : Option (List Char) :=
  words.findSome? fun w => afterFolded w.toList s

/-- The text after one or more blanks. -/
def afterBlanks (s : List Char) : Option (List Char) :=
  if s.head?.any isBlank then some (s.dropWhile isBlank) else none

/-- The text after a number and the blanks that follow it, or the text itself. -/
def afterNumber (s : List Char) : List Char :=
  if s.head?.any isAnyDigit then (afterBlanks (s.dropWhile isAnyDigit)).getD s else s

/-- The text after an `s` that may follow a unit. -/
def afterPlural (s : List Char) : List Char :=
  (afterFolded ['s'] s).getD s

/-- The text after a phrase in front, where `before` is the character before it. -/
def after? (before : Option Char) (s : List Char) : Option (List Char) := do
  if !isBoundary before s.head? then none
  let r ← afterAny ["last", "previous"] s
  let r ← afterBlanks r
  let r ← afterAny (TimeUnit.all.map TimeUnit.name) (afterNumber r)
  let r := afterPlural r
  if inWord r.head? then none else some r

/-- The phrases of a text that begins at `offset` after the character `before`, each with its
offset. Phrases do not overlap, so `skip` characters that belong to one are passed over. -/
def scan (before : Option Char) (offset : Nat) : Nat → List Char → List (Nat × List Char)
  | _, [] => []
  | skip + 1, c :: r => scan (some c) (offset + c.utf8Size) skip r
  | 0, c :: r =>
    match after? before (c :: r) with
    | some t =>
      let n := (c :: r).length - t.length
      (offset, (c :: r).take n) :: scan (some c) (offset + c.utf8Size) (n - 1) r
    | none => scan (some c) (offset + c.utf8Size) 0 r

/-- The offset of the first phrase outside literals that reads as `phrase`. -/
def find? (text : List Char) (phrase : String) : Option Nat :=
  ((scan none 0 0 (mask text)).find? fun m =>
    String.ofList (normalizePhrase m.2) == phrase).map Prod.fst

end DataPhrase.CalendarPhrase

namespace DataPhrase

/-! ## Names -/

/-- The names that a list of fields mentions without a source. -/
def plainNames (fs : List FieldRef) : List String :=
  fs.filterMap fun f => if f.1.isNone then some f.2 else none

namespace Operation

/-- The names that an operation other than a join mentions without a source. -/
def plainNames : Operation → List String
  | .aggregate _ e _ => DataPhrase.plainNames e.fields
  | .calculate e _ => DataPhrase.plainNames e.fields
  | .window _ e partitionBy orderBy _ =>
    (e.map fun e => DataPhrase.plainNames e.fields).getD [] ++ partitionBy ++
      orderBy.map OrderItem.field
  | .select fields => fields
  | .join _ _ => []

end Operation

/-- The list without repetitions, the first of equal names kept. -/
def firstUses (names : List String) : List String :=
  names.foldl (fun kept n => if kept.contains n then kept else kept ++ [n]) []

namespace Statement

/-- The names without a source that are no aliases, in the order of first use. -/
def plainNames (s : Statement) : List String :=
  firstUses ((s.operations.flatMap Operation.plainNames ++
    (s.filter.map fun c => DataPhrase.plainNames c.fields).getD [] ++ s.group.getD [] ++
    s.order.map OrderItem.field).filter fun n =>
      !n.toList.contains '.' && !s.aliases.contains n)

end Statement

/-! ## Sites -/

namespace Site

/-- The site of a calendar period that is written in the text. -/
def ofPeriod? (text : List Char) (p : Period) : Option Site :=
  if p.alignment = .calendar then
    (CalendarPhrase.find? text p.phrase).map fun offset =>
      ⟨.temporal, p.phrase, some offset, [Alignment.calendar.name, Alignment.rolling.name]⟩
  else none

/-- The metrics of a name differ in their definitions. -/
def differ : List Entry → Bool
  | [] => false
  | e :: r => r.any fun f => f.definition.templates ≠ e.definition.templates

/-- The columns of a name in the sources of a statement, each with its source. -/
def owners (s : Statement) (d : Snapshot) (name : String) : List String :=
  (s.sources.filter fun source => d.hasColumn source name).map fun source =>
    source ++ "." ++ name

/-- The site of a name that stands without a source. -/
def ofName? (text : List Char) (s : Statement) (d : Snapshot) (name : String) : Option Site :=
  if differ (d.metrics name) then
    some ⟨.metric, name, locate text name.toList, ((d.metrics name).map Entry.id).mergeSort⟩
  else if 2 ≤ (owners s d name).length then
    some ⟨.dimension, name, locate text name.toList, NameSet.ofList (owners s d name)⟩
  else none

/-- The order of sites: by kind, then by subject. -/
def before (a b : Site) : Bool :=
  decide (a.kind.rank < b.kind.rank) ||
    (a.kind == b.kind && decide (a.subject ≤ b.subject))

end Site

/-- The ambiguous sites of a statement that is written in a text. -/
def detect (text : List Char) (s : Statement) (d : Snapshot) : List Site :=
  ((s.period.bind (Site.ofPeriod? text)).toList ++
    s.plainNames.filterMap (Site.ofName? text s d)).mergeSort Site.before

end DataPhrase
