/-
# Readings

A reading of a statement settles each of its ambiguous sites on one meaning. Readings are listed in
the order of their choices, the last site changing fastest, and at most eight are given.
-/
import DataPhrase.Ambiguity.Detect

namespace DataPhrase

/-! ## Changing statements -/

namespace Operation

/-- The operation with `f` applied to its expressions. -/
def mapExprs (f : Expr → Expr) : Operation → Operation
  | .aggregate fn e a => .aggregate fn (f e) a
  | .calculate e a => .calculate (f e) a
  | .window fn e p o a => .window fn (e.map f) p o a
  | .select fields => .select fields
  | .join s c => .join s (c.mapExprs f)

/-- The operation with `g` applied to the names it holds as text. -/
def mapWritten (g : String → String) : Operation → Operation
  | .window fn e p o a => .window fn e (p.map g) (o.map fun k => { k with field := g k.field }) a
  | .select fields => .select (fields.map g)
  | op => op

end Operation

namespace Statement

/-- The statement with `f` applied to its expressions. -/
def mapExprs (f : Expr → Expr) (s : Statement) : Statement :=
  { s with
    operations := s.operations.map (Operation.mapExprs f)
    filter := s.filter.map (Condition.mapExprs f) }

/-- The statement with `g` applied to the names it holds as text: group keys, sort keys, selected
names and the keys of windows. -/
def mapWritten (g : String → String) (s : Statement) : Statement :=
  { s with
    operations := s.operations.map (Operation.mapWritten g)
    group := s.group.map (List.map g)
    order := s.order.map fun k => { k with field := g k.field } }

end Statement

/-! ## Meanings -/

/-- Cut a meaning at its first point. -/
def cutMeaning (m : String) : Option (String × String) :=
  match m.toList.dropWhile (· != '.') with
  | [] => none
  | _ :: rest => some (String.ofList (m.toList.takeWhile (· != '.')), String.ofList rest)

/-- Replace the fields called `name` that have no source. -/
def replacing (name : String) (e : Expr) : FieldRef → Option Expr
  | (none, n) => if n = name then some e else none
  | (some _, _) => none

/-- The statement with a site settled on a meaning. -/
def Site.choose (site : Site) (meaning : String) (s : Statement) : Statement :=
  match site.kind with
  | .temporal =>
    { s with
      period := s.period.map fun p =>
        { p with alignment := if meaning = Alignment.rolling.name then .rolling else .calendar } }
  | .metric =>
    match cutMeaning meaning with
    | none => s
    | some (sectionName, name) =>
      s.mapExprs (Expr.mapFields (replacing site.subject (.metric sectionName name)))
  | .dimension =>
    match cutMeaning meaning with
    | none => s
    | some (source, _) =>
      let s := s.mapExprs
        (Expr.mapFields (replacing site.subject (.field (some source) site.subject)))
      s.mapWritten fun n => if n = site.subject then meaning else n

/-! ## Readings -/

/-- A meaning chosen for a site. -/
structure Resolution where
  kind : SiteKind
  subject : String
  meaning : String
  deriving DecidableEq, Repr, Inhabited

/-- A reading: the choices, and the statement under them. -/
structure Candidate where
  resolutions : List Resolution
  statement : Statement

/-- The largest number of readings that are given. -/
def maxCandidates : Nat := 8

namespace Counter

/-- The next state of a counter whose digits have the given bases: the last digit that can move goes
on by one and those behind it start again. After the last state there is none. -/
def next? : List Nat → List Nat → Option (List Nat)
  | b :: bs, d :: ds =>
    match next? bs ds with
    | some ds => some (d :: ds)
    | none => if d + 1 < b then some ((d + 1) :: ds.map fun _ => 0) else none
  | _, _ => none

/-- The states from `ds` on, `n` at most. -/
def run (bs : List Nat) : Nat → List Nat → List (List Nat)
  | 0, _ => []
  | n + 1, ds => ds :: (match next? bs ds with
    | some ds => run bs n ds
    | none => [])

end Counter

/-- The members of the lists at the given positions. -/
def picks {α : Type} : List (List α) → List Nat → Option (List α)
  | l :: ls, d :: ds => l[d]?.bind fun a => (picks ls ds).map (a :: ·)
  | [], [] => some []
  | _, _ => none

/-- The number of members of each list. -/
def counts {α : Type} (ls : List (List α)) : List Nat :=
  ls.map List.length

/-- The first `n` choices of one meaning for each site. A counter passes the positions of the
meanings, from the first ones on and the last site fastest. -/
def choices (n : Nat) (sites : List Site) : List (List String) :=
  let meanings := sites.map Site.meanings
  (Counter.run (counts meanings) n ((counts meanings).map fun _ => 0)).filterMap (picks meanings)

/-- The reading that a choice makes. -/
def Candidate.ofChoice (s : Statement) (sites : List Site) (choice : List String) : Candidate where
  resolutions := (sites.zip choice).map fun c => ⟨c.1.kind, c.1.subject, c.2⟩
  statement := (sites.zip choice).foldl (fun s c => c.1.choose c.2 s) s

/-- The readings of a statement that is written in a text, the first choices first. -/
def disambiguate (text : List Char) (s : Statement) (d : Snapshot) : List Candidate :=
  let sites := detect text s d
  (choices maxCandidates sites).map (Candidate.ofChoice s sites)

end DataPhrase
