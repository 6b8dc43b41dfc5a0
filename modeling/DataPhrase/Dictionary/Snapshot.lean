/-
# Dictionary snapshots

A snapshot holds the entries that are registered, sorted by section and name, with the number of
registrations it has seen. A registration makes a new snapshot and leaves the old one alone.
-/
import DataPhrase.Dictionary.Entry

namespace DataPhrase

/-! ## Order -/

/-- The order of entries: by section, then by name. -/
def Entry.before (s n : String) (e : Entry) : Bool :=
  decide (s < e.sectionName) || (s == e.sectionName && decide (n < e.name))

/-- The entry is registered under the section `s` and the name `n`. -/
def Entry.isAt (s n : String) (e : Entry) : Bool :=
  e.sectionName == s && e.name == n

/-- A sorted list of entries with one more entry, in the place of an entry of its section and
name. -/
def insertEntry (x : Entry) : List Entry → List Entry
  | [] => [x]
  | e :: r =>
    if e.isAt x.sectionName x.name then x :: r
    else if e.before x.sectionName x.name then x :: e :: r
    else e :: insertEntry x r

/-! ## Snapshots -/

/-- The dictionary at one moment. -/
structure Snapshot where
  version : Nat
  entries : List Entry
  deriving Repr, Inhabited

namespace Snapshot

/-- The empty dictionary. -/
def empty : Snapshot := ⟨0, []⟩

/-- The entry under a section and a name. -/
def lookup (d : Snapshot) (s n : String) : Option Entry :=
  d.entries.find? (Entry.isAt s n)

/-- The version behind one more registration. It is a number of 64 bits. -/
def nextVersion (d : Snapshot) : Nat :=
  (UInt64.ofNat d.version + 1).toNat

/-- Register a definition. Without `overwrite` a name that is taken stays as it is. -/
def register (d : Snapshot) (s n : String) (definition : Definition) (overwrite : Bool) :
    Except DictionaryError Snapshot :=
  if !overwrite && (d.lookup s n).isSome then .error (.duplicateName s n)
  else
    match definition.fault? s n with
    | some f => .error (.invalidEntry s n f)
    | none => .ok ⟨d.nextVersion, insertEntry ⟨s, n, definition⟩ d.entries⟩

/-! ## Looking up -/

/-- The entries of a category whose name is `name` in any case. -/
def named (d : Snapshot) (category : Category) (name : String) : List Entry :=
  d.entries.filter fun e =>
    e.definition.category == category && Text.sameWord e.name.toList name.toList

/-- The functions of a name. -/
def functions (d : Snapshot) (name : String) : List Entry :=
  d.named .function name

/-- The metrics of a name. -/
def metrics (d : Snapshot) (name : String) : List Entry :=
  d.named .metric name

/-- The columns of a source. -/
def columns (d : Snapshot) (source : String) : List String :=
  (d.entries.filter fun e => e.definition.category == .column && e.sectionName == source).map
    Entry.name

/-- A column of the source is registered. -/
def knowsSource (d : Snapshot) (source : String) : Bool :=
  !(d.columns source).isEmpty

/-- The column is registered for the source. -/
def hasColumn (d : Snapshot) (source column : String) : Bool :=
  (d.lookup source column).any fun e => e.definition.category == .column

end Snapshot

end DataPhrase
