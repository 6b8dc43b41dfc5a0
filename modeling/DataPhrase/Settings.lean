/-
# Settings

What a configuration file says: rules of validation, the commands that run code, and entries for
the dictionary. Every section may be missing; a section or a field that is given twice, or an
unknown section, makes the file unreadable.
-/
import DataPhrase.Dictionary.Builtin
import DataPhrase.Dictionary.Json
import DataPhrase.Text.Word
import DataPhrase.Validation.Rules

namespace DataPhrase

/-! ## Runtimes -/

/-- The command that runs code: one line, or a program with its arguments. -/
inductive Runtime where
  | line (s : String)
  | argv (args : List String)
  deriving DecidableEq, Repr

/-- The program and its arguments. -/
def Runtime.args : Runtime → List String
  | .line s => (Text.words s.toList).map String.ofList
  | .argv args => args

/-! ## Settings -/

/-- The content of a configuration file. -/
structure Settings where
  rules : Rules := {}
  runtimes : PerTarget Runtime := {}
  entries : List Entry := []

/-- An entry that the dictionary does not accept. -/
structure EntryError where
  entry : Entry
  cause : DictionaryError

/-- The wording of a refused entry. -/
def EntryError.message (e : EntryError) : String :=
  "registering " ++ e.entry.id ++ " from config: " ++ e.cause.message

namespace Settings

/-- Register entries in order, later ones in the place of earlier ones. -/
def registerAll (d : Snapshot) : List Entry → Except EntryError Snapshot
  | [] => .ok d
  | e :: r =>
    match d.register e.sectionName e.name e.definition true with
    | .ok d => registerAll d r
    | .error x => .error ⟨e, x⟩

/-- The built-in dictionary with the entries of the file. -/
def dictionary (s : Settings) : Except EntryError Snapshot :=
  registerAll .withBuiltins s.entries

/-- The program for a target with its arguments, or what to say where there is none. -/
def runtime (s : Settings) (t : Target) : Except String (String × List String) :=
  match ((s.runtimes.get t).map Runtime.args).getD [] with
  | [] =>
    .error ("no runtime configured for " ++ t.name ++
      "; add one under `runtimes` in the config file")
  | program :: args => .ok (program, args)

end Settings

/-! ## Writing -/

/-- Rules as data. -/
def Rules.toJson (r : Rules) : Json :=
  .object [("max_clauses", .nat r.maxClauses), ("alias_style", .text r.aliasStyle.pattern)]

/-- A command as data. -/
def Runtime.toJson : Runtime → Json
  | .line s => .text s
  | .argv args => Json.texts args

/-- Settings as data. -/
def Settings.toJson (s : Settings) : Json :=
  .object [("validation", s.rules.toJson), ("runtimes", s.runtimes.toJson Runtime.toJson),
    ("dictionary", Json.ofList Entry.toJson s.entries)]

/-! ## Reading -/

/-- A record given as an object, or as the array of its first fields in order. No name of a field
may be given twice. -/
def Json.record? (names : List String) : Json → Option (List (String × Json))
  | .object fs =>
    if names.any fun n => 2 ≤ (fs.filter fun f => f.1 == n).length then none else some fs
  | .array xs => if xs.length ≤ names.length then some (names.zip xs) else none
  | _ => none

/-- A field of a record that has a default. -/
def Json.orDefault? {α : Type} (fields : List (String × Json)) (name : String) (default : α)
    (read : Json → Option α) : Option α :=
  match Json.lookup name fields with
  | some v => read v
  | none => some default

/-- Rules of validation. Unknown fields do not matter. -/
def Rules.ofJson? (v : Json) : Option Rules := do
  let fs ← v.record? ["max_clauses", "alias_style"]
  let maxClauses ← Json.orDefault? fs "max_clauses" 8 (Json.natUpTo? Json.maxFullWord)
  let aliasStyle ← Json.orDefault? fs "alias_style" .snakeCase fun v => do
    AliasStyle.ofPattern? (← v.text?)
  some ⟨maxClauses, aliasStyle⟩

/-- A command. -/
def Runtime.ofJson? : Json → Option Runtime
  | .text s => some (.line s)
  | v => v.texts?.map .argv

/-- An entry, none of whose fields is given twice. -/
def Entry.ofRecord? : Json → Option Entry
  | .object fs => do
    let fs ← Json.record? ["section", "name", "category", "templates", "description"] (.object fs)
    Entry.ofJson? (.object fs)
  | _ => none

/-- Settings. -/
def Settings.ofJson? (v : Json) : Option Settings := do
  let names := ["validation", "runtimes", "dictionary"]
  let fs ← v.record? names
  if fs.any fun f => !names.contains f.1 then none
  let rules ← Json.orDefault? fs "validation" {} Rules.ofJson?
  let runtimes ← Json.orDefault? fs "runtimes" {} (PerTarget.ofJson? Runtime.ofJson?)
  let entries ← Json.orDefault? fs "dictionary" [] fun v => do
    (← v.array?).mapM Entry.ofRecord?
  some ⟨rules, runtimes, entries⟩

end DataPhrase
