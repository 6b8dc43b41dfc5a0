/-
# Reports

What is found about a statement, and the dictionary, as text and as data.
-/
import DataPhrase.Dictionary.Json
import DataPhrase.Engine
import DataPhrase.Json.Printer
import DataPhrase.Statement.Json

namespace DataPhrase

/-! ## As text -/

/-- A text with a line break after it. -/
def asLine (s : String) : String :=
  s ++ "\n"

/-- An issue on one line. -/
def Issue.report (i : Issue) : String :=
  i.kind.severity.name ++ "[" ++ i.kind.name ++ "] " ++ i.finding.message ++
    (match i.position with
      | some n => " (at " ++ toString n ++ ")"
      | none => "")

/-- Issues one a line. -/
def reportIssues (issues : List Issue) : String :=
  String.join (issues.map fun i => asLine i.report)

/-- The issues of a validation and a line that counts them. -/
def Validation.report (v : Validation) : String :=
  reportIssues v.issues ++ (if v.valid then "valid" else "invalid") ++ " (" ++
    toString v.errors.length ++ " error(s), " ++ toString v.warnings.length ++ " warning(s))"

/-- A choice on one line. -/
def Resolution.report (r : Resolution) : String :=
  "  " ++ r.kind.name ++ " \x60" ++ r.subject ++ "\x60 as " ++ r.meaning

/-- A reading with its number and its choices. -/
def Candidate.report (c : Candidate) (number : Nat) : String :=
  "candidate " ++ toString number ++ (if c.resolutions.isEmpty then ": no ambiguity" else "") ++
    "\n" ++ String.join (c.resolutions.map fun r => asLine r.report)

/-- A text without the blanks at its end. -/
def withoutEnd (s : String) : String :=
  String.ofList (Text.trimEnd s.toList)

/-- Readings, numbered from one. -/
def reportCandidates (cs : List Candidate) : String :=
  withoutEnd (String.join (cs.zipIdx.map fun c => c.1.report (c.2 + 1)))

/-- A text followed by blanks up to a width of `n` characters. -/
def padded (n : Nat) (s : String) : String :=
  s ++ String.ofList (List.replicate (n - s.length) ' ')

/-- An entry on one line. -/
def Entry.report (e : Entry) : String :=
  "  " ++ padded 24 e.id ++ " " ++ e.definition.category.name ++
    (match e.definition.description with
      | some s => " " ++ s
      | none => "")

/-- A dictionary, one entry a line. -/
def Snapshot.report (d : Snapshot) : String :=
  withoutEnd (asLine ("dictionary version " ++ toString d.version) ++
    String.join (d.entries.map fun e => asLine e.report))

/-! ## As data -/

/-- A choice as data. -/
def Resolution.toJson (r : Resolution) : Json :=
  .object [("kind", .text r.kind.name), ("subject", .text r.subject),
    ("chosen_meaning", .text r.meaning)]

/-- A reading as data. -/
def Candidate.toJson (num : Number → Json) (c : Candidate) : Json :=
  .object [("resolved_ambiguities", Json.ofList Resolution.toJson c.resolutions),
    ("ast", c.statement.toJson num)]

/-- Code as data. -/
def Generated.toJson (g : Generated) : Json :=
  .object [("code", .text g.code), ("target", .text g.target.name),
    ("warnings", Json.ofList Issue.toJson g.warnings)]

/-- A syntax error as data. -/
def SyntaxError.toJson (e : SyntaxError) : Json :=
  .object [("code", .text e.cause.code), ("expected", Json.ofOption .text e.cause.expected?),
    ("offset", .nat e.offset)]

/-- A rejected statement as data: what is wrong with it, under the name of the kind of fault. -/
def EngineError.toJson : EngineError → Json
  | .unread e => .object [("syntax_error", e.toJson), ("valid", .bool false)]
  | .invalid issues =>
    .object [("issues", Json.ofList (fun i => i.toJson.sorted) issues), ("valid", .bool false)]
  | e => .object [("error", .text e.message), ("valid", .bool false)]

/-- A validation as data, with the reason why a target cannot express a valid statement. -/
def Validation.toJsonWith (v : Validation) (fault : Option GenerationError) : Json :=
  .object [("issues", Json.ofList (fun i => i.toJson.sorted) v.issues),
    ("translation_error", Json.ofOption (fun e => .text e.message) fault),
    ("valid", .bool v.valid)]

end DataPhrase
