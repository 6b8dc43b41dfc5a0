/-
# The engine

Reading, checking, settling and generating a statement under one dictionary.
-/
import DataPhrase.Ambiguity.Candidate
import DataPhrase.Code.Generate
import DataPhrase.Statement.Reader
import DataPhrase.Validation.Check

namespace DataPhrase

/-! ## Results -/

/-- Why a text is not turned into code. -/
inductive EngineError where
  | unread (e : SyntaxError)
  | invalid (issues : List Issue)
  | ungenerated (e : GenerationError)

/-- The wording of an error. -/
def EngineError.message : EngineError → String
  | .unread e => e.message
  | .invalid issues =>
    "statement is invalid: " ++
      ", ".intercalate ((issues.filter Issue.isError).map fun i => i.kind.name)
  | .ungenerated e => e.message

/-- Code for a target, with the warnings about its statement. -/
structure Generated where
  code : String
  target : Target
  warnings : List Issue

/-! ## The engine -/

/-- A dictionary with the rules of validation. -/
structure Engine where
  dictionary : Snapshot
  rules : Rules

namespace Engine

/-- The finding of a site. -/
def siteFinding (site : Site) : Finding :=
  .ambiguity site.kind site.subject site.meanings

/-- An issue without a place is placed where its subject stands in the text. -/
def place (text : List Char) (i : Issue) : Issue :=
  match i.position with
  | some _ => i
  | none => { i with position := i.finding.subject?.bind fun s => locate text s.toList }

/-- Check a statement that is written in a text. Ambiguities are warnings. -/
def check (e : Engine) (text : List Char) (s : Statement) : Validation :=
  let v := s.check e.dictionary e.rules
  let sites := (detect text s e.dictionary).map fun site => ⟨siteFinding site, site.offset⟩
  ⟨v.valid, (v.issues ++ sites).map (place text)⟩

/-- Read and check a text. -/
def validate (e : Engine) (text : List Char) : Except SyntaxError Validation :=
  (Statement.parse text).map (e.check text)

/-- The readings of a text. -/
def disambiguate (e : Engine) (text : List Char) : Except SyntaxError (List Candidate) :=
  (Statement.parse text).map fun s => DataPhrase.disambiguate text s e.dictionary

/-- The statement of the first reading of a text. -/
def firstReading (e : Engine) (text : List Char) (s : Statement) : Statement :=
  match DataPhrase.disambiguate text s e.dictionary with
  | c :: _ => c.statement
  | [] => s

/-- The code of a text in a target. Only a valid statement is turned into code, and of an ambiguous
one the first reading. -/
def translate (e : Engine) (text : List Char) (target : Target) : Except EngineError Generated :=
  match Statement.parse text with
  | .error x => .error (.unread x)
  | .ok s =>
    let v := e.check text s
    if !v.valid then .error (.invalid v.issues)
    else
      match (e.firstReading text s).generate target e.dictionary with
      | .error x => .error (.ungenerated x)
      | .ok code => .ok ⟨code, target, v.warnings⟩

/-- The engine with one more entry in its dictionary. -/
def register (e : Engine) (sectionName name : String) (definition : Definition)
    (overwrite : Bool) : Except DictionaryError Engine :=
  (e.dictionary.register sectionName name definition overwrite).map fun d =>
    { e with dictionary := d }

end Engine

end DataPhrase
