/-
# Dictionary entries

A definition is a function, a metric or a column of the source that its section names. Functions
and metrics have at least one template, metrics take no arguments, columns have no templates.
-/
import DataPhrase.Dictionary.Template
import DataPhrase.Target

namespace DataPhrase

/-! ## Definitions -/

/-- What an entry names. -/
inductive Category where
  | function
  | metric
  | column
  deriving DecidableEq, Repr, Inhabited

/-- The name of a category. -/
def Category.name : Category → String
  | .function => "function"
  | .metric => "metric"
  | .column => "column"

/-- At most one template for each target. -/
abbrev Templates := PerTarget Template

/-- What an entry stands for. -/
structure Definition where
  category : Category
  templates : Templates := {}
  description : Option String := none
  deriving DecidableEq, Repr, Inhabited

/-- A definition under a section and a name. -/
structure Entry where
  sectionName : String
  name : String
  definition : Definition
  deriving DecidableEq, Repr, Inhabited

namespace Entry

/-- Section and name, joined by a point. -/
def id (e : Entry) : String :=
  e.sectionName ++ "." ++ e.name

/-- The template for a target. -/
def template (e : Entry) (t : Target) : Option Template :=
  e.definition.templates.get t

end Entry

/-! ## Faults -/

/-- Why a definition is not accepted. -/
inductive EntryFault where
  | notIdentifier
  | columnTemplates
  | noTemplate
  | metricPlaceholders
  deriving DecidableEq, Repr

/-- The wording of a fault. -/
def EntryFault.reason : EntryFault → String
  | .notIdentifier => "section and name must be identifiers"
  | .columnTemplates => "columns carry no templates"
  | .noTemplate => "at least one target template is required"
  | .metricPlaceholders => "metric templates take no placeholders"

/-- A registration that fails. -/
inductive DictionaryError where
  | duplicateName (sectionName name : String)
  | invalidEntry (sectionName name : String) (fault : EntryFault)
  deriving DecidableEq, Repr

/-- The wording of a failed registration. -/
def DictionaryError.message : DictionaryError → String
  | .duplicateName s n => "dictionary entry " ++ s ++ "." ++ n ++ " already exists"
  | .invalidEntry s n f => "dictionary entry " ++ s ++ "." ++ n ++ " is invalid: " ++ f.reason

/-- The text is an identifier. -/
def isIdentifier (s : String) : Bool :=
  s.toList.head?.any Text.isNameStart && s.toList.all Text.isNameChar

/-- The characters of an identifier. -/
theorem isIdentifier_iff {n : String} : isIdentifier n = true ↔ ∃ c cs, n.toList = c :: cs ∧
    Text.isNameStart c = true ∧ ∀ d ∈ c :: cs, Text.isNameChar d = true := by
  rw [isIdentifier, Bool.and_eq_true, List.all_eq_true]
  cases n.toList with
  | nil => simp
  | cons c cs =>
    constructor
    · rintro ⟨hc, hcs⟩
      exact ⟨c, cs, rfl, hc, hcs⟩
    · rintro ⟨d, ds, hd, hc, hcs⟩
      cases hd
      exact ⟨hc, hcs⟩

/-- The fault of a definition under a section and a name, if it has one. -/
def Definition.fault? (d : Definition) (sectionName name : String) : Option EntryFault :=
  if !isIdentifier sectionName || !isIdentifier name then some .notIdentifier
  else
    match d.category with
    | .column => if d.templates.toList.isEmpty then none else some .columnTemplates
    | .function => if d.templates.toList.isEmpty then some .noTemplate else none
    | .metric =>
      if d.templates.toList.isEmpty then some .noTemplate
      else if d.templates.toList.any fun x => 0 < x.2.arity then some .metricPlaceholders
      else none

end DataPhrase
