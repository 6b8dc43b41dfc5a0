/-
# Named classes of characters

The classes of characters that an expression may name: properties, categories, scripts, ages and
kinds of breaks. Case, blanks, dashes, underscores and a leading `is` of a name do not matter.
-/
import DataPhrase.Text.Age
import DataPhrase.Text.Break
import DataPhrase.Text.Script

namespace DataPhrase.Regex

open Text

/-! ## Names -/

/-- A name as it is compared. A leading `is` counts only in front of all else, and `isc` is left as
it is. -/
def propertyKey (name : List Char) : List Char :=
  let key (s : List Char) :=
    lower (s.filter fun c => decide (c.toNat < 0x80) && !(c == ' ' || c == '_' || c == '-'))
  match name with
  | a :: b :: r =>
    if lower [a, b] = ['i', 's'] then
      if key r = ['c'] then ['i', 's', 'c'] else key r
    else key name
  | _ => key name

/-- One of the names is the one that a key stands for. -/
def isNamed (key : List Char) (names : List String) : Bool :=
  names.any fun n => propertyKey n.toList == key

/-! ## Classes -/

/-- A yes-or-no property. -/
def property? (key : List Char) : Option Runs :=
  (properties.find? fun p => isNamed key p.names).map fun p => p.members.runs

/-- A general category, a group of them, or one of three further names. Surrogates are no
characters, so their category has no class. -/
def category? (key : List Char) : Option Runs :=
  if key = "any".toList then some Runs.full
  else if key = "assigned".toList then some (category "Cn").compl
  else if key = "ascii".toList then some [(0, 0x7F)]
  else if isNamed key ["Cn", "Unassigned"] then some (category "Cn")
  else
    match categories.find? fun c => c.name != "Cs" && isNamed key (c.name :: c.others) with
    | some c => some (category c.name)
    | none =>
      (categoryGroups.find? fun g => isNamed key (g.name :: g.others)).map fun g =>
        Runs.normal (g.parts.flatMap category)

/-- A script. -/
def script? (key : List Char) : Option Script :=
  scripts.find? fun s => isNamed key (s.name :: s.others)

/-- The class of a single name. Three names of categories come before the properties of the same
name. -/
def namedClass? (name : List Char) : Option Runs :=
  let key := propertyKey name
  let early := if isNamed key ["Cf", "Sc", "Lc"] then none else property? key
  match early with
  | some rs => some rs
  | none =>
    match category? key with
    | some rs => some rs
    | none => (script? key).map Script.runs

/-- The age of a name such as `6.0` or `V6_0`. -/
def age? (key : List Char) : Option Runs :=
  match ages.find? fun a =>
    a.version.toList == key ||
      'v' :: (a.version.toList.filter fun c => c != '.') == key with
  | some a => agedRuns a.version ages
  | none => none

/-- The kind of a name. -/
def break? (kinds : List BreakKind) (key : List Char) : Option Runs :=
  (kinds.find? fun k => isNamed key k.names).map fun k => k.members.runs

/-- The class of code points that have a value of a property. -/
def valueClass? (name value : List Char) : Option Runs :=
  let key := propertyKey name
  let value := propertyKey value
  if isNamed key ["General_Category", "gc"] then category? value
  else if isNamed key ["Script", "sc"] then (script? value).map Script.runs
  else if isNamed key ["Script_Extensions", "scx"] then (script? value).map Script.usedRuns
  else if isNamed key ["Age"] then age? value
  else if isNamed key ["Grapheme_Cluster_Break", "GCB"] then break? graphemeBreaks value
  else if isNamed key ["Word_Break", "WB"] then break? wordBreaks value
  else if isNamed key ["Sentence_Break", "SB"] then break? sentenceBreaks value
  else none

/-- What stands before and after the first place of a mark. -/
def cutAt (mark : List Char) : List Char → Option (List Char × List Char)
  | [] => none
  | c :: r =>
    if mark.isPrefixOf (c :: r) then some ([], (c :: r).drop mark.length)
    else (cutAt mark r).map fun p => (c :: p.1, p.2)

/-- The class that stands in braces: a name, or a property and a value with a mark between. Only
`\P` denies: with the mark `!=` the class is the same as with `=`. -/
def bracedClass? (text : List Char) : Option Runs :=
  match (cutAt ['!', '='] text).or ((cutAt [':'] text).or (cutAt ['='] text)) with
  | some (name, value) => valueClass? name value
  | none => namedClass? text

end DataPhrase.Regex
