/-
# Dictionary entries as data

Entries are written and read as objects; templates are keyed by the names of their targets.
-/
import DataPhrase.Dictionary.Snapshot
import DataPhrase.Json.Basic

namespace DataPhrase

/-! ## Writing -/

/-- A table by targets as data. -/
def PerTarget.toJson {α : Type} (write : α → Json) (ts : PerTarget α) : Json :=
  .object (ts.toList.map fun t => (t.1.name, write t.2))

/-- Templates as data. -/
def Templates.toJson (ts : Templates) : Json :=
  PerTarget.toJson (fun t => .text t.text) ts

/-- The fields of a definition. -/
def Definition.jsonFields (d : Definition) : List (String × Json) :=
  [("category", .text d.category.name), ("templates", Templates.toJson d.templates)] ++
    (d.description.map fun s => ("description", Json.text s)).toList

/-- An entry as data. -/
def Entry.toJson (e : Entry) : Json :=
  .object ([("section", .text e.sectionName), ("name", .text e.name)] ++ e.definition.jsonFields)

/-- A snapshot as data. -/
def Snapshot.toJson (d : Snapshot) : Json :=
  .object [("version", .nat d.version), ("entries", Json.ofList Entry.toJson d.entries)]

/-! ## Reading -/

/-- The category of a name. -/
def Category.ofName? (s : String) : Option Category :=
  [Category.function, .metric, .column].find? fun c => c.name == s

/-- Read a category: its name, or an object whose one field is the name with null. -/
def Category.ofJson? : Json → Option Category
  | .text s | .object [(s, .null)] => Category.ofName? s
  | _ => none

/-- Read the category of an entry, where an empty object is as good as null. -/
def Category.ofEntry? : Json → Option Category
  | .object [(s, .object [])] => Category.ofName? s
  | v => Category.ofJson? v

/-- The target of an exact name. -/
def Target.ofExactName? (s : String) : Option Target :=
  all.find? fun t => t.name == s

/-- A table keyed by the names of targets, the last of equal names counting. -/
def PerTarget.ofJson? {α : Type} (read : Json → Option α) (v : Json) : Option (PerTarget α) := do
  (← v.object?).foldlM (fun ts f => do
    let t ← Target.ofExactName? f.1
    let a ← read f.2
    some (ts.set a t)) {}

/-- Templates keyed by the names of their targets. -/
def Templates.ofJson? : Json → Option Templates :=
  PerTarget.ofJson? fun v => v.text?.map Template.mk

/-- The fields of a definition. Templates and description may be missing. -/
def Definition.ofFields? (category : Json → Option Category) (v : Json) : Option Definition := do
  let category ← category (← v.field? "category")
  let templates ← match v.field? "templates" with
    | none => some {}
    | some t => Templates.ofJson? t
  let description ← match v.field? "description" with
    | none | some .null => some none
    | some t => t.text?.map some
  some ⟨category, templates, description⟩

/-- Read a definition. -/
def Definition.ofJson? (v : Json) : Option Definition :=
  Definition.ofFields? Category.ofJson? (v.withFields ["category", "templates", "description"] 1)

/-- Read an entry. -/
def Entry.ofJson? (v : Json) : Option Entry := do
  let s ← (← v.field? "section").text?
  let n ← (← v.field? "name").text?
  let d ← Definition.ofFields? Category.ofEntry? v
  some ⟨s, n, d⟩

end DataPhrase
