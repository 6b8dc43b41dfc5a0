/-
# Rules of validation

The limits that a user may set.
-/
import DataPhrase.Regex.Reader

namespace DataPhrase

/-- A regular expression that aliases are to match, as written and as read. -/
structure AliasStyle where
  pattern : String
  regex : Regex

namespace AliasStyle

/-- The style of a pattern, if the pattern can be read. -/
def ofPattern? (pattern : String) : Option AliasStyle :=
  (Regex.read? pattern).map fun r => ⟨pattern, r⟩

/-- Some part of the alias matches. -/
def accepts (st : AliasStyle) (aliasName : String) : Bool :=
  st.regex.isMatch aliasName

/-- Small letters, digits and underscores, a letter first. -/
def snakeCase : AliasStyle where
  pattern := "^[a-z][a-z0-9_]*$"
  regex :=
    .seq (.anchor .textStart) (.seq (.one [(0x61, 0x7A)])
      (.seq (.rep (.one [(0x30, 0x39), (0x5F, 0x5F), (0x61, 0x7A)]) 0 none)
        (.anchor .textEnd)))

end AliasStyle

/-- The number of clauses from which on a statement is called too long, and the style of aliases. -/
structure Rules where
  maxClauses : Nat := 8
  aliasStyle : AliasStyle := .snakeCase

end DataPhrase
