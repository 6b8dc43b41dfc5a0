/-
# Ambiguous sites

A site is a place of a statement with more than one meaning: a period whose alignment is unclear, a
name of several metrics, or a column of several sources.
-/

namespace DataPhrase

/-- What is unclear at a site. -/
inductive SiteKind where
  | temporal
  | metric
  | dimension
  deriving DecidableEq, Repr, Inhabited

namespace SiteKind

/-- The name of a kind. -/
def name : SiteKind → String
  | .temporal => "temporal"
  | .metric => "metric"
  | .dimension => "dimension"

/-- The rank of a kind among the sites of a statement. -/
def rank : SiteKind → Nat
  | .temporal => 0
  | .metric => 1
  | .dimension => 2

end SiteKind

/-- A place with several meanings: the phrase or name at issue, where it is written, and the
meanings in ascending order. -/
structure Site where
  kind : SiteKind
  subject : String
  offset : Option Nat
  meanings : List String
  deriving DecidableEq, Repr, Inhabited

end DataPhrase
