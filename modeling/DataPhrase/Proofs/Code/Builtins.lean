/-
# Queries under the built-in functions

Whatever the text, the engine of the built-in functions either answers with a relational query, or
the text cannot be read, its statement is invalid, or a call lacks an argument.
-/
import DataPhrase.Dictionary.Builtin
import DataPhrase.Proofs.Ambiguity.Readings
import DataPhrase.Proofs.Code.Supported
import DataPhrase.Proofs.Statement.Equality

namespace DataPhrase

variable {text : List Char} {s : Statement} {d : Snapshot} {e : Engine}

/-! ## The ends of a statement -/

/-- No metrics and no columns are registered. -/
def Snapshot.HasOnlyFunctions (d : Snapshot) : Prop :=
  ∀ e ∈ d.entries, e.definition.category = .function

theorem Snapshot.HasOnlyFunctions.metrics_eq_nil (h : d.HasOnlyFunctions) (n : String) :
    d.metrics n = [] := by
  refine List.filter_eq_nil_iff.mpr ?_
  intro e he
  simp [h e he]

end DataPhrase
