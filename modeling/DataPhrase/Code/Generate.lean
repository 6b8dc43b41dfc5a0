/-
# Generating code

The code of a statement in a target dialect.
-/
import DataPhrase.Code.Frame
import DataPhrase.Code.Pipe
import DataPhrase.Code.Sql

namespace DataPhrase

/-- The code of a statement in a target, under a dictionary. -/
def Statement.generate (s : Statement) (target : Target) (dictionary : Snapshot) :
    Except GenerationError String :=
  match target with
  | .sql => Sql.generate dictionary (Plan.ofStatement s)
  | .dataFramePipe => Pipe.generate dictionary (Plan.ofStatement s)
  | .tabularFrame => Frame.generate dictionary (Plan.ofStatement s)

end DataPhrase
