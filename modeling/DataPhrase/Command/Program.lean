/-
# Programs

Code is handed to a program of the system. What programs there are, what they write and how they
end is up to the system, so a run has them as a parameter.
-/

namespace DataPhrase

/-- How a program that is given code ends. -/
inductive Ending where
  | done
  | stopped (status : String)
  | unstarted (reason : String)
  | unsent (reason : String)
  | unawaited (reason : String)
  deriving DecidableEq, Repr, Inhabited

/-- The wording of an ending, if it is a failure. Reasons and statuses are worded by the system. -/
def Ending.fault? (program : String) : Ending → Option String
  | .done => none
  | .stopped status => some ("runtime \x60" ++ program ++ "\x60 exited with " ++ status)
  | .unstarted reason => some ("starting runtime \x60" ++ program ++ "\x60: " ++ reason)
  | .unsent reason => some ("sending code to the runtime: " ++ reason)
  | .unawaited reason => some ("waiting for the runtime: " ++ reason)

/-- What a program leaves: its output, its messages and how it ended. -/
structure Finished where
  output : String := ""
  messages : String := ""
  ending : Ending := .done
  deriving DecidableEq, Repr, Inhabited

/-- The programs of a system: what the program of a name leaves, with its arguments and what it
reads. Nothing is known of them. -/
abbrev Programs := String → List String → String → Finished

/-- Programs for trying runs without a system: one that copies what it reads, one that drops it and
fails, and no others. -/
def Programs.samples : Programs := fun program args input =>
  if program = "cat" ∧ (args = [] ∨ args = ["-"]) then { output := input }
  else if program = "sh" ∧ args = ["-c", "cat > /dev/null; exit 3"] then
    { ending := .stopped "exit status: 3" }
  else { ending := .unstarted "No such file or directory (os error 2)" }

end DataPhrase
