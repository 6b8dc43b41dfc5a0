/-
# Replies

What a run writes and the status it exits with. A rejected statement, a failure and a program that
fails end with status 1, arguments that are not understood with status 2.
-/
import DataPhrase.Command.Arguments
import DataPhrase.Command.Program
import DataPhrase.Command.Report
import DataPhrase.Json.Reader
import DataPhrase.Settings

namespace DataPhrase

/-! ## Replies -/

/-- What a run writes, its messages, and its exit status. -/
structure Reply where
  output : String := ""
  messages : String := ""
  status : Nat := 0
  deriving DecidableEq, Repr, Inhabited

namespace Reply

/-- A run that writes a text. -/
def success (s : String) : Reply where
  output := asLine s

/-- A run that ends with a message. -/
def failure (s : String) : Reply where
  messages := asLine ("error: " ++ s)
  status := 1

/-- The reply to arguments that are not understood. -/
def usage : Reply where
  messages := asLine
    "usage: nsql [-j] [-c PATH] validate|translate|execute [TARGET]|disambiguate|dictionary"
  status := 2

/-- The version of the program. -/
def version : Reply :=
  .success "nsql 0.1.0"

/-- The reply to a statement that is rejected. -/
def rejected (asData : Bool) (text : List Char) (e : EngineError) : Reply :=
  if asData then { Reply.success e.toJson.pretty with status := 1 }
  else
    match e with
    | .unread x => .failure (x.render (Text.trimEnd text))
    | .invalid issues =>
      { messages :=
          reportIssues issues ++
          asLine ("statement is invalid (" ++ toString (issues.filter Issue.isError).length ++
            " error(s))") ++
          if issues.any fun i => i.kind == .ambiguity then
            asLine "run \x60nsql disambiguate\x60 to list its readings"
          else ""
        status := 1 }
    | .ungenerated x => .failure x.message

end Reply

/-! ## Statements -/

namespace Engine

/-- Why a target cannot express a valid statement. -/
def fault? (e : Engine) (text : List Char) (target : Target) : Option GenerationError :=
  match e.translate text target with
  | .error (.ungenerated x) => some x
  | _ => none

/-- The reply to a check: a statement is valid if it has no errors and the target can express
it. -/
def validateReply (e : Engine) (asData : Bool) (text : List Char) (target : Target) : Reply :=
  match e.validate text with
  | .error x => .rejected asData text (.unread x)
  | .ok v =>
    let fault := if v.valid then e.fault? text target else none
    let v := { v with valid := v.valid && fault.isNone }
    let report :=
      if asData then (v.toJsonWith fault).pretty
      else
        (match fault with
          | some x => asLine ("error[" ++ target.name ++ "] " ++ x.message)
          | none => "") ++ v.report
    { Reply.success report with status := if v.valid then 0 else 1 }

/-- The reply to a request for code. -/
def translateReply (e : Engine) (asData : Bool) (text : List Char) (target : Target) : Reply :=
  match e.translate text target with
  | .error x => .rejected asData text x
  | .ok g =>
    if asData then .success g.toJson.pretty
    else { Reply.success g.code with messages := reportIssues g.warnings }

/-- The reply to a request to run code: what the program of the target writes, behind the warnings
on the statement. -/
def executeReply (e : Engine) (settings : Settings) (programs : Programs) (asData : Bool)
    (text : List Char) (target : Target) : Reply :=
  match settings.runtime target with
  | .error message => .failure message
  | .ok (program, args) =>
    match e.translate text target with
    | .error x => .rejected asData text x
    | .ok g =>
      let left := programs program args (asLine g.code)
      let messages := reportIssues g.warnings ++ left.messages
      match left.ending.fault? program with
      | none => ⟨left.output, messages, 0⟩
      | some fault => ⟨left.output, messages ++ (Reply.failure fault).messages, 1⟩

/-- The reply to a request for the readings of a statement. -/
def disambiguateReply (e : Engine) (asData : Bool) (text : List Char) : Reply :=
  match e.disambiguate text with
  | .error x => .rejected asData text (.unread x)
  | .ok cs =>
    .success (if asData then (Json.ofList (Candidate.toJson .real) cs).pretty
      else reportCandidates cs)

end Engine

/-- The reply to an action on a statement. -/
def Action.reply (action : Action) (e : Engine) (settings : Settings) (programs : Programs)
    (asData : Bool) (text : List Char) : Reply :=
  match action with
  | .validate target => e.validateReply asData text target
  | .translate target => e.translateReply asData text target
  | .execute target => e.executeReply settings programs asData text target
  | .disambiguate => e.disambiguateReply asData text

/-! ## Runs -/

/-- The configuration file of a run: there is none, it cannot be opened for a reason, or it has a
content. -/
inductive SettingsFile where
  | absent
  | unreadable (path reason : String)
  | content (path : String) (text : List Char)
  deriving Repr

/-- The settings that a configuration file holds, or what is wrong with the file. -/
def SettingsFile.settings : SettingsFile → Except String Settings
  | .absent => .ok {}
  | .unreadable path reason => .error ("reading config file " ++ path ++ ": " ++ reason)
  | .content path text =>
    match (Json.read text).bind Settings.ofJson? with
    | some s => .ok s
    | none => .error ("parsing config file " ++ path ++ ": no settings")

/-- The reply to a command, given its configuration file, what it reads and the programs that it
can start. -/
def Invocation.reply (i : Invocation) (file : SettingsFile) (input : List Char)
    (programs : Programs := .samples) : Reply :=
  match file.settings with
  | .error message => .failure message
  | .ok settings =>
    match settings.dictionary with
    | .error e => .failure e.message
    | .ok d =>
      match i.command with
      | .dictionary => .success (if i.options.json then d.toJson.pretty else d.report)
      | .statement action =>
        if input.all Text.isBlank then .failure "the statement on stdin is empty"
        else action.reply ⟨d, settings.rules⟩ settings programs i.options.json input

end DataPhrase
