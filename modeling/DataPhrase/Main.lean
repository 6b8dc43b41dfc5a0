/-
# The command line

The outer layer of the program: it reads the configuration file and the standard input, and writes
the reply. It starts no programs of the system; a run has the sample programs in their place.
-/
import DataPhrase.Command.Reply

namespace DataPhrase

/-- Read the configuration file at a path. -/
def openSettings (path : String) : IO SettingsFile := do
  try
    return .content path (← IO.FS.readFile path).toList
  catch
    | .noFileOrDirectory .. =>
      return .unreadable path "No such file or directory (os error 2)"
    | e => return .unreadable path e.toString

/-- The path of the configuration file of the user. -/
def userPath : IO (Option String) := do
  match ← IO.getEnv "XDG_CONFIG_HOME", ← IO.getEnv "HOME" with
  | some base, home =>
    if base.startsWith "/" then return some (base ++ "/nsql/config.json")
    else return home.map fun h => h ++ "/.config/nsql/config.json"
  | none, home => return home.map fun h => h ++ "/.config/nsql/config.json"

/-- The configuration file of a run: the one that is named, or else that of the user if there is
one. -/
def settingsFile (named : Option String) : IO SettingsFile := do
  match named with
  | some path => openSettings path
  | none =>
    match ← userPath with
    | none => return .absent
    | some path =>
      match ← openSettings path with
      | .unreadable _ _ => return .absent
      | file => return file

/-- The whole standard input. -/
def readInput : IO String := do
  let input ← IO.getStdin
  let mut bytes := ByteArray.empty
  repeat
    let more ← input.read 65536
    if more.isEmpty then break
    bytes := bytes ++ more
  return (String.fromUTF8? bytes).getD ""

/-- Write a reply and give its status. -/
def Reply.write (r : Reply) : IO UInt32 := do
  (← IO.getStderr).putStr r.messages
  (← IO.getStdout).putStr r.output
  return UInt32.ofNat r.status

/-- Answer the arguments of a run. -/
def answer (args : List String) : IO UInt32 := do
  match Request.ofArguments? args with
  | none => Reply.usage.write
  | some .version => Reply.version.write
  | some (.run i) =>
    let file ← settingsFile i.options.config
    let input ← match i.command with
      | .dictionary => pure ""
      | .statement _ => readInput
    (i.reply file input.toList).write

end DataPhrase

/-- The program. -/
def main (args : List String) : IO UInt32 :=
  DataPhrase.answer args
