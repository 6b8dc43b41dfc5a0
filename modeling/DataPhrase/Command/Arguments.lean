/-
# Commands and arguments

What the program can be asked to do, and reading the arguments of a run. Options may stand before
and after the command, each at most once on either side; where both sides give a configuration file,
the one after the command counts. Short options may be joined, and the value of an option may follow
it or be attached to it. After two hyphens every argument is a plain word.
-/
import DataPhrase.Target

namespace DataPhrase

/-! ## Commands -/

/-- What is done with a statement. -/
inductive Action where
  | validate (target : Target)
  | translate (target : Target)
  | execute (target : Target)
  | disambiguate
  deriving DecidableEq, Repr

/-- A command: to show the dictionary, or to do something with a statement. -/
inductive Command where
  | dictionary
  | statement (action : Action)
  deriving DecidableEq, Repr

/-- The options that every command takes: answers as data, and the path of a configuration file. -/
structure Options where
  json : Bool := false
  config : Option String := none
  deriving DecidableEq, Repr

/-- A command with its options. -/
structure Invocation where
  command : Command
  options : Options
  deriving DecidableEq, Repr

/-- What the arguments of a run ask for. -/
inductive Request where
  | version
  | run (invocation : Invocation)
  deriving DecidableEq, Repr

/-! ## Single arguments -/

/-- An option in an argument. The path of a configuration file is attached to it, or follows as the
next argument. -/
inductive Flag where
  | json
  | version
  | config (path : List Char)
  | configNext
  | unknown
  deriving DecidableEq, Repr

/-- What one argument is: a word, options, or the two hyphens that end the options. -/
inductive Argument where
  | word (w : List Char)
  | flags (fs : List Flag)
  | endOfOptions
  deriving DecidableEq, Repr

namespace Flag

/-- The options in a run of short ones. -/
def ofLetters : List Char → List Flag
  | [] => []
  | 'j' :: r => .json :: ofLetters r
  | 'V' :: r => .version :: ofLetters r
  | ['c'] => [.configNext]
  | 'c' :: '=' :: path => [.config path]
  | 'c' :: path => [.config path]
  | _ => [.unknown]

/-- The long option of a name. -/
def ofName (name : List Char) : Flag :=
  if name = "json".toList then .json
  else if name = "version".toList then .version
  else if name = "config".toList then .configNext
  else if name.take 7 = "config=".toList then .config (name.drop 7)
  else .unknown

end Flag

/-- What an argument is. A single hyphen is a word. -/
def Argument.ofText : List Char → Argument
  | ['-', '-'] => .endOfOptions
  | '-' :: '-' :: name => .flags [Flag.ofName name]
  | '-' :: c :: r => .flags (Flag.ofLetters (c :: r))
  | w => .word w

/-! ## Options -/

/-- What becomes of a run of options: new options, options that still lack the path that the next
argument gives, a request for the version, or an error. -/
inductive Effect where
  | options (o : Options)
  | needsPath (o : Options)
  | version
  | fault
  deriving DecidableEq, Repr

namespace Options

/-- The options with a configuration file. It may be given once and has a path. -/
def withPath? (o : Options) (path : List Char) : Option Options :=
  if o.config.isSome || path.isEmpty then none
  else some { o with config := some (String.ofList path) }

/-- The effect of a run of options. The version is shown only `atTop`, before a command. -/
def apply (atTop : Bool) (o : Options) : List Flag → Effect
  | [] => .options o
  | .json :: r => if o.json then .fault else apply atTop { o with json := true } r
  | .version :: _ => if atTop then .version else .fault
  | .config path :: r =>
    match o.withPath? path with
    | some o => apply atTop o r
    | none => .fault
  | .configNext :: _ => if o.config.isSome then .fault else .needsPath o
  | .unknown :: _ => .fault

/-- The options given before a command together with those given after it. -/
def merge (before after : Options) : Options where
  json := before.json || after.json
  config := after.config <|> before.config

end Options

/-! ## Commands -/

/-- A command that may lack its target. -/
inductive Verb where
  | targeted (act : Target → Action)
  | bare (c : Command)

/-- The command of a name. -/
def Verb.ofName? (w : List Char) : Option Verb :=
  if w = "validate".toList then some (.targeted .validate)
  else if w = "translate".toList then some (.targeted .translate)
  else if w = "execute".toList then some (.targeted .execute)
  else if w = "disambiguate".toList then some (.bare (.statement .disambiguate))
  else if w = "dictionary".toList then some (.bare .dictionary)
  else none

/-- The command with the target it names, or with the default one. -/
def Verb.command : Verb → Option Target → Command
  | .targeted act, t => .statement (act (t.getD .sql))
  | .bare c, _ => c

/-- The target that a word names, where the command takes one and has none so far. -/
def Verb.target? (v : Verb) (known : Option Target) (w : List Char) : Option Target :=
  match v, known with
  | .targeted _, none => Target.ofName? (String.ofList w)
  | _, _ => none

/-- The words after the end of options. -/
def readWords (v : Verb) (o : Options) (t : Option Target) : List String → Option Invocation
  | [] => some ⟨v.command t, o⟩
  | w :: r =>
    match v.target? t w.toList with
    | some t => readWords v o (some t) r
    | none => none

/-- The arguments after a command. -/
def readTail (v : Verb) (o : Options) (t : Option Target) : List String → Option Invocation
  | [] => some ⟨v.command t, o⟩
  | a :: r =>
    match Argument.ofText a.toList with
    | .endOfOptions => readWords v o t r
    | .word w =>
      match v.target? t w with
      | some t => readTail v o (some t) r
      | none => none
    | .flags fs =>
      match o.apply false fs with
      | .options o => readTail v o t r
      | .needsPath o =>
        match r with
        | [] => none
        | path :: r =>
          match Argument.ofText path.toList with
          | .word w =>
            match o.withPath? w with
            | some o => readTail v o t r
            | none => none
          | _ => none
      | .version | .fault => none

/-- The arguments of a run, with the options given so far. -/
def readArguments (o : Options) : List String → Option Request
  | [] => none
  | a :: r =>
    match Argument.ofText a.toList with
    | .endOfOptions => none
    | .word w =>
      match Verb.ofName? w with
      | some v => (readTail v {} none r).map fun i => .run { i with options := o.merge i.options }
      | none => none
    | .flags fs =>
      match o.apply true fs with
      | .options o => readArguments o r
      | .needsPath o =>
        match r with
        | [] => none
        | path :: r =>
          match Argument.ofText path.toList with
          | .word w =>
            match o.withPath? w with
            | some o => readArguments o r
            | none => none
          | _ => none
      | .version => some .version
      | .fault => none

/-- What the arguments of a run ask for, if they are understood. -/
def Request.ofArguments? (args : List String) : Option Request :=
  readArguments {} args

end DataPhrase
