/-
# Issues

What the checks of a statement find. A finding has a kind, which is an error or a warning, and the
name or phrase that it is about; an issue is a finding with its place in the text.
-/
import DataPhrase.Ambiguity.Site
import DataPhrase.Json.Basic
import DataPhrase.Statement.Basic

namespace DataPhrase

/-! ## Kinds -/

/-- Errors make a statement invalid, warnings do not. -/
inductive Severity where
  | error
  | warning
  deriving DecidableEq, Repr, Inhabited

/-- The name of a severity. -/
def Severity.name : Severity → String
  | .error => "error"
  | .warning => "warning"

/-- The kinds of findings. -/
inductive IssueKind where
  | missingSource
  | missingTarget
  | unexpectedTarget
  | duplicateAlias
  | forwardReference
  | unknownField
  | outOfScopeReference
  | stageOrder
  | implicitGroupingViolation
  | aggregateInExpression
  | windowAliasReference
  | unknownFunction
  | aliasStyle
  | clauseCount
  | ambiguity
  deriving DecidableEq, Repr, Inhabited

namespace IssueKind

/-- The name of a kind. -/
def name : IssueKind → String
  | .missingSource => "MissingSource"
  | .missingTarget => "MissingTarget"
  | .unexpectedTarget => "UnexpectedTarget"
  | .duplicateAlias => "DuplicateAlias"
  | .forwardReference => "ForwardReference"
  | .unknownField => "UnknownField"
  | .outOfScopeReference => "OutOfScopeReference"
  | .stageOrder => "StageOrder"
  | .implicitGroupingViolation => "ImplicitGroupingViolation"
  | .aggregateInExpression => "AggregateInExpression"
  | .windowAliasReference => "WindowAliasReference"
  | .unknownFunction => "UnknownFunction"
  | .aliasStyle => "AliasStyle"
  | .clauseCount => "ClauseCount"
  | .ambiguity => "Ambiguity"

/-- The severity of a kind. -/
def severity : IssueKind → Severity
  | .unknownFunction | .aliasStyle | .clauseCount | .ambiguity => .warning
  | _ => .error

end IssueKind

/-! ## Findings -/

/-- What a check finds. -/
inductive Finding where
  | missingSource
  | missingTarget
  | unexpectedTarget (pattern : Pattern) (target : String)
  | duplicateAlias (aliasName : String)
  | usedBefore (name : String)
  | readBefore (stage name definer : String)
  | unknownField (written : String) (sources : List String)
  | outOfScope (stage reference : String) (available : List String)
  | stageOrder (stage earlier : String)
  | aggregateFilter (name : String)
  | notGrouped (name : String)
  | nestedAggregate (aliasName function : String)
  | windowRead (name : String)
  | unknownFunction (name : String)
  | aliasStyle (aliasName : String)
  | clauseCount (count limit : Nat)
  | ambiguity (kind : SiteKind) (subject : String) (meanings : List String)
  deriving DecidableEq, Repr

namespace Finding

/-- The kind of a finding. -/
def kind : Finding → IssueKind
  | .missingSource => .missingSource
  | .missingTarget => .missingTarget
  | .unexpectedTarget _ _ => .unexpectedTarget
  | .duplicateAlias _ => .duplicateAlias
  | .usedBefore _ | .readBefore _ _ _ => .forwardReference
  | .unknownField _ _ => .unknownField
  | .outOfScope _ _ _ => .outOfScopeReference
  | .stageOrder _ _ => .stageOrder
  | .aggregateFilter _ | .notGrouped _ => .implicitGroupingViolation
  | .nestedAggregate _ _ => .aggregateInExpression
  | .windowRead _ => .windowAliasReference
  | .unknownFunction _ => .unknownFunction
  | .aliasStyle _ => .aliasStyle
  | .clauseCount _ _ => .clauseCount
  | .ambiguity _ _ _ => .ambiguity

/-- What a finding is about. -/
def subject? : Finding → Option String
  | .missingSource | .missingTarget | .clauseCount _ _ => none
  | .unexpectedTarget _ s | .duplicateAlias s | .usedBefore s | .readBefore _ s _
  | .unknownField s _ | .outOfScope _ s _ | .stageOrder s _ | .aggregateFilter s | .notGrouped s
  | .nestedAggregate s _ | .windowRead s | .unknownFunction s | .aliasStyle s
  | .ambiguity _ s _ => some s

/-- The wording of a finding. -/
def message : Finding → String
  | .missingSource => "statement has no source dataset"
  | .missingTarget => "transform statements need a target dataset"
  | .unexpectedTarget p t => p.name ++ " statements take no target, got `" ++ t ++ "`"
  | .duplicateAlias a => "alias `" ++ a ++ "` is declared more than once"
  | .usedBefore n => "`" ++ n ++ "` is used before the operation that defines it"
  | .readBefore s n d =>
    "`" ++ s ++ "` stage reads `" ++ n ++ "` before the `" ++ d ++ "` stage defines it"
  | .unknownField w sources => "`" ++ w ++ "` is not a column of " ++ " or ".intercalate sources
  | .outOfScope s r available =>
    "`" ++ s ++ "` stage reads `" ++ r ++
      "`, which the previous stage does not produce (available: " ++
      ", ".intercalate available ++ ")"
  | .stageOrder s e =>
    "`" ++ s ++ "` stage cannot follow a `" ++ e ++ "` stage; reorder the pipeline or split it"
  | .aggregateFilter n => "filter on aggregate `" ++ n ++ "` needs a grouping clause"
  | .notGrouped n => "`" ++ n ++ "` is neither grouped nor derived from an aggregate"
  | .nestedAggregate a f =>
    "`" ++ a ++ "` nests the aggregate `" ++ f ++ "`; aggregate it as its own operation"
  | .windowRead n =>
    "window result `" ++ n ++ "` cannot be filtered, calculated on or aggregated"
  | .unknownFunction n =>
    "`" ++ n ++ "` is not in the dictionary and will be emitted as written"
  | .aliasStyle a => "alias `" ++ a ++ "` does not follow the naming convention"
  | .clauseCount n limit =>
    "statement has " ++ toString n ++ " clauses (limit " ++ toString limit ++
      "); consider decomposing it"
  | .ambiguity k s meanings =>
    k.name ++ " `" ++ s ++ "` could mean " ++ " or ".intercalate meanings

/-- The finding makes a statement invalid. -/
def isError (f : Finding) : Bool :=
  f.kind.severity == .error

/-- The findings in order, of several with one kind and one subject only the first. -/
def distinct : List (IssueKind × String) → List Finding → List Finding
  | _, [] => []
  | seen, f :: r =>
    match f.subject? with
    | none => f :: distinct seen r
    | some s =>
      if seen.contains (f.kind, s) then distinct seen r
      else f :: distinct ((f.kind, s) :: seen) r

end Finding

/-! ## Issues -/

/-- A finding with the byte offset of its subject in the text. -/
structure Issue where
  finding : Finding
  position : Option Nat := none
  deriving DecidableEq, Repr

namespace Issue

/-- The kind of an issue. -/
def kind (i : Issue) : IssueKind := i.finding.kind

/-- The issue makes a statement invalid. -/
def isError (i : Issue) : Bool := i.finding.isError

end Issue

/-- The outcome of checking a statement. -/
structure Validation where
  valid : Bool
  issues : List Issue
  deriving DecidableEq, Repr

namespace Validation

/-- The issues that make the statement invalid. -/
def errors (v : Validation) : List Issue :=
  v.issues.filter Issue.isError

/-- The other issues. -/
def warnings (v : Validation) : List Issue :=
  v.issues.filter fun i => !i.isError

end Validation

/-! ## As data -/

/-- An issue as data. -/
def Issue.toJson (i : Issue) : Json :=
  .object [("severity", .text i.kind.severity.name), ("kind", .text i.kind.name),
    ("message", .text i.finding.message), ("subject", Json.ofOption .text i.finding.subject?),
    ("position", Json.ofOption Json.nat i.position)]

/-- A validation as data. -/
def Validation.toJson (v : Validation) : Json :=
  .object [("valid", .bool v.valid), ("issues", Json.ofList Issue.toJson v.issues)]

end DataPhrase
