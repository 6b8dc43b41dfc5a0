/-
# Data values

The values of data files: nulls, truth values, numbers, texts, arrays and objects. An object keeps
its fields in the order they are given; of two fields with one name the last counts.
-/
import DataPhrase.Number.Basic

namespace DataPhrase

/-- A value of a data file. Integers and other numbers are kept apart. -/
inductive Json where
  | null
  | bool (b : Bool)
  | int (n : Int)
  | real (x : Number)
  | text (s : String)
  | array (items : List Json)
  | object (fields : List (String × Json))
  deriving Inhabited

namespace Json

/-! ## Building -/

/-- An optional value, null when absent. -/
def ofOption {α : Type} (f : α → Json) : Option α → Json
  | none => .null
  | some a => f a

/-- An array of converted values. -/
def ofList {α : Type} (f : α → Json) (xs : List α) : Json :=
  .array (xs.map f)

/-- An array of texts. -/
def texts (xs : List String) : Json :=
  ofList .text xs

/-- A natural number. -/
def nat (n : Nat) : Json :=
  .int n

/-! ## Looking up -/

/-- The value of the field `name`: the last one of that name. -/
def lookup (name : String) (fields : List (String × Json)) : Option Json :=
  (fields.reverse.find? fun f => f.1 == name).map Prod.snd

/-- The field `name` of an object. -/
def field? (name : String) : Json → Option Json
  | .object fields => lookup name fields
  | _ => none

/-- The text, if the value is one. -/
def text? : Json → Option String
  | .text s => some s
  | _ => none

/-- The truth value, if the value is one. -/
def bool? : Json → Option Bool
  | .bool b => some b
  | _ => none

/-- The items, if the value is an array. -/
def array? : Json → Option (List Json)
  | .array xs => some xs
  | _ => none

/-- The fields, if the value is an object. -/
def object? : Json → Option (List (String × Json))
  | .object fs => some fs
  | _ => none

/-- The largest natural number of 32 bits. -/
def maxHalfWord : Nat := Nat.pow 2 32 - 1

/-- The largest natural number of 64 bits. -/
def maxFullWord : Nat := Nat.pow 2 64 - 1

/-- The natural number at most `bound`, if the value is one. -/
def natUpTo? (bound : Nat) : Json → Option Nat
  | .int n => if 0 ≤ n ∧ n ≤ bound then some n.toNat else none
  | _ => none

/-- The number, if the value is an integer or another number. -/
def number? : Json → Option Number
  | .int n => some ⟨decide (n < 0), (Number.ofNat n.natAbs).place⟩
  | .real x => some x
  | _ => none

/-- The texts, if the value is an array of texts. -/
def texts? (v : Json) : Option (List String) := do
  (← v.array?).mapM text?

/-! ## Records and kinds -/

/-- The value as an object. An array of at least `least` values stands for the object with these
values as its first fields, whose names are given in order. -/
def withFields (names : List String) (least : Nat) : Json → Json
  | .array vs =>
    if least ≤ vs.length ∧ vs.length ≤ names.length then .object (names.zip vs) else .array vs
  | v => v

/-- The kinds of a value that says its kind: the word for each, and the names of its fields. -/
abbrev Kinds := List (String × List String)

/-- The kind that a value names: by its word, or inside of another value with a kind also by its
place in the list. -/
def Kinds.named? (kinds : Kinds) (inside : Bool) : Json → Option (String × List String)
  | .text s => kinds.find? fun k => k.1 == s
  | .int n => if inside ∧ 0 ≤ n then kinds[n.toNat]? else none
  | _ => none

/-- The word for the kind of a value, and the value as an object. The kind is the field `kind` of an
object, or the first value of an array, after which the fields follow in order. -/
def kind? (kinds : Kinds) (inside : Bool) : Json → Option (String × Json)
  | .object fs => do
    let k ← kinds.named? inside (← lookup "kind" fs)
    some (k.1, .object fs)
  | .array (t :: vs) => do
    let k ← kinds.named? inside t
    if vs.length = k.2.length then some (k.1, .object (k.2.zip vs)) else none
  | _ => none

/-! ## Order of fields -/

/-- Put a field into a list sorted by name, in the place of an equal name. -/
def insertField (f : String × Json) : List (String × Json) → List (String × Json)
  | [] => [f]
  | g :: r =>
    if f.1 == g.1 then f :: r
    else if f.1 < g.1 then f :: g :: r
    else g :: insertField f r

mutual

/-- The value with the fields of every object sorted by name, the last of equal names kept. -/
def sorted : Json → Json
  | .array xs => .array (sortedAll xs)
  | .object fs => .object (sortedFields [] fs)
  | v => v

/-- Every value of a list with its fields sorted. -/
def sortedAll : List Json → List Json
  | [] => []
  | x :: r => x.sorted :: sortedAll r

/-- The fields of `done` together with sorted ones. -/
def sortedFields (done : List (String × Json)) : List (String × Json) → List (String × Json)
  | [] => done
  | (k, v) :: r => sortedFields (insertField (k, v.sorted) done) r

end

end Json

end DataPhrase
