/-
# Reading from the front of a text

A reader takes a value off the front of a text or stops somewhere in it. Either way what is left is
an ending of the text it was given, and the types say so: `Read` holds the value with the rest,
`Stop` the cause of a failure with the place where reading stopped.
-/
import DataPhrase.Text.Class

namespace DataPhrase

/-! ## Endings -/

/-- What follows a character in an ending of `s` is shorter than `s`. -/
theorem length_lt_of_cons_suffix {c : Char} {r s : List Char} (h : c :: r <:+ s) :
    r.length < s.length := by
  have := h.length_le
  simp only [List.length_cons] at this
  omega

/-- What follows a character in an ending of `s` is an ending of `s`. -/
theorem suffix_of_cons_suffix {c : Char} {r s : List Char} (h : c :: r <:+ s) : r <:+ s :=
  (List.suffix_cons c r).trans h

/-- What follows the first character of a text is shorter than the text. -/
theorem length_tail_lt_of_head? {c : Char} {s : List Char} (h : s.head? = some c) :
    s.tail.length < s.length := by
  cases s with
  | nil => simp at h
  | cons d r => simp

/-! ## Outcomes -/

/-- A value read off the front of `s`, with the ending of `s` after it. -/
structure Read (s : List Char) (α : Type) where
  value : α
  rest : List Char
  suffix : rest <:+ s

namespace Read

variable {α β : Type} {r s : List Char}

/-- What is left is an ending, under whatever name. -/
theorem suffix_of_rest_eq {x : Read s α} (h : x.rest = r) : r <:+ s :=
  h ▸ x.suffix

/-- Change the value that was read. -/
def map (f : α → β) (x : Read s α) : Read s β :=
  ⟨f x.value, x.rest, x.suffix⟩

/-- What was read off an ending of `s`, seen from `s`. -/
def widen (h : r <:+ s) (x : Read r α) : Read s α :=
  ⟨x.value, x.rest, x.suffix.trans h⟩

end Read

/-- Why and where reading `s` stopped. -/
structure Stop (ε : Type) (s : List Char) where
  cause : ε
  rest : List Char
  suffix : rest <:+ s

namespace Stop

variable {ε : Type} {r s : List Char}

/-- Stopping where reading began. -/
def here (e : ε) : Stop ε s :=
  ⟨e, s, List.suffix_refl s⟩

/-- A stop in an ending of `s`, seen from `s`. -/
def widen (h : r <:+ s) (e : Stop ε r) : Stop ε s :=
  ⟨e.cause, e.rest, e.suffix.trans h⟩

end Stop

/-- What comes of reading `s`. -/
abbrev Outcome (ε : Type) (s : List Char) (α : Type) := Except (Stop ε s) (Read s α)

namespace Outcome

variable {ε α β : Type} {r s : List Char}

/-- The value `a`, read in front of `r`. -/
def done (a : α) (r : List Char) (h : r <:+ s) : Outcome ε s α :=
  .ok ⟨a, r, h⟩

/-- Reading stops in front of `r`. -/
def stop (e : ε) (r : List Char) (h : r <:+ s) : Outcome ε s α :=
  .error ⟨e, r, h⟩

/-- Reading stops where it began. -/
def fail (e : ε) : Outcome ε s α :=
  .error (.here e)

/-- An outcome on an ending of `s` is an outcome on `s`. -/
def widen (h : r <:+ s) : Outcome ε r α → Outcome ε s α
  | .ok x => .ok (x.widen h)
  | .error e => .error (e.widen h)

/-- Go on from what was read with what is left. -/
def andThen (o : Outcome ε s α)
    (f : (a : α) → (r : List Char) → r <:+ s → Outcome ε r β) : Outcome ε s β :=
  match o with
  | .ok x => (f x.value x.rest x.suffix).widen x.suffix
  | .error e => .error e

/-- Change the value that was read. -/
def map (f : α → β) : Outcome ε s α → Outcome ε s β
  | .ok x => .ok (x.map f)
  | .error e => .error e

end Outcome

/-! ## Readers -/

/-- A reader of values of type `α`. -/
def Reader (ε α : Type) : Type :=
  (s : List Char) → Outcome ε s α

namespace Reader

variable {ε α β : Type}

instance : Monad (Reader ε) where
  pure a := fun s => .done a s (List.suffix_refl s)
  bind p f := fun s => (p s).andThen fun a r _ => f a r

/-- Stop here. -/
def fail (e : ε) : Reader ε α :=
  fun _ => Outcome.fail e

/-- The text that is left, none of it taken. -/
def look : Reader ε (List Char) :=
  fun s => .done s s (List.suffix_refl s)

/-- Skip the characters in front that satisfy `p`. -/
def skipWhile (p : Char → Bool) : Reader ε Unit :=
  fun s => .done () (s.dropWhile p) (List.dropWhile_suffix p)

/-- Take the characters in front that satisfy `p`. -/
def takeWhile (p : Char → Bool) : Reader ε (List Char) :=
  fun s => .done (s.takeWhile p) (s.dropWhile p) (List.dropWhile_suffix p)

/-- Skip `n` characters. -/
def drop (n : Nat) : Reader ε Unit :=
  fun s => .done () (s.drop n) (List.drop_suffix n s)

/-- Read with `p` and settle its value with `f`; where `f` refuses it, reading stops back at the
place where `p` began. -/
def refine (p : Reader ε α) (f : α → Except ε β) : Reader ε β :=
  fun s =>
    match p s with
    | .error e => .error e
    | .ok x =>
      match f x.value with
      | .ok b => .ok (x.map fun _ => b)
      | .error e => .fail e

/-- Read with `p`, and keep the characters that it took. -/
def withText (p : Reader ε α) : Reader ε (α × List Char) :=
  fun s =>
    match p s with
    | .error e => .error e
    | .ok x => .ok (x.map fun a => (a, s.take (s.length - x.rest.length)))

end Reader

end DataPhrase
