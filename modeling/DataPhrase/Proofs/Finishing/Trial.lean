/-
# Readers that may not come back

A trial reader knows nothing of endings: it answers with any text as the rest, or it has not come
to an end at all. Trials are put together as readers are, and a trial that does not come to an end
lets nothing that is put together from it come to one. So what is shown of a trial is shown without
the proofs that a reader carries in its types.
-/
import DataPhrase.Proofs.Finishing.Shorter

namespace DataPhrase

/-! ## Attempts -/

/-- What a trial reader shows: no end yet, a failure with its place, or a value with the text
after it. -/
inductive Attempt (α : Type) where
  | unfinished
  | stop (cause : Cause) (rest : List Char)
  | done (value : α) (rest : List Char)

/-- A reader that may not come back. -/
def Trial (α : Type) : Type :=
  List Char → Attempt α

/-- Go on from what was read with what is left. -/
def Attempt.andThen {α β : Type} (o : Attempt α) (f : α → Trial β) : Attempt β :=
  match o with
  | .unfinished => .unfinished
  | .stop e r => .stop e r
  | .done a r => f a r

section Attempts

variable {α β : Type} {s t r : List Char}

/-- An outcome as an attempt that has come to its end. -/
def attempt (o : Except (Stop Cause s) (Read t α)) : Attempt α :=
  match o with
  | .ok x => .done x.value x.rest
  | .error e => .stop e.cause e.rest

/-- The tail on which an outcome was reached does not matter. -/
@[simp] theorem attempt_widen {h : r <:+ s} {o : Outcome Cause r α} :
    attempt (o.widen h) = attempt o := by
  cases o <;> rfl

@[simp] theorem attempt_ok {x : Read t α} :
    attempt (.ok x : Except (Stop Cause s) (Read t α)) = .done x.value x.rest :=
  rfl

@[simp] theorem attempt_done {a : α} {h : r <:+ s} :
    attempt (Outcome.done a r h : Outcome Cause s α) = .done a r :=
  rfl

@[simp] theorem attempt_stop {e : Cause} {h : r <:+ s} :
    attempt (Outcome.stop e r h : Outcome Cause s α) = .stop e r :=
  rfl

/-- A trial of a reader always has an outcome. -/
theorem attempt_ne_unfinished {o : Except (Stop Cause s) (Read t α)} :
    attempt o ≠ .unfinished := by
  intro h
  cases o <;> cases h

end Attempts

/-! ## Trial readers -/

namespace Trial

variable {α β : Type} {s : List Char}

instance : Monad Trial where
  pure a := fun s => .done a s
  bind p f := fun s => (p s).andThen f

instance : MonadLift (Reader Cause) Trial where
  monadLift p := fun s => attempt (p s)

/-- Settle the value of `p` with `f`; where `f` refuses it, reading stops where `p` began. -/
def refine (p : Trial α) (f : α → Except Cause β) : Trial β := fun s =>
  (p s).andThen fun a r =>
    match f a with
    | .ok b => .done b r
    | .error e => .stop e s

/-! ## Trials and readers -/

/-- Two trials in a row go as the two readers in a row. -/
theorem andThen_eq {x : Attempt α} {o : Outcome Cause s α} {f : α → Trial β}
    {g : (a : α) → (r : List Char) → r <:+ s → Outcome Cause r β} (hx : x = attempt o)
    (hf : ∀ a r h, o.Gives a r → f a r = attempt (g a r h)) :
    x.andThen f = attempt (o.andThen g) := by
  subst hx
  cases o with
  | error e => rfl
  | ok x =>
    rw [Outcome.andThen, attempt_widen]
    exact hf x.value x.rest x.suffix ⟨x.suffix, rfl⟩

/-- A mapped trial goes as the mapped reader. -/
theorem map_eq {p : Trial α} {o : Outcome Cause s α} (f : α → β) (hp : p s = attempt o) :
    (f <$> p) s = attempt (o.map f) := by
  show (p s).andThen _ = _
  rw [hp]
  cases o <;> rfl

/-- On texts shorter than `n` the trial answers as the reader does. -/
def Agrees (n : Nat) (p : Trial α) (q : Phrase α) : Prop :=
  ∀ s, s.length < n → p s = attempt (q s)

/-! A trial that is put together as a reader is, from parts that agree, agrees with the reader. -/

section Agrees

variable {n m : Nat} {p p' : Trial α} {q q' : Phrase α} {f : α → Trial β} {g : α → Phrase β}

theorem Agrees.mono (h : Agrees n p q) (hm : m ≤ n) : Agrees m p q :=
  fun s hs => h s (Nat.lt_of_lt_of_le hs hm)

/-- A trial made of a reader agrees with it. -/
theorem agrees_lift (n : Nat) (q : Phrase α) : Agrees n (monadLift q) q :=
  fun _ _ => rfl

theorem agrees_pure (n : Nat) (a : α) : Agrees n (pure a) (pure a) :=
  fun _ _ => rfl

/-- Two trials in a row agree with the two readers in a row. -/
theorem Agrees.bind (hp : Agrees n p q) (hf : ∀ a, Agrees n (f a) (g a)) :
    Agrees n (p >>= f) (q >>= g) :=
  fun s hs => andThen_eq (hp s hs) fun a r _ h =>
    hf a r (Nat.lt_of_le_of_lt h.suffix.length_le hs)

/-- Behind a reader that takes something off, it is enough to agree on shorter texts. -/
theorem Agrees.bind_of_consumes (hp : Agrees (n + 1) p q) (hq : q.Consumes)
    (hf : ∀ a, Agrees n (f a) (g a)) : Agrees (n + 1) (p >>= f) (q >>= g) :=
  fun s hs => andThen_eq (hp s hs) fun a r _ h =>
    hf a r (Nat.lt_of_lt_of_le (hq s a r h) (Nat.le_of_lt_succ hs))

/-- A checked trial agrees with the checked reader. -/
theorem Agrees.refine (hp : Agrees n p q) (f : α → Except Cause β) :
    Agrees n (p.refine f) (q.refine f) := by
  intro s hs
  rw [Trial.refine, hp s hs, Reader.refine]
  cases q s with
  | error e => rfl
  | ok x =>
    dsimp only [attempt, Attempt.andThen]
    cases f x.value <;> rfl

/-- A choice between trials agrees with the same choice between readers. -/
theorem Agrees.ite {b : Bool} (hp : Agrees n p q) (hp' : Agrees n p' q') :
    Agrees n (if b = true then p else p') (if b = true then q else q') := by
  cases b with
  | true => exact hp
  | false => exact hp'

end Agrees

end Trial

end DataPhrase
