/-
# Successful readings

`o.Gives a r` says that the outcome `o` is the value `a` with the rest `r`. It forgets the proof
that `r` is an ending, so that outcomes on different texts can be compared, and it has one
equation for each way of putting readers together. Nothing in this file is about statements.
-/
import DataPhrase.Reading

namespace DataPhrase

/-! ## Values and rests -/

namespace Outcome

variable {ε α β : Type} {r s q : List Char}

/-- The outcome is the value `a`, read in front of `r`. -/
def Gives (o : Outcome ε s α) (a : α) (r : List Char) : Prop :=
  ∃ h, o = .ok ⟨a, r, h⟩

/-- What is left after a successful reading is an ending of the text. -/
theorem Gives.suffix {o : Outcome ε s α} {a : α} (h : o.Gives a r) : r <:+ s :=
  h.1

/-- A reading has one value. -/
theorem Gives.value_unique {o : Outcome ε s α} {a b : α} (h : o.Gives a r) (h' : o.Gives b q) :
    a = b := by
  obtain ⟨_, h⟩ := h
  obtain ⟨_, h'⟩ := h'
  rw [h] at h'
  simp only [Except.ok.injEq, Read.mk.injEq] at h'
  exact h'.1

/-- A reading has one rest. -/
theorem Gives.rest_unique {o : Outcome ε s α} {a b : α} (h : o.Gives a r) (h' : o.Gives b q) :
    r = q := by
  obtain ⟨_, h⟩ := h
  obtain ⟨_, h'⟩ := h'
  rw [h] at h'
  simp only [Except.ok.injEq, Read.mk.injEq] at h'
  exact h'.2

/-- An outcome that succeeded gives its value and its rest, and nothing else. -/
@[simp] theorem gives_ok {x : Read s α} {a : α} :
    Gives (.ok x : Outcome ε s α) a r ↔ x.value = a ∧ x.rest = r := by
  constructor
  · rintro ⟨h, hx⟩
    simp only [Except.ok.injEq] at hx
    subst hx
    exact ⟨rfl, rfl⟩
  · rintro ⟨rfl, rfl⟩
    exact ⟨x.suffix, rfl⟩

/-- A failed outcome gives no value. -/
@[simp] theorem not_gives_error {e : Stop ε s} {a : α} :
    ¬ Gives (.error e : Outcome ε s α) a r := by
  rintro ⟨_, h⟩
  cases h

/-- Whether a text is read up to a given rest can be computed, also where values cannot be compared. -/
instance decidableExistsGives (o : Outcome ε s α) (r : List Char) : Decidable (∃ a, o.Gives a r) :=
  match o with
  | .ok x => decidable_of_iff (x.rest = r)
      ⟨fun h => ⟨x.value, gives_ok.mpr ⟨rfl, h⟩⟩, fun ⟨_, h⟩ => (gives_ok.mp h).2⟩
  | .error _ => isFalse fun ⟨_, h⟩ => not_gives_error h

/-- A finished reading gives the value it finished with. -/
@[simp] theorem gives_done {a b : α} {h : r <:+ s} :
    (done b r h : Outcome ε s α).Gives a q ↔ b = a ∧ r = q :=
  gives_ok

@[simp] theorem not_gives_stop {e : ε} {h : r <:+ s} {a : α} :
    ¬ (stop e r h : Outcome ε s α).Gives a q :=
  not_gives_error

@[simp] theorem not_gives_fail {e : ε} {a : α} : ¬ (fail e : Outcome ε s α).Gives a r :=
  not_gives_error

@[simp] theorem gives_widen {h : r <:+ s} {o : Outcome ε r α} {a : α} :
    (o.widen h).Gives a q ↔ o.Gives a q := by
  cases o with
  | error e => simp [widen]
  | ok x => simp [widen, Read.widen]

/-- Mapping a value keeps the rest. -/
@[simp] theorem gives_map {f : α → β} {o : Outcome ε s α} {b : β} :
    (o.map f).Gives b r ↔ ∃ a, o.Gives a r ∧ f a = b := by
  cases o with
  | error e => simp [Outcome.map]
  | ok x =>
    simp only [Outcome.map, gives_ok, Read.map]
    constructor
    · rintro ⟨rfl, rfl⟩
      exact ⟨_, ⟨rfl, rfl⟩, rfl⟩
    · rintro ⟨_, ⟨rfl, rfl⟩, rfl⟩
      exact ⟨rfl, rfl⟩

theorem widen_eq_error {h : r <:+ s} {o : Outcome ε r α} {e : Stop ε s} :
    o.widen h = .error e ↔ ∃ e', o = .error e' ∧ e'.widen h = e := by
  cases o with
  | error e' => simp [widen]
  | ok x => simp [widen]

/-- Mapping a value fails where the reading fails, with the same error. -/
theorem map_eq_error {f : α → β} {o : Outcome ε s α} {e : Stop ε s} :
    o.map f = .error e ↔ o = .error e := by
  cases o with
  | error e' => simp [Outcome.map]
  | ok x => simp [Outcome.map]

/-- One reading behind another gives what the second gives on the rest of the first. -/
theorem gives_andThen {o : Outcome ε s α}
    {f : (a : α) → (r : List Char) → r <:+ s → Outcome ε r β} {b : β} :
    (o.andThen f).Gives b r ↔ ∃ a q h, o.Gives a q ∧ (f a q h).Gives b r := by
  cases o with
  | error e => simp [andThen]
  | ok x =>
    simp only [andThen, gives_widen, gives_ok]
    constructor
    · intro h
      exact ⟨_, _, x.suffix, ⟨rfl, rfl⟩, h⟩
    · rintro ⟨_, _, _, ⟨rfl, rfl⟩, h⟩
      exact h

end Outcome

/-! ## Readers -/

namespace Reader

variable {ε α β : Type} {s r : List Char}

/-- The reader that reads nothing gives its value and the whole text. -/
@[simp] theorem gives_pure {a b : α} :
    Outcome.Gives ((pure a : Reader ε α) s) b r ↔ a = b ∧ s = r :=
  Outcome.gives_ok

/-- A sequence of two readers gives a value exactly when both do, the second on the rest of the
first. -/
theorem gives_bind {p : Reader ε α} {f : α → Reader ε β} {b : β} :
    Outcome.Gives ((p >>= f) s) b r ↔ ∃ a q, (p s).Gives a q ∧ (f a q).Gives b r := by
  show Outcome.Gives ((p s).andThen fun a r _ => f a r) b r ↔ _
  rw [Outcome.gives_andThen]
  constructor
  · rintro ⟨a, q, _, h⟩
    exact ⟨a, q, h⟩
  · rintro ⟨a, q, h, h'⟩
    exact ⟨a, q, h.suffix, h, h'⟩

@[simp] theorem not_gives_fail {e : ε} {a : α} : ¬ (fail e s : Outcome ε s α).Gives a r :=
  Outcome.not_gives_fail

/-- Looking ahead gives the text and leaves it. -/
@[simp] theorem gives_look {a : List Char} :
    (look s : Outcome ε s (List Char)).Gives a r ↔ s = a ∧ s = r :=
  Outcome.gives_done

/-- Skipping leaves the text from the first character that is not skipped. -/
@[simp] theorem gives_skipWhile {p : Char → Bool} {u : Unit} :
    (skipWhile p s : Outcome ε s Unit).Gives u r ↔ s.dropWhile p = r := by
  simp [skipWhile]

/-- Taking gives the longest front of such characters and leaves the text behind it. -/
@[simp] theorem gives_takeWhile {p : Char → Bool} {a : List Char} :
    (takeWhile p s : Outcome ε s (List Char)).Gives a r ↔
      s.takeWhile p = a ∧ s.dropWhile p = r := by
  simp [takeWhile]

/-- A checked reader gives what the check makes of a value the reader gives. -/
@[simp] theorem gives_refine {p : Reader ε α} {f : α → Except ε β} {b : β} :
    (refine p f s).Gives b r ↔ ∃ a, (p s).Gives a r ∧ f a = .ok b := by
  unfold refine
  cases hp : p s with
  | error e => simp
  | ok x =>
    simp only [Outcome.gives_ok]
    cases hf : f x.value with
    | error e =>
      simp only [Outcome.not_gives_fail, false_iff]
      rintro ⟨_, ⟨rfl, -⟩, h⟩
      rw [hf] at h
      cases h
    | ok c =>
      simp only [Outcome.gives_ok, Read.map]
      constructor
      · rintro ⟨rfl, rfl⟩
        exact ⟨_, ⟨rfl, rfl⟩, hf⟩
      · rintro ⟨_, ⟨rfl, rfl⟩, h⟩
        rw [hf] at h
        cases h
        exact ⟨rfl, rfl⟩

/-- With its text, a reader gives what it gives without, and the text in front of the rest. -/
theorem gives_withText {p : Reader ε α} {x : α × List Char} :
    (p.withText s).Gives x r ↔ (p s).Gives x.1 r ∧ x.2 ++ r = s := by
  unfold withText
  cases hp : p s with
  | error e => simp
  | ok y =>
    obtain ⟨u, hu⟩ := y.suffix
    have htext : s.take (s.length - y.rest.length) = u := by
      have hlen : s.length - y.rest.length = u.length := by
        have := congrArg List.length hu
        rw [List.length_append] at this
        omega
      rw [hlen]
      exact (List.prefix_iff_eq_take.mp ⟨_, hu⟩).symm
    simp only [Outcome.gives_ok, Read.map, htext]
    constructor
    · rintro ⟨rfl, rfl⟩
      exact ⟨⟨rfl, rfl⟩, hu⟩
    · rintro ⟨⟨ha, rfl⟩, hx⟩
      exact ⟨Prod.ext ha (List.append_cancel_right (hu.trans hx.symm)), rfl⟩

end Reader

end DataPhrase
