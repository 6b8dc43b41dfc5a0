/-
# Whole texts

A text makes a statement exactly if the grammar of its surface form reads it to the end, and the
statement is of that form.
-/
import DataPhrase.Proofs.Pipeline.Written
import DataPhrase.Proofs.Statement.Question
import DataPhrase.Statement.Reader

namespace DataPhrase

variable {text r : List Char} {st : Statement}

theorem readWhole_eq_ok {α : Type} {p : Phrase α} {a : α} :
    readWhole p text = .ok a ↔ (p text).Gives a [] := by
  unfold readWhole
  cases h : p text with
  | error e => simp
  | ok x =>
    simp only [Outcome.gives_ok]
    by_cases hx : x.rest.isEmpty = true
    · rw [if_pos hx, Except.ok.injEq]
      rw [List.isEmpty_iff] at hx
      constructor
      · intro ha
        exact ⟨ha, hx⟩
      · intro ha
        exact ha.1
    · rw [if_neg hx]
      rw [List.isEmpty_iff] at hx
      constructor
      · intro ha
        cases ha
      · intro ha
        exact absurd ha.2 hx

theorem parse_eq_ok : Statement.parse text = .ok st ↔
    ∃ p tokens, classify text = .ok (p, tokens) ∧ (p.grammar text).Gives st [] := by
  unfold Statement.parse
  cases h : classify text with
  | error e =>
    constructor
    · intro hc
      cases hc
    · rintro ⟨p, tokens, hc, -⟩
      cases hc
  | ok x =>
    obtain ⟨p, tokens⟩ := x
    show readWhole p.grammar text = .ok st ↔ _
    rw [readWhole_eq_ok]
    constructor
    · intro hs
      exact ⟨p, tokens, rfl, hs⟩
    · rintro ⟨_, _, hc, hs⟩
      cases hc
      exact hs

/-! ## The form of what is read -/

theorem pattern_of_transform (h : (Transform.read text).Gives st r) : st.pattern = .transformTo := by
  obtain ⟨_, _, -, h⟩ := Reader.gives_bind.mp h
  obtain ⟨_, _, -, h⟩ := Reader.gives_bind.mp h
  obtain ⟨_, _, -, h⟩ := Reader.gives_bind.mp h
  obtain ⟨_, _, -, h⟩ := Reader.gives_bind.mp h
  obtain ⟨_, _, -, h⟩ := Reader.gives_bind.mp h
  obtain ⟨rfl, -⟩ := Reader.gives_pure.mp h
  rfl

/-- **The statement of a text is of the form that the text shows.** -/
theorem pattern_of_grammar {p : Pattern} (h : (p.grammar text).Gives st []) : st.pattern = p := by
  cases p with
  | transformTo => exact pattern_of_transform h
  | arrowPipeline => exact Pipeline.pattern_of_read h
  | naturalQuery => exact Question.pattern_of_read h

/-- A text that is written down is read to a statement with a property, as far as both can be
computed. They are computed from its characters, which then need not be decoded first. -/
theorem exists_parse (text : List Char) {l : List Char} (hl : text = (String.ofList l).toList)
    (p : List Char → Statement → Bool) (h : (Statement.parse l).toOption.any (p l) = true) :
    ∃ st, Statement.parse text = .ok st ∧ p text st = true := by
  rw [String.toList_ofList] at hl
  subst hl
  cases hp : Statement.parse text with
  | error e =>
    rw [hp] at h
    cases h
  | ok st =>
    rw [hp] at h
    exact ⟨st, rfl, h⟩

end DataPhrase
