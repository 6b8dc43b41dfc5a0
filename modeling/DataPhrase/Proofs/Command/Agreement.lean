/-
# Two verdicts on a statement

A statement can be checked for a target, or code can be asked for. Both read and check the text
again, and the check also asks for the code; both come to the same verdict.
-/
import DataPhrase.Command.Reply
import DataPhrase.Proofs.Settled

namespace DataPhrase

namespace Engine

variable {e : Engine} {text : List Char} {target : Target} {v : Validation}

/-! ## The outcomes of a request for code -/

/-- No code is made for a text that cannot be read. -/
theorem translate_of_unread {x : SyntaxError} (h : e.validate text = .error x) :
    e.translate text target = .error (.unread x) := by
  unfold validate at h
  unfold translate
  cases hs : Statement.parse text with
  | error y =>
    rw [hs] at h
    cases h
    rfl
  | ok s =>
    rw [hs] at h
    cases h

/-- No code is made for an invalid statement. -/
theorem translate_of_invalid (h : e.validate text = .ok v) (hv : v.valid = false) :
    e.translate text target = .error (.invalid v.issues) := by
  obtain ⟨s, hs, rfl⟩ := map_eq_ok.mp h
  simp only [translate, hs, hv, Bool.not_false, if_true]

/-- For a valid statement there is code with the warnings of the check, or the target cannot
express the statement. -/
theorem translate_of_valid (target : Target) (h : e.validate text = .ok v) (hv : v.valid = true) :
    (∃ x, e.translate text target = .error (.ungenerated x)) ∨
      ∃ code, e.translate text target = .ok ⟨code, target, v.warnings⟩ := by
  obtain ⟨s, hs, rfl⟩ := map_eq_ok.mp h
  cases hg : (e.firstReading text s).generate target e.dictionary with
  | error x =>
    left
    exact ⟨x, by simp only [translate, hs, hv, hg, Bool.not_true, Bool.false_eq_true, if_false]⟩
  | ok code =>
    right
    exact ⟨code,
      by simp only [translate, hs, hv, hg, Bool.not_true, Bool.false_eq_true, if_false]⟩

/-- A request for code fails on the issues of a statement exactly if the check finds the statement
invalid with these issues. -/
theorem translate_eq_invalid_iff {issues : List Issue} :
    e.translate text target = .error (.invalid issues) ↔
      ∃ v, e.validate text = .ok v ∧ v.valid = false ∧ v.issues = issues := by
  constructor
  · intro h
    cases hc : e.validate text with
    | error x =>
      rw [translate_of_unread hc] at h
      cases h
    | ok v =>
      -- Only an invalid statement is answered with issues, and then with those of the check.
      cases hv : v.valid with
      | false =>
        rw [translate_of_invalid hc hv] at h
        cases h
        exact ⟨v, rfl, hv, rfl⟩
      | true =>
        rcases translate_of_valid target hc hv with ⟨x, hx⟩ | ⟨code, hx⟩
        · rw [hx] at h
          cases h
        · rw [hx] at h
          cases h
  · rintro ⟨v, hc, hv, rfl⟩
    exact translate_of_invalid hc hv

/-- Code comes with the warnings of the check, which finds the statement valid. -/
theorem validate_of_translate {g : Generated} (h : e.translate text target = .ok g) :
    ∃ v, e.validate text = .ok v ∧ v.valid = true ∧ g.warnings = v.warnings := by
  cases hc : e.validate text with
  | error x =>
    rw [translate_of_unread hc] at h
    cases h
  | ok v =>
    cases hv : v.valid with
    | false =>
      rw [translate_of_invalid hc hv] at h
      cases h
    | true =>
      rcases translate_of_valid target hc hv with ⟨x, hx⟩ | ⟨code, hx⟩
      · rw [hx] at h
        cases h
      · rw [hx] at h
        cases h
        exact ⟨v, rfl, hv, rfl⟩

/-! ## The status of a reply -/

/-- A request for code ends with status 0 exactly if there is code. -/
theorem status_translateReply (asData : Bool) :
    (e.translateReply asData text target).status =
      if (e.translate text target).isOk then 0 else 1 := by
  unfold translateReply
  cases e.translate text target with
  | error x =>
    -- Every way to reject a statement sets the status.
    cases asData <;> cases x <;> rfl
  | ok g => cases asData <;> rfl

/-- A check ends with status 0 exactly if there is code: a statement that passes is valid and has no
fault, and each fault of it is an answer of the request for code. -/
theorem status_validateReply (asData : Bool) :
    (e.validateReply asData text target).status =
      if (e.translate text target).isOk then 0 else 1 := by
  unfold validateReply
  cases hc : e.validate text with
  | error x =>
    rw [translate_of_unread hc]
    cases asData <;> rfl
  | ok v =>
    cases hv : v.valid with
    | false =>
      rw [translate_of_invalid hc hv]
      simp [hv, Except.isOk, Except.toBool]
    | true =>
      rcases translate_of_valid target hc hv with ⟨x, hx⟩ | ⟨code, hx⟩ <;>
        simp [fault?, hx, hv, Except.isOk, Except.toBool]

end Engine

/-! ## Runs -/

/-- A run that checks a statement for a target and one that asks for its code end with the same
status, whatever configuration they share and in whatever form each of them answers. -/
theorem Invocation.status_validate (file : SettingsFile) (input : List Char) (programs : Programs)
    (target : Target) (o o' : Options) :
    (Invocation.reply ⟨.statement (.validate target), o⟩ file input programs).status =
      (Invocation.reply ⟨.statement (.translate target), o'⟩ file input programs).status := by
  unfold Invocation.reply
  cases file.settings with
  | error message => rfl
  | ok settings =>
    cases hd : settings.dictionary with
    | error x => simp only [hd]
    | ok d =>
      simp only [hd]
      split
      · rfl
      · exact (Engine.status_validateReply o.json).trans (Engine.status_translateReply o'.json).symm

/-- Checking and translating agree. On the command line a check of a statement for a target ends
with status 0 exactly if the request for its code does, with answers as data or as text. In the
library a translation fails on the issues of a statement exactly if the check finds the statement
invalid with these issues, and code comes with the warnings of the check in their order. -/
theorem validate_agrees_translate :
    (∀ (file : SettingsFile) (input : List Char) (programs : Programs) (target : Target)
        (o o' : Options),
      (Invocation.reply ⟨.statement (.validate target), o⟩ file input programs).status = 0 ↔
        (Invocation.reply ⟨.statement (.translate target), o'⟩ file input programs).status = 0) ∧
    ∀ (e : Engine) (text : List Char) (target : Target),
      (∀ issues, e.translate text target = .error (.invalid issues) ↔
        ∃ v, e.validate text = .ok v ∧ v.valid = false ∧ v.issues = issues) ∧
      ∀ g, e.translate text target = .ok g →
        ∃ v, e.validate text = .ok v ∧ v.valid = true ∧ g.warnings = v.warnings := by
  refine ⟨?_, ?_⟩
  · intro file input programs target o o'
    rw [Invocation.status_validate file input programs target o o']
  · intro e text target
    exact ⟨fun _ => Engine.translate_eq_invalid_iff, fun _ => Engine.validate_of_translate⟩

end DataPhrase
