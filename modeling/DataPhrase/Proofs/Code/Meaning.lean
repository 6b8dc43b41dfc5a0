/-
# Conditions in target code

A condition in target code spells its marks (`text_ofCondition`). Code puts conditions together in
two ways, joined by a connective or as arguments of a verb, and either way what it spells is read
back to formulas of the same truth (`means_joined`, `means_each`).
-/
import DataPhrase.Code.Resolve
import DataPhrase.Proofs.Code.Connectives
import DataPhrase.Proofs.Settled

namespace DataPhrase.Logic

open Code

/-! ## Spelling -/

section Spelling

variable (st : Style) (sc : Scope)

/-- The text of a comparison or a call as it is settled, or of another test as it is written. -/
def testText : Condition.Test → String
  | .inl c =>
    match Cond.ofCondition sc c with
    | .ok x => x.text st
    | .error _ => ""
  | .inr a => a

/-- The text of a mark. -/
def markText : Mark Condition.Test → String
  | .test a => testText st sc a
  | .connective op => st.connective op
  | .negation => st.negation
  | .opening => "("
  | .closing => ")"

/-- The text of marks. -/
def spell (ms : List (Mark Condition.Test)) : String :=
  String.join (ms.map (markText st sc))

end Spelling

variable {st : Style} {sc : Scope} {ms ns : List (Mark Condition.Test)}

/-- Marks in a row are spelled in a row. -/
theorem spell_append : spell st sc (ms ++ ns) = spell st sc ms ++ spell st sc ns := by
  rw [spell, List.map_append, String.join_append]
  rfl

theorem spell_cons {m : Mark Condition.Test} :
    spell st sc (m :: ms) = markText st sc m ++ spell st sc ms := by
  rw [spell, List.map_cons, String.join_cons]
  rfl

theorem spell_singleton {m : Mark Condition.Test} : spell st sc [m] = markText st sc m := by
  rw [spell_cons]
  exact String.append_empty

/-- Parentheses are spelled around the marks. -/
theorem spell_parens : spell st sc (.opening :: ms ++ [Mark.closing]) = parens (spell st sc ms) := by
  rw [List.cons_append, spell_cons, spell_append, spell_singleton, ← String.append_assoc]
  rfl

/-- Marks joined by a connective are spelled with the connective between. -/
theorem spell_intercalate (op : LogicalOp) (l : List (List (Mark Condition.Test))) :
    spell st sc ([.connective op].intercalate l) =
      (st.connective op).intercalate (l.map (spell st sc)) := by
  induction l with
  | nil => rfl
  | cons ms l ih =>
    cases l with
    | nil => rw [List.intercalate_singleton, List.map_singleton, String.intercalate_singleton]
    | cons ns l =>
      have hne : (ns :: l).map (spell st sc) ≠ [] := List.cons_ne_nil _ _
      rw [List.intercalate_cons_cons, spell_append, spell_append, ih, spell_singleton, markText,
        List.map_cons (a := ms), String.intercalate_cons_of_ne_nil hne]

/-- Settling keeps conjunctions and alternatives what they are. -/
theorem shape_ofCondition {c : Condition} {x : Cond} (h : Cond.ofCondition sc c = .ok x) :
    x.isLogical = c.isLogical ∧ x.isOr = c.isOr := by
  cases c with
  | comparison l op r =>
    unfold Cond.ofCondition Cond.ofComparison at h
    split at h
    · obtain ⟨_, -, h⟩ := bind_eq_ok.mp h
      cases h
      exact ⟨rfl, rfl⟩
    · obtain ⟨_, -, h⟩ := bind_eq_ok.mp h
      cases h
      exact ⟨rfl, rfl⟩
    · obtain ⟨_, -, h⟩ := bind_eq_ok.mp h
      obtain ⟨_, -, h⟩ := bind_eq_ok.mp h
      cases h
      exact ⟨rfl, rfl⟩
  | logical op cs =>
    obtain ⟨_, -, h⟩ := bind_eq_ok.mp h
    cases h
    cases op <;> exact ⟨rfl, rfl⟩
  | not c =>
    obtain ⟨_, -, h⟩ := bind_eq_ok.mp h
    cases h
    exact ⟨rfl, rfl⟩
  | call n args =>
    obtain ⟨_, -, h⟩ := bind_eq_ok.mp h
    obtain ⟨_, -, h⟩ := bind_eq_ok.mp h
    cases h
    exact ⟨rfl, rfl⟩

mutual

/-- **The text of a settled condition spells the marks of the condition.** -/
theorem text_ofCondition (c : Condition) (x : Cond) (h : Cond.ofCondition sc c = .ok x) :
    x.text st = spell st sc c.marks := by
  cases c with
  | comparison l op r =>
    rw [Condition.marks, spell_singleton, markText, testText, h]
  | call n args =>
    rw [Condition.marks, spell_singleton, markText, testText, h]
  | logical op cs =>
    obtain ⟨xs, hxs, h⟩ := bind_eq_ok.mp h
    cases h
    rw [Cond.text, Condition.marks, spell_intercalate, childTexts_ofConditions cs xs hxs]
  | not c =>
    obtain ⟨y, hy, h⟩ := bind_eq_ok.mp h
    cases h
    rw [Cond.text, text_ofCondition c y hy, Condition.marks, List.cons_append, spell_cons,
      spell_parens]
    rfl

/-- The texts of the children are their marks spelled. -/
theorem childTexts_ofConditions (cs : List Condition) (xs : List Cond)
    (h : Cond.ofConditions sc cs = .ok xs) :
    Cond.childTexts st xs = (Condition.childMarks cs).map (spell st sc) := by
  cases cs with
  | nil =>
    cases h
    rfl
  | cons c cs =>
    obtain ⟨x, hx, h⟩ := bind_eq_ok.mp h
    obtain ⟨ys, hys, h⟩ := bind_eq_ok.mp h
    cases h
    rw [Cond.childTexts, Condition.childMarks, List.map_cons, childTexts_ofConditions cs ys hys,
      (shape_ofCondition hx).1, text_ofCondition c x hx]
    split
    · rw [spell_parens]
    · rfl

end

/-- The text of a conjunct is its marks spelled. -/
theorem conjunctText_ofCondition {c : Condition} {x : Cond} (h : Cond.ofCondition sc c = .ok x) :
    Cond.conjunctText st x = spell st sc c.conjunctMarks := by
  rw [Cond.conjunctText, Condition.conjunctMarks, (shape_ofCondition h).2, text_ofCondition c x h]
  split
  · rw [spell_parens]
  · rfl

/-! ## Places -/

/-- The texts stand in the text in order, one behind the other. -/
def Shows : String → List String → Prop
  | _, [] => True
  | s, x :: l => ∃ front back, s = front ++ x ++ back ∧ Shows back l

section Places

variable {s s' : String} {l l' : List String}

theorem shows_nil (s : String) : Shows s [] :=
  trivial

theorem shows_self (x : String) : Shows x [x] :=
  ⟨"", "", by rw [String.empty_append, String.append_empty], trivial⟩

theorem Shows.prepend (a : String) (h : Shows s l) : Shows (a ++ s) l := by
  cases l with
  | nil => trivial
  | cons x l =>
    obtain ⟨front, back, rfl, h⟩ := h
    exact ⟨a ++ front, back, by simp only [String.append_assoc], h⟩

theorem Shows.append (h : Shows s l) (h' : Shows s' l') : Shows (s ++ s') (l ++ l') := by
  induction l generalizing s with
  | nil => exact h'.prepend s
  | cons x l ih =>
    obtain ⟨front, back, rfl, h⟩ := h
    exact ⟨front, back ++ s', by simp only [String.append_assoc], ih h⟩

theorem Shows.extend (h : Shows s l) (a : String) : Shows (s ++ a) l := by
  have happend := h.append (shows_nil a)
  rwa [List.append_nil] at happend

end Places

/-! ## Meaning -/

open Rows.Algebra (conjunction)

/-- Each of the texts spells marks that are read as a formula. Whatever the truth of the comparisons
and calls (`v`) and of the other tests (`w`), the formulas together are true, false or unknown as
the conditions and the tests together are. -/
def Means (st : Style) (sc : Scope) (texts : List String) (cs : List Condition)
    (tests : List String) : Prop :=
  ∃ fs : List (Formula Condition.Test),
    List.Forall₂ (fun text f => ∃ ms, spell st sc ms = text ∧ read? ms = some f) texts fs ∧
      ∀ v w, conjunction (fs.map (Formula.truth (Sum.elim v w))) =
        conjunction (cs.map (Condition.truth v) ++ tests.map w)

/-- Parts with a separator between them, if there are any. -/
def joined (separator : String) (parts : List String) : List String :=
  if parts.isEmpty then [] else [separator.intercalate parts]

/-- Joined parts that are joined to others are joined like the others. -/
theorem joined_append_intercalate {separator : String} (l : List String) {parts : List String}
    (hne : parts ≠ []) : joined separator (l ++ [separator.intercalate parts]) =
      joined separator (l ++ parts) := by
  have hsome {r : List String} (hr : r ≠ []) : ¬ (l ++ r).isEmpty = true := by
    rw [List.isEmpty_iff]
    exact List.append_ne_nil_of_right_ne_nil l hr
  rw [joined, joined, if_neg (hsome (List.cons_ne_nil _ _)), if_neg (hsome hne)]
  cases l with
  | nil => rw [List.nil_append, List.nil_append, String.intercalate_singleton]
  | cons a l =>
    rw [String.intercalate_append_of_ne_nil (List.cons_ne_nil a l) (List.cons_ne_nil _ _),
      String.intercalate_append_of_ne_nil (List.cons_ne_nil a l) hne, String.intercalate_singleton]

section Meaning

variable {cs : List Condition} {xs : List Cond}

/-- The texts of conjuncts are their marks spelled, one by one. -/
theorem conjunctTexts_eq
    (h : List.Forall₂ (fun c x => Cond.ofCondition sc c = .ok x) cs xs) :
    xs.map (Cond.conjunctText st) = (cs.map Condition.conjunctMarks).map (spell st sc) := by
  induction h with
  | nil => rfl
  | cons hx _ ih =>
    rw [List.map_cons, List.map_cons, List.map_cons, ih, conjunctText_ofCondition hx]

/-- **Joined by a connective, conditions and tests have the meaning of their conjunction.** -/
theorem means_joined (hcs : ∀ c ∈ cs, c.IsFilled)
    (h : List.Forall₂ (fun c x => Cond.ofCondition sc c = .ok x) cs xs) (tests : List String) :
    Means st sc (joined (st.connective .and) (xs.map (Cond.conjunctText st) ++ tests)) cs
      tests := by
  have htests : tests =
      (tests.map fun a => [Mark.test (.inr a)]).map (spell st sc) := by
    rw [List.map_map]
    refine (List.map_id tests).symm.trans (List.map_congr_left fun a _ => ?_)
    show a = spell st sc [.test (.inr a)]
    rw [spell_singleton]
    rfl
  rw [joined]
  split
  · next hnone =>
    -- Nothing is written, and nothing is to be tested.
    rw [List.isEmpty_iff, List.append_eq_nil_iff, List.map_eq_nil_iff] at hnone
    obtain ⟨rfl, rfl⟩ := hnone
    cases h
    exact ⟨[], .nil, fun _ _ => rfl⟩
  · next hsome =>
    have hne : cs ≠ [] ∨ tests ≠ [] := by
      rw [← not_and_or]
      rintro ⟨rfl, rfl⟩
      cases h
      exact hsome rfl
    obtain ⟨f, hread, htruth⟩ := Condition.exists_read?_conjuncts hne hcs
    refine ⟨[f], .cons ⟨_, ?_, hread⟩ .nil, fun v w => ?_⟩
    · rw [spell_intercalate, List.map_append, ← conjunctTexts_eq h, ← htests]
    · rw [List.map_singleton, ← connect_and, connect_singleton, htruth]
      rfl

/-- **As arguments of a verb, conditions and tests have the meaning of their conjunction.** -/
theorem means_each (hcs : ∀ c ∈ cs, c.IsFilled)
    (h : List.Forall₂ (fun c x => Cond.ofCondition sc c = .ok x) cs xs) (tests : List String) :
    Means st sc (xs.map (Cond.text st) ++ tests) cs tests := by
  induction h with
  | nil =>
    refine ⟨tests.map fun a => .test (.inr a), ?_, fun v w => ?_⟩
    · refine List.forall₂_map_right_iff.mpr (List.forall₂_same.mpr fun a _ => ?_)
      exact ⟨[.test (.inr a)], spell_singleton, rfl⟩
    · rw [List.map_map]
      rfl
  | @cons c x cs xs hx _ ih =>
    rw [List.forall_mem_cons] at hcs
    obtain ⟨fs, hfs, htruths⟩ := ih hcs.2
    obtain ⟨f, hread, htruth⟩ := hcs.1.reads.2.2.exists_read?
    refine ⟨f :: fs, .cons ⟨_, (text_ofCondition c x hx).symm, hread⟩ hfs, fun v w => ?_⟩
    -- The first argument is one more condition in the conjunction of the others.
    have hcons (t : Option Bool) (ts : List (Option Bool)) :
        conjunction (t :: ts) = connect .and ([t] ++ [connect .and ts]) :=
      (connect_concat .and [t] ts).symm
    rw [List.map_cons, List.map_cons, List.cons_append, hcons, hcons, htruth, connect_and, htruths]
    rfl

end Meaning

end DataPhrase.Logic
