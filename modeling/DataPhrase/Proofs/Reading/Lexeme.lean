/-
# Lexemes in front of a text

What the readers of words, marks, names and lists give, as equations on plain lists of characters.
A word in front of a text is described by `wordAhead?`, a certain word by `after?`.
-/
import DataPhrase.Lexeme
import DataPhrase.Proofs.Reading.Outcome

namespace DataPhrase

open Text

namespace Lexeme

variable {α : Type} {s t r q w : List Char} {c : Char} {k : String}

/-! ## Blanks -/

/-- The code points of the blanks. -/
def blankCodes : List Nat :=
  [9, 10, 11, 12, 13, 32, 133, 160, 5760, 8192, 8193, 8194, 8195, 8196, 8197, 8198, 8199, 8200,
   8201, 8202, 8232, 8233, 8239, 8287, 12288]

/-- The codes of blanks are in the list. -/
theorem toNat_mem_blankCodes (h : isBlank c = true) : c.toNat ∈ blankCodes := by
  have hruns : ∀ r ∈ whiteSpaceRuns, ∀ n ∈ List.range' r.1 (r.2 + 1 - r.1), n ∈ blankCodes := by
    decide
  obtain ⟨r, hr, h⟩ := List.any_eq_true.mp h
  rw [Bool.and_eq_true, decide_eq_true_iff, decide_eq_true_iff] at h
  exact hruns r hr c.toNat (List.mem_range'_1.mpr (by omega))

/-- A property of every code point in the list of blanks is one of every blank. -/
theorem forall_isBlank {p : Char → Bool} (hp : ∀ n ∈ blankCodes, p (Char.ofNat n) = true)
    (h : isBlank c = true) : p c = true := by
  have := hp c.toNat (toNat_mem_blankCodes h)
  rwa [Char.ofNat_toNat] at this

/-- A blank is no letter. -/
theorem not_isLetter_of_isBlank (h : isBlank c = true) : isLetter c = false := by
  have := forall_isBlank (p := fun c => !isLetter c) (by decide +kernel) h
  rwa [Bool.not_eq_true'] at this

/-- A blank is no character of a name. -/
theorem not_isNameChar_of_isBlank (h : isBlank c = true) : isNameChar c = false := by
  have := forall_isBlank (p := fun c => !(c.isDigit ||
    (decide (0x80 ≤ c.toNat) && inRuns numberRuns c.toNat) || c == '_')) (by decide +kernel) h
  rw [Bool.not_eq_true'] at this
  rw [isNameChar, isAlphanumeric, not_isLetter_of_isBlank h, Bool.false_or, this]

/-- A character of a name is no blank. -/
theorem not_isBlank_of_isNameChar (h : isNameChar c = true) : isBlank c = false := by
  cases hb : isBlank c with
  | false => rfl
  | true =>
    rw [not_isNameChar_of_isBlank hb] at h
    cases h

/-- The first character of a name can stand inside of one. -/
theorem isNameChar_of_isNameStart (h : isNameStart c = true) : isNameChar c = true := by
  unfold isNameStart at h
  unfold isNameChar isAlphanumeric
  rw [Bool.or_eq_true] at h ⊢
  rcases h with h | h
  · left
    simp [h]
  · exact Or.inr h

theorem not_isNameStart_of_isBlank (h : isBlank c = true) : isNameStart c = false := by
  cases hc : isNameStart c with
  | false => rfl
  | true =>
    have := not_isNameChar_of_isBlank h
    rw [isNameChar_of_isNameStart hc] at this
    cases this

/-- A blank that may stand before the comma of a list is a blank. -/
theorem isBlank_of_isListGap (h : isListGap c = true) : isBlank c = true := by
  simp only [isListGap, Bool.or_eq_true, beq_iff_eq] at h
  rcases h with ((rfl | rfl) | rfl) | rfl <;> decide

/-! ## Trimming -/

@[simp] theorem trim_nil : trim [] = [] := rfl

theorem trim_cons_of_not_isBlank (h : isBlank c = false) : trim (c :: s) = c :: s := by
  rw [trim, List.dropWhile_cons_of_neg (by simp [h])]

/-- Blanks in front are skipped one by one. -/
theorem trim_cons_of_isBlank (h : isBlank c = true) : trim (c :: s) = trim s := by
  rw [trim, List.dropWhile_cons_of_pos h, trim]

/-- What is left after trimming starts with no blank. -/
theorem not_isBlank_of_trim (h : trim s = c :: t) : isBlank c = false := by
  have := List.head?_dropWhile_not isBlank s
  rw [← trim, h] at this
  simpa using this

/-- Skipping blanks twice skips them once. -/
@[simp] theorem trim_trim : trim (trim s) = trim s := by
  cases h : trim s with
  | nil => rfl
  | cons c t => exact trim_cons_of_not_isBlank (not_isBlank_of_trim h)

/-- The blanks in front and what follows them are the text. -/
theorem takeWhile_append_trim (s : List Char) : s.takeWhile isBlank ++ trim s = s :=
  List.takeWhile_append_dropWhile

theorem isBlank_of_mem_takeWhile (s : List Char) : ∀ c ∈ s.takeWhile isBlank, isBlank c = true :=
  List.all_eq_true.mp List.all_takeWhile

theorem length_lt_of_trim (h : trim s = c :: t) : t.length < s.length :=
  length_lt_of_cons_suffix (h ▸ trim_suffix s)

/-- Put `t` behind a trimmed text. -/
def glue (s t : List Char) : List Char :=
  if s = [] then trim t else s ++ t

@[simp] theorem glue_nil : glue [] t = trim t := rfl

/-- Only a text that is all blanks is trimmed away before the other. -/
@[simp] theorem glue_cons : glue (c :: s) t = c :: (s ++ t) := rfl

/-- Trimming a text with `t` behind it. -/
theorem trim_append : trim (s ++ t) = glue (trim s) t := by
  induction s with
  | nil => rfl
  | cons c s ih =>
    by_cases h : isBlank c = true
    · rw [List.cons_append, trim_cons_of_isBlank h, trim_cons_of_isBlank h, ih]
    · rw [Bool.not_eq_true] at h
      rw [List.cons_append, trim_cons_of_not_isBlank h, trim_cons_of_not_isBlank h, glue_cons]

/-- The text ends with no blank. -/
def EndsSolid (s : List Char) : Prop :=
  ∃ t c, s = t ++ [c] ∧ isBlank c = false

theorem endsSolid_singleton (h : isBlank c = false) : EndsSolid [c] :=
  ⟨[], c, rfl, h⟩

/-- A text without blanks ends with no blank. -/
theorem endsSolid_of_forall (hne : s ≠ []) (hs : ∀ c ∈ s, isBlank c = false) : EndsSolid s :=
  ⟨s.dropLast, s.getLast hne, (List.dropLast_concat_getLast hne).symm,
    hs _ (List.getLast_mem hne)⟩

/-- Only the end of a text tells whether it ends with a blank. -/
theorem EndsSolid.append (h : EndsSolid s) (t : List Char) : EndsSolid (t ++ s) := by
  obtain ⟨u, c, rfl, hc⟩ := h
  exact ⟨t ++ u, c, by rw [List.append_assoc], hc⟩

theorem EndsSolid.cons (h : EndsSolid s) (c : Char) : EndsSolid (c :: s) :=
  h.append [c]

/-- An ending of such a text that is not empty holds more than blanks. -/
theorem EndsSolid.eq_nil_of_trim (h : EndsSolid s) (ht : t <:+ s) (htrim : trim t = []) :
    t = [] := by
  obtain ⟨u, c, rfl, hc⟩ := h
  by_cases hne : t = []
  · exact hne
  obtain ⟨v, d, rfl⟩ : ∃ v d, t = v ++ [d] := ⟨_, _, (List.dropLast_concat_getLast hne).symm⟩
  obtain ⟨w, hw⟩ := ht
  -- the last characters are one, so trimming cannot take this one off
  rw [← List.append_assoc] at hw
  have hd : d = c := by simpa using (List.append_inj' hw rfl).2
  rw [trim_append] at htrim
  cases hv : trim v with
  | nil =>
    rw [hv, glue_nil, trim_cons_of_not_isBlank (hd ▸ hc)] at htrim
    cases htrim
  | cons =>
    rw [hv, glue_cons] at htrim
    cases htrim

/-! ## Words -/

/-- The word in front of a text and what follows it. -/
def wordAhead? (s : List Char) : Option (List Char × List Char) :=
  match trim s with
  | [] => none
  | c :: t => if isNameStart c then some (c :: t.takeWhile isNameChar, t.dropWhile isNameChar) else none

/-- What follows the word `k`, if it is in front of the text. -/
def after? (k : String) (s : List Char) : Option (List Char) :=
  match wordAhead? s with
  | some (w, r) => if sameWord w k.toList then some r else none
  | none => none

/-- The next word is the word in front. -/
theorem nextWord_map : (nextWord s).map (fun x => (x.1.value, x.1.rest)) = wordAhead? s := by
  unfold nextWord wordAhead?
  split
  · next h => rw [h]; rfl
  · next c t h =>
    simp only [h]
    split <;> rfl

/-- Either no word is in front, or `nextWord` and `wordAhead?` find the same. -/
theorem nextWord_cases (s : List Char) :
    (nextWord s = none ∧ wordAhead? s = none) ∨
      ∃ x, nextWord s = some x ∧ wordAhead? s = some (x.1.value, x.1.rest) := by
  have h := nextWord_map (s := s)
  cases hn : nextWord s with
  | none =>
    rw [hn] at h
    exact Or.inl ⟨rfl, h.symm⟩
  | some x =>
    rw [hn] at h
    exact Or.inr ⟨x, rfl, h.symm⟩

theorem wordAhead?_of_none (h : nextWord s = none) : wordAhead? s = none := by
  rw [← nextWord_map, h]
  rfl

theorem wordAhead?_of_some {x : { x : Read s (List Char) // x.rest.length < s.length }}
    (h : nextWord s = some x) : wordAhead? s = some (x.1.value, x.1.rest) := by
  rw [← nextWord_map, h]
  rfl

theorem peekWord_eq : peekWord s = ((wordAhead? s).map Prod.fst).getD [] := by
  unfold peekWord
  rcases nextWord_cases s with ⟨hn, hw⟩ | ⟨x, hn, hw⟩
  · rw [hn, hw]
    rfl
  · rw [hn, hw]
    rfl

/-- Blanks in front of a word do not count. -/
@[simp] theorem wordAhead?_trim : wordAhead? (trim s) = wordAhead? s := by
  rw [wordAhead?, trim_trim, wordAhead?]

@[simp] theorem after?_trim : after? k (trim s) = after? k s := by
  rw [after?, wordAhead?_trim, after?]

/-- A word in front is never empty. -/
theorem ne_nil_of_wordAhead? (h : wordAhead? s = some (w, r)) : w ≠ [] := by
  unfold wordAhead? at h
  split at h
  · cases h
  · split at h
    · cases h
      exact List.cons_ne_nil _ _
    · cases h

/-- The word in front is written in characters of names. -/
theorem isNameChar_of_wordAhead? (h : wordAhead? s = some (w, r)) (hc : c ∈ w) :
    isNameChar c = true := by
  unfold wordAhead? at h
  split at h
  · cases h
  · split at h
    · next hs =>
      cases h
      rcases List.mem_cons.mp hc with rfl | hc
      · exact isNameChar_of_isNameStart hs
      · exact List.all_eq_true.mp List.all_takeWhile c hc
    · cases h

/-- The word in front and what follows it make up the text. -/
theorem append_wordAhead? (h : wordAhead? s = some (w, r)) : trim s = w ++ r := by
  unfold wordAhead? at h
  split at h
  · cases h
  · next c t hs =>
    split at h
    · cases h
      rw [hs, List.cons_append, List.takeWhile_append_dropWhile]
    · cases h

theorem trim_ne_nil_of_wordAhead? (h : wordAhead? s = some (w, r)) : trim s ≠ [] := by
  rw [append_wordAhead? h]
  exact List.append_ne_nil_of_left_ne_nil (ne_nil_of_wordAhead? h) r

/-- A word takes at least one character. -/
theorem length_lt_of_wordAhead? (h : wordAhead? s = some (w, r)) : r.length < s.length := by
  have hpos := List.length_pos_iff.mpr (ne_nil_of_wordAhead? h)
  have hlen := (trim_suffix s).length_le
  rw [append_wordAhead? h, List.length_append] at hlen
  omega

/-- The word `k` is in front, with `r` after it. -/
theorem after?_eq_some : after? k s = some r ↔
    ∃ w, wordAhead? s = some (w, r) ∧ sameWord w k.toList = true := by
  unfold after?
  cases h : wordAhead? s with
  | none => simp
  | some x =>
    obtain ⟨w, q⟩ := x
    dsimp only
    split
    · next hk =>
      constructor
      · intro hq
        cases hq
        exact ⟨w, rfl, hk⟩
      · rintro ⟨v, hv, -⟩
        cases hv
        rfl
    · next hk =>
      constructor
      · intro hq
        cases hq
      · rintro ⟨v, hv, hs⟩
        cases hv
        exact absurd hs hk

/-- A keyword takes at least one character. -/
theorem length_lt_of_after? (h : after? k s = some r) : r.length < s.length := by
  obtain ⟨w, hw, -⟩ := after?_eq_some.mp h
  exact length_lt_of_wordAhead? hw

/-- The word `k` is not in front. -/
theorem after?_eq_none : after? k s = none ↔
    ∀ w r, wordAhead? s = some (w, r) → sameWord w k.toList = false := by
  rw [Option.eq_none_iff_forall_not_mem]
  simp only [Option.mem_def, after?_eq_some]
  constructor
  · intro h w r hw
    rw [← Bool.not_eq_true]
    intro hs
    exact h r ⟨w, hw, hs⟩
  · rintro h r ⟨w, hw, hs⟩
    rw [h w r hw] at hs
    cases hs

/-! ## Readers of words and marks -/

/-- Skipping blanks leaves the trimmed text. -/
@[simp] theorem gives_skipBlanks {u : Unit} : (skipBlanks s).Gives u r ↔ trim s = r :=
  Reader.gives_skipWhile

/-- What is expected is never found there. -/
@[simp] theorem not_gives_expected {e : Expected} {a : α} : ¬ (expected e s).Gives a r :=
  Reader.not_gives_fail

/-- A keyword is taken if it is in front; if not, nothing is taken. -/
theorem gives_eatWord {b : Bool} : (eatWord k s).Gives b r ↔
    (after? k s = some r ∧ b = true) ∨ (after? k s = none ∧ s = r ∧ b = false) := by
  unfold eatWord after?
  rcases nextWord_cases s with ⟨hn, hw⟩ | ⟨x, hn, hw⟩
  · rw [hn, hw]
    show (Outcome.done false s _ : Outcome Cause s Bool).Gives b r ↔ _
    rw [Outcome.gives_done]
    constructor
    · rintro ⟨rfl, rfl⟩
      exact Or.inr ⟨rfl, rfl, rfl⟩
    · rintro (⟨h, -⟩ | ⟨-, rfl, rfl⟩)
      · cases h
      · exact ⟨rfl, rfl⟩
  · rw [hn, hw]
    dsimp only
    by_cases hs : sameWord x.1.value k.toList = true
    · rw [if_pos hs, if_pos hs, Outcome.gives_ok]
      constructor
      · rintro ⟨rfl, rfl⟩
        exact Or.inl ⟨rfl, rfl⟩
      · rintro (⟨h, rfl⟩ | ⟨h, -⟩)
        · cases h
          exact ⟨rfl, rfl⟩
        · cases h
    · rw [if_neg hs, if_neg hs, Outcome.gives_done]
      constructor
      · rintro ⟨rfl, rfl⟩
        exact Or.inr ⟨rfl, rfl, rfl⟩
      · rintro (⟨h, -⟩ | ⟨-, rfl, rfl⟩)
        · cases h
        · exact ⟨rfl, rfl⟩

/-- A keyword that is required has to be in front. -/
theorem gives_keyword {u : Unit} : (keyword k s).Gives u r ↔ after? k s = some r := by
  unfold keyword
  rw [Reader.gives_bind]
  constructor
  · rintro ⟨b, q, hb, h⟩
    rcases gives_eatWord.mp hb with ⟨ha, rfl⟩ | ⟨-, -, rfl⟩
    · obtain ⟨-, rfl⟩ := Reader.gives_pure.mp h
      exact ha
    · rw [if_neg Bool.false_ne_true, Reader.gives_bind] at h
      obtain ⟨_, _, _, h⟩ := h
      exact absurd h not_gives_expected
  · intro h
    exact ⟨true, r, gives_eatWord.mpr (Or.inl ⟨h, rfl⟩), Reader.gives_pure.mpr ⟨rfl, rfl⟩⟩

/-- A mark that is required has to be in front, behind blanks at most. -/
theorem gives_mark {m : String} {u : Unit} :
    (mark m s).Gives u r ↔ trim s = m.toList ++ r := by
  unfold mark
  rw [Reader.gives_bind]
  unfold eatMark
  by_cases hm : m.toList.isPrefixOf (trim s) = true
  · simp only [hm, if_true, Outcome.gives_done]
    obtain ⟨q, hq⟩ := List.isPrefixOf_iff_prefix.mp hm
    rw [← hq, List.drop_left]
    constructor
    · rintro ⟨b, p, ⟨rfl, rfl⟩, h⟩
      obtain ⟨-, rfl⟩ := Reader.gives_pure.mp h
      rfl
    · intro h
      rw [List.append_cancel_left h]
      exact ⟨true, r, ⟨rfl, rfl⟩, Reader.gives_pure.mpr ⟨rfl, rfl⟩⟩
  · simp only [hm, Bool.false_eq_true, if_false, Outcome.gives_done]
    constructor
    · rintro ⟨b, p, ⟨rfl, rfl⟩, h⟩
      exact absurd h not_gives_expected
    · intro h
      exact absurd (List.isPrefixOf_iff_prefix.mpr ⟨r, h.symm⟩) hm

/-! ## Names -/

/-- An identifier is the word in front. -/
theorem gives_identifier {n : String} : (identifier s).Gives n r ↔
    ∃ w, wordAhead? s = some (w, r) ∧ String.ofList w = n := by
  unfold identifier
  rcases nextWord_cases s with ⟨hn, hw⟩ | ⟨x, hn, hw⟩
  · simp [hn, hw]
  · simp only [hn, hw, Outcome.gives_ok, Read.map]
    constructor
    · rintro ⟨rfl, rfl⟩
      exact ⟨_, rfl, rfl⟩
    · rintro ⟨w, hx, rfl⟩
      cases hx
      exact ⟨rfl, rfl⟩

/-- A name is a word with the dotted words that follow it at once. -/
theorem gives_fieldName {n : String} : (fieldName s).Gives n r ↔
    ∃ w q, wordAhead? s = some (w, q) ∧ (dotted q).rest = r ∧
      String.ofList w ++ String.ofList (dotted q).value = n := by
  show Outcome.Gives ((identifier s).andThen fun first q _ =>
    .ok ((dotted q).map fun more => first ++ String.ofList more)) n r ↔ _
  rw [Outcome.gives_andThen]
  constructor
  · rintro ⟨a, q, -, ha, h⟩
    obtain ⟨w, hw, rfl⟩ := gives_identifier.mp ha
    obtain ⟨hv, hr⟩ := Outcome.gives_ok.mp h
    exact ⟨w, q, hw, hr, hv⟩
  · rintro ⟨w, q, hw, hr, hv⟩
    have ha := gives_identifier.mpr ⟨w, hw, rfl⟩
    exact ⟨_, q, ha.suffix, ha, Outcome.gives_ok.mpr ⟨hv, hr⟩⟩

/-- A name of a source or a target is a field name. -/
theorem gives_datasetName {n : String} : (datasetName s).Gives n r ↔ (fieldName s).Gives n r := by
  unfold datasetName
  rw [Reader.gives_bind]
  simp only [gives_skipBlanks, Reader.gives_bind, Reader.gives_look]
  constructor
  · rintro ⟨_, _, rfl, _, _, ⟨rfl, rfl⟩, h⟩
    split at h
    · exact absurd h not_gives_expected
    · rw [gives_fieldName, wordAhead?_trim] at h
      exact gives_fieldName.mpr h
  · intro h
    refine ⟨(), _, rfl, _, _, ⟨rfl, rfl⟩, ?_⟩
    obtain ⟨w, q, hw, hr, hv⟩ := gives_fieldName.mp h
    rw [peekWord_eq, wordAhead?_trim, hw, if_neg]
    · exact gives_fieldName.mpr ⟨w, q, by rw [wordAhead?_trim, hw], hr, hv⟩
    · simpa using ne_nil_of_wordAhead? hw

/-! ## Lists -/

/-- The items `l` stand one after another in front of `r`, each read by `p` behind the separator
that `sep` takes off. -/
inductive Repeats (sep : List Char → Option (List Char)) (p : Phrase α) :
    List Char → List α → List Char → Prop where
  | stop {s : List Char} (h : sep s = none) : Repeats sep p s [] s
  | next {s t q r : List Char} {a : α} {l : List α} (h : sep s = some t) (ha : (p t).Gives a q)
      (hl : Repeats sep p q l r) : Repeats sep p s (a :: l) r

/-- What holds of every item that is read holds of every item of a list. -/
theorem Repeats.forall {sep : List Char → Option (List Char)} {p : Phrase α} {l : List α}
    {P : α → Prop} (h : Repeats sep p s l r) (hp : ∀ s a r, (p s).Gives a r → P a) :
    ∀ a ∈ l, P a := by
  induction h with
  | stop =>
    intro a ha
    cases ha
  | next _ ha _ ih => exact List.forall_mem_cons.mpr ⟨hp _ _ _ ha, ih⟩

/-- The text after a comma that stands behind list gaps. -/
def commaAfterGap (s : List Char) : Option (List Char) :=
  match s.dropWhile isListGap with
  | ',' :: t => some t
  | _ => none

/-- The text after a comma that stands behind blanks. -/
def commaAfterBlanks (s : List Char) : Option (List Char) :=
  match trim s with
  | ',' :: t => some t
  | _ => none

/-- The comma of a list stands behind gaps. -/
theorem commaAfterGap_eq_some : commaAfterGap s = some t ↔ s.dropWhile isListGap = ',' :: t := by
  unfold commaAfterGap
  split
  · next u h => simp [h]
  · next h =>
    simp only [reduceCtorEq, false_iff]
    exact h t

theorem commaAfterBlanks_eq_some : commaAfterBlanks s = some t ↔ trim s = ',' :: t := by
  unfold commaAfterBlanks
  split
  · next u h => simp [h]
  · next h =>
    simp only [reduceCtorEq, false_iff]
    exact h t

/-- An item with further items behind it. -/
theorem gives_item {p : Phrase α} {f : Phrase (List α)} {l : List α} {h : t <:+ s} :
    (((p t).andThen fun a r _ => (f r).map (a :: ·)).widen h).Gives l r ↔
      ∃ a q l', (p t).Gives a q ∧ (f q).Gives l' r ∧ a :: l' = l := by
  rw [Outcome.gives_widen, Outcome.gives_andThen]
  constructor
  · rintro ⟨a, q, _, ha, h⟩
    obtain ⟨l', hl, rfl⟩ := Outcome.gives_map.mp h
    exact ⟨a, q, l', ha, hl, rfl⟩
  · rintro ⟨a, q, l', ha, hl, rfl⟩
    exact ⟨a, q, ha.suffix, ha, Outcome.gives_map.mpr ⟨l', hl, rfl⟩⟩

/-- Further items of a list are repetitions behind commas. -/
theorem gives_moreOf {p : Phrase α} {l : List α} :
    (moreOf p s).Gives l r ↔ Repeats commaAfterGap p s l r := by
  constructor
  · intro h
    induction s using moreOf.induct generalizing l r with
    | case1 s t hs hsuf hlt ih =>
      rw [moreOf.eq_def] at h
      split at h
      · next u hu =>
        rw [hs] at hu
        cases hu
        obtain ⟨a, q, l', ha, hl, rfl⟩ := gives_item.mp h
        exact .next (commaAfterGap_eq_some.mpr hs) ha (ih q ha.suffix hl)
      · next hn => exact absurd hs (hn t)
    | case2 s hs =>
      rw [moreOf.eq_def] at h
      split at h
      · next u hu => exact absurd hu (hs u)
      · obtain ⟨rfl, rfl⟩ := Outcome.gives_done.mp h
        refine .stop ?_
        rw [Option.eq_none_iff_forall_ne_some]
        intro t ht
        exact hs t (commaAfterGap_eq_some.mp ht)
  · intro h
    induction h with
    | stop h =>
      rw [moreOf.eq_def]
      split
      · next u hu =>
        rw [commaAfterGap_eq_some.mpr hu] at h
        cases h
      · exact Outcome.gives_done.mpr ⟨rfl, rfl⟩
    | next h ha hl ih =>
      rw [moreOf.eq_def]
      split
      · next u hu =>
        rw [commaAfterGap_eq_some.mp h] at hu
        cases hu
        exact gives_item.mpr ⟨_, _, _, ha, ih, rfl⟩
      · next hn => exact absurd (commaAfterGap_eq_some.mp h) (hn _)

/-- A reader of further items that skips the blanks behind the last one gives what stands behind
separators. -/
theorem gives_iff_repeats {p : Phrase α} {f : Phrase (List α)}
    {sep : List Char → Option (List Char)} {l : List α}
    (hlt : ∀ s t, sep s = some t → t.length < s.length)
    (hf : ∀ s l r, (f s).Gives l r ↔ match sep s with
      | none => [] = l ∧ trim s = r
      | some t => ∃ a q l', (p t).Gives a q ∧ (f q).Gives l' r ∧ a :: l' = l) :
    (f s).Gives l r ↔ ∃ q, Repeats sep p s l q ∧ trim q = r := by
  constructor
  · intro h
    induction hn : s.length using Nat.strongRecOn generalizing s l with
    | ind n ih =>
      rw [hf] at h
      cases hs : sep s with
      | none =>
        rw [hs] at h
        obtain ⟨rfl, rfl⟩ := h
        exact ⟨s, .stop hs, rfl⟩
      | some t =>
        rw [hs] at h
        obtain ⟨a, q, l', ha, hl, rfl⟩ := h
        have hq := Nat.lt_of_le_of_lt ha.suffix.length_le (hlt s t hs)
        obtain ⟨u, hu, hr⟩ := ih q.length (hn ▸ hq) hl rfl
        exact ⟨u, .next hs ha hu, hr⟩
  · rintro ⟨q, h, rfl⟩
    induction h with
    | stop hs =>
      rw [hf, hs]
      exact ⟨rfl, rfl⟩
    | next hs ha _ ih =>
      rw [hf, hs]
      exact ⟨_, _, _, ha, ih, rfl⟩

/-- A list is an item and its repetitions. -/
theorem gives_listOf {p : Phrase α} {l : List α} : (listOf p s).Gives l r ↔
    ∃ a q l', (p s).Gives a q ∧ Repeats commaAfterGap p q l' r ∧ a :: l' = l := by
  show Outcome.Gives ((p s).andThen fun a q _ => (moreOf p q).andThen fun l r _ =>
    .done (a :: l) r (List.suffix_refl r)) l r ↔ _
  simp only [Outcome.gives_andThen, Outcome.gives_done, gives_moreOf]
  constructor
  · rintro ⟨a, q, -, ha, l', _, -, hl, rfl, rfl⟩
    exact ⟨a, q, l', ha, hl, rfl⟩
  · rintro ⟨a, q, l', ha, hl, rfl⟩
    exact ⟨a, q, ha.suffix, ha, l', r, (gives_moreOf.mpr hl).suffix, hl, rfl, rfl⟩

end Lexeme

end DataPhrase
