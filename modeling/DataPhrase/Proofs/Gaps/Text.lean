/-
# Texts with other gaps

Two texts are the same but for their gaps if the runs of gap characters outside their literals may
differ. What is read off the front of the one is then read off the front of the other, and what is
left is again the same but for its gaps. There is one exception: a list ends in front of a form feed
and a comma, so no form feed may come to stand before a comma (`Respaced`).
-/
import DataPhrase.Proofs.Token.Words
import DataPhrase.Token.Mask

namespace DataPhrase

open Text Lexeme

/-! ## Literals -/

/-- The state behind a character. -/
def MaskState.step : MaskState → Char → MaskState
  | .outside, c => if Token.isQuote c then .inside c else .outside
  | .inside q, c => if c = '\\' then .escaped q else if c = q then .outside else .inside q
  | .escaped q, _ => .inside q

/-- Outside a literal only a quote opens one. -/
theorem MaskState.step_outside {c : Char} (hc : Token.isQuote c = false) :
    MaskState.step .outside c = .outside := by
  rw [step, hc, if_neg Bool.false_ne_true]

theorem MaskState.step_quote {c : Char} (hc : Token.isQuote c = true) :
    MaskState.step .outside c = .inside c := by
  rw [step, if_pos hc]

/-! ## Gaps -/

/-- A run of gap characters. -/
def IsGaps (g : List Char) : Prop :=
  g ≠ [] ∧ ∀ c ∈ g, isGap c = true

instance (g : List Char) : Decidable (IsGaps g) :=
  decidable_of_iff (g ≠ [] ∧ g.all isGap = true) (by rw [IsGaps, List.all_eq_true])

/-- The texts, entered in the given state, are the same but for the gaps outside of literals. -/
inductive SameButGaps : MaskState → List Char → List Char → Prop where
  | nil (m : MaskState) : SameButGaps m [] []
  | char {m : MaskState} {c : Char} {s s' : List Char} (h : SameButGaps (m.step c) s s') :
      SameButGaps m (c :: s) (c :: s')
  | gaps {g g' s s' : List Char} (hg : IsGaps g) (hg' : IsGaps g') (h : SameButGaps .outside s s') :
      SameButGaps .outside (g ++ s) (g' ++ s')

/-- In the text, entered in the given state, a gap before a comma outside of literals holds a form
feed. -/
def feedBeforeComma : MaskState → List Char → Bool
  | _, [] => false
  | m, c :: r =>
    (m == .outside && c == '\x0c' && (r.dropWhile isGap).head? == some ',') ||
      feedBeforeComma (m.step c) r

/-- The texts are the same but for their gaps, and in the second one no gap before a comma holds a
form feed. -/
inductive Respaced : MaskState → List Char → List Char → Prop where
  | nil (m : MaskState) : Respaced m [] []
  | char {m : MaskState} {c : Char} {s s' : List Char} (hc : m = .outside → isGap c = false)
      (h : Respaced (m.step c) s s') : Respaced m (c :: s) (c :: s')
  | gaps {g g' s s' : List Char} (hg : IsGaps g) (hg' : IsGaps g')
      (hfeed : '\x0c' ∈ g' → (s'.dropWhile isGap).head? ≠ some ',') (h : Respaced .outside s s') :
      Respaced .outside (g ++ s) (g' ++ s')

section Characters

variable {c : Char}

/-- A gap is no quote. -/
theorem not_isQuote_of_gap (h : isGap c = true) : Token.isQuote c = false :=
  (Token.not_isQuote_of_isPassed (Token.isPassed_of_isGap h)).1

/-- A gap is a blank. -/
theorem not_isGap_of_not_isBlank (h : isBlank c = false) : isGap c = false := by
  rw [Bool.eq_false_iff]
  intro hc
  rw [Token.isBlank_of_isGap hc] at h
  cases h

/-- A gap of a list is a gap. -/
theorem isGap_of_isListGap (h : isListGap c = true) : isGap c = true := by
  simp only [isListGap, Bool.or_eq_true, beq_iff_eq] at h
  rcases h with ((rfl | rfl) | rfl) | rfl <;> decide

/-- The only gap that lists do not skip is the form feed. -/
theorem isListGap_of_gap (h : isGap c = true) (hc : c ≠ '\x0c') : isListGap c = true := by
  rcases Token.eq_of_isGap h with rfl | rfl | rfl | rfl | rfl
  · decide
  · decide
  · decide
  · exact absurd rfl hc
  · decide

/-- The character is no gap and opens no literal. -/
def isOrdinary (c : Char) : Bool :=
  !isGap c && !Token.isQuote c

/-- A character is ordinary if it is neither a gap nor a quote. -/
theorem isOrdinary_iff : isOrdinary c = true ↔ isGap c = false ∧ Token.isQuote c = false := by
  rw [isOrdinary, Bool.and_eq_true, Bool.not_eq_true', Bool.not_eq_true']

/-- Characters of names are ordinary. -/
theorem isOrdinary_of_isNameChar (h : isNameChar c = true) : isOrdinary c = true := by
  rw [isOrdinary_iff, Bool.eq_false_iff, Bool.eq_false_iff]
  constructor
  · intro hc
    rw [not_isNameChar_of_isBlank (Token.isBlank_of_isGap hc)] at h
    cases h
  · intro hc
    rw [Condition.isNameChar_of_isQuote hc] at h
    cases h

theorem isOrdinary_of_isNameStart (h : isNameStart c = true) : isOrdinary c = true :=
  isOrdinary_of_isNameChar (isNameChar_of_isNameStart h)

theorem isNameChar_of_isDigit (h : isDigit c = true) : isNameChar c = true := by
  simp only [isNameChar, isAlphanumeric, Bool.or_eq_true]
  exact Or.inl (Or.inl (Or.inr h))

/-- Digits are ordinary. -/
theorem isOrdinary_of_isDigit (h : isDigit c = true) : isOrdinary c = true :=
  isOrdinary_of_isNameChar (isNameChar_of_isDigit h)

theorem not_isQuote_of_isBlank (h : isBlank c = true) : Token.isQuote c = false := by
  have := forall_isBlank (p := fun c => !Token.isQuote c) (by decide) h
  rwa [Bool.not_eq_true'] at this

end Characters

variable {m : MaskState} {c : Char} {g s s' t r : List Char}

namespace SameButGaps

theorem refl (m : MaskState) (s : List Char) : SameButGaps m s s := by
  induction s generalizing m with
  | nil => exact .nil m
  | cons c s ih => exact .char (ih (m.step c))

/-- Other gaps behind the same characters. -/
theorem behind (u g g' : List Char) (hu : u.any Token.isQuote = false) (hg : IsGaps g)
    (hg' : IsGaps g') (h : SameButGaps .outside s s') :
    SameButGaps .outside (u ++ (g ++ s)) (u ++ (g' ++ s')) := by
  induction u with
  | nil =>
    rw [List.nil_append, List.nil_append]
    exact .gaps hg hg' h
  | cons c u ih =>
    rw [List.any_cons, Bool.or_eq_false_iff] at hu
    refine .char ?_
    rw [MaskState.step_outside hu.1]
    exact ih hu.2

end SameButGaps

/-! ## Form feeds before commas -/

/-- The form feed of a run is one before a comma if a comma follows the run. -/
theorem feedBeforeComma_gaps (hg : ∀ c ∈ g, isGap c = true) :
    feedBeforeComma .outside (g ++ s) = false ↔
      ('\x0c' ∈ g → (s.dropWhile isGap).head? ≠ some ',') ∧ feedBeforeComma .outside s = false := by
  induction g with
  | nil => simp
  | cons c g ih =>
    rw [List.forall_mem_cons] at hg
    have hrest : (g ++ s).dropWhile isGap = s.dropWhile isGap :=
      List.dropWhile_append_of_pos hg.2
    rw [List.cons_append, feedBeforeComma, MaskState.step_outside (not_isQuote_of_gap hg.1),
      Bool.or_eq_false_iff, ih hg.2, hrest, List.mem_cons]
    simp only [beq_self_eq_true, Bool.true_and, Bool.and_eq_false_iff, beq_eq_false_iff_ne, ne_eq]
    constructor
    · rintro ⟨hc, hfeed, hs⟩
      refine ⟨?_, hs⟩
      rintro (rfl | hm)
      · exact hc.resolve_left fun hne => hne rfl
      · exact hfeed hm
    · rintro ⟨hfeed, hs⟩
      refine ⟨?_, fun hm => hfeed (Or.inr hm), hs⟩
      by_cases hc : c = '\x0c'
      · exact Or.inr (hfeed (Or.inl hc.symm))
      · exact Or.inl hc

/-- Texts that differ in gaps only are respaced, as long as no form feed stands before a comma. -/
theorem SameButGaps.respaced (h : SameButGaps m s s') (hf : feedBeforeComma m s' = false) :
    Respaced m s s' := by
  induction h with
  | nil m => exact .nil m
  | @char m c s s' h ih =>
    rw [feedBeforeComma, Bool.or_eq_false_iff] at hf
    by_cases hc : m = .outside ∧ isGap c = true
    · -- a gap character that stays is a run of its own
      obtain ⟨rfl, hc⟩ := hc
      have hrun : IsGaps [c] := ⟨List.cons_ne_nil c [], List.forall_mem_singleton.mpr hc⟩
      have hs := ih hf.2
      rw [MaskState.step_outside (not_isQuote_of_gap hc)] at hs
      refine .gaps hrun hrun (fun hm => ?_) hs
      obtain rfl := List.mem_singleton.mp hm
      simpa using hf.1
    · refine .char (fun hm => ?_) (ih hf.2)
      rw [← Bool.not_eq_true]
      exact fun hgap => hc ⟨hm, hgap⟩
  | gaps hg hg' h ih =>
    obtain ⟨hfeed, hs⟩ := (feedBeforeComma_gaps hg'.2).mp hf
    exact .gaps hg hg' hfeed (ih hs)

namespace Respaced

/-! ## Characters in front -/

/-- The texts are both at their end, both at a gap, or at the same character. -/
theorem cases_front (h : Respaced .outside s s') : (s = [] ∧ s' = []) ∨
    (∃ g t g' t', isGap g = true ∧ isGap g' = true ∧ s = g :: t ∧ s' = g' :: t') ∨
    ∃ c t t', isGap c = false ∧ s = c :: t ∧ s' = c :: t' ∧
      Respaced (MaskState.step .outside c) t t' := by
  generalize hm : MaskState.outside = m at h
  cases h with
  | nil => exact Or.inl ⟨rfl, rfl⟩
  | @char _ c t t' hc h => exact Or.inr (Or.inr ⟨c, t, t', hc hm.symm, rfl, rfl, hm ▸ h⟩)
  | @gaps g g' t t' hg hg' =>
    obtain ⟨c, u, rfl⟩ := List.exists_cons_of_ne_nil hg.1
    obtain ⟨c', u', rfl⟩ := List.exists_cons_of_ne_nil hg'.1
    exact Or.inr (Or.inl ⟨c, u ++ t, c', u' ++ t', hg.2 c List.mem_cons_self,
      hg'.2 c' List.mem_cons_self, rfl, rfl⟩)

/-- A character in front that is no gap is in front of both texts. -/
theorem cons (h : Respaced .outside (c :: s) s') (hc : isGap c = false) :
    ∃ t, s' = c :: t ∧ Respaced (MaskState.step .outside c) s t := by
  rcases h.cases_front with ⟨hs, -⟩ | ⟨g, t, g', t', hg, -, hs, -⟩ | ⟨d, t, t', -, hs, hs', ht⟩
  · cases hs
  · cases hs
    rw [hg] at hc
    cases hc
  · cases hs
    exact ⟨t', hs', ht⟩

/-- An ordinary character in front leaves both texts outside of literals. -/
theorem mark (h : Respaced .outside (c :: s) s') (hc : isOrdinary c = true) :
    ∃ t, s' = c :: t ∧ Respaced .outside s t := by
  obtain ⟨hgap, hquote⟩ := isOrdinary_iff.mp hc
  obtain ⟨t, hs, ht⟩ := h.cons hgap
  rw [MaskState.step_outside hquote] at ht
  exact ⟨t, hs, ht⟩

/-- Several such characters in front are in front of both texts. -/
theorem front {l : List Char} (h : Respaced .outside (l ++ s) s') (hl : l.all isOrdinary = true) :
    ∃ t, s' = l ++ t ∧ Respaced .outside s t := by
  induction l generalizing s' with
  | nil => exact ⟨s', rfl, h⟩
  | cons c l ih =>
    rw [List.all_cons, Bool.and_eq_true] at hl
    obtain ⟨t, rfl, ht⟩ := h.mark hl.1
    obtain ⟨u, rfl, hu⟩ := ih ht hl.2
    exact ⟨u, rfl, hu⟩

/-- Respacing puts no other character in front. -/
theorem ne_cons (h : Respaced .outside s s') (hc : isGap c = false) (hs : ∀ t, s ≠ c :: t) :
    ∀ t, s' ≠ c :: t := by
  rintro t rfl
  rcases h.cases_front with ⟨-, hs'⟩ | ⟨g, u, g', u', -, hg', -, hs'⟩ | ⟨d, u, u', -, hs'', hs', -⟩
  · cases hs'
  · cases hs'
    rw [hg'] at hc
    cases hc
  · cases hs'
    exact hs u hs''

/-- Only the empty text is the empty text with other gaps. -/
theorem eq_nil (h : Respaced .outside [] s') : s' = [] := by
  rcases h.cases_front with ⟨-, hs⟩ | ⟨g, u, g', u', -, -, hs, -⟩ | ⟨d, u, u', -, hs, -⟩
  · exact hs
  · cases hs
  · cases hs

/-! ## Blanks and words in front -/

theorem trim_gaps (hg : IsGaps g) : Lexeme.trim (g ++ s) = Lexeme.trim s :=
  List.dropWhile_append_of_pos fun c hc => Token.isBlank_of_isGap (hg.2 c hc)

/-- Trimming leaves texts that are respaced. -/
theorem trim (h : Respaced .outside s s') : Respaced .outside (Lexeme.trim s) (Lexeme.trim s') := by
  generalize hm : MaskState.outside = m at h
  induction h with
  | nil m => exact .nil m
  | @char m c s s' hc h ih =>
    subst hm
    cases hb : isBlank c with
    | true =>
      rw [MaskState.step_outside (not_isQuote_of_isBlank hb)] at ih
      rw [trim_cons_of_isBlank hb, trim_cons_of_isBlank hb]
      exact ih rfl
    | false =>
      rw [trim_cons_of_not_isBlank hb, trim_cons_of_not_isBlank hb]
      exact .char hc h
  | gaps hg hg' _ _ ih =>
    rw [trim_gaps hg, trim_gaps hg']
    exact ih rfl

theorem trim_nil (h : Respaced .outside s s') (hs : Lexeme.trim s = []) : Lexeme.trim s' = [] := by
  have ht := h.trim
  rw [hs] at ht
  exact ht.eq_nil

/-- What is in front behind blanks is in front of both texts. -/
theorem trim_cons (h : Respaced .outside s s') (hs : Lexeme.trim s = c :: t) :
    ∃ t', Lexeme.trim s' = c :: t' ∧ Respaced (MaskState.step .outside c) t t' := by
  have ht := h.trim
  rw [hs] at ht
  exact ht.cons (not_isGap_of_not_isBlank (not_isBlank_of_trim hs))

/-- A character behind blanks is the same in both texts. -/
theorem trim_mark (h : Respaced .outside s s') (hs : Lexeme.trim s = c :: t)
    (hq : Token.isQuote c = false) :
    ∃ t', Lexeme.trim s' = c :: t' ∧ Respaced .outside t t' := by
  obtain ⟨t', hs', ht⟩ := h.trim_cons hs
  rw [MaskState.step_outside hq] at ht
  exact ⟨t', hs', ht⟩

/-- A run of characters of a class without gaps and quotes is in front of both texts. -/
theorem span {f : Char → Bool}
    (hf : ∀ c, f c = true → isOrdinary c = true)
    (h : Respaced .outside s s') :
    s.takeWhile f = s'.takeWhile f ∧ Respaced .outside (s.dropWhile f) (s'.dropWhile f) := by
  generalize hm : MaskState.outside = m at h
  induction h with
  | nil m => exact ⟨rfl, .nil m⟩
  | @char m c s s' hc h ih =>
    subst hm
    cases hb : f c with
    | true =>
      rw [MaskState.step_outside (isOrdinary_iff.mp (hf c hb)).2] at ih
      obtain ⟨htake, hdrop⟩ := ih rfl
      rw [List.takeWhile_cons_of_pos hb, List.takeWhile_cons_of_pos hb,
        List.dropWhile_cons_of_pos hb, List.dropWhile_cons_of_pos hb, htake]
      exact ⟨rfl, hdrop⟩
    | false =>
      have hb : ¬ f c = true := Bool.eq_false_iff.mp hb
      rw [List.takeWhile_cons_of_neg hb, List.takeWhile_cons_of_neg hb,
        List.dropWhile_cons_of_neg hb, List.dropWhile_cons_of_neg hb]
      exact ⟨rfl, .char hc h⟩
  | @gaps g g' s s' hg hg' hfeed h ih =>
    have hnot : ∀ c, isGap c = true → ¬ f c = true := by
      intro c hc hfc
      rw [(isOrdinary_iff.mp (hf c hfc)).1] at hc
      cases hc
    have hr := Respaced.gaps hg hg' hfeed h
    obtain ⟨c, u, rfl⟩ := List.exists_cons_of_ne_nil hg.1
    obtain ⟨c', u', rfl⟩ := List.exists_cons_of_ne_nil hg'.1
    have hb := hnot c (hg.2 c List.mem_cons_self)
    have hb' := hnot c' (hg'.2 c' List.mem_cons_self)
    rw [List.cons_append, List.cons_append] at hr ⊢
    rw [List.takeWhile_cons_of_neg hb, List.takeWhile_cons_of_neg hb',
      List.dropWhile_cons_of_neg hb, List.dropWhile_cons_of_neg hb']
    exact ⟨rfl, hr⟩

/-- A name in front is the same in both texts. -/
theorem span_name (h : Respaced .outside s s') : s.takeWhile isNameChar = s'.takeWhile isNameChar ∧
    Respaced .outside (s.dropWhile isNameChar) (s'.dropWhile isNameChar) :=
  h.span fun _ => isOrdinary_of_isNameChar

/-- A name in front is in front of both texts. -/
theorem name (h : Respaced .outside (c :: s) s') (hc : isNameStart c = true) :
    ∃ t, s' = c :: t ∧ s.takeWhile isNameChar = t.takeWhile isNameChar ∧
      Respaced .outside (s.dropWhile isNameChar) (t.dropWhile isNameChar) := by
  obtain ⟨t, rfl, ht⟩ := h.mark (isOrdinary_of_isNameStart hc)
  exact ⟨t, rfl, ht.span_name⟩

/-- **The word in front is the same in both texts**, or neither has one. -/
theorem wordAhead? (h : Respaced .outside s s') :
    (Lexeme.wordAhead? s = none ∧ Lexeme.wordAhead? s' = none) ∨
      ∃ w r r', Lexeme.wordAhead? s = some (w, r) ∧ Lexeme.wordAhead? s' = some (w, r') ∧
        Respaced .outside r r' := by
  unfold Lexeme.wordAhead?
  cases hs : Lexeme.trim s with
  | nil =>
    rw [h.trim_nil hs]
    exact Or.inl ⟨rfl, rfl⟩
  | cons c t =>
    obtain ⟨t', hs', ht⟩ := h.trim_cons hs
    rw [hs']
    dsimp only
    cases hc : isNameStart c with
    | false => exact Or.inl ⟨rfl, rfl⟩
    | true =>
      rw [MaskState.step_outside (isOrdinary_iff.mp (isOrdinary_of_isNameStart hc)).2] at ht
      obtain ⟨htake, hdrop⟩ := ht.span_name
      refine Or.inr ⟨_, _, _, if_pos rfl, ?_, hdrop⟩
      rw [if_pos rfl, htake]

theorem wordAhead?_some (h : Respaced .outside s s') {w : List Char}
    (hw : Lexeme.wordAhead? s = some (w, r)) :
    ∃ r', Lexeme.wordAhead? s' = some (w, r') ∧ Respaced .outside r r' := by
  rcases h.wordAhead? with ⟨hn, -⟩ | ⟨v, q, q', hv, hv', hq⟩
  · rw [hn] at hw
    cases hw
  · rw [hv] at hw
    cases hw
    exact ⟨q', hv', hq⟩

theorem peekWord (h : Respaced .outside s s') : Lexeme.peekWord s = Lexeme.peekWord s' := by
  rw [peekWord_eq, peekWord_eq]
  rcases h.wordAhead? with ⟨hn, hn'⟩ | ⟨v, q, q', hv, hv', -⟩
  · rw [hn, hn']
  · rw [hv, hv']
    rfl

/-- A keyword in front of one text is in front of the other. -/
theorem after?_some (h : Respaced .outside s s') {k : String} (hk : after? k s = some r) :
    ∃ r', after? k s' = some r' ∧ Respaced .outside r r' := by
  obtain ⟨w, hw, hs⟩ := after?_eq_some.mp hk
  obtain ⟨r', hw', hr⟩ := h.wordAhead?_some hw
  exact ⟨r', after?_eq_some.mpr ⟨w, hw', hs⟩, hr⟩

/-- So is a keyword that is not there. -/
theorem after?_none (h : Respaced .outside s s') {k : String} (hk : after? k s = none) :
    after? k s' = none := by
  rcases h.wordAhead? with ⟨-, hn⟩ | ⟨v, q, q', hv, hv', -⟩
  · rw [after?, hn]
  · rw [after?, hv] at hk
    rw [after?, hv']
    dsimp only at hk ⊢
    split at hk
    · cases hk
    · next hs => rw [if_neg hs]

/-- The dotted rest of a name is the same in both texts. -/
theorem dotted (h : Respaced .outside s s') : (Lexeme.dotted s).value = (Lexeme.dotted s').value ∧
    Respaced .outside (Lexeme.dotted s).rest (Lexeme.dotted s').rest := by
  induction hl : s.length using Nat.strongRecOn generalizing s s' with
  | _ n ih =>
    subst hl
    by_cases hp : ∃ c u, s = '.' :: c :: u ∧ isNameStart c = true
    · obtain ⟨c, u, rfl, hc⟩ := hp
      obtain ⟨t, rfl, ht⟩ := h.mark (by decide)
      obtain ⟨u', rfl, htake, hdrop⟩ := ht.name hc
      have hlt : (u.dropWhile isNameChar).length < ('.' :: c :: u).length := by
        have := (List.dropWhile_suffix (l := u) isNameChar).length_le
        rw [List.length_cons, List.length_cons]
        omega
      obtain ⟨hvalue, hrest⟩ := ih _ hlt hdrop rfl
      rw [(dotted_cons hc).1, (dotted_cons hc).2, (dotted_cons hc).1, (dotted_cons hc).2, htake,
        hvalue]
      exact ⟨rfl, hrest⟩
    · have hs : ∀ c r, s = '.' :: c :: r → isNameStart c = false := by
        intro c r hs
        rw [← Bool.not_eq_true]
        exact fun hc => hp ⟨c, r, hs, hc⟩
      have hs' : ∀ c r, s' = '.' :: c :: r → isNameStart c = false := by
        rintro c r rfl
        rcases h.cases_front with ⟨-, h'⟩ | ⟨_, _, g, _, -, hg, -, h'⟩ | ⟨d, u, u', -, hd, h', hu⟩
        · cases h'
        · cases h'
          cases hg
        · cases h'
          rw [MaskState.step_outside (by decide)] at hu
          rcases hu.cases_front with ⟨-, h'⟩ | ⟨_, _, g, _, -, hg, -, h'⟩ | ⟨e, v, v', -, he, h', -⟩
          · cases h'
          · cases h'
            exact not_isNameStart_of_isBlank (Token.isBlank_of_isGap hg)
          · cases h'
            exact hs c v (by rw [hd, he])
      rw [(dotted_of_not_point hs).1, (dotted_of_not_point hs).2, (dotted_of_not_point hs').1,
        (dotted_of_not_point hs').2]
      exact ⟨rfl, h⟩

/-! ## Commas of lists -/

/-- The gaps in front of a comma are list gaps. -/
theorem dropWhile_gaps (hg : IsGaps g) (h : (g ++ s).dropWhile isListGap = ',' :: t) :
    s.dropWhile isListGap = ',' :: t := by
  rw [List.dropWhile_append] at h
  split at h
  · exact h
  · next hne =>
    exfalso
    have hcomma : ',' ∈ g.dropWhile isListGap := by
      cases hd : g.dropWhile isListGap with
      | nil => exact absurd (by rw [hd]; rfl) hne
      | cons c u =>
        rw [hd] at h
        cases h
        exact List.mem_cons_self
    have := hg.2 ',' ((List.dropWhile_suffix isListGap).mem hcomma)
    cases this

/-- Whoever skips all gaps finds the same comma. -/
theorem dropWhile_isGap (h : s.dropWhile isListGap = ',' :: t) : s.dropWhile isGap = ',' :: t := by
  induction s with
  | nil => cases h
  | cons c s ih =>
    cases hb : isListGap c with
    | true =>
      rw [List.dropWhile_cons_of_pos hb] at h
      rw [List.dropWhile_cons_of_pos (isGap_of_isListGap hb), ih h]
    | false =>
      rw [List.dropWhile_cons_of_neg (Bool.eq_false_iff.mp hb)] at h
      cases h
      rfl

/-- Where a list goes on, it goes on in both texts. -/
theorem comma (h : Respaced .outside s s') (hs : s.dropWhile isListGap = ',' :: t) :
    ∃ t', s'.dropWhile isListGap = ',' :: t' ∧ Respaced .outside t t' := by
  generalize hm : MaskState.outside = m at h
  induction h with
  | nil m => cases hs
  | @char m c s s' hc h ih =>
    subst hm
    have hb : ¬ isListGap c = true := by
      intro hb
      have hgap := hc rfl
      rw [isGap_of_isListGap hb] at hgap
      cases hgap
    rw [List.dropWhile_cons_of_neg hb] at hs ⊢
    cases hs
    rw [MaskState.step_outside (by decide)] at h
    exact ⟨s', rfl, h⟩
  | @gaps g g' s s' hg hg' hfeed h ih =>
    obtain ⟨t', hs', ht⟩ := ih (dropWhile_gaps hg hs) rfl
    refine ⟨t', ?_, ht⟩
    have hnext : (s'.dropWhile isGap).head? = some ',' := by
      rw [dropWhile_isGap hs']
      rfl
    rw [List.dropWhile_append_of_pos, hs']
    intro c hc
    refine isListGap_of_gap (hg'.2 c hc) ?_
    rintro rfl
    exact hfeed hc hnext

/-- A list goes on in both texts or in none, unless it ends in the first one in front of a comma. -/
theorem commaAfterGap (h : Respaced .outside s s') :
    (commaAfterGap s = none ∧ (commaAfterGap s' = none ∨ ∃ t, Lexeme.trim s = ',' :: t)) ∨
      ∃ t t', commaAfterGap s = some t ∧ commaAfterGap s' = some t' ∧ Respaced .outside t t' := by
  cases hs : Lexeme.commaAfterGap s with
  | some t =>
    obtain ⟨t', ht', ht⟩ := h.comma (commaAfterGap_eq_some.mp hs)
    exact Or.inr ⟨t, t', rfl, commaAfterGap_eq_some.mpr ht', ht⟩
  | none =>
    refine Or.inl ⟨rfl, ?_⟩
    cases hs' : Lexeme.commaAfterGap s' with
    | none => exact Or.inl rfl
    | some t' =>
      by_cases hn : ∃ t, Lexeme.trim s = ',' :: t
      · exact Or.inr hn
      · have hcomma := h.trim.ne_cons (by decide) (fun t ht => hn ⟨t, ht⟩) t'
        exact absurd (trim_of_commaAfterGap hs') hcomma

end Respaced

end DataPhrase
