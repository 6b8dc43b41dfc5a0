/-
# Reading with more text behind

What a reader gives does not change when the text goes on, as long as what is put behind does not
grow the last lexeme: it is empty, or starts with a blank or a closing parenthesis.
-/
import DataPhrase.Proofs.Reading.Lexeme

namespace DataPhrase.Lexeme

open Text

variable {α β : Type} {c : Char} {k : String} {s t r u w : List Char}

/-! ## Tight texts -/

/-- The text is empty or starts with a blank or a closing parenthesis. -/
def Tight (t : List Char) : Prop :=
  ∀ c r, t = c :: r → isBlank c = true ∨ c = ')'

theorem tight_nil : Tight [] := by
  intro c r h
  cases h

theorem tight_cons (h : isBlank c = true) : Tight (c :: t) := by
  intro d r hd
  cases hd
  exact Or.inl h

theorem tight_paren : Tight (')' :: t) := by
  intro d r hd
  cases hd
  exact Or.inr rfl

/-- A tight text starts with no character that blanks and the parenthesis do not have. -/
theorem Tight.head {p : Char → Bool} (ht : Tight (c :: t)) (hb : ∀ c, isBlank c = true → p c = false)
    (hp : p ')' = false) : p c = false := by
  rcases ht c t rfl with h | rfl
  · exact hb c h
  · exact hp

/-- A run of characters ends where a tight text is put behind. -/
theorem takeWhile_append_tight {p : Char → Bool} (ht : Tight t)
    (hb : ∀ c, isBlank c = true → p c = false) (hp : p ')' = false) :
    (s ++ t).takeWhile p = s.takeWhile p ∧ (s ++ t).dropWhile p = s.dropWhile p ++ t := by
  induction s with
  | nil =>
    cases t with
    | nil => exact ⟨rfl, rfl⟩
    | cons c t =>
      have hc := ht.head hb hp
      rw [List.nil_append, List.takeWhile_cons, List.dropWhile_cons, hc]
      exact ⟨rfl, rfl⟩
  | cons c s ih =>
    rw [List.cons_append, List.takeWhile_cons, List.takeWhile_cons, List.dropWhile_cons,
      List.dropWhile_cons]
    cases p c with
    | true => exact ⟨congrArg (c :: ·) ih.1, ih.2⟩
    | false => exact ⟨rfl, rfl⟩

theorem isNameChar_paren : isNameChar ')' = false := by
  decide

/-- A run of name characters ends in front of a tail that stands apart. -/
theorem takeWhile_isNameChar_append (ht : Tight t) :
    (s ++ t).takeWhile isNameChar = s.takeWhile isNameChar ∧
      (s ++ t).dropWhile isNameChar = s.dropWhile isNameChar ++ t :=
  takeWhile_append_tight ht (fun _ h => not_isNameChar_of_isBlank h) isNameChar_paren

/-! ## Words -/

/-- The word in front is still there. -/
theorem wordAhead?_append (ht : Tight t) (h : wordAhead? s = some (w, r)) :
    wordAhead? (s ++ t) = some (w, r ++ t) := by
  unfold wordAhead? at h ⊢
  rw [trim_append]
  cases hs : trim s with
  | nil =>
    rw [hs] at h
    cases h
  | cons c q =>
    rw [hs] at h
    simp only at h
    split at h
    · next hc =>
      cases h
      obtain ⟨h1, h2⟩ := takeWhile_isNameChar_append (s := q) ht
      rw [glue_cons]
      simp only [hc, if_true, h1, h2]
    · cases h

/-- Behind blanks, the word in front is the one of what follows. -/
theorem wordAhead?_append_of_blank (h : trim s = []) : wordAhead? (s ++ t) = wordAhead? t := by
  rw [← wordAhead?_trim, trim_append, h, glue_nil, wordAhead?_trim]

/-- Where other characters stand in front, there is still no word. -/
theorem wordAhead?_append_of_none (hs : trim s ≠ []) (h : wordAhead? s = none) :
    wordAhead? (s ++ t) = none := by
  unfold wordAhead? at h ⊢
  rw [trim_append]
  cases hq : trim s with
  | nil => exact absurd hq hs
  | cons c q =>
    rw [hq] at h
    simp only at h
    split at h
    · cases h
    · next hc =>
      rw [glue_cons]
      simp only [hc, Bool.false_eq_true, if_false]

/-- The text behind a word is a tail of the text. -/
theorem wordAhead?_suffix (h : wordAhead? s = some (w, r)) : r <:+ s := by
  rcases nextWord_cases s with ⟨-, hn⟩ | ⟨x, -, hx⟩
  · rw [hn] at h
    cases h
  · rw [hx] at h
    cases h
    exact x.1.suffix

/-- The text behind a keyword is a tail of the text. -/
theorem after?_suffix (h : after? k s = some r) : r <:+ s := by
  obtain ⟨w, hw, -⟩ := after?_eq_some.mp h
  exact wordAhead?_suffix hw

/-- A keyword is read in front of a tail that stands apart as it is read alone. -/
theorem after?_append (ht : Tight t) (h : after? k s = some r) :
    after? k (s ++ t) = some (r ++ t) := by
  obtain ⟨w, hw, hk⟩ := after?_eq_some.mp h
  exact after?_eq_some.mpr ⟨w, wordAhead?_append ht hw, hk⟩

/-- Where other characters stand in front, what stands behind them puts no word there. -/
theorem after?_append_of_ne_nil (ht : Tight t) (hs : trim s ≠ []) (h : after? k s = none) :
    after? k (s ++ t) = none := by
  rw [after?_eq_none] at h ⊢
  intro w r hw
  cases hn : wordAhead? s with
  | none =>
    rw [wordAhead?_append_of_none hs hn] at hw
    cases hw
  | some x =>
    obtain ⟨v, q⟩ := x
    rw [wordAhead?_append ht hn] at hw
    cases hw
    exact h _ _ hn

/-- A word that is not in front is not there either when the text goes on, unless all of it stands
in what follows. -/
theorem after?_append_of_none (ht : Tight t) (hk : after? k t = none) (h : after? k s = none) :
    after? k (s ++ t) = none := by
  by_cases hs : trim s = []
  · rw [after?, wordAhead?_append_of_blank hs]
    exact hk
  · exact after?_append_of_ne_nil ht hs h

/-! ## Names -/

/-- A point and a word: the dotted rest goes on behind them. -/
theorem dotted_cons (hc : isNameStart c = true) : (dotted ('.' :: c :: s)).value =
      '.' :: c :: s.takeWhile isNameChar ++ (dotted (s.dropWhile isNameChar)).value ∧
    (dotted ('.' :: c :: s)).rest = (dotted (s.dropWhile isNameChar)).rest := by
  constructor
  · rw [dotted.eq_def]
    simp only [hc, if_true]
  · rw [dotted.eq_def]
    simp only [hc, if_true]

/-- Elsewhere there is no dotted rest. -/
theorem dotted_of_not_point (h : ∀ c r, s = '.' :: c :: r → isNameStart c = false) :
    (dotted s).value = [] ∧ (dotted s).rest = s := by
  rw [dotted.eq_def]
  split
  · next c r =>
    rw [if_neg (Bool.eq_false_iff.mp (h c r rfl))]
    exact ⟨rfl, rfl⟩
  · exact ⟨rfl, rfl⟩

/-- No tail that stands apart starts a name. -/
theorem Tight.not_isNameStart (ht : Tight (c :: t)) : isNameStart c = false :=
  ht.head (fun _ h => not_isNameStart_of_isBlank h) (by decide)

/-- No tail that stands apart starts with a point. -/
theorem Tight.ne_point (ht : Tight (c :: t)) : c ≠ '.' := by
  rintro rfl
  rcases ht '.' t rfl with h | h
  · revert h
    decide
  · cases h

/-- No point and name arise where a tight text is put behind. -/
theorem not_point_append (ht : Tight t) (h : ∀ c r, s = '.' :: c :: r → isNameStart c = false) :
    ∀ c r, s ++ t = '.' :: c :: r → isNameStart c = false := by
  intro c r hs
  cases s with
  | nil =>
    rw [List.nil_append] at hs
    subst hs
    exact absurd rfl ht.ne_point
  | cons d s =>
    rw [List.cons_append, List.cons.injEq] at hs
    obtain ⟨rfl, hs⟩ := hs
    cases s with
    | nil =>
      rw [List.nil_append] at hs
      subst hs
      exact ht.not_isNameStart
    | cons e s =>
      rw [List.cons_append, List.cons.injEq] at hs
      obtain ⟨rfl, -⟩ := hs
      exact h e s rfl

/-- The dotted rest of a name ends where a tight text is put behind. -/
theorem dotted_append (ht : Tight t) :
    (dotted (s ++ t)).value = (dotted s).value ∧ (dotted (s ++ t)).rest = (dotted s).rest ++ t := by
  induction s using dotted.induct with
  | case1 c r hc _ _ ih =>
    obtain ⟨h1, h2⟩ := takeWhile_isNameChar_append (s := r) ht
    obtain ⟨hv, hr⟩ := dotted_cons (s := r) hc
    obtain ⟨hv', hr'⟩ := dotted_cons (s := r ++ t) hc
    rw [List.cons_append, List.cons_append, hv, hr, hv', hr', h1, h2, ih.1, ih.2]
    exact ⟨rfl, rfl⟩
  | case2 c r hc =>
    have hn : ∀ d q, '.' :: c :: r = '.' :: d :: q → isNameStart d = false := by
      intro d q h
      cases h
      exact Bool.eq_false_iff.mpr hc
    obtain ⟨hv, hr⟩ := dotted_of_not_point hn
    obtain ⟨hv', hr'⟩ := dotted_of_not_point (not_point_append ht hn)
    rw [hv, hr, hv', hr']
    exact ⟨rfl, rfl⟩
  | case3 s hs =>
    have hn : ∀ d q, s = '.' :: d :: q → isNameStart d = false :=
      fun d q h => (hs d q h).elim
    obtain ⟨hv, hr⟩ := dotted_of_not_point hn
    obtain ⟨hv', hr'⟩ := dotted_of_not_point (not_point_append ht hn)
    rw [hv, hr, hv', hr']
    exact ⟨rfl, rfl⟩

/-- A field name is read in front of such a tail as it is read alone. -/
theorem fieldName_append (ht : Tight t) {n : String} (h : (fieldName s).Gives n r) :
    (fieldName (s ++ t)).Gives n (r ++ t) := by
  obtain ⟨w, q, hw, rfl, rfl⟩ := gives_fieldName.mp h
  obtain ⟨hv, hr⟩ := dotted_append (s := q) ht
  exact gives_fieldName.mpr ⟨w, q ++ t, wordAhead?_append ht hw, hr, by rw [hv]⟩

/-- An identifier is read in front of such a tail as it is read alone. -/
theorem identifier_append (ht : Tight t) {n : String} (h : (identifier s).Gives n r) :
    (identifier (s ++ t)).Gives n (r ++ t) := by
  obtain ⟨w, hw, rfl⟩ := gives_identifier.mp h
  exact gives_identifier.mpr ⟨w, wordAhead?_append ht hw, rfl⟩

/-! ## Lists -/

/-- Blanks of a list are blanks. -/
theorem trim_dropWhile_isListGap : trim (s.dropWhile isListGap) = trim s := by
  induction s with
  | nil => rfl
  | cons c s ih =>
    rw [List.dropWhile_cons]
    split
    · next h => rw [ih, trim_cons_of_isBlank (isBlank_of_isListGap h)]
    · rfl

/-- A comma behind list gaps is a comma behind blanks. -/
theorem trim_of_commaAfterGap (h : commaAfterGap s = some u) : trim s = ',' :: u := by
  rw [← trim_dropWhile_isListGap, commaAfterGap_eq_some.mp h]
  exact trim_cons_of_not_isBlank (by decide)

/-- A comma found behind blanks is found whatever stands behind it. -/
theorem commaAfterGap_append (h : commaAfterGap s = some u) :
    commaAfterGap (s ++ t) = some (u ++ t) := by
  rw [commaAfterGap_eq_some] at h ⊢
  rw [List.dropWhile_append, h]
  rfl

theorem commaAfterBlanks_append (h : commaAfterGap s = some u) :
    commaAfterBlanks (s ++ t) = some (u ++ t) := by
  rw [commaAfterBlanks_eq_some, trim_append, trim_of_commaAfterGap h]
  rfl

/-- Behind blanks, there is a comma only if one is in front of what follows. -/
theorem commaAfterBlanks_append_of_blank (h : trim r = []) (ht : ∀ u, trim t ≠ ',' :: u) :
    commaAfterBlanks (r ++ t) = none := by
  rw [Option.eq_none_iff_forall_ne_some]
  intro u hu
  rw [commaAfterBlanks_eq_some, trim_append, h, glue_nil] at hu
  exact ht u hu

/-- Blanks in front of a tail that starts with no comma give no comma. -/
theorem commaAfterGap_append_of_blank (h : trim r = []) (ht : ∀ u, trim t ≠ ',' :: u) :
    commaAfterGap (r ++ t) = none := by
  rw [Option.eq_none_iff_forall_ne_some]
  intro u hu
  have := trim_of_commaAfterGap hu
  rw [trim_append, h, glue_nil] at this
  exact ht u this

/-- What stands behind a list puts no comma behind its last item. -/
theorem commaAfterGap_append_of_none (ht : ∀ u, trim t ≠ ',' :: u) (h : commaAfterGap r = none) :
    commaAfterGap (r ++ t) = none := by
  by_cases hr : r.dropWhile isListGap = []
  · refine commaAfterGap_append_of_blank ?_ ht
    rw [← trim_dropWhile_isListGap, hr]
    rfl
  · rw [Option.eq_none_iff_forall_ne_some]
    intro u hu
    rw [commaAfterGap_eq_some, List.dropWhile_append, if_neg (by simpa using hr)] at hu
    obtain ⟨c, v, hv⟩ := List.exists_cons_of_ne_nil hr
    rw [hv, List.cons_append, List.cons.injEq] at hu
    rw [hu.1] at hv
    rw [commaAfterGap_eq_some.mpr hv] at h
    cases h

/-- **Items parted by commas are still there when the text goes on**, also for a reader that parts
them more freely. -/
theorem Repeats.append {p : Phrase α} {p' : Phrase β} {f : α → β} {l : List α}
    {sep : List Char → Option (List Char)} (h : Repeats commaAfterGap p s l r)
    (hsep : ∀ s u, commaAfterGap s = some u → sep (s ++ t) = some (u ++ t))
    (hstop : sep (r ++ t) = none)
    (hp : ∀ a ∈ l, ∀ s r, (p s).Gives a r → (p' (s ++ t)).Gives (f a) (r ++ t)) :
    Repeats sep p' (s ++ t) (l.map f) (r ++ t) := by
  induction h with
  | stop => exact .stop hstop
  | next hs ha _ ih =>
    rw [List.forall_mem_cons] at hp
    exact .next (hsep _ _ hs) (hp.1 _ _ ha) (ih hstop hp.2)

end DataPhrase.Lexeme
