/-
# Expressions and conditions with more text behind

What is written in front of a text stays so when the text goes on in a way that continues neither
an expression nor a condition (`Derives.append`).
-/
import DataPhrase.Proofs.Grammar.Condition
import DataPhrase.Proofs.Reading.Behind
import Mathlib.Tactic.SplitIfs

namespace DataPhrase

open Text Lexeme

variable {c : Char} {q r s t u : List Char}

/-! ## Quiet texts -/

/-- The words that belong to the condition or the sort key in front of them, in lower case. -/
def tiedWords : List String :=
  ["and", "or", "not", "desc", "descending", "asc", "ascending"]

/-- The text continues neither a lexeme nor an expression, a list, a condition or a sort
key in front of it. -/
structure Quiet (t : List Char) : Prop where
  tight : Tight t
  sum : Expr.sumSign? (trim t) = none
  product : Expr.productSign? (trim t) = none
  name : Expr.endsName (trim t) = true
  comma : ∀ u, trim t ≠ ',' :: u
  sign : Condition.sign? (trim t) = none
  words : ∀ k ∈ tiedWords, after? k t = none

/-- Nothing goes on with nothing. -/
theorem quiet_nil : Quiet [] where
  tight := tight_nil
  sum := rfl
  product := rfl
  name := rfl
  comma := nofun
  sign := rfl
  words := fun _ _ => rfl

/-- A closing parenthesis goes on with nothing that is read before it. -/
theorem quiet_paren : Quiet (')' :: t) where
  tight := tight_paren
  sum := rfl
  product := rfl
  name := rfl
  comma := nofun
  sign := rfl
  words := fun _ _ => rfl

theorem Expr.sumSign?_of_ne (h1 : c ≠ '+') (h2 : c ≠ '-') : Expr.sumSign? (c :: s) = none := by
  unfold Expr.sumSign?
  split <;> simp_all

theorem Expr.productSign?_of_ne (h1 : c ≠ '*') (h2 : c ≠ '/') (h3 : c ≠ '%') :
    Expr.productSign? (c :: s) = none := by
  unfold Expr.productSign?
  split <;> simp_all

theorem Expr.endsName_of_ne (h1 : c ≠ '(') (h2 : c ≠ '.') : Expr.endsName (c :: s) = true := by
  unfold Expr.endsName
  split <;> simp_all

theorem Condition.sign?_of_ne (h1 : c ≠ '=') (h2 : c ≠ '!') (h3 : c ≠ '<') (h4 : c ≠ '>') :
    Condition.sign? (c :: s) = none := by
  unfold Condition.sign?
  split <;> simp_all

/-- Behind a blank, a word that is none of the tied ones is quiet. -/
theorem quiet_of_word {w : List Char} (hc : isBlank c = true) (h : wordAhead? t = some (w, r))
    (hw : tiedWords.all (fun k => !sameWord w k.toList) = true) : Quiet (c :: t) := by
  obtain ⟨d, q, hd, hs⟩ : ∃ d q, trim (c :: t) = d :: q ∧ isNameStart d = true := by
    rw [trim_cons_of_isBlank hc]
    unfold wordAhead? at h
    split at h
    · cases h
    · next d q hq =>
      split at h
      · next hd => exact ⟨d, q, hq, hd⟩
      · cases h
  -- the word's first letter is none of the signs that would tie the text to what is before it
  have hne : ∀ e, isNameStart e = false → d ≠ e := by
    rintro e he rfl
    rw [hs] at he
    cases he
  refine ⟨tight_cons hc, ?_, ?_, ?_, ?_, ?_, ?_⟩
  · rw [hd]
    exact Expr.sumSign?_of_ne (hne _ (by decide)) (hne _ (by decide))
  · rw [hd]
    exact Expr.productSign?_of_ne (hne _ (by decide)) (hne _ (by decide)) (hne _ (by decide))
  · rw [hd]
    exact Expr.endsName_of_ne (hne _ (by decide)) (hne _ (by decide))
  · intro u hu
    rw [hd, List.cons.injEq] at hu
    exact hne _ (by decide) hu.1
  · rw [hd]
    exact Condition.sign?_of_ne (hne _ (by decide)) (hne _ (by decide)) (hne _ (by decide))
      (hne _ (by decide))
  · intro k hk
    rw [← after?_trim, trim_cons_of_isBlank hc, after?_trim, after?, h]
    have := List.all_eq_true.mp hw k hk
    rw [Bool.not_eq_true'] at this
    exact if_neg (by rw [this]; exact Bool.false_ne_true)

namespace Expr

/-! ## Lexemes of expressions -/

/-- Blanks are no part of a number. -/
theorem isNumberChar_of_isBlank (h : isBlank c = true) : isNumberChar c = false := by
  have := forall_isBlank (p := fun c => !isNumberChar c) (by decide +kernel) h
  simpa using this

/-- What follows a number is no part of it. -/
theorem decimal_append (ht : Tight t) {x : Number} (h : (decimal s).Gives x r) :
    (decimal (s ++ t)).Gives x (r ++ t) := by
  obtain ⟨cs, hcs, hx⟩ := Reader.gives_refine.mp h
  obtain ⟨h1, h2⟩ := takeWhile_append_tight (s := s) (p := isNumberChar) ht
    (fun _ hb => isNumberChar_of_isBlank hb) (by decide)
  obtain ⟨rfl, rfl⟩ := Reader.gives_takeWhile.mp hcs
  exact Reader.gives_refine.mpr ⟨_, Reader.gives_takeWhile.mpr ⟨h1, h2⟩, hx⟩

/-- The value of a literal after its opening quote, and what follows it. -/
def literalAhead? (q : Char) (s : List Char) : Option (List Char × List Char) :=
  (literalValue q s).map fun x => (x.value, x.rest)

theorem literalAhead?_escape {d : Char} : literalAhead? c ('\\' :: d :: s) =
    (literalAhead? c s).map fun x => (unescape d :: x.1, x.2) := by
  rw [literalAhead?, literalValue, literalAhead?, Option.map_map, Option.map_map]
  rfl

theorem literalAhead?_cons {d : Char} (hd : d ≠ '\\') : literalAhead? c (d :: s) =
    if d = c then some ([], s) else (literalAhead? c s).map fun x => (d :: x.1, x.2) := by
  rw [literalAhead?, literalValue.eq_4 c d s (fun h => absurd h hd) fun _ _ h => absurd h hd]
  by_cases h : d = c
  · rw [if_pos h, if_pos h]
    rfl
  · rw [if_neg h, if_neg h, literalAhead?, Option.map_map, Option.map_map]
    rfl

/-- A literal that is closed stays so when the text goes on. -/
theorem literalAhead?_append {v : List Char} (h : literalAhead? c s = some (v, r)) :
    literalAhead? c (s ++ t) = some (v, r ++ t) := by
  induction s using literalValue.induct (q := c) generalizing v with
  | case1 => cases h
  | case2 => cases h
  | case3 d s ih =>
    rw [literalAhead?_escape] at h
    obtain ⟨⟨v', r'⟩, hx, h⟩ := Option.map_eq_some_iff.mp h
    cases h
    rw [List.cons_append, List.cons_append, literalAhead?_escape, ih hx]
    rfl
  | case4 s h1 h2 =>
    have hc : c ≠ '\\' := by
      intro hc
      cases s with
      | nil => exact h1 hc rfl
      | cons d s => exact h2 d s hc rfl
    rw [literalAhead?_cons hc, if_pos rfl] at h
    cases h
    rw [List.cons_append, literalAhead?_cons hc, if_pos rfl]
  | case5 d s h1 h2 hd ih =>
    have hc : d ≠ '\\' := by
      intro hc
      cases s with
      | nil => exact h1 hc rfl
      | cons e s => exact h2 e s hc rfl
    rw [literalAhead?_cons hc, if_neg hd] at h
    obtain ⟨⟨v', r'⟩, hx, h⟩ := Option.map_eq_some_iff.mp h
    cases h
    rw [List.cons_append, literalAhead?_cons hc, if_neg hd, ih hx]
    rfl

/-- A tight text behind does not put a character in front that no tight text starts with. -/
theorem ne_cons_append (ht : Tight t) {d : Char} (hd : isBlank d = false) (hp : d ≠ ')')
    (h : ∀ u, s ≠ d :: u) : ∀ u, s ++ t ≠ d :: u := by
  intro u hu
  cases s with
  | nil =>
    rcases ht d u hu with hb | hb
    · rw [hd] at hb
      cases hb
    · exact hp hb
  | cons e s =>
    rw [List.cons_append, List.cons.injEq] at hu
    exact h s (by rw [hu.1])

/-- A minus sign subtracts unless it begins an arrow. -/
theorem sumSign?_minus (h : ∀ u, s ≠ '>' :: u) : sumSign? ('-' :: s) = some .subtract := by
  unfold sumSign?
  split
  · next he => cases he
  · next v he =>
    cases he
    exact absurd rfl (h v)
  · rfl
  · next hne => exact absurd rfl (hne s)

/-- What follows the sign of a sum does not change it. -/
theorem sumSign?_append (ht : Tight t) {op : ArithOp} (h : sumSign? s = some op) :
    sumSign? (s ++ t) = some op := by
  unfold sumSign? at h
  split at h
  · exact h
  · cases h
  · next u hu =>
    rw [List.cons_append,
      sumSign?_minus (ne_cons_append ht (by decide) (by decide) fun v hv => hu v hv)]
    exact h
  · cases h

/-- Where no sum goes on, none does with a quiet text behind it. -/
theorem sumSign?_glue (ht : Quiet t) (h : sumSign? s = none) : sumSign? (glue s t) = none := by
  unfold sumSign? at h
  split at h
  · cases h
  · rfl
  · cases h
  · next h1 h2 h3 =>
    cases s with
    | nil => exact ht.sum
    | cons c s =>
      rw [glue_cons]
      unfold sumSign?
      split
      · next he =>
        cases he
        exact absurd rfl (h1 s)
      · rfl
      · next he =>
        cases he
        exact absurd rfl (h3 s)
      · rfl

theorem productSign?_append {op : ArithOp} (h : productSign? s = some op) :
    productSign? (s ++ t) = some op := by
  unfold productSign? at h
  split at h
  · exact h
  · exact h
  · exact h
  · cases h

/-- Where no product goes on, none does with a quiet text behind it. -/
theorem productSign?_glue (ht : Quiet t) (h : productSign? s = none) :
    productSign? (glue s t) = none := by
  unfold productSign? at h
  split at h
  · cases h
  · cases h
  · cases h
  · next h1 h2 h3 =>
    cases s with
    | nil => exact ht.product
    | cons c s =>
      rw [glue_cons]
      unfold productSign?
      split
      · next he =>
        cases he
        exact absurd rfl (h1 s)
      · next he =>
        cases he
        exact absurd rfl (h2 s)
      · next he =>
        cases he
        exact absurd rfl (h3 s)
      · rfl

/-- A name ends where neither a parenthesis nor a further part follows it. -/
theorem endsName_iff : endsName s = true ↔ (∀ u, s ≠ '(' :: u) ∧
    ∀ c u, s = '.' :: c :: u → isNameStart c = false := by
  unfold endsName
  split
  · next u => simp
  · next d u =>
    constructor
    · intro h
      refine ⟨nofun, ?_⟩
      rintro c v hv
      cases hv
      simpa using h
    · intro h
      rw [h.2 d u rfl]
      rfl
  · next h1 h2 =>
    refine iff_of_true rfl ⟨fun u hu => h1 u hu, fun c u hu => (h2 c u hu).elim⟩

/-- A name that ends still ends with a quiet text behind it. -/
theorem endsName_glue (ht : Quiet t) (h : endsName s = true) : endsName (glue s t) = true := by
  rw [endsName_iff] at h ⊢
  cases s with
  | nil => exact endsName_iff.mp ht.name
  | cons c s =>
    rw [glue_cons]
    constructor
    · intro u hu
      cases hu
      exact h.1 s rfl
    · exact not_point_append (s := c :: s) ht.tight h.2

/-! ## Expressions -/

/-- The part begins with an operand. -/
def Part.hasOperand : Part → Bool
  | .sum _ | .product _ | .signed _ | .operand _ => true
  | _ => false

/-- An operand is never empty. -/
theorem Derives.ne_nil {p : Part} (h : Derives p s r) (hp : p.hasOperand = true) : s ≠ [] := by
  induction h with
  | sum _ _ ihl _ => exact ihl rfl
  | product _ _ ihl _ => exact ihl rfl
  | negative => exact List.cons_ne_nil _ _
  | negate => exact List.cons_ne_nil _ _
  | unsigned => exact List.cons_ne_nil _ _
  | group => exact List.cons_ne_nil _ _
  | text => exact List.cons_ne_nil _ _
  | number => exact List.cons_ne_nil _ _
  | constant => exact List.cons_ne_nil _ _
  | call => exact List.cons_ne_nil _ _
  | qualified => exact List.cons_ne_nil _ _
  | plain => exact List.cons_ne_nil _ _
  | _ => cases hp

/-- What follows a part is an end of the text. -/
theorem Derives.suffix {p : Part} (h : Derives p s r) : r <:+ s := by
  induction h with
  | sum _ _ ihl ihe => exact ihe.trans ihl
  | sumEnd => exact List.suffix_refl _
  | sumMore _ _ _ ihx ihe =>
    exact (ihe.trans (ihx.trans (trim_suffix _))).trans (List.suffix_cons _ _)
  | product _ _ ihl ihe => exact ihe.trans ihl
  | productEnd => exact List.suffix_refl _
  | productMore _ _ _ ihx ihe =>
    exact (ihe.trans (ihx.trans (trim_suffix _))).trans (List.suffix_cons _ _)
  | negative _ hu _ hx =>
    have := ((trim_suffix _).trans hx.suffix).trans (hu ▸ trim_suffix _)
    exact this.trans (List.suffix_cons _ _)
  | negate _ hu _ _ ihe => exact (ihe.trans (hu ▸ trim_suffix _)).trans (List.suffix_cons _ _)
  | unsigned _ _ ihe => exact ihe
  | group _ ihe =>
    have := (List.suffix_cons ')' _).trans (ihe.trans (trim_suffix _))
    exact ((trim_suffix _).trans this).trans (List.suffix_cons _ _)
  | @text c s x _ _ => exact ((trim_suffix _).trans x.suffix).trans (List.suffix_cons _ _)
  | number _ hx => exact (trim_suffix _).trans hx.suffix
  | constant =>
    exact ((trim_suffix _).trans (List.dropWhile_suffix isNameChar)).trans (List.suffix_cons _ _)
  | @call c s u r es _ _ hu _ ihes =>
    have hs : '(' :: u <:+ s := (hu ▸ trim_suffix _ : '(' :: u <:+ s.dropWhile isNameChar).trans
      (List.dropWhile_suffix isNameChar)
    have := (List.suffix_cons ')' _).trans (ihes.trans (trim_suffix _))
    exact (((trim_suffix _).trans this).trans ((List.suffix_cons '(' u).trans hs)).trans
      (List.suffix_cons _ _)
  | @qualified c d s u _ _ hu _ =>
    have hs : '.' :: d :: u <:+ s :=
      (hu ▸ trim_suffix _ : '.' :: d :: u <:+ s.dropWhile isNameChar).trans
        (List.dropWhile_suffix isNameChar)
    have hd := (List.suffix_cons d u).trans ((List.suffix_cons '.' _).trans hs)
    exact (((trim_suffix _).trans (List.dropWhile_suffix isNameChar)).trans hd).trans
      (List.suffix_cons _ _)
  | plain =>
    exact ((trim_suffix _).trans (List.dropWhile_suffix isNameChar)).trans (List.suffix_cons _ _)
  | noArguments => exact List.suffix_refl _
  | starArgument => exact (trim_suffix _).trans (List.suffix_cons _ _)
  | arguments _ _ _ _ ihe ihes => exact ihes.trans ihe
  | argumentsEnd => exact List.suffix_refl _
  | argumentsMore _ _ ihe ihes =>
    exact (ihes.trans (ihe.trans (trim_suffix _))).trans (List.suffix_cons _ _)

/-- The first character that is no blank is the first of the longer text too. -/
theorem trim_append_cons (h : trim s = c :: u) : trim (s ++ t) = c :: (u ++ t) := by
  rw [trim_append, h, glue_cons]

/-- A quiet text makes no minus sign an operation. -/
theorem sumSign?_ne_subtract (ht : Quiet t) (h : sumSign? (c :: s) ≠ some .subtract) :
    sumSign? (c :: (s ++ t)) ≠ some .subtract := by
  cases hs : sumSign? (c :: s) with
  | none =>
    have := sumSign?_glue ht hs
    rw [glue_cons] at this
    rw [this]
    exact nofun
  | some op =>
    have := sumSign?_append ht.tight hs
    rw [List.cons_append] at this
    rwa [this, ← hs]

/-- An expression that starts with a parenthesis starts with a group. -/
theorem Derives.exists_group {p : Part} (h : Derives p ('(' :: s) r) (hp : p.hasOperand = true) :
    ∃ e q, Derives (.sum e) (trim s) (')' :: q) := by
  generalize hs : '(' :: s = u at h
  induction h with
  | sum _ _ ihl _ => exact ihl rfl hs
  | product _ _ ihl _ => exact ihl rfl hs
  | negative h =>
    cases hs
    cases h
  | negate h =>
    cases hs
    cases h
  | unsigned _ _ ihe => exact ihe rfl hs
  | @group _ q e he _ =>
    cases hs
    exact ⟨e, q, he⟩
  | text hc =>
    cases hs
    cases hc
  | number hc =>
    cases hs
    cases hc
  | constant hc =>
    cases hs
    exact absurd hc (by decide)
  | call hc =>
    cases hs
    exact absurd hc (by decide)
  | qualified hc =>
    cases hs
    exact absurd hc (by decide)
  | plain hc =>
    cases hs
    exact absurd hc (by decide)
  | _ => cases hp

/-- **An expression in front of a text stays when a quiet text is put behind.** -/
theorem Derives.append (ht : Quiet t) {p : Part} (h : Derives p s r) :
    Derives p (glue s t) (glue r t) := by
  -- only where a part ends is the text behind it looked at, and a quiet one does not go on with it
  induction h with
  | sum _ _ ihl ihe => exact .sum ihl ihe
  | sumEnd h => exact .sumEnd (sumSign?_glue ht h)
  | sumMore h _ _ ihx ihe =>
    rw [← trim_append] at ihx
    exact .sumMore (sumSign?_append ht.tight h) ihx ihe
  | product _ _ ihl ihe => exact .product ihl ihe
  | productEnd h => exact .productEnd (productSign?_glue ht h)
  | productMore h _ _ ihx ihe =>
    rw [← trim_append] at ihx
    exact .productMore (productSign?_append h) ihx ihe
  | negative h hu hd hx =>
    rw [← trim_append]
    exact .negative (sumSign?_append ht.tight h) (trim_append_cons hu) hd
      (decimal_append ht.tight hx)
  | negate h hu hd _ ihe =>
    exact .negate (sumSign?_append ht.tight h) (trim_append_cons hu) hd ihe
  | unsigned h _ ihe => exact .unsigned (sumSign?_ne_subtract ht h) ihe
  | group _ ihe =>
    rw [← trim_append] at ihe ⊢
    exact .group ihe
  | @text c s x hc hx =>
    have hl : literalAhead? c s = some (x.value, x.rest) := by
      rw [literalAhead?, hx]
      rfl
    obtain ⟨y, hy, he⟩ := Option.map_eq_some_iff.mp (literalAhead?_append (t := t) hl)
    rw [Prod.mk.injEq] at he
    rw [← trim_append, ← he.1, ← he.2]
    exact .text hc hy
  | number hc hx =>
    rw [← trim_append]
    exact .number hc (decimal_append ht.tight hx)
  | @constant c s v hc hv =>
    obtain ⟨h1, h2⟩ := takeWhile_isNameChar_append (s := s) ht.tight
    rw [← trim_append, ← h2]
    rw [← h1] at hv
    exact .constant hc hv
  | @call c s u r es hc hv hu _ ihes =>
    obtain ⟨h1, h2⟩ := takeWhile_isNameChar_append (s := s) ht.tight
    rw [← trim_append] at ihes ⊢
    rw [← h1] at hv ⊢
    refine .call hc hv ?_ ihes
    rw [h2, trim_append_cons hu]
  | @qualified c d s u hc hv hu hd =>
    obtain ⟨h1, h2⟩ := takeWhile_isNameChar_append (s := s) ht.tight
    obtain ⟨h3, h4⟩ := takeWhile_isNameChar_append (s := u) ht.tight
    rw [← trim_append, ← h4, ← h3]
    rw [← h1] at hv ⊢
    refine .qualified hc hv ?_ hd
    rw [h2, trim_append_cons hu, List.cons_append]
  | @plain c s hc hv hu =>
    obtain ⟨h1, h2⟩ := takeWhile_isNameChar_append (s := s) ht.tight
    have hu' := endsName_glue ht hu
    rw [← trim_append, ← h2] at hu' ⊢
    rw [← h1] at hv ⊢
    exact .plain hc hv hu'
  | noArguments => exact .noArguments
  | starArgument =>
    rw [← trim_append]
    exact .starArgument
  | @arguments s q r e es hc hs he _ ihe ihes =>
    obtain ⟨d, v, rfl⟩ := List.exists_cons_of_ne_nil (he.ne_nil rfl)
    refine .arguments ?_ ?_ ihe ihes
    · intro u hu
      cases hu
      exact hc v rfl
    · intro u hu
      cases hu
      exact hs v rfl
  | @argumentsEnd s h =>
    refine .argumentsEnd ?_
    cases s with
    | nil => exact ht.comma
    | cons d v =>
      intro u hu
      cases hu
      exact h v rfl
  | argumentsMore _ _ ihe ihes =>
    rw [← trim_append] at ihe
    exact .argumentsMore ihe ihes

/-- What is read in front of a text is read when a quiet text is put behind. -/
theorem read_append (ht : Quiet t) {e : Expr} (h : (read s).Gives e r) :
    (read (s ++ t)).Gives e (glue r t) := by
  rw [gives_read_iff] at h ⊢
  rw [trim_append]
  exact h.append ht

end Expr

namespace Condition

/-! ## Scanning expressions -/

/-- A character that the scan for a condition passes without opening or closing anything. -/
def isPassed (c : Char) : Bool :=
  !Token.isQuote c && c != '(' && c != ')'

/-- The scan for a condition finds one on the way from `s` to `r`, or goes on at `r` at the same
depth, whatever is put behind. -/
def Passes (s r : List Char) : Prop :=
  ∀ d w, 1 ≤ d → (∀ t, showsCondition d none w (s ++ t) = true) ∨
    ∃ v, ∀ t, showsCondition d none w (s ++ t) = showsCondition d none v (r ++ t)

theorem Passes.refl (s : List Char) : Passes s s :=
  fun _ w _ => Or.inr ⟨w, fun _ => rfl⟩

theorem Passes.trans (h : Passes s q) (h' : Passes q r) : Passes s r := by
  intro d w hd
  rcases h d w hd with ht | ⟨v, hv⟩
  · exact Or.inl ht
  · rcases h' d v hd with ht | ⟨u, hu⟩
    · exact Or.inl fun t => (hv t).trans (ht t)
    · exact Or.inr ⟨u, fun t => (hv t).trans (hu t)⟩

theorem passes_cons (hc : isPassed c = true) : Passes (c :: s) s := by
  intro d w hd
  simp only [isPassed, Bool.and_eq_true, Bool.not_eq_true', bne_iff_ne, ne_eq] at hc
  obtain ⟨⟨hq, ho⟩, hp⟩ := hc
  by_cases hn : isNameChar c = true
  · right
    refine ⟨c :: w, fun t => ?_⟩
    rw [List.cons_append, showsCondition]
    simp only [hn, if_true]
  · by_cases hk : d = 1 ∧ isConnective w.reverse = true
    · left
      intro t
      rw [List.cons_append, showsCondition]
      simp only [hn, hk, if_false, if_true, Bool.false_eq_true, and_self]
    · by_cases hs : d = 1 ∧ (c = '=' ∨ c = '<' ∨ c = '>' ∨ c = '!')
      · left
        intro t
        rw [List.cons_append, showsCondition, if_neg hn, if_neg hk, if_neg (by simp [hq]),
          if_neg ho, if_neg hp, if_pos hs]
      · right
        refine ⟨[], fun t => ?_⟩
        rw [List.cons_append, showsCondition, if_neg hn, if_neg hk, if_neg (by simp [hq]),
          if_neg ho, if_neg hp, if_neg hs]

/-- The scan passes a run of such characters. -/
theorem passes_dropWhile {p : Char → Bool} (hp : ∀ c, p c = true → isPassed c = true) :
    Passes s (s.dropWhile p) := by
  induction s with
  | nil => exact .refl []
  | cons c s ih =>
    rw [List.dropWhile_cons]
    split
    · next h => exact (passes_cons (hp c h)).trans ih
    · exact .refl _

theorem passes_trim : Passes s (trim s) :=
  passes_dropWhile fun _ h => forall_isBlank (by decide) h

/-- Without backslashes, the scan leaves a literal where the reader does. -/
theorem showsCondition_literal {v : List Char} (h : Expr.literalAhead? c s = some (v, r))
    (hb : '\\' ∉ s) (d : Nat) (t : List Char) :
    showsCondition d (some c) [] (s ++ t) = showsCondition d none [] (r ++ t) := by
  induction s generalizing v with
  | nil => cases h
  | cons e s ih =>
    rw [List.mem_cons, not_or] at hb
    rw [Expr.literalAhead?_cons (Ne.symm hb.1)] at h
    rw [List.cons_append, showsCondition]
    by_cases he : e = c
    · rw [if_pos he] at h
      cases h
      rw [if_pos he]
    · rw [if_neg he] at h
      obtain ⟨⟨v', r'⟩, hx, h⟩ := Option.map_eq_some_iff.mp h
      cases h
      rw [if_neg he]
      exact ih hx hb.2

theorem isNameChar_of_isQuote (h : Token.isQuote c = true) : isNameChar c = false := by
  simp only [Token.isQuote, Bool.or_eq_true, beq_iff_eq] at h
  rcases h with rfl | rfl <;> decide

/-- Without backslashes a literal is passed over as it is read. -/
theorem passes_literal {v : List Char} (hc : Token.isQuote c = true)
    (h : Expr.literalAhead? c s = some (v, r)) (hb : '\\' ∉ s) : Passes (c :: s) r := by
  intro d w hd
  by_cases hk : d = 1 ∧ isConnective w.reverse = true
  · left
    intro t
    rw [List.cons_append, showsCondition, if_neg (by simp [isNameChar_of_isQuote hc]), if_pos hk]
  · right
    refine ⟨[], fun t => ?_⟩
    rw [List.cons_append, showsCondition, if_neg (by simp [isNameChar_of_isQuote hc]), if_neg hk,
      if_pos hc, showsCondition_literal h hb]

/-- The scan passes a group that it passes inside. -/
theorem passes_group (h : Passes s (')' :: r)) : Passes ('(' :: s) r := by
  intro d w hd
  by_cases hk : d = 1 ∧ isConnective w.reverse = true
  · left
    intro t
    rw [List.cons_append, showsCondition, if_neg (by decide), if_pos hk]
  · have hopen : ∀ t, showsCondition d none w ('(' :: s ++ t) =
        showsCondition (d + 1) none [] (s ++ t) := by
      intro t
      rw [List.cons_append, showsCondition, if_neg (by decide), if_neg hk, if_neg (by decide),
        if_pos rfl]
    rcases h (d + 1) [] (by omega) with ht | ⟨v, hv⟩
    · exact Or.inl fun t => (hopen t).trans (ht t)
    · right
      refine ⟨[], fun t => ?_⟩
      rw [hopen, hv, List.cons_append, showsCondition, if_neg (by decide),
        if_neg (by omega), if_neg (by decide), if_neg (by decide), if_pos rfl, if_neg (by omega),
        Nat.add_sub_cancel]

/-- A scan for the closing parenthesis passes the characters of names. -/
theorem isPassed_of_isNameChar (h : isNameChar c = true) : isPassed c = true := by
  cases hc : isPassed c with
  | true => rfl
  | false =>
    exfalso
    have hcases : (c = '"' ∨ c = '\'') ∨ c = '(' ∨ c = ')' := by
      simp only [isPassed, Token.isQuote, Bool.and_eq_false_iff, Bool.not_eq_false',
        Bool.or_eq_true, beq_iff_eq, bne_eq_false_iff_eq] at hc
      rcases hc with (h | h) | h
      · exact Or.inl h
      · exact Or.inr (Or.inl h)
      · exact Or.inr (Or.inr h)
    rcases hcases with (rfl | rfl) | rfl | rfl <;> revert h <;> decide

theorem isPassed_of_isNumberChar (h : Expr.isNumberChar c = true) : isPassed c = true := by
  simp only [Expr.isNumberChar, Bool.or_eq_true, beq_iff_eq] at h
  rcases h with h | rfl
  · refine isPassed_of_isNameChar ?_
    simp only [isNameChar, isAlphanumeric, Bool.or_eq_true]
    exact Or.inl (Or.inl (Or.inr h))
  · decide

/-- It passes the signs of sums. -/
theorem isPassed_of_sumSign? {op : ArithOp} (h : Expr.sumSign? (c :: s) = some op) :
    isPassed c = true := by
  unfold Expr.sumSign? at h
  split at h
  · next he =>
    cases he
    decide
  · cases h
  · next he =>
    cases he
    decide
  · cases h

/-- It passes the signs of products. -/
theorem isPassed_of_productSign? {op : ArithOp} (h : Expr.productSign? (c :: s) = some op) :
    isPassed c = true := by
  unfold Expr.productSign? at h
  split at h
  · next he =>
    cases he
    decide
  · next he =>
    cases he
    decide
  · next he =>
    cases he
    decide
  · cases h

/-- The scan passes a name in front and the blanks behind it. -/
theorem passes_name (hc : isNameStart c = true) :
    Passes (c :: s) (trim (s.dropWhile isNameChar)) :=
  (passes_cons (isPassed_of_isNameChar (isNameChar_of_isNameStart hc))).trans
    ((passes_dropWhile fun _ h => isPassed_of_isNameChar h).trans passes_trim)

/-- It passes numbers. -/
theorem passes_decimal {x : Number} (h : (Expr.decimal s).Gives x r) : Passes s (trim r) := by
  obtain ⟨cs, hcs, -⟩ := Reader.gives_refine.mp h
  obtain ⟨-, rfl⟩ := Reader.gives_takeWhile.mp hcs
  exact (passes_dropWhile fun _ h => isPassed_of_isNumberChar h).trans passes_trim

/-- **The scan for a condition passes every expression without backslashes.** -/
theorem passes_of_derives {p : Expr.Part} (h : Expr.Derives p s r) (hb : '\\' ∉ s) :
    Passes s r := by
  -- an expression is made of single characters, literals and groups, and the scan passes each
  induction h with
  | sum hl _ ihl ihe => exact (ihl hb).trans (ihe fun hm => hb (hl.suffix.subset hm))
  | sumEnd => exact .refl _
  | sumMore h hx _ ihx ihe =>
    rw [List.mem_cons, not_or] at hb
    have hb' := fun hm => hb.2 ((trim_suffix _).subset hm)
    exact ((passes_cons (isPassed_of_sumSign? h)).trans passes_trim).trans
      ((ihx hb').trans (ihe fun hm => hb' (hx.suffix.subset hm)))
  | product hl _ ihl ihe => exact (ihl hb).trans (ihe fun hm => hb (hl.suffix.subset hm))
  | productEnd => exact .refl _
  | productMore h hx _ ihx ihe =>
    rw [List.mem_cons, not_or] at hb
    have hb' := fun hm => hb.2 ((trim_suffix _).subset hm)
    exact ((passes_cons (isPassed_of_productSign? h)).trans passes_trim).trans
      ((ihx hb').trans (ihe fun hm => hb' (hx.suffix.subset hm)))
  | negative h hu _ hx =>
    refine ((passes_cons (isPassed_of_sumSign? h)).trans passes_trim).trans ?_
    rw [hu]
    exact passes_decimal hx
  | negate h hu _ _ ihe =>
    rw [List.mem_cons, not_or] at hb
    refine ((passes_cons (isPassed_of_sumSign? h)).trans passes_trim).trans ?_
    rw [hu]
    exact ihe fun hm => hb.2 ((trim_suffix _).subset (hu ▸ hm))
  | unsigned _ _ ihe => exact ihe hb
  | group _ ihe =>
    rw [List.mem_cons, not_or] at hb
    have := ihe fun hm => hb.2 ((trim_suffix _).subset hm)
    exact (passes_group (passes_trim.trans this)).trans passes_trim
  | @text c s x hc hx =>
    rw [List.mem_cons, not_or] at hb
    refine (passes_literal (v := x.value) hc ?_ hb.2).trans passes_trim
    rw [Expr.literalAhead?, hx]
    rfl
  | number _ hx => exact passes_decimal hx
  | constant hc _ => exact passes_name hc
  | @call c s u r es hc _ hu _ ihes =>
    rw [List.mem_cons, not_or] at hb
    have hbu : '\\' ∉ '(' :: u := by
      intro hm
      rw [← hu] at hm
      exact hb.2 ((List.dropWhile_suffix isNameChar).subset ((trim_suffix _).subset hm))
    rw [List.mem_cons, not_or] at hbu
    have := ihes fun hm => hbu.2 ((trim_suffix _).subset hm)
    refine (passes_name hc).trans ?_
    rw [hu]
    exact (passes_group (passes_trim.trans this)).trans passes_trim
  | qualified hc _ hu hd =>
    refine (passes_name hc).trans ?_
    rw [hu]
    exact (passes_cons (by decide)).trans (passes_name hd)
  | plain hc _ _ => exact passes_name hc
  | noArguments => exact .refl _
  | starArgument => exact (passes_cons (by decide)).trans passes_trim
  | arguments _ _ he _ ihe ihes => exact (ihe hb).trans (ihes fun hm => hb (he.suffix.subset hm))
  | argumentsEnd => exact .refl _
  | argumentsMore he _ ihe ihes =>
    rw [List.mem_cons, not_or] at hb
    have hb' := fun hm => hb.2 ((trim_suffix _).subset hm)
    exact ((passes_cons (by decide)).trans passes_trim).trans
      ((ihe hb').trans (ihes fun hm => hb' (he.suffix.subset hm)))

/-! ## Comparison signs -/

/-- The sign in front, by its first two characters. -/
theorem sign?_pair {d : Char} : sign? (c :: d :: s) =
    if c = '=' then some (.eq, if d = '=' then 2 else 1)
    else if c = '!' then if d = '=' then some (.ne, 2) else none
    else if c = '<' then
      some (if d = '>' then (.ne, 2) else if d = '=' then (.le, 2) else (.lt, 1))
    else if c = '>' then some (if d = '=' then (.ge, 2) else (.gt, 1))
    else none := by
  generalize hu : c :: d :: s = u
  unfold sign?
  split <;> cases hu <;> simp_all

/-- A sign is two characters long at most. -/
theorem sign?_cons_cons {d : Char} : sign? (c :: d :: s) = sign? (c :: d :: t) := by
  rw [sign?_pair, sign?_pair]

/-- A character that ends no sign leaves the sign in front as it is. -/
theorem sign?_cons (h : ∀ u, s ≠ '=' :: u) (h' : ∀ u, s ≠ '>' :: u) : sign? (c :: s) = sign? [c] := by
  cases s with
  | nil => rfl
  | cons d s =>
    have hd : d ≠ '=' := fun hd => h s (by rw [hd])
    have hd' : d ≠ '>' := fun hd => h' s (by rw [hd])
    unfold sign?
    split <;> simp_all

theorem Tight.sign?_cons (ht : Tight t) : sign? (c :: t) = sign? [c] := by
  refine Condition.sign?_cons ?_ ?_
  · exact Expr.ne_cons_append (s := []) ht (by decide) (by decide) nofun
  · exact Expr.ne_cons_append (s := []) ht (by decide) (by decide) nofun

/-- Only the character behind the first tells the comparison sign. -/
theorem sign?_cons_append (ht : Tight t) : sign? (c :: s ++ t) = sign? (c :: s) := by
  cases s with
  | nil => exact Tight.sign?_cons ht
  | cons d s => exact sign?_cons_cons

theorem sign?_append (ht : Tight t) {x : CompareOp × Nat} (h : sign? s = some x) :
    sign? (s ++ t) = some x ∧ x.2 ≤ s.length := by
  cases s with
  | nil => cases h
  | cons c s =>
    refine ⟨(sign?_cons_append ht).trans h, ?_⟩
    unfold sign? at h
    split at h <;> cases h <;> simp_all

/-- Where no comparison sign stands, none does with a quiet text behind it. -/
theorem sign?_glue (ht : Quiet t) (h : sign? s = none) : sign? (glue s t) = none := by
  cases s with
  | nil => exact ht.sign
  | cons c s =>
    rw [glue_cons]
    exact (sign?_cons_append ht.tight).trans h

/-! ## Groups -/

/-- What shows a condition still does when the text goes on. -/
theorem showsCondition_append {d : Nat} {o : Option Char} {w : List Char}
    (h : showsCondition d o w s = true) : showsCondition d o w (s ++ t) = true := by
  induction s generalizing d o w with
  | nil => cases h
  | cons c s ih =>
    rw [List.cons_append]
    cases o with
    | some q => exact ih h
    | none =>
      rw [showsCondition] at h ⊢
      split_ifs at h ⊢ <;> first | rfl | exact ih h

/-- A group that is read as an expression still shows no condition when the text goes on: the scan
ends at the parenthesis that closes it. -/
theorem groupAhead_append {e : Expr} (h : Expr.Derives (.sum e) s r) (hb : '\\' ∉ s)
    (hg : groupAhead s = false) : groupAhead (s ++ t) = false := by
  obtain ⟨c, u, rfl⟩ := List.exists_cons_of_ne_nil (h.ne_nil rfl)
  by_cases hc : c = '('
  · subst hc
    obtain ⟨e', q, he⟩ := h.exists_group rfl
    rw [List.mem_cons, not_or] at hb
    have hp : Passes u (')' :: q) :=
      passes_trim.trans (passes_of_derives he fun hm => hb.2 ((trim_suffix _).subset hm))
    have hu : showsCondition 1 none [] u = false := hg
    rw [List.cons_append]
    show showsCondition 1 none [] (u ++ t) = false
    rcases hp 1 [] (by omega) with ht | ⟨v, hv⟩
    · have := ht []
      rw [List.append_nil, hu] at this
      cases this
    · have hnil := hv []
      rw [List.append_nil, hu, List.append_nil] at hnil
      rw [hv t, List.cons_append, showsCondition]
      rw [showsCondition] at hnil
      exact hnil.symm
  · rw [List.cons_append]
    unfold groupAhead
    split
    · next hu =>
      cases hu
      exact absurd rfl hc
    · rfl

/-! ## Conditions -/

/-- What a derivation leaves is the end of its text. -/
theorem Derives.suffix {p : Part} (h : Derives p s r) : r <:+ s := by
  induction h with
  | disjunction _ _ ihc ihcs => exact ihcs.trans ihc
  | alternativesEnd => exact List.suffix_refl _
  | alternativesMore h _ _ ihc ihcs =>
    exact (ihcs.trans ihc).trans ((trim_suffix _).trans (after?_suffix h))
  | conjunction _ _ ihc ihcs => exact ihcs.trans ihc
  | conjunctsEnd => exact List.suffix_refl _
  | conjunctsMore h _ _ ihc ihcs =>
    exact (ihcs.trans ihc).trans ((trim_suffix _).trans (after?_suffix h))
  | not h _ ih => exact ih.trans ((trim_suffix _).trans (after?_suffix h))
  | group _ _ ih =>
    exact (trim_suffix _).trans ((suffix_of_cons_suffix ih).trans
      ((trim_suffix _).trans (List.suffix_cons _ _)))
  | unnegated _ _ _ ih => exact ih
  | comparison hl _ he =>
    exact he.suffix.trans ((trim_suffix _).trans ((List.drop_suffix _ _).trans hl.suffix))
  | call he => exact he.suffix

/-- A keyword is found in front of whatever follows. -/
theorem after?_glue {k : String} (ht : Tight t) (h : after? k s = some u) :
    after? k (glue s t) = some (u ++ t) := by
  cases s with
  | nil => cases h
  | cons c s =>
    rw [glue_cons]
    exact after?_append ht h

/-- A keyword that is not there does not come from a text that has none in front. -/
theorem after?_glue_of_none {k : String} (ht : Tight t) (hk : after? k t = none)
    (h : after? k s = none) : after? k (glue s t) = none := by
  cases s with
  | nil =>
    rw [glue_nil, after?_trim]
    exact hk
  | cons c s =>
    rw [glue_cons]
    exact after?_append_of_none ht hk h

/-- Wherever the scan for a condition finds nothing in front of an expression in the text, it finds
nothing there either when the text goes on. -/
def ScanEnds (s : List Char) : Prop :=
  ∀ e u q, u <:+ s → Expr.Derives (.sum e) u q → groupAhead u = false →
    ∀ t, groupAhead (u ++ t) = false

/-- Whether scans end where they should is a question of every ending of the text. -/
theorem ScanEnds.of_suffix (h : ScanEnds s) (hr : r <:+ s) : ScanEnds r :=
  fun e u q hu => h e u q (hu.trans hr)

/-- Texts without backslashes have nothing that misleads a scan. -/
theorem scanEnds_of_plain (hb : '\\' ∉ s) : ScanEnds s :=
  fun _ _ _ hu he hg _ => groupAhead_append he (fun hm => hb (hu.subset hm)) hg

/-- **A condition in front of a text stays when a quiet text is put behind**, if the scan ends in
it. -/
theorem Derives.append_of_scanEnds (ht : Quiet t) {p : Part} (h : Derives p s r)
    (hs : ScanEnds s) : Derives p (glue s t) (glue r t) := by
  induction h with
  | disjunction hc _ ihc ihcs => exact .disjunction (ihc hs) (ihcs (hs.of_suffix hc.suffix))
  | alternativesEnd h =>
    exact .alternativesEnd (after?_glue_of_none ht.tight (ht.words "or" (by decide)) h)
  | alternativesMore h hc _ ihc ihcs =>
    have hs' := hs.of_suffix ((trim_suffix _).trans (after?_suffix h))
    refine .alternativesMore (after?_glue ht.tight h) ?_ (ihcs (hs'.of_suffix hc.suffix))
    rw [trim_append]
    exact ihc hs'
  | conjunction hc _ ihc ihcs => exact .conjunction (ihc hs) (ihcs (hs.of_suffix hc.suffix))
  | conjunctsEnd h => exact .conjunctsEnd (after?_glue_of_none ht.tight (ht.words "and" (by decide)) h)
  | conjunctsMore h hc _ ihc ihcs =>
    have hs' := hs.of_suffix ((trim_suffix _).trans (after?_suffix h))
    refine .conjunctsMore (after?_glue ht.tight h) ?_ (ihcs (hs'.of_suffix hc.suffix))
    rw [trim_append]
    exact ihc hs'
  | not h _ ih =>
    refine .not (after?_glue ht.tight h) ?_
    rw [trim_append]
    exact ih (hs.of_suffix ((trim_suffix _).trans (after?_suffix h)))
  | group hg _ ih =>
    have := ih (hs.of_suffix ((trim_suffix _).trans (List.suffix_cons _ _)))
    rw [← trim_append] at this ⊢
    exact .group (showsCondition_append hg) this
  | @unnegated s r c h hg hc ih =>
    -- the condition starts with an expression, so the scan for a group ends inside it
    have hexpr : ∃ e q, Expr.Derives (.sum e) s q := by
      cases hc with
      | comparison hl => exact ⟨_, _, hl⟩
      | call he => exact ⟨_, _, he⟩
    obtain ⟨e, q, he⟩ := hexpr
    refine .unnegated (after?_glue_of_none ht.tight (ht.words "not" (by decide)) h) ?_ (ih hs)
    obtain ⟨d, v, rfl⟩ := List.exists_cons_of_ne_nil (he.ne_nil rfl)
    rw [glue_cons]
    exact hs e _ q (List.suffix_refl _) he hg t
  | @comparison s q r l e op n hl ho he =>
    obtain ⟨ho', hn⟩ := sign?_append ht.tight ho
    obtain ⟨d, v, rfl⟩ : ∃ d v, q = d :: v := by
      cases q with
      | nil => cases ho
      | cons d v => exact ⟨d, v, rfl⟩
    have he' := he.append ht
    rw [← trim_append, ← List.drop_append_of_le_length hn] at he'
    exact .comparison (hl.append ht) ho' he'
  | call he ho => exact .call (he.append ht) (sign?_glue ht ho)

/-- So does every condition without backslashes. -/
theorem Derives.append (ht : Quiet t) {p : Part} (h : Derives p s r) (hb : '\\' ∉ s) :
    Derives p (glue s t) (glue r t) :=
  h.append_of_scanEnds ht (scanEnds_of_plain hb)

/-- What is read in front of a text is read when a quiet text is put behind. -/
theorem read_append (ht : Quiet t) (hs : ScanEnds s) {c : Condition}
    (h : (read s).Gives c r) : ∃ q, (read (s ++ t)).Gives c q ∧ trim q = glue (trim r) t := by
  rw [gives_read_iff, trim_append]
  exact (gives_read_iff.mp ⟨r, h, rfl⟩).append_of_scanEnds ht (hs.of_suffix (trim_suffix s))

end Condition

end DataPhrase
