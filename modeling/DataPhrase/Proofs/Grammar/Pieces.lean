/-
# Expressions and conditions are whole pieces

What the grammars of expressions and conditions derive is made of whole pieces and has no arrow in
it: literals are closed, parentheses are paired, and a minus sign is never followed by `>`.
-/
import DataPhrase.Proofs.Grammar.Behind
import DataPhrase.Proofs.Token.Pieces

namespace DataPhrase

open Text Lexeme Token

variable {c d : Char} {s t r : List Char}

namespace Expr

/-! ## Parts of expressions -/

/-- The value of a literal is read up to the end of the literal. -/
theorem map_rest_literalRest (q : Char) (s : List Char) :
    (literalRest q s).map Read.rest = (literalValue q s).map Read.rest := by
  fun_induction literalValue q s with
  | case1 => rfl
  | case2 => rfl
  | case3 e s ih =>
    rw [literalRest, Option.map_map, Option.map_map]
    exact ih
  | case4 s h1 h2 =>
    rw [literalRest, if_pos rfl]
    · rfl
    · exact h1
    · exact h2
  | case5 e s h1 h2 he ih =>
    rw [literalRest, if_neg he, Option.map_map, Option.map_map]
    · exact ih
    · exact h1
    · exact h2

theorem exists_literalRest {x : Read s (List Char)} (h : literalValue c s = some x) :
    ∃ y : Read s (List Char), literalRest c s = some y ∧ y.rest = x.rest := by
  have hrest := map_rest_literalRest c s
  rw [h] at hrest
  exact Option.map_eq_some_iff.mp hrest

/-- What the characters between two quotes say: an escape says the character that it stands for, any
other character says itself. -/
def unescaped : List Char → List Char
  | [] => []
  | '\\' :: c :: r => unescape c :: unescaped r
  | c :: r => c :: unescaped r

theorem unescaped_cons (hc : c ≠ '\\') (r : List Char) :
    unescaped (c :: r) = c :: unescaped r := by
  rw [unescaped]
  rintro _ _ rfl
  exact absurd rfl hc

/-- The value of a literal is what stands in front of its closing quote, with its escapes
resolved. -/
theorem exists_literalValue {q : Char} {x : Read s (List Char)} (h : literalRest q s = some x) :
    ∃ inside, s = inside ++ q :: x.rest ∧ ∃ y : Read s (List Char), literalValue q s = some y ∧
      y.value = unescaped inside ∧ y.rest = x.rest := by
  fun_induction literalRest q s with
  | case1 => cases h
  | case2 => cases h
  | case3 e s ih =>
    obtain ⟨x', hx, rfl⟩ := Option.map_eq_some_iff.mp h
    obtain ⟨inside, hs, y, hy, hvalue, hrest⟩ := ih hx
    refine ⟨'\\' :: e :: inside, congrArg (fun u => '\\' :: e :: u) hs, _,
      by rw [literalValue, hy, Option.map_some], ?_, hrest⟩
    rw [unescaped, hvalue]
  | case4 s h1 h2 =>
    cases h
    exact ⟨[], rfl, ⟨[], s, List.suffix_cons q s⟩,
      by rw [literalValue, if_pos rfl] <;> assumption, rfl, rfl⟩
  | case5 e s h1 h2 he ih =>
    obtain ⟨x', hx, rfl⟩ := Option.map_eq_some_iff.mp h
    obtain ⟨inside, hs, y, hy, hvalue, hrest⟩ := ih hx
    have hplain : e ≠ '\\' := by
      rintro rfl
      cases s with
      | nil => exact h1 rfl rfl
      | cons a s => exact h2 a s rfl rfl
    refine ⟨e :: inside, congrArg (e :: ·) hs, _,
      by rw [literalValue, if_neg he, hy, Option.map_some] <;> assumption, ?_, hrest⟩
    rw [unescaped_cons hplain, hvalue]

/-- What a statement holds between two quotes is read as a text up to the second of them. -/
theorem exists_quotedText {x : Read s (List Char)} (hc : isQuote c = true)
    (hx : literalRest c s = some x) : ∃ inside, s = inside ++ c :: x.rest ∧
      (quotedText (c :: s)).Gives (String.ofList (unescaped inside)) x.rest := by
  obtain ⟨inside, hs, y, hy, hvalue, hrest⟩ := exists_literalValue hx
  exact ⟨inside, hs, (gives_quotedText hc).mpr ⟨y, hy, by rw [hvalue], hrest⟩⟩

/-- A text that is read stands between its quotes. -/
theorem inside_of_quotedText {v : String} (h : (quotedText s).Gives v r) : ∃ q inside,
    isQuote q = true ∧ s = q :: (inside ++ q :: r) ∧ v = String.ofList (unescaped inside) := by
  cases s with
  | nil => exact absurd h Outcome.not_gives_fail
  | cons q t =>
    by_cases hq : isQuote q = true
    · obtain ⟨x, hx, rfl, rfl⟩ := (gives_quotedText hq).mp h
      obtain ⟨y, hy, hyx⟩ := exists_literalRest hx
      obtain ⟨inside, ht, x', hx', hvalue, -⟩ := exists_literalValue hy
      obtain rfl : x = x' := Option.some.inj (hx.symm.trans hx')
      rw [hyx] at ht
      exact ⟨q, inside, hq, congrArg (q :: ·) ht, by rw [hvalue]⟩
    · rw [quotedText, if_neg hq] at h
      exact absurd h Outcome.not_gives_fail

theorem spans_sumSign {op : ArithOp} (h : sumSign? (c :: s) = some op) : Spans (c :: s) s := by
  refine spans_cons (Condition.isPassed_of_sumSign? h) (startsArrow_eq_false ?_)
  rintro u rfl rfl
  cases h

theorem spans_productSign {op : ArithOp} (h : productSign? (c :: s) = some op) :
    Spans (c :: s) s := by
  refine spans_cons (Condition.isPassed_of_productSign? h) (startsArrow_of_ne ?_)
  rintro rfl
  cases h

/-- A name in front and the blanks behind it are whole pieces. -/
theorem spans_name (hc : isNameStart c = true) :
    Spans (c :: s) (trim (s.dropWhile isNameChar)) := by
  have hn := isNameChar_of_isNameStart hc
  have hfirst : Spans (c :: s) s :=
    spans_cons (Condition.isPassed_of_isNameChar hn) (startsArrow_of_ne (ne_minus_of_isNameChar hn))
  exact (hfirst.trans spans_dropWhile_isNameChar).trans spans_trim

theorem spans_decimal {x : Number} (h : (decimal s).Gives x r) : Spans s (trim r) := by
  obtain ⟨cs, hcs, -⟩ := Reader.gives_refine.mp h
  obtain ⟨-, rfl⟩ := Reader.gives_takeWhile.mp hcs
  refine (spans_dropWhile fun c hc => ⟨Condition.isPassed_of_isNumberChar hc, ?_⟩).trans spans_trim
  rintro rfl
  revert hc
  decide

/-- **An expression is made of whole pieces.** -/
theorem spans_of_derives {p : Part} (h : Derives p s r) : Spans s r := by
  induction h with
  | sum _ _ ihl ihe | product _ _ ihl ihe => exact ihl.trans ihe
  | sumEnd | productEnd | argumentsEnd | noArguments => exact .refl _
  | sumMore h _ _ ihx ihe => exact (((spans_sumSign h).trans spans_trim).trans ihx).trans ihe
  | productMore h _ _ ihx ihe =>
    exact (((spans_productSign h).trans spans_trim).trans ihx).trans ihe
  | negative h hu _ hx =>
    refine ((spans_sumSign h).trans spans_trim).trans ?_
    rw [hu]
    exact spans_decimal hx
  | negate h hu _ _ ihe =>
    refine ((spans_sumSign h).trans spans_trim).trans ?_
    rw [hu]
    exact ihe
  | unsigned _ _ ihe => exact ihe
  | group _ ihe => exact (spans_group (spans_trim.trans ihe)).trans spans_trim
  | text hc hx =>
    obtain ⟨y, hy, hrest⟩ := exists_literalRest hx
    rw [← hrest]
    exact (spans_literal hc hy).trans spans_trim
  | number _ hx => exact spans_decimal hx
  | constant hc _ => exact spans_name hc
  | call hc _ hu _ ihes =>
    refine (spans_name hc).trans ?_
    rw [hu]
    exact (spans_group (spans_trim.trans ihes)).trans spans_trim
  | qualified hc _ hu hd =>
    refine (spans_name hc).trans ?_
    rw [hu]
    exact (spans_cons (by decide) (startsArrow_of_ne (by decide))).trans (spans_name hd)
  | plain hc _ _ => exact spans_name hc
  | starArgument =>
    exact (spans_cons (by decide) (startsArrow_of_ne (by decide))).trans spans_trim
  | arguments _ _ _ _ ihe ihes => exact ihe.trans ihes
  | @argumentsMore t _ _ _ _ _ _ ihe ihes =>
    have hcomma : Spans (',' :: t) t := spans_cons (by decide) (startsArrow_of_ne (by decide))
    exact ((hcomma.trans spans_trim).trans ihe).trans ihes

end Expr

namespace Condition

/-! ## Parts of conditions -/

theorem spans_wordAhead {w : List Char} (h : wordAhead? s = some (w, r)) : Spans s r := by
  unfold wordAhead? at h
  refine spans_trim.trans ?_
  split at h
  · cases h
  · next c t ht =>
    split at h
    · next hc =>
      cases h
      have hn := isNameChar_of_isNameStart hc
      rw [ht]
      exact (spans_cons (isPassed_of_isNameChar hn)
        (startsArrow_of_ne (ne_minus_of_isNameChar hn))).trans spans_dropWhile_isNameChar
    · cases h

theorem spans_after {k : String} (h : after? k s = some r) : Spans s r := by
  obtain ⟨w, hw, -⟩ := after?_eq_some.mp h
  exact spans_wordAhead hw

/-- The sign of a comparison is made of characters that open and close nothing. -/
theorem spans_sign {op : CompareOp} {n : Nat} (h : sign? s = some (op, n)) :
    Spans s (s.drop n) := by
  have hone {c : Char} {s : List Char} (hc : isPassed c = true ∧ c ≠ '-') : Spans (c :: s) s :=
    spans_cons hc.1 (startsArrow_of_ne hc.2)
  unfold sign? at h
  split at h <;> cases h
  · exact (hone (by decide)).trans (hone (by decide))
  · exact (hone (by decide)).trans (hone (by decide))
  · exact (hone (by decide)).trans (hone (by decide))
  · exact (hone (by decide)).trans (hone (by decide))
  · exact (hone (by decide)).trans (hone (by decide))
  · exact hone (by decide)
  · exact hone (by decide)
  · exact hone (by decide)

/-- **A condition is made of whole pieces.** -/
theorem spans_of_derives {p : Part} (h : Derives p s r) : Spans s r := by
  induction h with
  | disjunction _ _ ihc ihcs | conjunction _ _ ihc ihcs => exact ihc.trans ihcs
  | alternativesEnd | conjunctsEnd => exact .refl _
  | alternativesMore h _ _ ihc ihcs | conjunctsMore h _ _ ihc ihcs =>
    exact (((spans_after h).trans spans_trim).trans ihc).trans ihcs
  | not h _ ihc => exact ((spans_after h).trans spans_trim).trans ihc
  | group _ _ ihc => exact (spans_group (spans_trim.trans ihc)).trans spans_trim
  | unnegated _ _ _ ihc => exact ihc
  | comparison hl ho he =>
    exact (((Expr.spans_of_derives hl).trans (spans_sign ho)).trans spans_trim).trans
      (Expr.spans_of_derives he)
  | call he _ => exact Expr.spans_of_derives he

end Condition

end DataPhrase
