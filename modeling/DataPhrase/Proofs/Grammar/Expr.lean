/-
# The grammar of expressions

`Derives p s r` says that the part `p` of an expression is written in front of the text `s` and
that `r` follows it. Both texts are without blanks in front, so that the grammar has no rule for
blanks. The reader of expressions gives exactly what the grammar derives (`gives_read_iff`).
-/
import DataPhrase.Expr.Reader
import DataPhrase.Proofs.Reading.Lexeme

namespace DataPhrase.Expr

open Text Lexeme

/-! ## The grammar -/

/-- A part of an expression with its value. The further summands and factors come with what stands
to the left of them. -/
inductive Part where
  | sum (e : Expr)
  | summands (left e : Expr)
  | product (e : Expr)
  | factors (left e : Expr)
  | signed (e : Expr)
  | operand (e : Expr)
  | arguments (es : List Expr)
  | moreArguments (es : List Expr)

/-- The text goes on with neither a group nor a qualified name. -/
def endsName : List Char → Bool
  | '(' :: _ => false
  | '.' :: d :: _ => !isNameStart d
  | _ => true

/-- The part is written in front of the first text, and the second text follows it. -/
inductive Derives : Part → List Char → List Char → Prop where
  | sum {s q r : List Char} {l e : Expr} (hl : Derives (.product l) s q)
      (he : Derives (.summands l e) q r) : Derives (.sum e) s r
  | sumEnd {s : List Char} {l : Expr} (h : sumSign? s = none) : Derives (.summands l l) s s
  | sumMore {c : Char} {t q r : List Char} {op : ArithOp} {l x e : Expr}
      (h : sumSign? (c :: t) = some op) (hx : Derives (.product x) (trim t) q)
      (he : Derives (.summands (.binary op l x) e) q r) : Derives (.summands l e) (c :: t) r
  | product {s q r : List Char} {l e : Expr} (hl : Derives (.signed l) s q)
      (he : Derives (.factors l e) q r) : Derives (.product e) s r
  | productEnd {s : List Char} {l : Expr} (h : productSign? s = none) :
      Derives (.factors l l) s s
  | productMore {c : Char} {t q r : List Char} {op : ArithOp} {l x e : Expr}
      (h : productSign? (c :: t) = some op) (hx : Derives (.signed x) (trim t) q)
      (he : Derives (.factors (.binary op l x) e) q r) : Derives (.factors l e) (c :: t) r
  | negative {c d : Char} {t u r : List Char} {x : Number}
      (h : sumSign? (c :: t) = some .subtract) (ht : trim t = d :: u) (hd : isDigit d = true)
      (hx : (decimal (d :: u)).Gives x r) : Derives (.signed (.number x.neg)) (c :: t) (trim r)
  | negate {c d : Char} {t u r : List Char} {e : Expr}
      (h : sumSign? (c :: t) = some .subtract) (ht : trim t = d :: u) (hd : isDigit d = false)
      (he : Derives (.signed e) (d :: u) r) : Derives (.signed (.negate e)) (c :: t) r
  | unsigned {c : Char} {t r : List Char} {e : Expr} (h : sumSign? (c :: t) ≠ some .subtract)
      (he : Derives (.operand e) (c :: t) r) : Derives (.signed e) (c :: t) r
  | group {t r : List Char} {e : Expr} (he : Derives (.sum e) (trim t) (')' :: r)) :
      Derives (.operand e) ('(' :: t) (trim r)
  | text {c : Char} {t : List Char} {x : Read t (List Char)} (hc : Token.isQuote c = true)
      (hx : literalValue c t = some x) :
      Derives (.operand (.text (String.ofList x.value))) (c :: t) (trim x.rest)
  | number {c : Char} {t r : List Char} {x : Number} (hc : isDigit c = true)
      (hx : (decimal (c :: t)).Gives x r) : Derives (.operand (.number x)) (c :: t) (trim r)
  | constant {c : Char} {t : List Char} {v : Literal} (hc : isNameStart c = true)
      (hv : constant? (c :: t.takeWhile isNameChar) = some v) :
      Derives (.operand (.literal v)) (c :: t) (trim (t.dropWhile isNameChar))
  | call {c : Char} {t u r : List Char} {es : List Expr} (hc : isNameStart c = true)
      (hv : constant? (c :: t.takeWhile isNameChar) = none)
      (hu : trim (t.dropWhile isNameChar) = '(' :: u)
      (hes : Derives (.arguments es) (trim u) (')' :: r)) :
      Derives (.operand (.call (String.ofList (c :: t.takeWhile isNameChar)) es)) (c :: t) (trim r)
  | qualified {c d : Char} {t u : List Char} (hc : isNameStart c = true)
      (hv : constant? (c :: t.takeWhile isNameChar) = none)
      (hu : trim (t.dropWhile isNameChar) = '.' :: d :: u) (hd : isNameStart d = true) :
      Derives (.operand (.field (some (String.ofList (c :: t.takeWhile isNameChar)))
        (String.ofList (d :: u.takeWhile isNameChar)))) (c :: t) (trim (u.dropWhile isNameChar))
  | plain {c : Char} {t : List Char} (hc : isNameStart c = true)
      (hv : constant? (c :: t.takeWhile isNameChar) = none)
      (hu : endsName (trim (t.dropWhile isNameChar)) = true) :
      Derives (.operand (.field none (String.ofList (c :: t.takeWhile isNameChar)))) (c :: t)
        (trim (t.dropWhile isNameChar))
  | noArguments {t : List Char} : Derives (.arguments []) (')' :: t) (')' :: t)
  | starArgument {t : List Char} : Derives (.arguments [.star]) ('*' :: t) (trim t)
  | arguments {s q r : List Char} {e : Expr} {es : List Expr} (hc : ∀ t, s ≠ ')' :: t)
      (hs : ∀ t, s ≠ '*' :: t) (he : Derives (.sum e) s q)
      (hes : Derives (.moreArguments es) q r) : Derives (.arguments (e :: es)) s r
  | argumentsEnd {s : List Char} (h : ∀ t, s ≠ ',' :: t) : Derives (.moreArguments []) s s
  | argumentsMore {t q r : List Char} {e : Expr} {es : List Expr}
      (he : Derives (.sum e) (trim t) q) (hes : Derives (.moreArguments es) q r) :
      Derives (.moreArguments (e :: es)) (',' :: t) r

/-- What follows a part has no blanks in front. -/
theorem Derives.trim_rest {p : Part} {s r : List Char} (h : Derives p s r) (hs : trim s = s) :
    trim r = r := by
  induction h with
  | sum _ _ ihl ihe => exact ihe (ihl hs)
  | sumEnd => exact hs
  | sumMore _ _ _ ihx ihe => exact ihe (ihx trim_trim)
  | product _ _ ihl ihe => exact ihe (ihl hs)
  | productEnd => exact hs
  | productMore _ _ _ ihx ihe => exact ihe (ihx trim_trim)
  | negative => exact trim_trim
  | negate _ ht _ _ ih => exact ih (by rw [← ht, trim_trim])
  | unsigned _ _ ih => exact ih hs
  | group => exact trim_trim
  | text => exact trim_trim
  | number => exact trim_trim
  | constant => exact trim_trim
  | call => exact trim_trim
  | qualified => exact trim_trim
  | plain => exact trim_trim
  | noArguments => exact hs
  | starArgument => exact trim_trim
  | arguments _ _ _ _ ihe ihes => exact ihes (ihe hs)
  | argumentsEnd => exact hs
  | argumentsMore _ _ ihe ihes => exact ihes (ihe trim_trim)

/-! ## What each reader gives -/

section Readers

variable {s t r : List Char} {c : Char} {l e : Expr} {es : List Expr}

/-- A sum is a product and the rest of the sum. -/
theorem gives_read : (read s).Gives e r ↔
    ∃ l q, (product s).Gives l q ∧ (sumRest l q).Gives e r := by
  rw [read.eq_def, Outcome.gives_andThen]
  constructor
  · rintro ⟨l, q, _, h⟩
    exact ⟨l, q, h⟩
  · rintro ⟨l, q, h, h'⟩
    exact ⟨l, q, h.suffix, h, h'⟩

/-- The rest of a sum is empty, or a sign, a product and a further rest. -/
theorem gives_sumRest : (sumRest l s).Gives e r ↔
    (sumSign? (trim s) = none ∧ l = e ∧ trim s = r) ∨
      ∃ c t op x q, trim s = c :: t ∧ sumSign? (c :: t) = some op ∧ (product t).Gives x q ∧
        (sumRest (.binary op l x) q).Gives e r := by
  rw [sumRest.eq_def]
  split
  · next hn =>
    simp only [hn, Outcome.gives_done]
    constructor
    · rintro ⟨rfl, rfl⟩
      exact Or.inl ⟨rfl, rfl, rfl⟩
    · rintro (⟨-, rfl, rfl⟩ | ⟨c, t, op, x, q, hc, -⟩)
      · exact ⟨rfl, rfl⟩
      · cases hc
  · next c t hc =>
    simp only [hc]
    split
    · next hs =>
      rw [Outcome.gives_done]
      constructor
      · rintro ⟨rfl, rfl⟩
        exact Or.inl ⟨hs, rfl, rfl⟩
      · rintro (⟨-, rfl, rfl⟩ | ⟨_, _, op, x, q, hc, ho, -⟩)
        · exact ⟨rfl, rfl⟩
        · cases hc
          rw [hs] at ho
          cases ho
    · next op hs =>
      rw [Outcome.gives_widen, Outcome.gives_andThen]
      constructor
      · rintro ⟨x, q, -, hx, he⟩
        exact Or.inr ⟨c, t, op, x, q, rfl, hs, hx, he⟩
      · rintro (⟨hn, -⟩ | ⟨_, _, _, x, q, hc, ho, hx, he⟩)
        · rw [hs] at hn
          cases hn
        · cases hc
          rw [hs] at ho
          cases ho
          exact ⟨x, q, hx.suffix, hx, he⟩

/-- A product is a signed operand and the rest of the product. -/
theorem gives_product : (product s).Gives e r ↔
    ∃ l q, (signed s).Gives l q ∧ (productRest l q).Gives e r := by
  rw [product.eq_def, Outcome.gives_andThen]
  constructor
  · rintro ⟨l, q, _, h⟩
    exact ⟨l, q, h⟩
  · rintro ⟨l, q, h, h'⟩
    exact ⟨l, q, h.suffix, h, h'⟩

/-- The rest of a product is empty, or a sign, a signed operand and a further rest. -/
theorem gives_productRest : (productRest l s).Gives e r ↔
    (productSign? (trim s) = none ∧ l = e ∧ trim s = r) ∨
      ∃ c t op x q, trim s = c :: t ∧ productSign? (c :: t) = some op ∧ (signed t).Gives x q ∧
        (productRest (.binary op l x) q).Gives e r := by
  rw [productRest.eq_def]
  split
  · next hn =>
    simp only [hn, Outcome.gives_done]
    constructor
    · rintro ⟨rfl, rfl⟩
      exact Or.inl ⟨rfl, rfl, rfl⟩
    · rintro (⟨-, rfl, rfl⟩ | ⟨c, t, op, x, q, hc, -⟩)
      · exact ⟨rfl, rfl⟩
      · cases hc
  · next c t hc =>
    simp only [hc]
    split
    · next hs =>
      rw [Outcome.gives_done]
      constructor
      · rintro ⟨rfl, rfl⟩
        exact Or.inl ⟨hs, rfl, rfl⟩
      · rintro (⟨-, rfl, rfl⟩ | ⟨_, _, op, x, q, hc, ho, -⟩)
        · exact ⟨rfl, rfl⟩
        · cases hc
          rw [hs] at ho
          cases ho
    · next op hs =>
      rw [Outcome.gives_widen, Outcome.gives_andThen]
      constructor
      · rintro ⟨x, q, -, hx, he⟩
        exact Or.inr ⟨c, t, op, x, q, rfl, hs, hx, he⟩
      · rintro (⟨hn, -⟩ | ⟨_, _, _, x, q, hc, ho, hx, he⟩)
        · rw [hs] at hn
          cases hn
        · cases hc
          rw [hs] at ho
          cases ho
          exact ⟨x, q, hx.suffix, hx, he⟩

/-- A signed operand is a negative number, a negation or an operand. -/
theorem gives_signed : (signed s).Gives e r ↔
    ∃ c t, trim s = c :: t ∧
      ((sumSign? (c :: t) = some .subtract ∧ ∃ d u, trim t = d :: u ∧
          ((isDigit d = true ∧ ∃ x, (decimal (d :: u)).Gives x r ∧ Expr.number x.neg = e) ∨
            (isDigit d = false ∧ ∃ x, (signed t).Gives x r ∧ Expr.negate x = e))) ∨
        (sumSign? (c :: t) ≠ some .subtract ∧ (operand c t).Gives e r)) := by
  rw [signed.eq_def]
  split
  · next hn => simp [hn]
  · next c t hc =>
    simp only [hc]
    constructor
    · intro hg
      refine ⟨c, t, rfl, ?_⟩
      by_cases hs : sumSign? (c :: t) = some .subtract
      · rw [if_pos hs] at hg
        refine Or.inl ⟨hs, ?_⟩
        split at hg
        · exact absurd hg Outcome.not_gives_stop
        · next d u hu =>
          refine ⟨d, u, hu, ?_⟩
          by_cases hd : isDigit d = true
          · rw [if_pos hd, Outcome.gives_widen, Outcome.gives_map] at hg
            exact Or.inl ⟨hd, hg⟩
          · rw [if_neg hd, Outcome.gives_widen, Outcome.gives_map] at hg
            exact Or.inr ⟨by simpa using hd, hg⟩
      · rw [if_neg hs, Outcome.gives_widen] at hg
        exact Or.inr ⟨hs, hg⟩
    · rintro ⟨_, _, hc, h⟩
      cases hc
      rcases h with ⟨hs, d, u, hu, h⟩ | ⟨hs, h⟩
      · rw [if_pos hs]
        split
        · next hn =>
          rw [hu] at hn
          cases hn
        · next d' u' hu' =>
          rw [hu] at hu'
          cases hu'
          rcases h with ⟨hd, h⟩ | ⟨hd, h⟩
          · rw [if_pos hd, Outcome.gives_widen, Outcome.gives_map]
            exact h
          · rw [if_neg (by simp [hd]), Outcome.gives_widen, Outcome.gives_map]
            exact h
      · rw [if_neg hs, Outcome.gives_widen]
        exact h

/-- A quote is no parenthesis. -/
theorem ne_paren_of_isQuote (h : Token.isQuote c = true) : c ≠ '(' := by
  rintro rfl
  revert h
  decide

/-- Digits are those of ASCII. -/
theorem isDigit_iff : isDigit c = true ↔ 48 ≤ c.toNat ∧ c.toNat ≤ 57 := by
  simp only [isDigit, Char.isDigit, Bool.and_eq_true, decide_eq_true_eq, UInt32.le_iff_toNat_le]
  rfl

/-- A digit starts no other operand than a number. -/
theorem not_other_of_isDigit (h : isDigit c = true) : c ≠ '(' ∧ Token.isQuote c = false := by
  refine ⟨?_, ?_⟩
  · rintro rfl
    revert h
    decide
  · cases hq : Token.isQuote c with
    | false => rfl
    | true =>
      simp only [Token.isQuote, Bool.or_eq_true, beq_iff_eq] at hq
      rcases hq with rfl | rfl <;> revert h <;> decide

/-- A character that starts a name starts no other operand. -/
theorem not_other_of_isNameStart (h : isNameStart c = true) :
    c ≠ '(' ∧ Token.isQuote c = false ∧ isDigit c = false := by
  have hd : isDigit c = false := by
    cases hd : isDigit c with
    | false => rfl
    | true =>
      obtain ⟨h1, h2⟩ := isDigit_iff.mp hd
      have hc : c ∈ (List.range' 48 10).map Char.ofNat := by
        rw [List.mem_map]
        exact ⟨c.toNat, List.mem_range'_1.mpr ⟨h1, by omega⟩, Char.ofNat_toNat c⟩
      have hall : ((List.range' 48 10).map Char.ofNat).all (fun c => !isNameStart c) = true := by
        decide
      have hn := List.all_eq_true.mp hall c hc
      rw [h] at hn
      cases hn
  refine ⟨?_, ?_, hd⟩
  · rintro rfl
    revert h
    decide
  · cases hq : Token.isQuote c with
    | false => rfl
    | true =>
      simp only [Token.isQuote, Bool.or_eq_true, beq_iff_eq] at hq
      rcases hq with rfl | rfl <;> revert h <;> decide

/-- A group is a sum in parentheses. -/
theorem gives_operand_group :
    (operand '(' t).Gives e r ↔ ∃ q, (read t).Gives e q ∧ trim q = ')' :: r := by
  rw [operand.eq_def, if_pos rfl, Outcome.gives_widen, Outcome.gives_andThen]
  constructor
  · rintro ⟨x, q, _, hx, h⟩
    obtain ⟨u, hu, rfl⟩ := Outcome.gives_map.mp h
    exact ⟨q, hx, gives_mark.mp hu⟩
  · rintro ⟨q, hx, hq⟩
    exact ⟨e, q, hx.suffix, hx, Outcome.gives_map.mpr ⟨(), gives_mark.mpr hq, rfl⟩⟩

/-- A text in quotes is the value up to its closing quote. -/
theorem gives_quotedText {v : String} (hc : Token.isQuote c = true) :
    (quotedText (c :: t)).Gives v r ↔ ∃ x : Read t (List Char), literalValue c t = some x ∧
      String.ofList x.value = v ∧ x.rest = r := by
  show (if Token.isQuote c then _ else _ : Outcome Cause (c :: t) String).Gives v r ↔ _
  rw [if_pos hc]
  cases h : literalValue c t with
  | none => simp
  | some x => simp [Read.map, Read.widen]

/-- An operand that begins with a quote is a text. -/
theorem gives_operand_text (hc : Token.isQuote c = true) : (operand c t).Gives e r ↔
    ∃ x : Read t (List Char), literalValue c t = some x ∧
      Expr.text (String.ofList x.value) = e ∧ x.rest = r := by
  rw [operand.eq_def, if_neg (ne_paren_of_isQuote hc), if_pos hc, Outcome.gives_map]
  constructor
  · rintro ⟨v, hv, rfl⟩
    obtain ⟨x, hx, rfl, hr⟩ := (gives_quotedText hc).mp hv
    exact ⟨x, hx, rfl, hr⟩
  · rintro ⟨x, hx, rfl, hr⟩
    exact ⟨_, (gives_quotedText hc).mpr ⟨x, hx, rfl, hr⟩, rfl⟩

/-- An operand that begins with a digit is a number. -/
theorem gives_operand_number (hc : isDigit c = true) : (operand c t).Gives e r ↔
    ∃ x, (decimal (c :: t)).Gives x r ∧ Expr.number x = e := by
  obtain ⟨h1, h2⟩ := not_other_of_isDigit hc
  rw [operand.eq_def, if_neg h1, if_neg (by simp [h2]), if_pos hc, Outcome.gives_map]

/-- A word for a constant is the constant. -/
theorem gives_operand_constant {v : Literal} (hc : isNameStart c = true)
    (hv : constant? (c :: t.takeWhile isNameChar) = some v) : (operand c t).Gives e r ↔
    Expr.literal v = e ∧ t.dropWhile isNameChar = r := by
  obtain ⟨h1, h2, h3⟩ := not_other_of_isNameStart hc
  rw [operand.eq_def, if_neg h1, if_neg (by simp [h2]), if_neg (by simp [h3]), if_pos hc]
  simp only [hv, Outcome.gives_done]

/-- A word with a parenthesis behind it is a call. -/
theorem gives_operand_call {u : List Char} (hc : isNameStart c = true)
    (hv : constant? (c :: t.takeWhile isNameChar) = none)
    (hu : trim (t.dropWhile isNameChar) = '(' :: u) : (operand c t).Gives e r ↔
    ∃ es q, (arguments u).Gives es q ∧ trim q = ')' :: r ∧
      Expr.call (String.ofList (c :: t.takeWhile isNameChar)) es = e := by
  obtain ⟨h1, h2, h3⟩ := not_other_of_isNameStart hc
  rw [operand.eq_def, if_neg h1, if_neg (by simp [h2]), if_neg (by simp [h3]), if_pos hc]
  simp only [hv]
  split
  · next u' hu' =>
    rw [hu] at hu'
    cases hu'
    rw [Outcome.gives_widen, Outcome.gives_andThen]
    constructor
    · rintro ⟨es, q, _, hes, h⟩
      obtain ⟨_, hq, rfl⟩ := Outcome.gives_map.mp h
      exact ⟨es, q, hes, gives_mark.mp hq, rfl⟩
    · rintro ⟨es, q, hes, hq, rfl⟩
      exact ⟨es, q, hes.suffix, hes, Outcome.gives_map.mpr ⟨(), gives_mark.mpr hq, rfl⟩⟩
  · next hu' =>
    rw [hu] at hu'
    cases hu'
  · next hn _ => exact absurd hu (hn u)

/-- A word with a point and a name behind it is a qualified field. -/
theorem gives_operand_qualified {d : Char} {u : List Char} (hc : isNameStart c = true)
    (hv : constant? (c :: t.takeWhile isNameChar) = none)
    (hu : trim (t.dropWhile isNameChar) = '.' :: d :: u) (hd : isNameStart d = true) :
    (operand c t).Gives e r ↔
      Expr.field (some (String.ofList (c :: t.takeWhile isNameChar)))
        (String.ofList (d :: u.takeWhile isNameChar)) = e ∧ u.dropWhile isNameChar = r := by
  obtain ⟨h1, h2, h3⟩ := not_other_of_isNameStart hc
  rw [operand.eq_def, if_neg h1, if_neg (by simp [h2]), if_neg (by simp [h3]), if_pos hc]
  simp only [hv]
  split
  · next hu' =>
    rw [hu] at hu'
    cases hu'
  · next d' u' hu' =>
    rw [hu] at hu'
    cases hu'
    rw [if_pos hd, Outcome.gives_done]
  · next hn => exact absurd hu (hn d u)

/-- Any other word is a field. -/
theorem gives_operand_plain (hc : isNameStart c = true)
    (hv : constant? (c :: t.takeWhile isNameChar) = none)
    (hu : endsName (trim (t.dropWhile isNameChar)) = true) : (operand c t).Gives e r ↔
      Expr.field none (String.ofList (c :: t.takeWhile isNameChar)) = e ∧
        trim (t.dropWhile isNameChar) = r := by
  obtain ⟨h1, h2, h3⟩ := not_other_of_isNameStart hc
  rw [operand.eq_def, if_neg h1, if_neg (by simp [h2]), if_neg (by simp [h3]), if_pos hc]
  simp only [hv]
  split
  · next u hu' =>
    rw [hu'] at hu
    cases hu
  · next d u hu' =>
    rw [hu'] at hu
    have hd : isNameStart d = false := by simpa [endsName] using hu
    rw [if_neg (by simp [hd]), Outcome.gives_done]
    simp only [hu']
  · rw [Outcome.gives_done]

/-- Arguments are none, a star, or a list of sums. -/
theorem gives_arguments : (arguments s).Gives es r ↔
    (∃ t, trim s = ')' :: t ∧ [] = es ∧ ')' :: t = r) ∨
    (∃ t, trim s = '*' :: t ∧ [.star] = es ∧ t = r) ∨
    ((∀ t, trim s ≠ ')' :: t) ∧ (∀ t, trim s ≠ '*' :: t) ∧
      ∃ e es' q, (read s).Gives e q ∧ (argumentsRest q).Gives es' r ∧ e :: es' = es) := by
  rw [arguments.eq_def]
  split
  · next t ht =>
    rw [Outcome.gives_done]
    constructor
    · rintro ⟨he, hr⟩
      exact Or.inl ⟨t, ht, he, hr⟩
    · rintro (⟨u, hu, he, hr⟩ | ⟨u, hu, -, -⟩ | ⟨hn, -, -⟩)
      · rw [ht] at hu
        cases hu
        exact ⟨he, hr⟩
      · rw [ht] at hu
        cases hu
      · exact absurd ht (hn t)
  · next t ht =>
    rw [Outcome.gives_done]
    constructor
    · rintro ⟨he, hr⟩
      exact Or.inr (Or.inl ⟨t, ht, he, hr⟩)
    · rintro (⟨u, hu, -, -⟩ | ⟨u, hu, he, hr⟩ | ⟨-, hn, -⟩)
      · rw [ht] at hu
        cases hu
      · rw [ht] at hu
        cases hu
        exact ⟨he, hr⟩
      · exact absurd ht (hn t)
  · next hp hs =>
    rw [Outcome.gives_andThen]
    constructor
    · rintro ⟨e, q, _, he, h⟩
      obtain ⟨es', hes, rfl⟩ := Outcome.gives_map.mp h
      exact Or.inr (Or.inr ⟨hp, hs, e, es', q, he, hes, rfl⟩)
    · rintro (⟨t, ht, -⟩ | ⟨t, ht, -⟩ | ⟨-, -, e, es', q, he, hes, rfl⟩)
      · exact absurd ht (hp t)
      · exact absurd ht (hs t)
      · exact ⟨e, q, he.suffix, he, Outcome.gives_map.mpr ⟨es', hes, rfl⟩⟩

/-- Further arguments stand behind commas. -/
theorem gives_argumentsRest : (argumentsRest s).Gives es r ↔
    ((∀ t, s.dropWhile isListGap ≠ ',' :: t) ∧ [] = es ∧ s = r) ∨
      ∃ t e es' q, s.dropWhile isListGap = ',' :: t ∧ (read t).Gives e q ∧
        (argumentsRest q).Gives es' r ∧ e :: es' = es := by
  rw [argumentsRest.eq_def]
  split
  · next t ht =>
    rw [Outcome.gives_widen, Outcome.gives_andThen]
    constructor
    · rintro ⟨e, q, _, he, h⟩
      obtain ⟨es', hes, rfl⟩ := Outcome.gives_map.mp h
      exact Or.inr ⟨t, e, es', q, ht, he, hes, rfl⟩
    · rintro (⟨hn, -⟩ | ⟨u, e, es', q, hu, he, hes, rfl⟩)
      · exact absurd ht (hn t)
      · rw [ht] at hu
        cases hu
        exact ⟨e, q, he.suffix, he, Outcome.gives_map.mpr ⟨es', hes, rfl⟩⟩
  · next hn =>
    rw [Outcome.gives_done]
    constructor
    · rintro ⟨rfl, rfl⟩
      exact Or.inl ⟨hn, rfl, rfl⟩
    · rintro (⟨-, rfl, rfl⟩ | ⟨t, _, _, _, ht, -⟩)
      · exact ⟨rfl, rfl⟩
      · exact absurd ht (hn t)

end Readers

/-! ## The reader and the grammar agree -/

/-- A text without blanks in front has no list gaps in front. -/
theorem dropWhile_isListGap {s : List Char} (h : trim s = s) : s.dropWhile isListGap = s := by
  cases s with
  | nil => rfl
  | cons c t =>
    have hc : isListGap c = false := by
      cases hg : isListGap c with
      | false => rfl
      | true =>
        have := not_isBlank_of_trim h
        rw [isBlank_of_isListGap hg] at this
        cases this
    rw [List.dropWhile_cons_of_neg (by simp [hc])]

/-- On texts shorter than `n`, everything that the readers give is derived. -/
structure DerivesBelow (n : Nat) : Prop where
  sum : ∀ {s e r}, s.length < n → (read s).Gives e r → Derives (.sum e) (trim s) r
  summands : ∀ {l s e r}, s.length < n → (sumRest l s).Gives e r →
    Derives (.summands l e) (trim s) r
  product : ∀ {s e r}, s.length < n → (product s).Gives e r → Derives (.product e) (trim s) r
  factors : ∀ {l s e r}, s.length < n → (productRest l s).Gives e r →
    Derives (.factors l e) (trim s) r
  signed : ∀ {s e r}, s.length < n → (signed s).Gives e r → Derives (.signed e) (trim s) (trim r)
  arguments : ∀ {s es r}, s.length < n → (arguments s).Gives es r →
    Derives (.arguments es) (trim s) (trim r)
  moreArguments : ∀ {s es r}, s.length < n → trim s = s → (argumentsRest s).Gives es r →
    Derives (.moreArguments es) s (trim r)

namespace DerivesBelow

variable {n : Nat} {c : Char} {s t r : List Char} {l e : Expr} {es : List Expr}

/-! Each reader calls the others on shorter texts, or one that comes before it here on the same
text. -/

/-- The rest of a product is derived if shorter texts are. -/
theorem factors_step (h : DerivesBelow n) (hs : s.length ≤ n) (hg : (productRest l s).Gives e r) :
    Derives (.factors l e) (trim s) r := by
  rcases gives_productRest.mp hg with ⟨hn, rfl, rfl⟩ | ⟨c, t, op, x, q, hc, ho, hx, he⟩
  · exact .productEnd hn
  · have ht := Nat.lt_of_lt_of_le (length_lt_of_trim hc) hs
    rw [hc]
    exact .productMore ho (h.signed ht hx) (h.factors (Nat.lt_of_le_of_lt hx.suffix.length_le ht) he)

/-- The rest of a sum is derived if shorter texts are. -/
theorem summands_step (h : DerivesBelow n) (hs : s.length ≤ n) (hg : (sumRest l s).Gives e r) :
    Derives (.summands l e) (trim s) r := by
  rcases gives_sumRest.mp hg with ⟨hn, rfl, rfl⟩ | ⟨c, t, op, x, q, hc, ho, hx, he⟩
  · exact .sumEnd hn
  · have ht := Nat.lt_of_lt_of_le (length_lt_of_trim hc) hs
    have hd := h.product ht hx
    have hm := h.summands (Nat.lt_of_le_of_lt hx.suffix.length_le ht) he
    rw [hd.trim_rest trim_trim] at hm
    rw [hc]
    exact .sumMore ho hd hm

/-- An operand that begins with a word is derived if shorter texts are. -/
theorem name_step (h : DerivesBelow n) (ht : t.length < n) (hc : isNameStart c = true)
    (hg : (operand c t).Gives e r) : Derives (.operand e) (c :: t) (trim r) := by
  cases hv : constant? (c :: t.takeWhile isNameChar) with
  | some v =>
    obtain ⟨rfl, rfl⟩ := (gives_operand_constant hc hv).mp hg
    exact .constant hc hv
  | none =>
    by_cases he : endsName (trim (t.dropWhile isNameChar)) = true
    · obtain ⟨rfl, rfl⟩ := (gives_operand_plain hc hv he).mp hg
      rw [trim_trim]
      exact .plain hc hv he
    · unfold endsName at he
      split at he
      · next u hu =>
        obtain ⟨es, q, hes, hq, rfl⟩ := (gives_operand_call hc hv hu).mp hg
        have hlt : u.length < t.length := Nat.lt_of_lt_of_le (length_lt_of_trim hu)
          (List.dropWhile_suffix isNameChar).length_le
        have hd := h.arguments (Nat.lt_trans hlt ht) hes
        rw [hq] at hd
        exact .call hc hv hu hd
      · next d u hu =>
        rw [Bool.not_eq_true, Bool.not_eq_false'] at he
        obtain ⟨rfl, rfl⟩ := (gives_operand_qualified hc hv hu he).mp hg
        exact .qualified hc hv hu he
      · exact absurd rfl he

/-- Every operand is derived if shorter texts are. -/
theorem operand_step (h : DerivesBelow n) (ht : t.length < n) (hg : (operand c t).Gives e r) :
    Derives (.operand e) (c :: t) (trim r) := by
  by_cases hp : c = '('
  · subst hp
    obtain ⟨q, hq, hr⟩ := gives_operand_group.mp hg
    have hd := h.sum ht hq
    rw [← hd.trim_rest trim_trim, hr] at hd
    exact .group hd
  by_cases hq : Token.isQuote c = true
  · obtain ⟨x, hx, rfl, rfl⟩ := (gives_operand_text hq).mp hg
    exact .text hq hx
  by_cases hd : isDigit c = true
  · obtain ⟨x, hx, rfl⟩ := (gives_operand_number hd).mp hg
    exact .number hd hx
  by_cases hc : isNameStart c = true
  · exact h.name_step ht hc hg
  · rw [operand.eq_def, if_neg hp, if_neg hq, if_neg hd, if_neg hc] at hg
    exact absurd hg Outcome.not_gives_fail

/-- A signed operand is derived if shorter texts are. -/
theorem signed_step (h : DerivesBelow n) (hs : s.length ≤ n) (hg : (Expr.signed s).Gives e r) :
    Derives (.signed e) (trim s) (trim r) := by
  obtain ⟨c, t, hc, hg⟩ := gives_signed.mp hg
  have ht := Nat.lt_of_lt_of_le (length_lt_of_trim hc) hs
  rw [hc]
  rcases hg with ⟨hm, d, u, hu, ⟨hd, x, hx, rfl⟩ | ⟨hd, x, hx, rfl⟩⟩ | ⟨hm, hx⟩
  · exact .negative hm hu hd hx
  · have hx := h.signed ht hx
    rw [hu] at hx
    exact .negate hm hu hd hx
  · exact .unsigned hm (h.operand_step ht hx)

theorem product_step (h : DerivesBelow n) (hs : s.length ≤ n) (hg : (Expr.product s).Gives e r) :
    Derives (.product e) (trim s) r := by
  obtain ⟨l, q, hl, he⟩ := gives_product.mp hg
  exact .product (h.signed_step hs hl) (h.factors_step (Nat.le_trans hl.suffix.length_le hs) he)

theorem sum_step (h : DerivesBelow n) (hs : s.length ≤ n) (hg : (read s).Gives e r) :
    Derives (.sum e) (trim s) r := by
  obtain ⟨l, q, hl, he⟩ := gives_read.mp hg
  have hd := h.product_step hs hl
  have hm := h.summands_step (Nat.le_trans hl.suffix.length_le hs) he
  rw [hd.trim_rest trim_trim] at hm
  exact .sum hd hm

theorem moreArguments_step (h : DerivesBelow n) (hs : s.length ≤ n) (hb : trim s = s)
    (hg : (argumentsRest s).Gives es r) : Derives (.moreArguments es) s (trim r) := by
  have hgap := dropWhile_isListGap hb
  rcases gives_argumentsRest.mp hg with ⟨hn, rfl, rfl⟩ | ⟨t, e, es', q, ht, he, hes, rfl⟩
  · rw [hgap] at hn
    rw [hb]
    exact .argumentsEnd hn
  · rw [hgap] at ht
    have hlt : t.length < n := Nat.lt_of_lt_of_le (length_lt_of_trim (hb.trans ht)) hs
    have hd := h.sum hlt he
    have hq := Nat.lt_of_le_of_lt he.suffix.length_le hlt
    rw [ht]
    exact .argumentsMore hd (h.moreArguments hq (hd.trim_rest trim_trim) hes)

/-- Arguments are derived if shorter texts are. -/
theorem arguments_step (h : DerivesBelow n) (hs : s.length ≤ n)
    (hg : (Expr.arguments s).Gives es r) : Derives (.arguments es) (trim s) (trim r) := by
  rcases gives_arguments.mp hg with ⟨t, ht, rfl, rfl⟩ | ⟨t, ht, rfl, rfl⟩ |
    ⟨hp, hn, e, es', q, he, hes, rfl⟩
  · rw [← ht, trim_trim, ht]
    exact .noArguments
  · rw [ht]
    exact .starArgument
  · have hd := h.sum_step hs he
    exact .arguments hp hn hd
      (h.moreArguments_step (Nat.le_trans he.suffix.length_le hs) (hd.trim_rest trim_trim) hes)

end DerivesBelow

/-- On all texts, everything that the readers give is derived. -/
theorem derivesBelow (n : Nat) : DerivesBelow n := by
  induction n with
  | zero => constructor <;> intros <;> contradiction
  | succ n h =>
    exact
      { sum := fun hs => h.sum_step (Nat.le_of_lt_succ hs)
        summands := fun hs => h.summands_step (Nat.le_of_lt_succ hs)
        product := fun hs => h.product_step (Nat.le_of_lt_succ hs)
        factors := fun hs => h.factors_step (Nat.le_of_lt_succ hs)
        signed := fun hs => h.signed_step (Nat.le_of_lt_succ hs)
        arguments := fun hs => h.arguments_step (Nat.le_of_lt_succ hs)
        moreArguments := fun hs => h.moreArguments_step (Nat.le_of_lt_succ hs) }

/-- The reader of a part takes it off every text that is `s` up to blanks in front, and leaves `r`
up to blanks in front. -/
def Part.IsRead (s r : List Char) : Part → Prop
  | .sum e => ∀ t, trim t = s → (read t).Gives e r
  | .summands l e => ∀ t, trim t = s → (sumRest l t).Gives e r
  | .product e => ∀ t, trim t = s → (Expr.product t).Gives e r
  | .factors l e => ∀ t, trim t = s → (productRest l t).Gives e r
  | .signed e => ∀ t, trim t = s → ∃ q, (Expr.signed t).Gives e q ∧ trim q = r
  | .operand e => ∃ c t, s = c :: t ∧ ∃ q, (Expr.operand c t).Gives e q ∧ trim q = r
  | .arguments es => ∀ t, trim t = s → ∃ q, (Expr.arguments t).Gives es q ∧ trim q = r
  | .moreArguments es => trim s = s → ∃ q, (argumentsRest s).Gives es q ∧ trim q = r

/-- Everything that is derived is read. -/
theorem Derives.isRead {p : Part} {s r : List Char} (h : Derives p s r) : p.IsRead s r := by
  induction h with
  | sum hl he ihl ihe =>
    intro t ht
    subst ht
    exact gives_read.mpr ⟨_, _, ihl t rfl, ihe _ (hl.trim_rest trim_trim)⟩
  | sumEnd h =>
    intro t ht
    exact gives_sumRest.mpr (Or.inl ⟨ht ▸ h, rfl, ht⟩)
  | sumMore h hx he ihx ihe =>
    intro t ht
    exact gives_sumRest.mpr (Or.inr ⟨_, _, _, _, _, ht, h, ihx _ rfl,
      ihe _ (hx.trim_rest trim_trim)⟩)
  | product hl he ihl ihe =>
    intro t ht
    obtain ⟨q, hq, rfl⟩ := ihl t ht
    exact gives_product.mpr ⟨_, q, hq, ihe q rfl⟩
  | productEnd h =>
    intro t ht
    exact gives_productRest.mpr (Or.inl ⟨ht ▸ h, rfl, ht⟩)
  | productMore h hx he ihx ihe =>
    intro t ht
    obtain ⟨q, hq, rfl⟩ := ihx _ rfl
    exact gives_productRest.mpr (Or.inr ⟨_, _, _, _, _, ht, h, hq, ihe q rfl⟩)
  | negative h ht hd hx =>
    intro s hs
    exact ⟨_, gives_signed.mpr ⟨_, _, hs, Or.inl ⟨h, _, _, ht, Or.inl ⟨hd, _, hx, rfl⟩⟩⟩, rfl⟩
  | negate h ht hd he ih =>
    intro s hs
    obtain ⟨q, hq, rfl⟩ := ih _ ht
    exact ⟨q, gives_signed.mpr ⟨_, _, hs, Or.inl ⟨h, _, _, ht, Or.inr ⟨hd, _, hq, rfl⟩⟩⟩, rfl⟩
  | unsigned h he ih =>
    intro s hs
    obtain ⟨_, _, hc, q, hq, rfl⟩ := ih
    cases hc
    exact ⟨q, gives_signed.mpr ⟨_, _, hs, Or.inr ⟨h, hq⟩⟩, rfl⟩
  | @group t r e he ih =>
    refine ⟨_, _, rfl, r, gives_operand_group.mpr ⟨_, ih t rfl, ?_⟩, rfl⟩
    exact he.trim_rest trim_trim
  | text hc hx => exact ⟨_, _, rfl, _, (gives_operand_text hc).mpr ⟨_, hx, rfl, rfl⟩, rfl⟩
  | number hc hx => exact ⟨_, _, rfl, _, (gives_operand_number hc).mpr ⟨_, hx, rfl⟩, rfl⟩
  | constant hc hv =>
    exact ⟨_, _, rfl, _, (gives_operand_constant hc hv).mpr ⟨rfl, rfl⟩, rfl⟩
  | call hc hv hu hes ih =>
    obtain ⟨q, hq, hr⟩ := ih _ rfl
    exact ⟨_, _, rfl, _, (gives_operand_call hc hv hu).mpr ⟨_, q, hq, hr, rfl⟩, rfl⟩
  | qualified hc hv hu hd =>
    exact ⟨_, _, rfl, _, (gives_operand_qualified hc hv hu hd).mpr ⟨rfl, rfl⟩, rfl⟩
  | plain hc hv hu =>
    exact ⟨_, _, rfl, _, (gives_operand_plain hc hv hu).mpr ⟨rfl, rfl⟩, trim_trim⟩
  | noArguments =>
    intro s hs
    exact ⟨_, gives_arguments.mpr (Or.inl ⟨_, hs, rfl, rfl⟩), by rw [← hs, trim_trim]⟩
  | starArgument =>
    intro s hs
    exact ⟨_, gives_arguments.mpr (Or.inr (Or.inl ⟨_, hs, rfl, rfl⟩)), rfl⟩
  | arguments h1 h2 he hes ihe ihes =>
    intro s hs
    subst hs
    obtain ⟨q, hq, rfl⟩ := ihes (he.trim_rest trim_trim)
    exact ⟨q, gives_arguments.mpr (Or.inr (Or.inr ⟨h1, h2, _, _, _, ihe s rfl, hq, rfl⟩)), rfl⟩
  | argumentsEnd h =>
    intro hs
    refine ⟨_, gives_argumentsRest.mpr (Or.inl ⟨?_, rfl, rfl⟩), hs⟩
    rw [dropWhile_isListGap hs]
    exact h
  | argumentsMore he hes ihe ihes =>
    intro hs
    obtain ⟨q, hq, rfl⟩ := ihes (he.trim_rest trim_trim)
    refine ⟨q, gives_argumentsRest.mpr (Or.inr ⟨_, _, _, _, ?_, ihe _ rfl, hq, rfl⟩), rfl⟩
    rw [dropWhile_isListGap hs]

/-- **The reader of expressions follows the grammar.** -/
theorem gives_read_iff {s r : List Char} {e : Expr} :
    (read s).Gives e r ↔ Derives (.sum e) (trim s) r := by
  constructor
  · exact (derivesBelow (s.length + 1)).sum (Nat.lt_succ_self _)
  · intro h
    exact h.isRead s rfl

end DataPhrase.Expr
