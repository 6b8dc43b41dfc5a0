/-
# Expressions and conditions with other gaps

The signs in front of a text, the literals in it and the parentheses ahead do not depend on its
gaps. So an expression or a condition is read off both of two texts that are the same but for their
gaps (`Carries`).
-/
import DataPhrase.Proofs.Gaps.Text

namespace DataPhrase

open Text Lexeme

variable {m : MaskState} {c q : Char} {g s s' t r : List Char}

/-! ## Looking ahead -/

/-- The function looks at no more than two characters in front, and at no gap. -/
structure LooksAhead {α : Type} (f : List Char → α) : Prop where
  two : ∀ c d t, f (c :: d :: t) = f [c, d]
  gap : ∀ c t, isGap c = true → f (c :: t) = f []
  beforeGap : ∀ c d t, isGap d = true → f (c :: d :: t) = f [c]

/-- Respaced texts begin with the same character, or both with a gap. -/
theorem Respaced.cases_head (h : Respaced m s s') : s.head? = s'.head? ∨
    ∃ g t g' t', isGap g = true ∧ isGap g' = true ∧ s = g :: t ∧ s' = g' :: t' := by
  cases h with
  | nil => exact Or.inl rfl
  | char => exact Or.inl rfl
  | @gaps g g' t t' hg hg' =>
    obtain ⟨c, u, rfl⟩ := List.exists_cons_of_ne_nil hg.1
    obtain ⟨c', u', rfl⟩ := List.exists_cons_of_ne_nil hg'.1
    exact Or.inr ⟨c, u ++ t, c', u' ++ t', hg.2 c List.mem_cons_self, hg'.2 c' List.mem_cons_self,
      rfl, rfl⟩

/-- What is looked up ahead does not depend on gaps. -/
theorem LooksAhead.eq {α : Type} {f : List Char → α} (hf : LooksAhead f)
    (h : Respaced .outside s s') : f s = f s' := by
  rcases h.cases_front with ⟨rfl, rfl⟩ | ⟨g, t, g', t', hg, hg', rfl, rfl⟩ |
    ⟨c, t, t', -, rfl, rfl, ht⟩
  · rfl
  · rw [hf.gap g t hg, hf.gap g' t' hg']
  · rcases ht.cases_head with hhead | ⟨d, u, d', u', hd, hd', rfl, rfl⟩
    · cases t with
      | nil =>
        cases t' with
        | nil => rfl
        | cons d' u' => cases hhead
      | cons d u =>
        cases t' with
        | nil => cases hhead
        | cons d' u' =>
          obtain rfl := Option.some.inj hhead
          rw [hf.two, hf.two c d u']
    · rw [hf.beforeGap c d u hd, hf.beforeGap c d' u' hd']

namespace Expr

theorem sumSign?_of_ne_minus (hc : c ≠ '-') :
    sumSign? (c :: s) = if c = '+' then some .add else none := by
  unfold sumSign?
  grind

/-- Whether a sum goes on does not depend on the gaps. -/
theorem looksAhead_sumSign? : LooksAhead sumSign? where
  two c d t := by
    by_cases hc : c = '-'
    · subst hc
      by_cases hd : d = '>'
      · subst hd
        rfl
      · rw [sumSign?_minus fun u hu => hd (List.cons.inj hu).1,
          sumSign?_minus fun u hu => hd (List.cons.inj hu).1]
    · rw [sumSign?_of_ne_minus hc, sumSign?_of_ne_minus hc]
  gap c t hc := by
    rcases Token.eq_of_isGap hc with rfl | rfl | rfl | rfl | rfl <;> rfl
  beforeGap c d t hd := by
    by_cases hc : c = '-'
    · subst hc
      rw [sumSign?_minus, sumSign?_minus fun u hu => by cases hu]
      rintro u ⟨⟩
      cases hd
    · rw [sumSign?_of_ne_minus hc, sumSign?_of_ne_minus hc]

/-- Whether a product goes on does not depend on the gaps. -/
theorem looksAhead_productSign? : LooksAhead productSign? where
  two c d t := by
    unfold productSign?
    grind
  gap c t hc := by
    rcases Token.eq_of_isGap hc with rfl | rfl | rfl | rfl | rfl <;> rfl
  beforeGap c d t hd := by
    unfold productSign?
    grind

/-- Whether a name ends does not depend on the gaps. -/
theorem looksAhead_endsName : LooksAhead endsName where
  two c d t := by
    unfold endsName
    grind
  gap c t hc := by
    rcases Token.eq_of_isGap hc with rfl | rfl | rfl | rfl | rfl <;> rfl
  beforeGap c d t hd := by
    have hstart := not_isNameStart_of_isBlank (Token.isBlank_of_isGap hd)
    unfold endsName
    grind

end Expr

/-- Which comparison follows does not depend on the gaps. -/
theorem Condition.looksAhead_sign? : LooksAhead Condition.sign? where
  two c d t := sign?_cons_cons
  gap c t hc := by
    rcases Token.eq_of_isGap hc with rfl | rfl | rfl | rfl | rfl <;> rfl
  beforeGap c d t hd := by
    refine sign?_cons ?_ ?_
    · rintro u ⟨⟩
      cases hd
    · rintro u ⟨⟩
      cases hd

/-! ## Literals -/

namespace Respaced

/-- Inside of a literal the texts have the same characters. -/
theorem cons_inside (h : Respaced m (c :: s) s') (hm : m ≠ .outside) :
    ∃ t, s' = c :: t ∧ Respaced (m.step c) s t := by
  generalize hu : c :: s = u at h
  cases h with
  | nil => cases hu
  | char _ h =>
    cases hu
    exact ⟨_, rfl, h⟩
  | gaps => exact absurd rfl hm

/-- A literal is the same in both texts. -/
theorem literalAhead? (hq : q ≠ '\\') (h : Respaced (.inside q) s s') {v : List Char}
    (hv : Expr.literalAhead? q s = some (v, r)) :
    ∃ r', Expr.literalAhead? q s' = some (v, r') ∧ Respaced .outside r r' := by
  induction s using Expr.literalValue.induct (q := q) generalizing s' v with
  | case1 => cases hv
  | case2 => cases hv
  | case3 d s ih =>
    rw [Expr.literalAhead?_escape] at hv
    obtain ⟨⟨v', r'⟩, hx, hv⟩ := Option.map_eq_some_iff.mp hv
    cases hv
    obtain ⟨t, rfl, ht⟩ := h.cons_inside MaskState.noConfusion
    rw [MaskState.step, if_pos rfl] at ht
    obtain ⟨u, rfl, hu⟩ := ht.cons_inside MaskState.noConfusion
    obtain ⟨r', hr', hr⟩ := ih hu hx
    refine ⟨r', ?_, hr⟩
    rw [Expr.literalAhead?_escape, hr']
    rfl
  | case4 s h1 h2 =>
    rw [Expr.literalAhead?_cons hq, if_pos rfl] at hv
    cases hv
    obtain ⟨t, rfl, ht⟩ := h.cons_inside MaskState.noConfusion
    rw [MaskState.step, if_neg hq, if_pos rfl] at ht
    exact ⟨t, by rw [Expr.literalAhead?_cons hq, if_pos rfl], ht⟩
  | case5 d s h1 h2 hd ih =>
    have hc : d ≠ '\\' := by
      intro hc
      cases s with
      | nil => exact h1 hc rfl
      | cons e s => exact h2 e s hc rfl
    rw [Expr.literalAhead?_cons hc, if_neg hd] at hv
    obtain ⟨⟨v', r'⟩, hx, hv⟩ := Option.map_eq_some_iff.mp hv
    cases hv
    obtain ⟨t, rfl, ht⟩ := h.cons_inside MaskState.noConfusion
    rw [MaskState.step, if_neg hc, if_neg hd] at ht
    obtain ⟨r', hr', hr⟩ := ih ht hx
    refine ⟨r', ?_, hr⟩
    rw [Expr.literalAhead?_cons hc, if_neg hd, hr']
    rfl

/-! ## Groups ahead -/

/-- A gap ends the word in front of it. -/
theorem showsCondition_gap (hc : isGap c = true) (depth : Nat) (word : List Char) :
    Condition.showsCondition depth none word (c :: s) =
      if depth = 1 ∧ Condition.isConnective word.reverse = true then true
      else Condition.showsCondition depth none [] s := by
  rw [Condition.showsCondition]
  rcases Token.eq_of_isGap hc with rfl | rfl | rfl | rfl | rfl
  all_goals
    rw [if_neg (by decide +kernel)]
    congr 1
    rw [if_neg (by decide), if_neg (by decide), if_neg (by decide), if_neg]
    rintro ⟨-, h | h | h | h⟩
    all_goals cases h

/-- A gap does not close a literal. -/
theorem showsCondition_gap_inside (hc : isGap c = true) (depth : Nat) (hq : Token.isQuote q = true)
    (word : List Char) : Condition.showsCondition depth (some q) word (c :: s) =
      Condition.showsCondition depth (some q) [] s := by
  have hcq : c ≠ q := by
    rintro rfl
    rw [not_isQuote_of_gap hc] at hq
    cases hq
  rw [Condition.showsCondition, if_neg hcq]

/-- Gaps in front decide nothing about a group. -/
theorem showsCondition_gaps (hg : ∀ c ∈ g, isGap c = true) (depth : Nat) {quote : Option Char}
    (hq : quote.all Token.isQuote = true) :
    Condition.showsCondition depth quote [] (g ++ s) =
      Condition.showsCondition depth quote [] s := by
  induction g with
  | nil => rfl
  | cons c g ih =>
    rw [List.forall_mem_cons] at hg
    rw [List.cons_append, ← ih hg.2]
    cases quote with
    | some q => exact showsCondition_gap_inside hg.1 depth hq []
    | none =>
      rw [showsCondition_gap hg.1, if_neg]
      rintro ⟨-, h⟩
      cases h

/-- Whether a group shows that it holds a condition does not depend on gaps, wherever in the group
the text starts. -/
theorem showsCondition (h : Respaced m s s') (depth : Nat) {quote : Option Char}
    (hq : quote.all Token.isQuote = true) (word : List Char) :
    Condition.showsCondition depth quote word s = Condition.showsCondition depth quote word s' := by
  induction h generalizing depth quote word with
  | nil => rfl
  | @char m c s s' hc h ih =>
    cases quote with
    | some q =>
      rw [Condition.showsCondition, Condition.showsCondition]
      refine ih depth ?_ []
      split
      · rfl
      · exact hq
    | none =>
      have hnone : ∀ depth word, Condition.showsCondition depth none word s =
          Condition.showsCondition depth none word s' := fun depth word => ih depth rfl word
      rw [Condition.showsCondition, Condition.showsCondition]
      simp only [hnone]
      by_cases hquote : Token.isQuote c = true
      · have hopen : (some c).all Token.isQuote = true := hquote
        rw [ih depth hopen []]
      · rw [if_neg hquote, if_neg hquote]
  | @gaps g g' s s' hg hg' _ h ih =>
    obtain ⟨c, u, rfl⟩ := List.exists_cons_of_ne_nil hg.1
    obtain ⟨c', u', rfl⟩ := List.exists_cons_of_ne_nil hg'.1
    have hc := List.forall_mem_cons.mp hg.2
    have hc' := List.forall_mem_cons.mp hg'.2
    rw [List.cons_append, List.cons_append]
    cases quote with
    | some q =>
      rw [showsCondition_gap_inside hc.1 depth hq, showsCondition_gap_inside hc'.1 depth hq,
        showsCondition_gaps hc.2 depth hq, showsCondition_gaps hc'.2 depth hq, ih depth hq]
    | none =>
      rw [showsCondition_gap hc.1, showsCondition_gap hc'.1, showsCondition_gaps hc.2 depth rfl,
        showsCondition_gaps hc'.2 depth rfl, ih depth rfl]

/-- **A group holds a condition in both texts** or in neither. -/
theorem groupAhead (h : Respaced .outside s s') :
    Condition.groupAhead s = Condition.groupAhead s' := by
  by_cases hs : ∃ t, s = '(' :: t
  · obtain ⟨t, rfl⟩ := hs
    obtain ⟨t', rfl, ht⟩ := h.mark (by decide)
    exact ht.showsCondition 1 rfl []
  · have hn : ∀ t, s ≠ '(' :: t := fun t ht => hs ⟨t, ht⟩
    have hn' := h.ne_cons (by decide) hn
    have hfalse : ∀ {u}, (∀ t, u ≠ '(' :: t) → Condition.groupAhead u = false := by
      intro u hu
      unfold Condition.groupAhead
      split
      · next t => exact absurd rfl (hu t)
      · rfl
    rw [hfalse hn, hfalse hn']

/-! ## Numbers -/

/-- A number is the same in both texts. -/
theorem decimal (h : Respaced .outside s s') {x : Number} (hx : (Expr.decimal s).Gives x r) :
    ∃ r', (Expr.decimal s').Gives x r' ∧ Respaced .outside r r' := by
  obtain ⟨cs, hcs, hnumber⟩ := Reader.gives_refine.mp hx
  obtain ⟨rfl, rfl⟩ := Reader.gives_takeWhile.mp hcs
  have hclass : ∀ c, Expr.isNumberChar c = true → isOrdinary c = true := by
    intro c hc
    rcases (Bool.or_eq_true _ _).mp hc with hd | hd
    · exact isOrdinary_of_isDigit hd
    · obtain rfl := beq_iff_eq.mp hd
      decide
  obtain ⟨htake, hdrop⟩ := h.span hclass
  rw [htake] at hnumber
  refine ⟨_, Reader.gives_refine.mpr ⟨_, Reader.gives_takeWhile.mpr ⟨rfl, rfl⟩, hnumber⟩, hdrop⟩

end Respaced

/-! ## Readers -/

/-- What the reader takes off `s` it takes off every text that is the same but for its gaps, and
what it leaves is again the same but for its gaps. -/
def CarriesFrom {α : Type} (p : Phrase α) (s : List Char) : Prop :=
  ∀ ⦃s' : List Char⦄ ⦃a : α⦄ ⦃r : List Char⦄, Respaced .outside s s' → (p s).Gives a r →
    ∃ r', (p s').Gives a r' ∧ Respaced .outside r r'

/-- What the reader takes off a text does not depend on gaps. -/
def Carries {α : Type} (p : Phrase α) : Prop :=
  ∀ s, CarriesFrom p s

/-! ## Expressions -/

namespace Expr

theorem isOrdinary_of_sumSign? {op : ArithOp} (h : sumSign? (c :: t) = some op) :
    isOrdinary c = true := by
  unfold sumSign? at h
  split at h
  · next he =>
    cases he
    decide
  · cases h
  · next he =>
    cases he
    decide
  · cases h

theorem isOrdinary_of_productSign? {op : ArithOp} (h : productSign? (c :: t) = some op) :
    isOrdinary c = true := by
  unfold productSign? at h
  split at h
  · next he =>
    cases he
    decide
  · next he =>
    cases he
    decide
  · next he =>
    cases he
    decide
  · cases h

/-- The sign of a sum is in front of both texts. -/
theorem respaced_sumSign {op : ArithOp} (h : sumSign? (c :: t) = some op)
    (hs : Respaced .outside (c :: t) s') :
    ∃ t', s' = c :: t' ∧ sumSign? (c :: t') = some op ∧ Respaced .outside t t' := by
  obtain ⟨t', rfl, ht⟩ := hs.mark (isOrdinary_of_sumSign? h)
  exact ⟨t', rfl, (looksAhead_sumSign?.eq hs).symm.trans h, ht⟩

/-- The sign of a product is in front of both texts. -/
theorem respaced_productSign {op : ArithOp} (h : productSign? (c :: t) = some op)
    (hs : Respaced .outside (c :: t) s') :
    ∃ t', s' = c :: t' ∧ productSign? (c :: t') = some op ∧ Respaced .outside t t' := by
  obtain ⟨t', rfl, ht⟩ := hs.mark (isOrdinary_of_productSign? h)
  exact ⟨t', rfl, (looksAhead_productSign?.eq hs).symm.trans h, ht⟩

/-- A literal in front is in front of both texts. -/
theorem respaced_literal {x : Read t (List Char)} (hc : Token.isQuote c = true)
    (hx : literalValue c t = some x) (hs : Respaced .outside (c :: t) s') :
    ∃ t' y, s' = c :: t' ∧ literalValue c t' = some y ∧ y.value = x.value ∧
      Respaced .outside x.rest y.rest := by
  have hgap : isGap c = false := by
    simp only [Token.isQuote, Bool.or_eq_true, beq_iff_eq] at hc
    rcases hc with rfl | rfl <;> decide
  have hbackslash : c ≠ '\\' := by
    rintro rfl
    cases hc
  obtain ⟨t', rfl, ht⟩ := hs.cons hgap
  rw [MaskState.step_quote hc] at ht
  have hv : literalAhead? c t = some (x.value, x.rest) := by rw [literalAhead?, hx]; rfl
  obtain ⟨r', hv', hr⟩ := ht.literalAhead? hbackslash hv
  obtain ⟨y, hy, he⟩ := Option.map_eq_some_iff.mp hv'
  obtain ⟨hvalue, rfl⟩ := Prod.mk.inj he
  exact ⟨t', y, rfl, hy, hvalue, hr⟩

/-- What follows a minus sign is not empty, and in front of both texts. -/
theorem respaced_negative {d : Char} {u : List Char} (h : sumSign? (c :: t) = some .subtract)
    (ht : trim t = d :: u) (hs : Respaced .outside (c :: t) s') :
    ∃ t' u', s' = c :: t' ∧ sumSign? (c :: t') = some .subtract ∧ trim t' = d :: u' ∧
      Respaced .outside (d :: u) (d :: u') := by
  obtain ⟨t', rfl, h', hrest⟩ := respaced_sumSign h hs
  obtain ⟨u', ht', -⟩ := hrest.trim_cons ht
  have htrim := hrest.trim
  rw [ht, ht'] at htrim
  exact ⟨t', u', rfl, h', ht', htrim⟩

/-- **An expression is written in front of a text whatever its gaps are.** -/
theorem Derives.respaced {p : Part} (h : Derives p s r) (hs : Respaced .outside s s') :
    ∃ r', Derives p s' r' ∧ Respaced .outside r r' := by
  induction h generalizing s' with
  | sum _ _ ihl ihe =>
    obtain ⟨q', hl, hq⟩ := ihl hs
    obtain ⟨r', he, hr⟩ := ihe hq
    exact ⟨r', .sum hl he, hr⟩
  | sumEnd h =>
    rw [looksAhead_sumSign?.eq hs] at h
    exact ⟨s', .sumEnd h, hs⟩
  | sumMore h _ _ ihx ihe =>
    obtain ⟨t', rfl, h', ht⟩ := respaced_sumSign h hs
    obtain ⟨q', hx, hq⟩ := ihx ht.trim
    obtain ⟨r', he, hr⟩ := ihe hq
    exact ⟨r', .sumMore h' hx he, hr⟩
  | product _ _ ihl ihe =>
    obtain ⟨q', hl, hq⟩ := ihl hs
    obtain ⟨r', he, hr⟩ := ihe hq
    exact ⟨r', .product hl he, hr⟩
  | productEnd h =>
    rw [looksAhead_productSign?.eq hs] at h
    exact ⟨s', .productEnd h, hs⟩
  | productMore h _ _ ihx ihe =>
    obtain ⟨t', rfl, h', ht⟩ := respaced_productSign h hs
    obtain ⟨q', hx, hq⟩ := ihx ht.trim
    obtain ⟨r', he, hr⟩ := ihe hq
    exact ⟨r', .productMore h' hx he, hr⟩
  | negative h ht hd hx =>
    obtain ⟨t', u', rfl, h', ht', hrest⟩ := respaced_negative h ht hs
    obtain ⟨r', hx, hr⟩ := hrest.decimal hx
    exact ⟨_, .negative h' ht' hd hx, hr.trim⟩
  | negate h ht hd _ ih =>
    obtain ⟨t', u', rfl, h', ht', hrest⟩ := respaced_negative h ht hs
    obtain ⟨r', he, hr⟩ := ih hrest
    exact ⟨r', .negate h' ht' hd he, hr⟩
  | unsigned h _ ih =>
    rw [looksAhead_sumSign?.eq hs] at h
    obtain ⟨r', he, hr⟩ := ih hs
    obtain ⟨c', t', rfl⟩ := List.exists_cons_of_ne_nil (he.ne_nil rfl)
    exact ⟨r', .unsigned h he, hr⟩
  | group _ ih =>
    obtain ⟨t', rfl, ht⟩ := hs.mark (by decide)
    obtain ⟨r', he, hr⟩ := ih ht.trim
    obtain ⟨u, rfl, hu⟩ := hr.mark (by decide)
    exact ⟨_, .group he, hu.trim⟩
  | text hc hx =>
    obtain ⟨t', y, rfl, hy, hvalue, hr⟩ := respaced_literal hc hx hs
    rw [← hvalue]
    exact ⟨_, .text hc hy, hr.trim⟩
  | number hc hx =>
    obtain ⟨r', hx, hr⟩ := hs.decimal hx
    obtain ⟨t', rfl, -⟩ := hs.mark (isOrdinary_of_isDigit hc)
    exact ⟨_, .number hc hx, hr.trim⟩
  | constant hc hv =>
    obtain ⟨t', rfl, htake, hdrop⟩ := hs.name hc
    rw [htake] at hv
    exact ⟨_, .constant hc hv, hdrop.trim⟩
  | call hc hv hu _ ih =>
    obtain ⟨t', rfl, htake, hdrop⟩ := hs.name hc
    obtain ⟨u', hu', hrest⟩ := hdrop.trim_mark hu (by decide)
    obtain ⟨r', hes, hr⟩ := ih hrest.trim
    obtain ⟨v, rfl, hv'⟩ := hr.mark (by decide)
    rw [htake] at hv ⊢
    exact ⟨_, .call hc hv hu' hes, hv'.trim⟩
  | qualified hc hv hu hd =>
    obtain ⟨t', rfl, htake, hdrop⟩ := hs.name hc
    obtain ⟨v, hv', hrest⟩ := hdrop.trim_mark hu (by decide)
    obtain ⟨u', rfl, htake', hdrop'⟩ := hrest.name hd
    rw [htake] at hv ⊢
    rw [htake']
    exact ⟨_, .qualified hc hv hv' hd, hdrop'.trim⟩
  | plain hc hv hu =>
    obtain ⟨t', rfl, htake, hdrop⟩ := hs.name hc
    rw [looksAhead_endsName.eq hdrop.trim] at hu
    rw [htake] at hv ⊢
    exact ⟨_, .plain hc hv hu, hdrop.trim⟩
  | noArguments =>
    obtain ⟨t', rfl, ht⟩ := hs.mark (by decide)
    exact ⟨_, .noArguments, hs⟩
  | starArgument =>
    obtain ⟨t', rfl, ht⟩ := hs.mark (by decide)
    exact ⟨_, .starArgument, ht.trim⟩
  | arguments hc hstar _ _ ihe ihes =>
    obtain ⟨q', he, hq⟩ := ihe hs
    obtain ⟨r', hes, hr⟩ := ihes hq
    exact ⟨r', .arguments (hs.ne_cons (by decide) hc) (hs.ne_cons (by decide) hstar) he hes, hr⟩
  | argumentsEnd h => exact ⟨s', .argumentsEnd (hs.ne_cons (by decide) h), hs⟩
  | argumentsMore _ _ ihe ihes =>
    obtain ⟨t', rfl, ht⟩ := hs.mark (by decide)
    obtain ⟨q', he, hq⟩ := ihe ht.trim
    obtain ⟨r', hes, hr⟩ := ihes hq
    exact ⟨r', .argumentsMore he hes, hr⟩

/-- **Expressions** do not see the blanks. -/
theorem carries_read : Carries Expr.read := by
  intro s s' e r hs h
  obtain ⟨r', he, hr⟩ := (gives_read_iff.mp h).respaced hs.trim
  exact ⟨r', gives_read_iff.mpr he, hr⟩

end Expr

/-! ## Conditions -/

namespace Condition

/-- The sign of a comparison holds neither gaps nor quotes. -/
theorem exists_of_sign? {op : CompareOp} {n : Nat} (h : sign? s = some (op, n)) :
    ∃ l t, s = l ++ t ∧ l.length = n ∧ l.all isOrdinary = true := by
  unfold sign? at h
  split at h <;> cases h
  · exact ⟨['=', '='], _, rfl, rfl, by decide⟩
  · exact ⟨['!', '='], _, rfl, rfl, by decide⟩
  · exact ⟨['<', '>'], _, rfl, rfl, by decide⟩
  · exact ⟨['<', '='], _, rfl, rfl, by decide⟩
  · exact ⟨['>', '='], _, rfl, rfl, by decide⟩
  · exact ⟨['='], _, rfl, rfl, by decide⟩
  · exact ⟨['<'], _, rfl, rfl, by decide⟩
  · exact ⟨['>'], _, rfl, rfl, by decide⟩

/-- Behind a comparison sign the texts are still respaced. -/
theorem respaced_drop_sign {op : CompareOp} {n : Nat} (h : sign? s = some (op, n))
    (hs : Respaced .outside s s') : Respaced .outside (s.drop n) (s'.drop n) := by
  obtain ⟨l, t, rfl, rfl, hl⟩ := exists_of_sign? h
  obtain ⟨t', rfl, ht⟩ := hs.front hl
  rw [List.drop_left, List.drop_left]
  exact ht

/-- A comparison or a call does not see the blanks. -/
theorem carries_simple : Carries simple := by
  intro s s' c r hs h
  rcases gives_simple.mp h with ⟨l, q, op, n, e, hl, ho, he, rfl⟩ | ⟨f, es, q, hq, ho, rfl, rfl⟩
  · obtain ⟨q', hl, hq⟩ := Expr.carries_read s hs hl
    obtain ⟨r', he, hr⟩ := Expr.carries_read _ (respaced_drop_sign ho hq.trim) he
    rw [looksAhead_sign?.eq hq.trim] at ho
    exact ⟨r', gives_simple.mpr (Or.inl ⟨l, q', op, n, e, hl, ho, he, rfl⟩), hr⟩
  · obtain ⟨q', hq', hrest⟩ := Expr.carries_read s hs hq
    rw [looksAhead_sign?.eq hrest.trim] at ho
    exact ⟨_, gives_simple.mpr (Or.inr ⟨f, es, q', hq', ho, rfl, rfl⟩), hrest.trim⟩

/-- The readers of conditions carry over from texts shorter than `n`. -/
structure CarriesBelow (n : Nat) : Prop where
  disjunction : ∀ {s}, s.length < n → CarriesFrom read s
  alternatives : ∀ {s}, s.length < n → CarriesFrom alternatives s
  conjunction : ∀ {s}, s.length < n → CarriesFrom conjunction s
  conjuncts : ∀ {s}, s.length < n → CarriesFrom conjunctionRest s
  negation : ∀ {s}, s.length < n → CarriesFrom negation s

namespace CarriesBelow

variable {n : Nat}

/-! Each reader calls the others on shorter texts, or one that comes before it here on the same
text. -/

/-- A negation does not see the blanks if shorter texts do not. -/
theorem negation_step (h : CarriesBelow n) (hn : s.length ≤ n) :
    CarriesFrom Condition.negation s := by
  intro s' a r hs hg
  rcases gives_negation.mp hg with ⟨t, b, hw, hb, rfl⟩ | ⟨hw, t, q, ht, hp, hq, hr⟩ | ⟨hw, hp, hc⟩
  · have hlt := Nat.lt_of_lt_of_le (length_lt_of_after? hw) hn
    obtain ⟨t', hw', ht⟩ := hs.after?_some hw
    obtain ⟨r', hb', hr⟩ := h.negation hlt ht hb
    exact ⟨r', gives_negation.mpr (Or.inl ⟨t', b, hw', hb', rfl⟩), hr⟩
  · have hlt := Nat.lt_of_lt_of_le (length_lt_of_trim ht) hn
    obtain ⟨t', ht', hrest⟩ := hs.trim_mark ht (by decide)
    obtain ⟨q', hq', hqq⟩ := h.disjunction hlt hrest hq
    obtain ⟨r', hr', hrr⟩ := hqq.trim_mark hr (by decide)
    have hgroup := hs.trim.groupAhead
    rw [ht, ht', hp] at hgroup
    exact ⟨r', gives_negation.mpr
      (Or.inr (Or.inl ⟨hs.after?_none hw, t', q', ht', hgroup.symm, hq', hr'⟩)), hrr⟩
  · obtain ⟨r', hc', hr⟩ := carries_simple s hs hc
    rw [hs.trim.groupAhead] at hp
    exact ⟨r', gives_negation.mpr (Or.inr (Or.inr ⟨hs.after?_none hw, hp, hc'⟩)), hr⟩

/-- Further conjuncts do not see the blanks if shorter texts do not. -/
theorem conjuncts_step (h : CarriesBelow n) (hn : s.length ≤ n) :
    CarriesFrom conjunctionRest s := by
  intro s' as r hs hg
  rcases gives_conjunctionRest.mp hg with ⟨hw, rfl, rfl⟩ | ⟨t, b, q, bs, hw, hb, hbs, rfl⟩
  · exact ⟨s', gives_conjunctionRest.mpr (Or.inl ⟨hs.after?_none hw, rfl, rfl⟩), hs⟩
  · have hlt := Nat.lt_of_lt_of_le (length_lt_of_after? hw) hn
    obtain ⟨t', hw', ht⟩ := hs.after?_some hw
    obtain ⟨q', hb', hq⟩ := h.negation hlt ht hb
    obtain ⟨r', hbs', hr⟩ := h.conjuncts (Nat.lt_of_le_of_lt hb.suffix.length_le hlt) hq hbs
    exact ⟨r', gives_conjunctionRest.mpr (Or.inr ⟨t', b, q', bs, hw', hb', hbs', rfl⟩), hr⟩

/-- A conjunction does not see the blanks if shorter texts do not. -/
theorem conjunction_step (h : CarriesBelow n) (hn : s.length ≤ n) :
    CarriesFrom Condition.conjunction s := by
  intro s' a r hs hg
  obtain ⟨b, q, bs, hb, hbs, rfl⟩ := gives_conjunction.mp hg
  obtain ⟨q', hb', hq⟩ := h.negation_step hn hs hb
  obtain ⟨r', hbs', hr⟩ := h.conjuncts_step (Nat.le_trans hb.suffix.length_le hn) hq hbs
  exact ⟨r', gives_conjunction.mpr ⟨b, q', bs, hb', hbs', rfl⟩, hr⟩

/-- Further alternatives do not see the blanks if shorter texts do not. -/
theorem alternatives_step (h : CarriesBelow n) (hn : s.length ≤ n) :
    CarriesFrom Condition.alternatives s := by
  intro s' as r hs hg
  rcases gives_alternatives.mp hg with ⟨hw, rfl, rfl⟩ | ⟨t, b, q, bs, hw, hb, hbs, rfl⟩
  · exact ⟨s', gives_alternatives.mpr (Or.inl ⟨hs.after?_none hw, rfl, rfl⟩), hs⟩
  · have hlt := Nat.lt_of_lt_of_le (length_lt_of_after? hw) hn
    obtain ⟨t', hw', ht⟩ := hs.after?_some hw
    obtain ⟨q', hb', hq⟩ := h.conjunction hlt ht hb
    obtain ⟨r', hbs', hr⟩ := h.alternatives (Nat.lt_of_le_of_lt hb.suffix.length_le hlt) hq hbs
    exact ⟨r', gives_alternatives.mpr (Or.inr ⟨t', b, q', bs, hw', hb', hbs', rfl⟩), hr⟩

theorem disjunction_step (h : CarriesBelow n) (hn : s.length ≤ n) :
    CarriesFrom read s := by
  intro s' a r hs hg
  obtain ⟨b, q, bs, hb, hbs, rfl⟩ := gives_read.mp hg
  obtain ⟨q', hb', hq⟩ := h.conjunction_step hn hs hb
  obtain ⟨r', hbs', hr⟩ := h.alternatives_step (Nat.le_trans hb.suffix.length_le hn) hq hbs
  exact ⟨r', gives_read.mpr ⟨b, q', bs, hb', hbs', rfl⟩, hr⟩

end CarriesBelow

/-- **Conditions** do not see the blanks, by induction on their length. -/
theorem carriesBelow (n : Nat) : CarriesBelow n := by
  induction n with
  | zero => constructor <;> intros <;> contradiction
  | succ n h =>
    exact
      { disjunction := fun hn => h.disjunction_step (Nat.le_of_lt_succ hn)
        alternatives := fun hn => h.alternatives_step (Nat.le_of_lt_succ hn)
        conjunction := fun hn => h.conjunction_step (Nat.le_of_lt_succ hn)
        conjuncts := fun hn => h.conjuncts_step (Nat.le_of_lt_succ hn)
        negation := fun hn => h.negation_step (Nat.le_of_lt_succ hn) }

/-- **A condition is read off a text whatever its gaps are.** -/
theorem carries_read : Carries Condition.read :=
  fun s => (carriesBelow (s.length + 1)).disjunction (Nat.lt_succ_self _)

end Condition

end DataPhrase
