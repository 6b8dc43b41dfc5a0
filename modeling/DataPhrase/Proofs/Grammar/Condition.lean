/-
# The grammar of conditions

`Derives p s r` says that the part `p` of a condition is written in front of the text `s` and that
`r` follows it, as for expressions: both texts are without blanks in front. The reader of conditions
gives exactly what the grammar derives (`gives_read_iff`).
-/
import DataPhrase.Condition.Reader
import DataPhrase.Proofs.Grammar.Expr

namespace DataPhrase.Condition

open Text Lexeme

/-! ## The grammar -/

/-- A part of a condition with its value. -/
inductive Part where
  | disjunction (c : Condition)
  | alternatives (cs : List Condition)
  | conjunction (c : Condition)
  | conjuncts (cs : List Condition)
  | negation (c : Condition)
  | simple (c : Condition)

/-- The part is written in front of the first text, and the second text follows it. -/
inductive Derives : Part → List Char → List Char → Prop where
  | disjunction {s q r : List Char} {c : Condition} {cs : List Condition}
      (hc : Derives (.conjunction c) s q) (hcs : Derives (.alternatives cs) q r) :
      Derives (.disjunction (or (c :: cs))) s r
  | alternativesEnd {s : List Char} (h : after? "or" s = none) : Derives (.alternatives []) s s
  | alternativesMore {s t q r : List Char} {c : Condition} {cs : List Condition}
      (h : after? "or" s = some t) (hc : Derives (.conjunction c) (trim t) q)
      (hcs : Derives (.alternatives cs) q r) : Derives (.alternatives (c :: cs)) s r
  | conjunction {s q r : List Char} {c : Condition} {cs : List Condition}
      (hc : Derives (.negation c) s q) (hcs : Derives (.conjuncts cs) q r) :
      Derives (.conjunction (and (c :: cs))) s r
  | conjunctsEnd {s : List Char} (h : after? "and" s = none) : Derives (.conjuncts []) s s
  | conjunctsMore {s t q r : List Char} {c : Condition} {cs : List Condition}
      (h : after? "and" s = some t) (hc : Derives (.negation c) (trim t) q)
      (hcs : Derives (.conjuncts cs) q r) : Derives (.conjuncts (c :: cs)) s r
  | not {s t r : List Char} {c : Condition} (h : after? "not" s = some t)
      (hc : Derives (.negation c) (trim t) r) : Derives (.negation (.not c)) s r
  | group {t r : List Char} {c : Condition} (hg : groupAhead ('(' :: t) = true)
      (hc : Derives (.disjunction c) (trim t) (')' :: r)) : Derives (.negation c) ('(' :: t) (trim r)
  | unnegated {s r : List Char} {c : Condition} (h : after? "not" s = none)
      (hg : groupAhead s = false) (hc : Derives (.simple c) s r) : Derives (.negation c) s r
  | comparison {s q r : List Char} {l e : Expr} {op : CompareOp} {n : Nat}
      (hl : Expr.Derives (.sum l) s q) (ho : sign? q = some (op, n))
      (he : Expr.Derives (.sum e) (trim (q.drop n)) r) : Derives (.simple (.comparison l op e)) s r
  | call {s r : List Char} {n : String} {es : List Expr}
      (he : Expr.Derives (.sum (.call n es)) s r) (ho : sign? r = none) :
      Derives (.simple (.call n es)) s r

/-- What follows a part has no blanks in front. -/
theorem Derives.trim_rest {p : Part} {s r : List Char} (h : Derives p s r) (hs : trim s = s) :
    trim r = r := by
  induction h with
  | disjunction _ _ ihc ihcs => exact ihcs (ihc hs)
  | alternativesEnd => exact hs
  | alternativesMore _ _ _ ihc ihcs => exact ihcs (ihc trim_trim)
  | conjunction _ _ ihc ihcs => exact ihcs (ihc hs)
  | conjunctsEnd => exact hs
  | conjunctsMore _ _ _ ihc ihcs => exact ihcs (ihc trim_trim)
  | not _ _ ih => exact ih trim_trim
  | group => exact trim_trim
  | unnegated _ _ _ ih => exact ih hs
  | comparison _ _ he => exact he.trim_rest trim_trim
  | call he => exact he.trim_rest hs

/-! ## What each reader gives -/

section Readers

variable {s t r : List Char} {c : Condition} {cs : List Condition}

/-- A condition is a conjunction and its alternatives. -/
theorem gives_read : (read s).Gives c r ↔
    ∃ a q cs, (conjunction s).Gives a q ∧ (alternatives q).Gives cs r ∧ or (a :: cs) = c := by
  rw [read.eq_def, Outcome.gives_andThen]
  constructor
  · rintro ⟨a, q, _, ha, h⟩
    obtain ⟨cs, hcs, rfl⟩ := Outcome.gives_map.mp h
    exact ⟨a, q, cs, ha, hcs, rfl⟩
  · rintro ⟨a, q, cs, ha, hcs, rfl⟩
    exact ⟨a, q, ha.suffix, ha, Outcome.gives_map.mpr ⟨cs, hcs, rfl⟩⟩

/-- Alternatives follow as long as `or` stands ahead. -/
theorem gives_alternatives : (alternatives s).Gives cs r ↔
    (after? "or" s = none ∧ [] = cs ∧ s = r) ∨
      ∃ t a q as, after? "or" s = some t ∧ (conjunction t).Gives a q ∧
        (alternatives q).Gives as r ∧ a :: as = cs := by
  rw [alternatives.eq_def]
  split
  · next hn =>
    simp [after?, wordAhead?_of_none hn]
  · next x hx hn =>
    have hw := wordAhead?_of_some hn
    simp only [after?, hw]
    split
    · next hk =>
      rw [Outcome.gives_widen, Outcome.gives_andThen]
      constructor
      · rintro ⟨a, q, _, ha, h⟩
        obtain ⟨as, has, rfl⟩ := Outcome.gives_map.mp h
        exact Or.inr ⟨_, a, q, as, rfl, ha, has, rfl⟩
      · rintro (⟨h, -⟩ | ⟨_, a, q, as, ht, ha, has, rfl⟩)
        · cases h
        · cases ht
          exact ⟨a, q, ha.suffix, ha, Outcome.gives_map.mpr ⟨as, has, rfl⟩⟩
    · next hk =>
      simp

/-- A conjunction is a negation and the conjuncts behind it. -/
theorem gives_conjunction : (conjunction s).Gives c r ↔
    ∃ a q cs, (negation s).Gives a q ∧ (conjunctionRest q).Gives cs r ∧ and (a :: cs) = c := by
  rw [conjunction.eq_def, Outcome.gives_andThen]
  constructor
  · rintro ⟨a, q, _, ha, h⟩
    obtain ⟨cs, hcs, rfl⟩ := Outcome.gives_map.mp h
    exact ⟨a, q, cs, ha, hcs, rfl⟩
  · rintro ⟨a, q, cs, ha, hcs, rfl⟩
    exact ⟨a, q, ha.suffix, ha, Outcome.gives_map.mpr ⟨cs, hcs, rfl⟩⟩

/-- Conjuncts follow as long as `and` stands ahead. -/
theorem gives_conjunctionRest : (conjunctionRest s).Gives cs r ↔
    (after? "and" s = none ∧ [] = cs ∧ s = r) ∨
      ∃ t a q as, after? "and" s = some t ∧ (negation t).Gives a q ∧
        (conjunctionRest q).Gives as r ∧ a :: as = cs := by
  rw [conjunctionRest.eq_def]
  split
  · next hn =>
    simp [after?, wordAhead?_of_none hn]
  · next x hx hn =>
    have hw := wordAhead?_of_some hn
    simp only [after?, hw]
    split
    · next hk =>
      rw [Outcome.gives_widen, Outcome.gives_andThen]
      constructor
      · rintro ⟨a, q, _, ha, h⟩
        obtain ⟨as, has, rfl⟩ := Outcome.gives_map.mp h
        exact Or.inr ⟨_, a, q, as, rfl, ha, has, rfl⟩
      · rintro (⟨h, -⟩ | ⟨_, a, q, as, ht, ha, has, rfl⟩)
        · cases h
        · cases ht
          exact ⟨a, q, ha.suffix, ha, Outcome.gives_map.mpr ⟨as, has, rfl⟩⟩
    · next hk =>
      simp

theorem exists_of_groupAhead (h : groupAhead s = true) : ∃ t, s = '(' :: t := by
  unfold groupAhead at h
  split at h
  · exact ⟨_, rfl⟩
  · cases h

/-- A text with a word in front has no group in front. -/
theorem groupAhead_of_wordAhead? {w : List Char} (h : wordAhead? s = some (w, r)) :
    groupAhead (trim s) = false := by
  cases hg : groupAhead (trim s) with
  | false => rfl
  | true =>
    obtain ⟨t, ht⟩ := exists_of_groupAhead hg
    rw [wordAhead?, ht] at h
    cases h

/-- A negation is `not` in front of another, a group, or a comparison. -/
theorem gives_negation : (negation s).Gives c r ↔
    (∃ t a, after? "not" s = some t ∧ (negation t).Gives a r ∧ .not a = c) ∨
    (after? "not" s = none ∧ ∃ t q, trim s = '(' :: t ∧ groupAhead ('(' :: t) = true ∧
      (read t).Gives c q ∧ trim q = ')' :: r) ∨
    (after? "not" s = none ∧ groupAhead (trim s) = false ∧ (simple s).Gives c r) := by
  rw [negation.eq_def]
  split
  · next x hx hn =>
    have hw := wordAhead?_of_some hn
    have hg := groupAhead_of_wordAhead? hw
    simp only [after?, hw]
    split
    · next hk =>
      rw [Outcome.gives_widen, Outcome.gives_map]
      constructor
      · rintro ⟨a, ha, rfl⟩
        exact Or.inl ⟨_, a, rfl, ha, rfl⟩
      · rintro (⟨_, a, ht, ha, rfl⟩ | ⟨h, -⟩ | ⟨h, -⟩)
        · cases ht
          exact ⟨a, ha, rfl⟩
        · cases h
        · cases h
    · next hk =>
      constructor
      · intro h
        exact Or.inr (Or.inr ⟨rfl, hg, h⟩)
      · rintro (⟨_, a, ht, -⟩ | ⟨-, t, q, ht, h, -⟩ | ⟨-, -, h⟩)
        · cases ht
        · rw [← ht, hg] at h
          cases h
        · exact h
  · next hn =>
    have ha : after? "not" s = none := by rw [after?, wordAhead?_of_none hn]
    simp only [ha]
    split
    · next ht => simp [ht, groupAhead]
    · next d t ht =>
      split
      · next hg =>
        obtain ⟨u, hu⟩ := exists_of_groupAhead hg
        cases hu
        rw [Outcome.gives_widen, Outcome.gives_andThen]
        constructor
        · rintro ⟨a, q, _, hq, h⟩
          obtain ⟨_, hm, rfl⟩ := Outcome.gives_map.mp h
          exact Or.inr (Or.inl ⟨trivial, t, q, ht, hg, hq, gives_mark.mp hm⟩)
        · rintro (⟨_, a, hn, -⟩ | ⟨-, u, q, hu, -, hq, hr⟩ | ⟨-, h, -⟩)
          · cases hn
          · rw [ht] at hu
            cases hu
            exact ⟨c, q, hq.suffix, hq, Outcome.gives_map.mpr ⟨(), gives_mark.mpr hr, rfl⟩⟩
          · rw [ht, hg] at h
            cases h
      · next hg =>
        rw [Bool.not_eq_true] at hg
        rw [← ht] at hg
        constructor
        · intro h
          exact Or.inr (Or.inr ⟨trivial, hg, h⟩)
        · rintro (⟨_, a, hn, -⟩ | ⟨-, u, q, hu, h, -⟩ | ⟨-, -, h⟩)
          · cases hn
          · rw [← hu, hg] at h
            cases h
          · exact h

/-- A comparison is two expressions with a sign between, or an expression and a test for null. -/
theorem gives_simple : (simple s).Gives c r ↔
    (∃ l q op n e, (Expr.read s).Gives l q ∧ sign? (trim q) = some (op, n) ∧
      (Expr.read ((trim q).drop n)).Gives e r ∧ .comparison l op e = c) ∨
    (∃ n es q, (Expr.read s).Gives (.call n es) q ∧ sign? (trim q) = none ∧
      .call n es = c ∧ trim q = r) := by
  unfold simple
  cases hr : Expr.read s with
  | error e => simp
  | ok x =>
    obtain ⟨l, q, hq⟩ := x
    simp only [Outcome.gives_ok]
    cases ho : sign? (trim q) with
    | some p =>
      obtain ⟨op, n⟩ := p
      simp only [Outcome.gives_widen, Outcome.gives_map]
      constructor
      · rintro ⟨e, he, rfl⟩
        exact Or.inl ⟨l, q, op, n, e, ⟨rfl, rfl⟩, ho, he, rfl⟩
      · rintro (⟨_, _, op, n, e, ⟨rfl, rfl⟩, ho', he, rfl⟩ | ⟨n, es, _, ⟨rfl, rfl⟩, ho', -⟩)
        · rw [ho] at ho'
          cases ho'
          exact ⟨e, he, rfl⟩
        · rw [ho] at ho'
          cases ho'
    | none =>
      dsimp only
      constructor
      · intro h
        split at h
        · obtain ⟨rfl, rfl⟩ := Outcome.gives_done.mp h
          exact Or.inr ⟨_, _, q, ⟨rfl, rfl⟩, ho, rfl, rfl⟩
        · split at h
          · exact absurd h Outcome.not_gives_stop
          · exact absurd h Outcome.not_gives_stop
      · rintro (⟨_, _, op, n, e, ⟨rfl, rfl⟩, ho', -⟩ | ⟨n, es, _, ⟨rfl, rfl⟩, -, rfl, rfl⟩)
        · rw [ho] at ho'
          cases ho'
        · exact Outcome.gives_done.mpr ⟨rfl, rfl⟩

/-- A simple condition is derived. -/
theorem derives_of_simple (h : (simple s).Gives c r) : Derives (.simple c) (trim s) (trim r) := by
  rcases gives_simple.mp h with ⟨l, q, op, n, e, hl, ho, he, rfl⟩ | ⟨n, es, q, hq, ho, rfl, rfl⟩
  · have hd := Expr.gives_read_iff.mp hl
    have hd' := Expr.gives_read_iff.mp he
    rw [hd.trim_rest trim_trim] at ho hd'
    rw [hd'.trim_rest trim_trim]
    exact .comparison hd ho hd'
  · have hd := Expr.gives_read_iff.mp hq
    rw [hd.trim_rest trim_trim] at ho ⊢
    rw [hd.trim_rest trim_trim]
    exact .call hd ho

end Readers

/-! ## The reader and the grammar agree -/

/-- On texts shorter than `n`, everything that the readers give is derived. -/
structure DerivesBelow (n : Nat) : Prop where
  disjunction : ∀ {s c r}, s.length < n → (read s).Gives c r →
    Derives (.disjunction c) (trim s) (trim r)
  alternatives : ∀ {s cs r}, s.length < n → (alternatives s).Gives cs r →
    Derives (.alternatives cs) (trim s) (trim r)
  conjunction : ∀ {s c r}, s.length < n → (conjunction s).Gives c r →
    Derives (.conjunction c) (trim s) (trim r)
  conjuncts : ∀ {s cs r}, s.length < n → (conjunctionRest s).Gives cs r →
    Derives (.conjuncts cs) (trim s) (trim r)
  negation : ∀ {s c r}, s.length < n → (negation s).Gives c r →
    Derives (.negation c) (trim s) (trim r)

namespace DerivesBelow

variable {n : Nat} {s r : List Char} {c : Condition} {cs : List Condition}

/-! As for expressions, each reader calls the others on shorter texts, or one that comes before it
here on the same text. -/

/-- A negation of a text is derived when all shorter texts are. -/
theorem negation_step (h : DerivesBelow n) (hs : s.length ≤ n)
    (hg : (Condition.negation s).Gives c r) : Derives (.negation c) (trim s) (trim r) := by
  rcases gives_negation.mp hg with ⟨t, a, hw, ha, rfl⟩ | ⟨-, t, q, ht, hp, hq, hr⟩ | ⟨hw, hp, hc⟩
  · have ht := Nat.lt_of_lt_of_le (length_lt_of_after? hw) hs
    exact .not (by rw [after?_trim, hw]) (h.negation ht ha)
  · have hlt := Nat.lt_of_lt_of_le (length_lt_of_trim ht) hs
    have hd := h.disjunction hlt hq
    rw [hr] at hd
    rw [ht]
    exact .group hp hd
  · exact .unnegated (by rw [after?_trim, hw]) hp (derives_of_simple hc)

/-- Conjuncts of a text are derived when all shorter texts are. -/
theorem conjuncts_step (h : DerivesBelow n) (hs : s.length ≤ n)
    (hg : (conjunctionRest s).Gives cs r) : Derives (.conjuncts cs) (trim s) (trim r) := by
  rcases gives_conjunctionRest.mp hg with ⟨hw, rfl, rfl⟩ | ⟨t, a, q, as, hw, ha, has, rfl⟩
  · exact .conjunctsEnd (by rw [after?_trim, hw])
  · have ht := Nat.lt_of_lt_of_le (length_lt_of_after? hw) hs
    exact .conjunctsMore (by rw [after?_trim, hw]) (h.negation ht ha)
      (h.conjuncts (Nat.lt_of_le_of_lt ha.suffix.length_le ht) has)

/-- A conjunction of a text is derived when all shorter texts are. -/
theorem conjunction_step (h : DerivesBelow n) (hs : s.length ≤ n)
    (hg : (Condition.conjunction s).Gives c r) : Derives (.conjunction c) (trim s) (trim r) := by
  obtain ⟨a, q, cs, ha, hcs, rfl⟩ := gives_conjunction.mp hg
  exact .conjunction (h.negation_step hs ha)
    (h.conjuncts_step (Nat.le_trans ha.suffix.length_le hs) hcs)

/-- Alternatives of a text are derived when all shorter texts are. -/
theorem alternatives_step (h : DerivesBelow n) (hs : s.length ≤ n)
    (hg : (Condition.alternatives s).Gives cs r) :
    Derives (.alternatives cs) (trim s) (trim r) := by
  rcases gives_alternatives.mp hg with ⟨hw, rfl, rfl⟩ | ⟨t, a, q, as, hw, ha, has, rfl⟩
  · exact .alternativesEnd (by rw [after?_trim, hw])
  · have ht := Nat.lt_of_lt_of_le (length_lt_of_after? hw) hs
    exact .alternativesMore (by rw [after?_trim, hw]) (h.conjunction ht ha)
      (h.alternatives (Nat.lt_of_le_of_lt ha.suffix.length_le ht) has)

/-- A disjunction of a text is derived when all shorter texts are. -/
theorem disjunction_step (h : DerivesBelow n) (hs : s.length ≤ n) (hg : (read s).Gives c r) :
    Derives (.disjunction c) (trim s) (trim r) := by
  obtain ⟨a, q, cs, ha, hcs, rfl⟩ := gives_read.mp hg
  exact .disjunction (h.conjunction_step hs ha)
    (h.alternatives_step (Nat.le_trans ha.suffix.length_le hs) hcs)

end DerivesBelow

/-- On all texts, everything that the readers give is derived. -/
theorem derivesBelow (n : Nat) : DerivesBelow n := by
  induction n with
  | zero => constructor <;> intros <;> contradiction
  | succ n h =>
    exact
      { disjunction := fun hs => h.disjunction_step (Nat.le_of_lt_succ hs)
        alternatives := fun hs => h.alternatives_step (Nat.le_of_lt_succ hs)
        conjunction := fun hs => h.conjunction_step (Nat.le_of_lt_succ hs)
        conjuncts := fun hs => h.conjuncts_step (Nat.le_of_lt_succ hs)
        negation := fun hs => h.negation_step (Nat.le_of_lt_succ hs) }

/-- The reader of a part takes it off every text that is `s` up to blanks in front, and leaves `r`
up to blanks in front. -/
def Part.IsRead (s r : List Char) : Part → Prop
  | .disjunction c => ∀ t, trim t = s → ∃ q, (read t).Gives c q ∧ trim q = r
  | .alternatives cs => ∀ t, trim t = s → ∃ q, (Condition.alternatives t).Gives cs q ∧ trim q = r
  | .conjunction c => ∀ t, trim t = s → ∃ q, (Condition.conjunction t).Gives c q ∧ trim q = r
  | .conjuncts cs => ∀ t, trim t = s → ∃ q, (conjunctionRest t).Gives cs q ∧ trim q = r
  | .negation c => ∀ t, trim t = s → ∃ q, (Condition.negation t).Gives c q ∧ trim q = r
  | .simple c => ∀ t, trim t = s → ∃ q, (Condition.simple t).Gives c q ∧ trim q = r

/-- Everything that is derived is read. -/
theorem Derives.isRead {p : Part} {s r : List Char} (h : Derives p s r) : p.IsRead s r := by
  induction h with
  | disjunction hc hcs ihc ihcs =>
    intro t ht
    obtain ⟨q, hq, rfl⟩ := ihc t ht
    obtain ⟨r, hr, rfl⟩ := ihcs q rfl
    exact ⟨r, gives_read.mpr ⟨_, q, _, hq, hr, rfl⟩, rfl⟩
  | alternativesEnd h =>
    intro t ht
    subst ht
    rw [after?_trim] at h
    exact ⟨t, gives_alternatives.mpr (Or.inl ⟨h, rfl, rfl⟩), rfl⟩
  | alternativesMore h hc hcs ihc ihcs =>
    intro t ht
    subst ht
    rw [after?_trim] at h
    obtain ⟨q, hq, rfl⟩ := ihc _ rfl
    obtain ⟨r, hr, rfl⟩ := ihcs q rfl
    exact ⟨r, gives_alternatives.mpr (Or.inr ⟨_, _, q, _, h, hq, hr, rfl⟩), rfl⟩
  | conjunction hc hcs ihc ihcs =>
    intro t ht
    obtain ⟨q, hq, rfl⟩ := ihc t ht
    obtain ⟨r, hr, rfl⟩ := ihcs q rfl
    exact ⟨r, gives_conjunction.mpr ⟨_, q, _, hq, hr, rfl⟩, rfl⟩
  | conjunctsEnd h =>
    intro t ht
    subst ht
    rw [after?_trim] at h
    exact ⟨t, gives_conjunctionRest.mpr (Or.inl ⟨h, rfl, rfl⟩), rfl⟩
  | conjunctsMore h hc hcs ihc ihcs =>
    intro t ht
    subst ht
    rw [after?_trim] at h
    obtain ⟨q, hq, rfl⟩ := ihc _ rfl
    obtain ⟨r, hr, rfl⟩ := ihcs q rfl
    exact ⟨r, gives_conjunctionRest.mpr (Or.inr ⟨_, _, q, _, h, hq, hr, rfl⟩), rfl⟩
  | not h hc ih =>
    intro t ht
    subst ht
    rw [after?_trim] at h
    obtain ⟨q, hq, rfl⟩ := ih _ rfl
    exact ⟨q, gives_negation.mpr (Or.inl ⟨_, _, h, hq, rfl⟩), rfl⟩
  | group hg hc ih =>
    intro t ht
    obtain ⟨q, hq, hr⟩ := ih _ rfl
    have hn : after? "not" t = none := by
      rw [after?, wordAhead?, ht]
      rfl
    exact ⟨_, gives_negation.mpr (Or.inr (Or.inl ⟨hn, _, q, ht, hg, hq, hr⟩)), rfl⟩
  | unnegated h hg hc ih =>
    intro t ht
    subst ht
    rw [after?_trim] at h
    obtain ⟨q, hq, rfl⟩ := ih t rfl
    exact ⟨q, gives_negation.mpr (Or.inr (Or.inr ⟨h, hg, hq⟩)), rfl⟩
  | @comparison s q r l e op n hl ho he =>
    intro t ht
    subst ht
    have hq := hl.trim_rest trim_trim
    refine ⟨r, gives_simple.mpr (Or.inl ⟨l, q, op, n, e, Expr.gives_read_iff.mpr hl, ?_, ?_, rfl⟩),
      he.trim_rest trim_trim⟩
    · rw [hq, ho]
    · rw [hq]
      exact Expr.gives_read_iff.mpr he
  | @call s r n es he ho =>
    intro t ht
    subst ht
    have hr := he.trim_rest trim_trim
    exact ⟨r, gives_simple.mpr (Or.inr ⟨n, es, r, Expr.gives_read_iff.mpr he, by rw [hr, ho],
      rfl, hr⟩), hr⟩

/-- **The reader of conditions follows the grammar**, up to blanks in front of what it leaves. -/
theorem gives_read_iff {s r : List Char} {c : Condition} :
    (∃ q, (read s).Gives c q ∧ trim q = r) ↔ Derives (.disjunction c) (trim s) r := by
  constructor
  · rintro ⟨q, hq, rfl⟩
    exact (derivesBelow (s.length + 1)).disjunction (Nat.lt_succ_self _) hq
  · intro h
    exact h.isRead s rfl

end DataPhrase.Condition
