/-
# Conditions in parentheses

A condition in parentheses is read as the condition, unless the condition is in parentheses already:
the scan looks for signs and connectives directly inside the outer parenthesis only, and takes the
group for an expression. Only a call stays one there (`read_parens_iff`).
-/
import DataPhrase.Proofs.Grammar.Names
import DataPhrase.Proofs.Grammar.Scan

namespace DataPhrase

open Text Lexeme Token

variable {c : Char} {s t q r u : List Char} {n : String} {es : List Expr}

/-- The parenthesis behind whole pieces closes the group that they stand in. -/
theorem Token.Spans.closes_group (h : Spans (trim t) (')' :: r)) : Closes 0 t r :=
  (spans_trim.trans h).closes closes_end

/-! ## Calls as expressions -/

namespace Expr

/-- The value in front of further summands or factors, and the value with them. -/
def Part.grown? : Part → Option (Expr × Expr)
  | .summands l e | .factors l e => some (l, e)
  | _ => none

/-- Further summands or factors make an operation. -/
theorem Derives.eq_or_binary {p : Part} (h : Derives p s r) {l e : Expr}
    (hp : p.grown? = some (l, e)) : l = e ∧ s = r ∨ ∃ op a b, e = .binary op a b := by
  induction h generalizing l e with
  | sumEnd | productEnd =>
    cases hp
    exact Or.inl ⟨rfl, rfl⟩
  | sumMore _ _ _ _ ih | productMore _ _ _ _ ih =>
    cases hp
    rcases ih rfl with ⟨he, -⟩ | he
    · exact Or.inr ⟨_, _, _, he.symm⟩
    · exact Or.inr he
  | _ => cases hp

/-- An expression that is a call is one operand. -/
theorem Derives.operand_of_call (h : Derives (.sum (.call n es)) s r) :
    Derives (.operand (.call n es)) s r := by
  cases h with
  | sum hproduct hsummands =>
    rcases hsummands.eq_or_binary rfl with ⟨rfl, rfl⟩ | ⟨_, _, _, he⟩
    · cases hproduct with
      | product hsigned hfactors =>
        rcases hfactors.eq_or_binary rfl with ⟨rfl, rfl⟩ | ⟨_, _, _, he⟩
        · cases hsigned with
          | unsigned _ hoperand => exact hoperand
        · cases he
    · cases he

/-- A group whose end is the end of the text around it, or of the group around it. -/
theorem Derives.sum_of_operand {e : Expr} (h : Derives (.operand e) ('(' :: t) r)
    (hr : r = [] ∨ ∃ v, r = ')' :: v) : Derives (.sum e) ('(' :: t) r := by
  have hsum : sumSign? r = none := by
    rcases hr with rfl | ⟨v, rfl⟩ <;> rfl
  have hproduct : productSign? r = none := by
    rcases hr with rfl | ⟨v, rfl⟩ <;> rfl
  exact .sum (.product (.unsigned nofun h) (.productEnd hproduct)) (.sumEnd hsum)

end Expr

namespace Condition

/-! ## What the scan sees -/

/-- The condition is a call. -/
def isCall : Condition → Bool
  | .call _ _ => true
  | _ => false

/-- The text is one group in parentheses, with nothing but blanks around it. -/
def isGroup (s : List Char) : Bool :=
  match trim s with
  | '(' :: t =>
    match groupRest 0 t with
    | .ok x => (trim x.rest).isEmpty
    | .error _ => false
  | _ => false

/-- There is one group from the first text to the second. -/
def IsGroupTo (s r : List Char) : Prop :=
  ∃ t u, s = '(' :: t ∧ Closes 0 t u ∧ trim u = r

/-- A text is scanned as a group exactly when its parentheses close at its end. -/
theorem isGroup_iff : isGroup s = true ↔ IsGroupTo (trim s) [] := by
  unfold isGroup
  constructor
  · intro h
    split at h
    · next t ht =>
      split at h
      · next x hx => exact ⟨t, x.rest, ht, ⟨x.value, x.suffix, hx⟩, List.isEmpty_iff.mp h⟩
      · cases h
    · cases h
  · rintro ⟨t, u, ht, ⟨v, hsuffix, hv⟩, hu⟩
    rw [ht]
    simp only [hv, hu, List.isEmpty_nil]

/-- The scan finds a condition in the text. -/
def Decided (s : List Char) : Prop :=
  ∀ t, showsCondition 1 none [] (s ++ t) = true

/-- The scan goes from the first text to the second and finds nothing. -/
def Passed (s r : List Char) : Prop :=
  ∀ t, showsCondition 1 none [] (s ++ t) = showsCondition 1 none [] (r ++ t)

/-- Passing over two stretches in a row. -/
theorem Passed.trans (h : Passed s q) (h' : Passed q r) : Passed s r :=
  fun t => (h t).trans (h' t)

/-- A text is decided where what stands behind a passed stretch is. -/
theorem Passed.decided (h : Passed s q) (hq : Decided q) : Decided s :=
  fun t => (h t).trans (hq t)

/-- Blanks in front are passed. -/
theorem passed_trim (s : List Char) : Passed s (trim s) := by
  intro t
  obtain ⟨v, hv, h⟩ := showsCondition_trim (d := 1) undecided_nil s t
  rw [or_self] at hv
  rw [h, hv]

/-- A closed group is passed as a whole. -/
theorem passed_group (hb : '\\' ∉ t) (h : Closes 0 t u) : Passed ('(' :: t) (trim u) := by
  refine Passed.trans (fun x => ?_) (passed_trim u)
  rw [List.cons_append, showsCondition_open undecided_nil]
  exact showsCondition_of_closes hb h (Nat.le_refl 1) [] x

/-- A group is passed up to where it closes. -/
theorem IsGroupTo.passed (hb : '\\' ∉ s) (h : IsGroupTo s r) : Passed s r := by
  obtain ⟨t, u, rfl, hclose, rfl⟩ := h
  exact passed_group (fun hm => hb (List.mem_cons_of_mem _ hm)) hclose

/-- A connective decides, if there is more behind it. -/
theorem decided_of_word {w t : List Char} (hw : ∀ c ∈ w, isNameChar c = true)
    (hc : isConnective w = true) (ht : trim (t.dropWhile isNameChar) ≠ []) :
    Decided (w ++ t.dropWhile isNameChar) := by
  have hhead := List.head?_dropWhile_not isNameChar t
  cases hrest : t.dropWhile isNameChar with
  | nil =>
    rw [hrest] at ht
    exact absurd rfl ht
  | cons d v =>
    rw [hrest, List.head?_cons] at hhead
    intro x
    rw [List.append_assoc, List.cons_append]
    exact showsCondition_connective hw hc (by simpa using hhead) _

/-- A connective behind a group decides that it is a condition. -/
theorem decided_of_after? {k : String} (hk : k ∈ ["and", "or", "not"]) (h : after? k s = some t)
    (hs : trim s = s) (ht : trim t ≠ []) : Decided s := by
  obtain ⟨w, hw, hsame⟩ := after?_eq_some.mp h
  have hconnective : isConnective w = true := by
    rw [isConnective, Bool.or_eq_true, Bool.or_eq_true]
    simp only [List.mem_cons, List.not_mem_nil, or_false] at hk
    rcases hk with rfl | rfl | rfl
    · exact Or.inl (Or.inl hsame)
    · exact Or.inl (Or.inr hsame)
    · exact Or.inr hsame
  have hname : ∀ c ∈ w, isNameChar c = true := fun c hc => isNameChar_of_wordAhead? hw hc
  have happend := append_wordAhead? hw
  unfold wordAhead? at hw
  split at hw
  · cases hw
  · split at hw
    · cases hw
      rw [← hs, happend]
      exact decided_of_word hname hconnective ht
    · cases hw

/-- A call ends with a group, and its name decides if it is a connective. -/
theorem decided_or_passed_of_call (h : Expr.Derives (.sum (.call n es)) s r) (hb : '\\' ∉ s) :
    Decided s ∨ Passed s r := by
  cases h.operand_of_call with
  | group he =>
    rw [List.mem_cons, not_or] at hb
    exact Or.inr (passed_group hb.2 (Expr.spans_of_derives he).closes_group)
  | @call c t u r es hc hv hu hes =>
    have hclose := (Expr.spans_of_derives hes).closes_group
    have hname : ∀ d ∈ c :: t.takeWhile isNameChar, isNameChar d = true :=
      List.forall_mem_cons.mpr ⟨isNameChar_of_isNameStart hc,
        fun d hd => List.all_eq_true.mp List.all_takeWhile d hd⟩
    have hsplit : c :: t = (c :: t.takeWhile isNameChar) ++ t.dropWhile isNameChar := by
      rw [List.cons_append, List.takeWhile_append_dropWhile]
    rw [hsplit] at hb ⊢
    generalize c :: t.takeWhile isNameChar = w at hb hname ⊢
    -- a function may be named like a connective
    by_cases hword : isConnective w = true
    · left
      exact decided_of_word hname hword (by rw [hu]; exact List.cons_ne_nil _ _)
    · right
      have hbu : '\\' ∉ u := by
        intro hm
        have hm' : '\\' ∈ trim (t.dropWhile isNameChar) := hu ▸ List.mem_cons_of_mem _ hm
        exact hb (List.mem_append_right w ((trim_suffix _).subset hm'))
      have hw : Undecided 1 w.reverse := fun _ => by
        rw [List.reverse_reverse]
        simpa using hword
      refine Passed.trans (fun x => ?_) (passed_group hbu hclose)
      obtain ⟨v, hv, hblank⟩ := showsCondition_trim hw (t.dropWhile isNameChar) x
      have hundecided : Undecided 1 v := by
        rcases hv with rfl | rfl
        · exact hw
        · exact undecided_nil
      rw [List.append_assoc, showsCondition_word hname, List.append_nil, hblank, hu,
        List.cons_append, showsCondition_open hundecided, showsCondition_open undecided_nil]

/-! ## What the scan decides -/

/-- A part that starts with a condition is not empty. -/
theorem Derives.ne_nil {p : Part} (h : Derives p s r) :
    match p with
    | .alternatives _ | .conjuncts _ => True
    | _ => s ≠ [] := by
  induction h with
  | disjunction _ _ ihc _ | conjunction _ _ ihc _ => exact ihc
  | alternativesEnd | alternativesMore | conjunctsEnd | conjunctsMore => trivial
  | not h _ _ =>
    rintro rfl
    cases h
  | group => exact List.cons_ne_nil _ _
  | unnegated _ _ _ ih => exact ih
  | comparison hl => exact hl.ne_nil rfl
  | call he => exact he.ne_nil rfl

/-- The scan finds a condition in the text of the part, or the text is a call or one group. -/
def Part.IsScanned (s r : List Char) : Part → Prop
  | .disjunction c | .conjunction c | .negation c | .simple c =>
    Decided s ∨ Passed s r ∧ (c.isCall = true ∨ IsGroupTo s r)
  | .alternatives cs | .conjuncts cs => cs = [] ∧ s = r ∨ Decided s

/-- What the scan has passed in front of further parts, it has decided if there are any. -/
theorem isScanned_join {c c' : Condition} {cs : List Condition}
    (hc : Decided s ∨ Passed s q ∧ (c.isCall = true ∨ IsGroupTo s q))
    (hcs : cs = [] ∧ q = r ∨ Decided q) (hone : cs = [] → c.isCall = true → c'.isCall = true) :
    Decided s ∨ Passed s r ∧ (c'.isCall = true ∨ IsGroupTo s r) := by
  rcases hc with hdecided | ⟨hpassed, hkind⟩
  · exact Or.inl hdecided
  rcases hcs with ⟨hnil, rfl⟩ | hdecided
  · exact Or.inr ⟨hpassed, hkind.imp_left (hone hnil)⟩
  · exact Or.inl (hpassed.decided hdecided)

/-- Every part of the condition grammar is scanned as what it is. -/
theorem Derives.isScanned {p : Part} (h : Derives p s r) (hb : '\\' ∉ s) (hs : trim s = s) :
    p.IsScanned s r := by
  induction h with
  | @disjunction s q r c cs hc hcs ihc ihcs =>
    refine isScanned_join (ihc hb hs)
      (ihcs (fun hm => hb (hc.suffix.subset hm)) (hc.trim_rest hs)) fun hnil hcall => ?_
    subst hnil
    exact hcall
  | @conjunction s q r c cs hc hcs ihc ihcs =>
    -- a conjunction of one condition is a call only if the condition is
    refine isScanned_join (ihc hb hs)
      (ihcs (fun hm => hb (hc.suffix.subset hm)) (hc.trim_rest hs)) fun hnil hcall => ?_
    subst hnil
    cases c with
    | call => rfl
    | _ => cases hcall
  | alternativesEnd | conjunctsEnd => exact Or.inl ⟨rfl, rfl⟩
  | alternativesMore h hc =>
    exact Or.inr (decided_of_after? (by decide) h hs hc.ne_nil)
  | conjunctsMore h hc =>
    exact Or.inr (decided_of_after? (by decide) h hs hc.ne_nil)
  | not h hc => exact Or.inl (decided_of_after? (by decide) h hs hc.ne_nil)
  | @group t r c hg hc ih =>
    rw [List.mem_cons, not_or] at hb
    have hclose := (spans_of_derives hc).closes_group
    exact Or.inr ⟨passed_group hb.2 hclose, Or.inr ⟨t, r, rfl, hclose, rfl⟩⟩
  | unnegated _ _ _ ih => exact ih hb hs
  | comparison hl ho _ =>
    left
    rcases passes_of_derives hl hb 1 [] (Nat.le_refl 1) with hdecided | ⟨v, hv⟩
    · exact hdecided
    · exact fun t => (hv t).trans (showsCondition_sign ho v t)
  | call he _ =>
    exact (decided_or_passed_of_call he hb).imp_right fun h => ⟨h, Or.inl rfl⟩

/-! ## Conditions of one part -/

/-- The value of a part is its own conjunction. -/
def Part.IsWhole : Part → Prop
  | .disjunction c | .conjunction c | .negation c | .simple c => and [c] = c
  | .alternatives _ | .conjuncts _ => True

theorem and_and {cs : List Condition} (h : ∀ c ∈ cs, c.IsWritten) : and [and cs] = and cs := by
  have hflat := conjuncts_and h
  rw [and, List.flatMap_singleton, hflat]
  rfl

/-- Derived conditions are whole: wrapping them in a conjunction changes nothing. -/
theorem Derives.isWhole {p : Part} (h : Derives p s r) : p.IsWhole := by
  induction h with
  | @disjunction s q r c cs hc hcs ihc ihcs =>
    cases cs with
    | nil => exact ihc
    | cons => rfl
  | conjunction hc hcs _ _ =>
    exact and_and (List.forall_mem_cons.mpr ⟨hc.isWritten, hcs.isWritten⟩)
  | alternativesEnd | alternativesMore | conjunctsEnd | conjunctsMore => trivial
  | not | comparison | call => rfl
  | group _ _ ih => exact ih
  | unnegated _ _ _ ih => exact ih

/-- If the value of a part is a call, an expression is written there. -/
def Part.IsSum (s r : List Char) : Part → Prop
  | .disjunction c | .conjunction c | .negation c | .simple c => c.conjuncts ≠ [] ∧
    ∀ n es, c.conjuncts = [.call n es] → (r = [] ∨ ∃ v, r = ')' :: v) →
      Expr.Derives (.sum (.call n es)) s r
  | .alternatives cs | .conjuncts cs => (∀ c ∈ cs, c.conjuncts ≠ []) ∧ (cs = [] → s = r)

/-- A derived disjunction is a sum of its parts. -/
theorem Derives.isSum {p : Part} (h : Derives p s r) : p.IsSum s r := by
  induction h with
  | @disjunction s q r c cs _ _ ihc ihcs =>
    cases cs with
    | nil =>
      obtain rfl := ihcs.2 rfl
      exact ihc
    | cons a cs => exact ⟨nofun, nofun⟩
  | @conjunction s q r c cs hc hcs ihc ihcs =>
    have hwritten : ∀ a ∈ c :: cs, a.IsWritten :=
      List.forall_mem_cons.mpr ⟨hc.isWritten, hcs.isWritten⟩
    simp only [Part.IsSum, conjuncts_and hwritten, List.flatMap_cons]
    refine ⟨fun h => ihc.1 (List.append_eq_nil_iff.mp h).1, fun n es hcall hr => ?_⟩
    rcases List.append_eq_singleton_iff.mp hcall with ⟨hnil, -⟩ | ⟨hc', hnil⟩
    · exact absurd hnil ihc.1
    · have hcs : cs = [] := by
        cases cs with
        | nil => rfl
        | cons a cs =>
          exact absurd (List.append_eq_nil_iff.mp hnil).1 (ihcs.1 a List.mem_cons_self)
      obtain rfl := ihcs.2 hcs
      exact ihc.2 n es hc' hr
  | alternativesEnd | conjunctsEnd => exact ⟨nofun, fun _ => rfl⟩
  | alternativesMore _ _ _ ihc ihcs | conjunctsMore _ _ _ ihc ihcs =>
    exact ⟨List.forall_mem_cons.mpr ⟨ihc.1, ihcs.1⟩, nofun⟩
  | not => exact ⟨nofun, nofun⟩
  | @group t r c _ _ ih =>
    refine ⟨ih.1, fun n es hcall hr => ?_⟩
    have he := Expr.Derives.group (ih.2 n es hcall (Or.inr ⟨r, rfl⟩))
    exact he.sum_of_operand hr
  | unnegated _ _ _ ih => exact ih
  | comparison => exact ⟨nofun, nofun⟩
  | call he _ =>
    refine ⟨nofun, fun n es hcall _ => ?_⟩
    cases hcall
    exact he

/-! ## Groups that the scan takes for expressions -/

/-- Behind one group there is the end of the text, unless nothing has been read. -/
theorem eq_nil_of_spans (h : Spans ('(' :: t) r) (ht : Closes 0 t []) :
    r = [] ∨ r = '(' :: t := by
  obtain ⟨v, hsuffix, hv⟩ := ht
  cases h with
  | refl => exact Or.inr rfl
  | @more _ _ _ x _ hx h =>
    rw [piece, if_neg (by decide), if_pos rfl, hv] at hx
    cases hx
    exact Or.inl (List.suffix_nil.mp h.suffix)

/-- In a text `s` that is one group, only calls are read. -/
def Part.IsOneCall (s q r : List Char) : Part → Prop
  | .disjunction c | .conjunction c | .negation c | .simple c =>
    q = s → c.isCall = true ∧ (r = [] ∨ r = s)
  | .alternatives cs | .conjuncts cs => q = [] ∨ q = s → cs = [] ∧ r = q

/-- **A group that shows no condition is a call**, if it is read as a condition at all. -/
theorem Derives.isOneCall {p : Part} (h : Derives p q r) (ht : Closes 0 t [])
    (hg : groupAhead ('(' :: t) = false) : p.IsOneCall ('(' :: t) q r := by
  have hnone : ∀ {k u}, u = [] ∨ u = '(' :: t → after? k u = none := by
    rintro k u (rfl | rfl) <;> rfl
  induction h with
  | disjunction _ _ ihc ihcs =>
    intro hs
    obtain ⟨hcall, hq⟩ := ihc hs
    obtain ⟨rfl, rfl⟩ := ihcs (hs ▸ hq)
    exact ⟨hcall, hq⟩
  | @conjunction s q r c cs _ _ ihc ihcs =>
    intro hs
    obtain ⟨hcall, hq⟩ := ihc hs
    obtain ⟨rfl, rfl⟩ := ihcs (hs ▸ hq)
    refine ⟨?_, hq⟩
    cases c with
    | call => rfl
    | _ => cases hcall
  | alternativesEnd | conjunctsEnd => exact fun _ => ⟨rfl, rfl⟩
  | alternativesMore h | conjunctsMore h =>
    intro hs
    rw [hnone hs] at h
    cases h
  | not h =>
    intro hs
    rw [hnone (Or.inr hs)] at h
    cases h
  | group hg' =>
    intro hs
    rw [hs, hg] at hg'
    cases hg'
  | unnegated _ _ _ ih => exact ih
  | comparison hl ho _ =>
    rintro rfl
    rcases eq_nil_of_spans (Expr.spans_of_derives hl) ht with rfl | rfl
    · cases ho
    · cases ho
  | call he _ =>
    rintro rfl
    exact ⟨rfl, eq_nil_of_spans (Expr.spans_of_derives he) ht⟩

/-! ## A condition in parentheses -/

/-- What is derived up to the end of the text is derived up to a parenthesis that is put behind. -/
theorem Derives.append_paren {c : Condition} (h : Derives (.disjunction c) (trim s) [])
    (hb : '\\' ∉ s) : Derives (.disjunction c) (trim (s ++ [')'])) [')'] := by
  rw [trim_append]
  exact h.append quiet_paren fun hm => hb ((trim_suffix s).subset hm)

/-- A negation that ends its text is a disjunction by itself. -/
theorem Derives.disjunction_of_negation {c : Condition} (h : Derives (.negation c) s [])
    (hwhole : and [c] = c) : Derives (.disjunction c) s [] := by
  have hd := Derives.disjunction (.conjunction h (.conjunctsEnd rfl)) (.alternativesEnd rfl)
  rwa [hwhole] at hd

/-- **Parentheses are put around a condition once.** A text that is read to its end as a condition
is read as the same condition in parentheses, if and only if the condition is a call or the text is
not in parentheses already. -/
theorem read_parens_iff {c : Condition} (hb : '\\' ∉ s) (hc : (read s).Gives c q)
    (hq : trim q = []) :
    (read ('(' :: (s ++ [')']))).Gives c [] ↔ c.isCall = true ∨ isGroup s = false := by
  have hd : Derives (.disjunction c) (trim s) [] := gives_read_iff.mp ⟨q, hc, hq⟩
  have hb' : '\\' ∉ trim s := fun hm => hb ((trim_suffix s).subset hm)
  have hparen := hd.append_paren hb
  have hclose : Closes 0 (s ++ [')']) [] := (spans_of_derives hparen).closes_group
  have htrim : trim ('(' :: (s ++ [')'])) = '(' :: (s ++ [')']) :=
    trim_cons_of_not_isBlank (by decide)
  have hscan : groupAhead ('(' :: (s ++ [')'])) = showsCondition 1 none [] (trim s ++ [')']) :=
    passed_trim s [')']
  constructor
  · intro h
    by_cases hgroup : isGroup s = true
    · have hahead : groupAhead ('(' :: (s ++ [')'])) = false := by
        rw [hscan, (isGroup_iff.mp hgroup).passed hb' [')']]
        rfl
      have hone := gives_read_iff.mp ⟨[], h, rfl⟩
      rw [htrim] at hone
      exact Or.inl (hone.isOneCall hclose hahead rfl).1
    · exact Or.inr (by simpa using hgroup)
  · intro h
    have hread : Derives (.disjunction c) ('(' :: (s ++ [')'])) [] := by
      refine Derives.disjunction_of_negation ?_ hd.isWhole
      by_cases hahead : groupAhead ('(' :: (s ++ [')'])) = true
      · exact .group hahead hparen
      rw [Bool.not_eq_true] at hahead
      -- the scan has found nothing in a text that is no group, so it can only be a call
      have hcall : c.isCall = true := by
        rcases h with hcall | hgroup
        · exact hcall
        rcases hd.isScanned hb' trim_trim with hdecided | ⟨-, hcall | hgroup'⟩
        · rw [hscan, hdecided] at hahead
          cases hahead
        · exact hcall
        · rw [isGroup_iff.mpr hgroup'] at hgroup
          cases hgroup
      cases c with
      | call n es =>
        have he := Expr.Derives.group (hparen.isSum.2 n es rfl (Or.inr ⟨[], rfl⟩))
        exact .unnegated rfl hahead (.call (he.sum_of_operand (Or.inl rfl)) rfl)
      | _ => cases hcall
    obtain ⟨q', hq', hrest⟩ := gives_read_iff.mpr (htrim.symm ▸ hread)
    have hends : EndsSolid ('(' :: (s ++ [')'])) :=
      ((endsSolid_singleton (by decide)).append s).cons '('
    rwa [hends.eq_nil_of_trim hq'.suffix hrest] at hq'

theorem read_parens_iff_conjunction :
    let s := "(a + b) * c > 1 and not (d = 2)".toList
    '\\' ∉ s ∧ trim ([] : List Char) = [] ∧ isGroup s = false ∧
      ∃ c, (read s).Gives c [] ∧ (read ('(' :: (s ++ [')']))).Gives c [] := by
  intro s
  have hb : '\\' ∉ s := by decide
  have hgroup : isGroup s = false := by decide +kernel
  obtain ⟨c, hc⟩ : ∃ c, (read s).Gives c [] := by decide +kernel
  exact ⟨hb, rfl, hgroup, c, hc, (read_parens_iff hb hc rfl).mpr (Or.inr hgroup)⟩

/-- The scan for signs and connectives passes over the inner group, and the equality sign in it. -/
theorem not_read_parens_group :
    ∃ c, '\\' ∉ "(a = 1)".toList ∧ (read "(a = 1)".toList).Gives c [] ∧
      ¬ (read "((a = 1))".toList).Gives c [] := by
  obtain ⟨c, hc⟩ : ∃ c, (read "(a = 1)".toList).Gives c [] := by decide +kernel
  have hfail : ¬ ∃ c, (read "((a = 1))".toList).Gives c [] := by decide +kernel
  exact ⟨c, by decide, hc, fun h => hfail ⟨c, h⟩⟩

end Condition

end DataPhrase
