/-
# Tokens with other gaps

Two texts that are the same but for their gaps fall into tokens of the same kinds, and the same ones
of them are keywords. So they show the same surface form, and they make the same statement.
-/
import DataPhrase.Proofs.Gaps.Statement
import DataPhrase.Proofs.Token.Words

namespace DataPhrase

open Text

/-! ## Alike tokens -/

namespace Token

variable {c q : Char} {s s' t r u u' v v' : List Char} {d n k : Nat}

/-- A literal or a group starts in the text. -/
def Opens (u : List Char) : Prop :=
  ∃ c ∈ u, isQuote c = true ∨ c = '('

/-- The texts are the same, or neither is a word without literals and groups. -/
def AlikeText (u u' : List Char) : Prop :=
  u = u' ∨ (Opens u ∧ Opens u')

theorem AlikeText.append (hu : AlikeText u u') (hv : AlikeText v v') :
    AlikeText (u ++ v) (u' ++ v') := by
  have hleft {u v : List Char} : Opens u → Opens (u ++ v) :=
    fun ⟨c, hc, h⟩ => ⟨c, List.mem_append_left v hc, h⟩
  have hright {u v : List Char} : Opens v → Opens (u ++ v) :=
    fun ⟨c, hc, h⟩ => ⟨c, List.mem_append_right u hc, h⟩
  rcases hu with rfl | ⟨hu, hu'⟩
  · rcases hv with rfl | ⟨hv, hv'⟩
    · exact Or.inl rfl
    · exact Or.inr ⟨hright hv, hright hv'⟩
  · exact Or.inr ⟨hleft hu, hleft hu'⟩

theorem AlikeText.isEmpty_eq (h : AlikeText u u') : u.isEmpty = u'.isEmpty := by
  rcases h with rfl | ⟨⟨c, hc, -⟩, ⟨c', hc', -⟩⟩
  · rfl
  · rw [List.isEmpty_eq_false_iff.mpr (List.ne_nil_of_mem hc),
      List.isEmpty_eq_false_iff.mpr (List.ne_nil_of_mem hc')]

/-- The tokens are of the same kind, and the same keyword if they are one. -/
structure Alike (x y : Token) : Prop where
  kind : x.kind = y.kind
  text : AlikeText x.text y.text

/-- A keyword is written in characters of names only. -/
theorem not_isWord_of_opens {k : String} {x : Token} (h : Opens x.text)
    (hk : (lower k.toList).all isNameChar = true) : x.isWord k = false := by
  rw [← Bool.not_eq_true, isWord, Bool.and_eq_true, sameWord, beq_iff_eq, beq_iff_eq]
  rintro ⟨-, hword⟩
  obtain ⟨c, hc, hopen⟩ := h
  have hname := List.all_eq_true.mp hk c.toLower (hword ▸ List.mem_map_of_mem hc)
  simp only [isQuote, Bool.or_eq_true, beq_iff_eq] at hopen
  rcases hopen with (rfl | rfl) | rfl <;> revert hname <;> decide

theorem Alike.isWord_eq {x y : Token} (h : Alike x y) {k : String}
    (hk : (lower k.toList).all isNameChar = true) : x.isWord k = y.isWord k := by
  rcases h.text with htext | ⟨hx, hy⟩
  · rw [isWord, isWord, h.kind, htext]
  · rw [not_isWord_of_opens hx hk, not_isWord_of_opens hy hk]

/-! ## Literals and groups -/

/-- A literal that ends in one text ends in the other one. -/
theorem exists_literalRest_of_respaced (hq : q ≠ '\\') (hs : Respaced (.inside q) s s')
    {x : Read s (List Char)} (hx : literalRest q s = some x) :
    ∃ y : Read s' (List Char), literalRest q s' = some y ∧ Respaced .outside x.rest y.rest := by
  have hrest := Expr.map_rest_literalRest q s
  rw [hx] at hrest
  obtain ⟨z, hz, hzx⟩ := Option.map_eq_some_iff.mp hrest.symm
  have hv : Expr.literalAhead? q s = some (z.value, z.rest) := by rw [Expr.literalAhead?, hz]; rfl
  obtain ⟨r', hv', hr⟩ := hs.literalAhead? hq hv
  obtain ⟨z', hz', he⟩ := Option.map_eq_some_iff.mp hv'
  obtain ⟨-, rfl⟩ := Prod.mk.inj he
  obtain ⟨y, hy, hyz⟩ := Expr.exists_literalRest hz'
  refine ⟨y, hy, ?_⟩
  rw [hyz, ← hzx]
  exact hr

theorem closes_gaps {g : List Char} (hg : ∀ c ∈ g, isGap c = true) :
    Closes d (g ++ s) r ↔ Closes d s r := by
  induction g with
  | nil => exact Iff.rfl
  | cons c g ih =>
    rw [List.forall_mem_cons] at hg
    rw [List.cons_append, closes_of_isPassed (isPassed_of_isGap hg.1), ih hg.2]

/-- What a group that closes starts with. -/
theorem Closes.cases_cons (h : Closes d (c :: s) r) :
    (isQuote c = true ∧ ∃ x : Read s (List Char), literalRest c s = some x ∧ Closes d x.rest r) ∨
    (c = '(' ∧ Closes (d + 1) s r) ∨ (c = ')' ∧ d = 0 ∧ s = r) ∨
    (c = ')' ∧ ∃ k, d = k + 1 ∧ Closes k s r) ∨
    (Condition.isPassed c = true ∧ Closes d s r) := by
  by_cases hq : isQuote c = true
  · cases hx : literalRest c s with
    | none =>
      obtain ⟨v, h⟩ := h
      rw [groupRest.eq_def] at h
      simp only [hq, if_true, hx] at h
      exact absurd h Outcome.not_gives_fail
    | some x => exact Or.inl ⟨hq, x, rfl, (closes_literal hq hx).mp h⟩
  · by_cases ho : c = '('
    · subst ho
      exact Or.inr (Or.inl ⟨rfl, closes_open.mp h⟩)
    · by_cases hp : c = ')'
      · subst hp
        cases d with
        | zero =>
          obtain ⟨v, h⟩ := h
          rw [groupRest, if_neg (by decide), if_neg (by decide), if_pos rfl] at h
          exact Or.inr (Or.inr (Or.inl ⟨rfl, rfl, (Outcome.gives_done.mp h).2⟩))
        | succ k => exact Or.inr (Or.inr (Or.inr (Or.inl ⟨rfl, k, rfl, closes_close.mp h⟩)))
      · have hc := isPassed_of_not hq ho hp
        exact Or.inr (Or.inr (Or.inr (Or.inr ⟨hc, (closes_of_isPassed hc).mp h⟩)))

/-- A group that closes in one text closes in the other one. -/
theorem Closes.respaced (h : Closes d s r) (hs : Respaced .outside s s') :
    ∃ r', Closes d s' r' ∧ Respaced .outside r r' := by
  -- On the length of the text: a literal is skipped at once, and so is a run of gaps.
  induction hl : s.length using Nat.strongRecOn generalizing s s' d with
  | ind l ih =>
    subst hl
    generalize hm : MaskState.outside = m at hs
    cases hs with
    | nil =>
      obtain ⟨v, h⟩ := h
      rw [groupRest] at h
      exact absurd h Outcome.not_gives_fail
    | @char _ c t t' _ ht =>
      subst hm
      have hlt : t.length < (c :: t).length := Nat.lt_succ_self _
      have hstep (hq : isQuote c = false) : Respaced .outside t t' := by
        rwa [MaskState.step_outside hq] at ht
      rcases h.cases_cons with ⟨hq, x, hx, hin⟩ | ⟨rfl, hin⟩ | ⟨rfl, rfl, rfl⟩ |
        ⟨rfl, k, rfl, hin⟩ | ⟨hc, hin⟩
      · rw [MaskState.step_quote hq] at ht
        obtain ⟨y, hy, hrest⟩ := exists_literalRest_of_respaced (ne_backslash_of_isQuote hq) ht hx
        have hx' := Nat.lt_of_le_of_lt x.suffix.length_le hlt
        obtain ⟨r', hr', hr⟩ := ih _ hx' hin hrest rfl
        exact ⟨r', (closes_literal hq hy).mpr hr', hr⟩
      · obtain ⟨r', hr', hr⟩ := ih _ hlt hin (hstep (by decide)) rfl
        exact ⟨r', closes_open.mpr hr', hr⟩
      · exact ⟨t', closes_end, hstep (by decide)⟩
      · obtain ⟨r', hr', hr⟩ := ih _ hlt hin (hstep (by decide)) rfl
        exact ⟨r', closes_close.mpr hr', hr⟩
      · obtain ⟨r', hr', hr⟩ := ih _ hlt hin (hstep (not_isQuote_of_isPassed hc).1) rfl
        exact ⟨r', (closes_of_isPassed hc).mpr hr', hr⟩
    | @gaps g g' t t' hg hg' _ ht =>
      have hlt : t.length < (g ++ t).length := by
        rw [List.length_append]
        exact Nat.lt_add_of_pos_left (List.length_pos_iff.mpr hg.1)
      obtain ⟨r', hr', hr⟩ := ih _ hlt ((closes_gaps hg.2).mp h) ht rfl
      exact ⟨r', (closes_gaps hg'.2).mpr hr', hr⟩

/-- The same piece starts in both texts. -/
theorem exists_piece {x : Read s (List Char)} (hs : Respaced (MaskState.step .outside c) s s')
    (hx : piece c s = .ok x) :
    ∃ y : Read s' (List Char), piece c s' = .ok y ∧ Respaced .outside x.rest y.rest ∧
      AlikeText x.value y.value := by
  have hopens {v v' : List Char} (hc : isQuote c = true ∨ c = '(') :
      AlikeText (c :: v) (c :: v') :=
    Or.inr ⟨⟨c, List.mem_cons_self, hc⟩, ⟨c, List.mem_cons_self, hc⟩⟩
  unfold piece at hx
  split at hx
  · next hq =>
    split at hx
    · cases hx
    · next z hz =>
      cases hx
      rw [MaskState.step_quote hq] at hs
      obtain ⟨y, hy, hr⟩ := exists_literalRest_of_respaced (ne_backslash_of_isQuote hq) hs hz
      refine ⟨⟨c :: y.value, y.rest, y.suffix⟩, ?_, hr, hopens (Or.inl hq)⟩
      rw [piece, if_pos hq, hy]
  · next hq =>
    rw [MaskState.step_outside (Bool.not_eq_true _ ▸ hq)] at hs
    split at hx
    · next ho =>
      split at hx
      · next z hz =>
        cases hx
        have hclose : Closes 0 s z.rest := ⟨z.value, z.suffix, hz⟩
        obtain ⟨r', ⟨v', hsuffix, hv'⟩, hr⟩ := hclose.respaced hs
        refine ⟨⟨c :: v', r', hsuffix⟩, ?_, hr, hopens (Or.inr ho)⟩
        rw [piece, if_neg hq, if_pos ho, hv']
      · split at hx <;> cases hx
    · next ho =>
      split at hx
      · cases hx
      · next hp =>
        cases hx
        refine ⟨⟨[c], s', List.suffix_refl s'⟩, ?_, hs, Or.inl rfl⟩
        rw [piece, if_neg hq, if_neg ho, if_neg hp]

/-! ## Words -/

theorem looksAhead_atBreak : LooksAhead atBreak where
  two c d t := by
    rw [atBreak_cons, atBreak_cons, Pipeline.looksAhead_startsArrow.two]
  gap c t hc := by
    rw [atBreak_cons, hc, Bool.or_true]
    rfl
  beforeGap c d t hd := by
    rw [atBreak_cons, atBreak_cons, Pipeline.looksAhead_startsArrow.beforeGap c d t hd]

/-- The word in front ends at the same place of both texts. -/
theorem exists_wordRest (h : (wordRest s).Gives v r) (hs : Respaced .outside s s') :
    ∃ v' r', (wordRest s').Gives v' r' ∧ Respaced .outside r r' ∧ AlikeText v v' := by
  fun_induction wordRest s generalizing v s' r with
  | case1 s hb =>
    obtain ⟨rfl, rfl⟩ := Outcome.gives_done.mp h
    rw [looksAhead_atBreak.eq hs] at hb
    refine ⟨[], s', ?_, hs, Or.inl rfl⟩
    rw [wordRest.eq_def, if_pos hb]
    exact Outcome.gives_done.mpr ⟨rfl, rfl⟩
  | case2 hb => exact absurd rfl hb
  | case3 => exact absurd h Outcome.not_gives_error
  | case4 c t x hx hlen hb ih =>
    obtain ⟨w, hw, rfl⟩ := Outcome.gives_map.mp (Outcome.gives_widen.mp h)
    have hgap : isGap c = false := by
      rw [atBreak_cons, Bool.or_eq_true, not_or] at hb
      exact Bool.eq_false_iff.mpr hb.2
    rw [looksAhead_atBreak.eq hs] at hb
    obtain ⟨t', rfl, ht⟩ := hs.cons hgap
    obtain ⟨y, hy, hrest, hvalue⟩ := exists_piece ht hx
    obtain ⟨w', r', hw', hr, hwords⟩ := ih hw hrest
    refine ⟨y.value ++ w', r', ?_, hr, hvalue.append hwords⟩
    rw [wordRest.eq_def, if_neg hb]
    simp only [hy]
    exact Outcome.gives_widen.mpr (Outcome.gives_map.mpr ⟨w', hw', rfl⟩)

theorem exists_word {x : Read s (TokenKind × List Char)}
    (hs : Respaced (MaskState.step .outside c) s s') (hx : word c s = .ok x) :
    ∃ y : Read s' (TokenKind × List Char), word c s' = .ok y ∧ Respaced .outside x.rest y.rest ∧
      x.value.1 = y.value.1 ∧ AlikeText x.value.2 y.value.2 := by
  unfold word at hx
  split at hx
  · cases hx
  · next p hp =>
    split at hx
    · cases hx
    · next w hw =>
      cases hx
      obtain ⟨p', hp', hrest, hpiece⟩ := exists_piece hs hp
      have hgives : (wordRest p.rest).Gives w.value w.rest := ⟨w.suffix, hw⟩
      obtain ⟨v', r', ⟨hsuffix, hv'⟩, hr, hword⟩ := exists_wordRest hgives hrest
      refine ⟨⟨(if isQuote c && v'.isEmpty then .text else .word, p'.value ++ v'), r',
        hsuffix.trans p'.suffix⟩, ?_, hr, ?_, hpiece.append hword⟩
      · rw [word, hp']
        simp only [hv']
      · show (if _ then TokenKind.text else .word) = if _ then TokenKind.text else .word
        rw [hword.isEmpty_eq]

/-- **The texts fall into alike tokens.** -/
theorem exists_scan_of_respaced {ts : List Token} (hs : Respaced .outside s s')
    (h : scan n s = .ok ts) : ∃ ts', scan k s' = .ok ts' ∧ List.Forall₂ Alike ts ts' := by
  induction hl : s.length using Nat.strongRecOn generalizing s s' n k ts with
  | ind l ih =>
    subst hl
    generalize hm : MaskState.outside = m at hs
    cases hs with
    | nil =>
      rw [scan_nil] at h
      cases h
      exact ⟨[], scan_nil k, .nil⟩
    | @char _ c t t' hc ht =>
      subst hm
      have hs := Respaced.char hc ht
      cases ha : startsArrow (c :: t) with
      | true =>
        obtain ⟨u, hu⟩ := startsArrow_eq_true.mp ha
        rw [hu] at hs h
        obtain ⟨u', hu', hrest⟩ := hs.front (l := ['-', '>']) (by decide)
        rw [scan_arrow] at h
        obtain ⟨us, hus, rfl⟩ := map_eq_ok.mp h
        have hlt : u.length < (c :: t).length := by
          rw [hu, List.length_cons, List.length_cons]
          omega
        obtain ⟨us', hus', halike⟩ := ih _ hlt (k := k + 2) hrest hus rfl
        refine ⟨⟨.arrow, ['-', '>'], k⟩ :: us', ?_, .cons ⟨rfl, Or.inl rfl⟩ halike⟩
        rw [hu']
        exact (scan_arrow k u').trans (map_eq_ok.mpr ⟨us', hus', rfl⟩)
      | false =>
        rw [scan_word n (hc rfl) ha] at h
        split at h
        · cases h
        · next x hx =>
          obtain ⟨us, hus, rfl⟩ := map_eq_ok.mp h
          obtain ⟨y, hy, hrest, hkind, htext⟩ := exists_word ht hx
          have hlt : x.rest.length < (c :: t).length := Nat.lt_succ_of_le x.suffix.length_le
          obtain ⟨us', hus', halike⟩ := ih _ hlt (k := k + byteCount y.value.2) hrest hus rfl
          refine ⟨⟨y.value.1, y.value.2, k⟩ :: us', ?_, .cons ⟨hkind, htext⟩ halike⟩
          rw [Pipeline.looksAhead_startsArrow.eq hs] at ha
          rw [scan_word k (hc rfl) ha, hy]
          exact map_eq_ok.mpr ⟨us', hus', rfl⟩
    | @gaps g g' t t' hg hg' _ ht =>
      have hlt : t.length < (g ++ t).length := by
        rw [List.length_append]
        exact Nat.lt_add_of_pos_left (List.length_pos_iff.mpr hg.1)
      rw [scan_of_gaps hg.2] at h
      obtain ⟨ts', hts, halike⟩ := ih _ hlt (k := k + g'.length) ht h rfl
      exact ⟨ts', by rw [scan_of_gaps hg'.2, hts], halike⟩

end Token

/-! ## Surface forms -/

section Related

variable {α : Type} {R : α → α → Prop} {f : α → Bool} {l l' : List α}

theorem forall₂_takeWhile (h : List.Forall₂ R l l') (hf : ∀ a b, R a b → f a = f b) :
    List.Forall₂ R (l.takeWhile f) (l'.takeWhile f) := by
  induction h with
  | nil => exact .nil
  | cons hab _ ih =>
    rw [List.takeWhile_cons, List.takeWhile_cons, hf _ _ hab]
    split
    · exact .cons hab ih
    · exact .nil

theorem forall₂_dropWhile (h : List.Forall₂ R l l') (hf : ∀ a b, R a b → f a = f b) :
    List.Forall₂ R (l.dropWhile f) (l'.dropWhile f) := by
  induction h with
  | nil => exact .nil
  | cons hab hl ih =>
    rw [List.dropWhile_cons, List.dropWhile_cons, hf _ _ hab]
    split
    · exact ih
    · exact .cons hab hl

theorem any_eq_of_forall₂ (h : List.Forall₂ R l l') (hf : ∀ a b, R a b → f a = f b) :
    l.any f = l'.any f := by
  induction h with
  | nil => rfl
  | cons hab _ ih => rw [List.any_cons, List.any_cons, hf _ _ hab, ih]

end Related

variable {text text' : List Char} {ts ts' : List Token} {st : Statement}

/-- Alike tokens show the same surface form. -/
theorem ofTokens?_eq (h : List.Forall₂ Token.Alike ts ts') :
    Pattern.ofTokens? ts = Pattern.ofTokens? ts' := by
  have hhead : List.Forall₂ Token.Alike (ts.takeWhile fun t => t.kind != .arrow)
      (ts'.takeWhile fun t => t.kind != .arrow) :=
    forall₂_takeWhile h fun _ _ hab => by rw [hab.kind]
  have htransform := forall₂_dropWhile (f := fun t => !t.isWord "transform") hhead
    fun _ _ hab => by rw [hab.isWord_eq (by decide)]
  have hto := any_eq_of_forall₂ (f := (·.isWord "to")) (List.forall₂_drop 1 htransform)
    fun _ _ hab => hab.isWord_eq (by decide)
  have hverb : ∀ {a b : Token}, a.Alike b →
      Question.verbs.any a.isWord = Question.verbs.any b.isWord := by
    intro a b hab
    simp only [Question.verbs, List.any_cons, List.any_nil]
    rw [hab.isWord_eq (k := "show") (by decide), hab.isWord_eq (k := "calculate") (by decide),
      hab.isWord_eq (k := "compare") (by decide), hab.isWord_eq (k := "find") (by decide)]
  unfold Pattern.ofTokens?
  dsimp only
  rw [hto, hhead.length_eq, h.length_eq]
  cases h with
  | nil => rfl
  | cons hab _ =>
    dsimp only
    rw [hverb hab]

/-- The texts show the same surface form. -/
theorem exists_classify {p : Pattern} (hs : Respaced .outside text text')
    (h : classify text = .ok (p, ts)) : ∃ ts', classify text' = .ok (p, ts') := by
  unfold classify at h
  cases ht : tokenize text with
  | error e =>
    rw [ht] at h
    cases h
  | ok us =>
    rw [ht] at h
    obtain ⟨us', hus', halike⟩ := Token.exists_scan_of_respaced (k := 0) hs ht
    simp only [bind, Except.bind] at h
    split at h
    · next p' hp =>
      cases h
      rw [ofTokens?_eq halike] at hp
      exact ⟨us', classify_eq_ok hus' hp⟩
    · cases h

/-! ## Statements -/

/-- **Gaps do not count.** A text that makes a statement makes the same one with other gaps outside
of its literals, unless a form feed comes to stand before a comma. -/
theorem parse_of_sameButGaps (h : Statement.parse text = .ok st)
    (hs : SameButGaps .outside text text') (hf : feedBeforeComma .outside text' = false) :
    Statement.parse text' = .ok st := by
  have hrespaced := hs.respaced hf
  obtain ⟨p, ts, hp, hread⟩ := parse_eq_ok.mp h
  obtain ⟨ts', hp'⟩ := exists_classify hrespaced hp
  obtain ⟨r', hread', hr⟩ := p.carries_grammar text hrespaced hread
  rw [hr.eq_nil] at hread'
  exact parse_eq_ok.mpr ⟨p, ts', hp', hread'⟩

/-- A statement on several lines, with a literal that holds blanks. -/
theorem parse_of_sameButGaps_lines :
    ∃ st, Statement.parse "transform S to T grouped by a , b where c == \"x  y\"".toList = .ok st ∧
      SameButGaps .outside "transform S to T grouped by a , b where c == \"x  y\"".toList
        "transform\r\n\tS to T grouped by a\n, b where c ==\x0c\"x  y\"".toList ∧
      feedBeforeComma .outside
        "transform\r\n\tS to T grouped by a\n, b where c ==\x0c\"x  y\"".toList = false ∧
      Statement.parse "transform\r\n\tS to T grouped by a\n, b where c ==\x0c\"x  y\"".toList =
        .ok st := by
  obtain ⟨st, h, -⟩ := exists_parse
    "transform S to T grouped by a , b where c == \"x  y\"".toList rfl
    (fun _ _ => true) (by decide +kernel)
  have hgaps : SameButGaps .outside "transform S to T grouped by a , b where c == \"x  y\"".toList
      "transform\r\n\tS to T grouped by a\n, b where c ==\x0c\"x  y\"".toList :=
    .behind "transform".toList [' '] ['\r', '\n', '\t'] (by decide) (by decide) (by decide) <|
    .behind "S to T grouped by a".toList [' '] ['\n'] (by decide) (by decide) (by decide) <|
    .behind ", b where c ==".toList [' '] ['\x0c'] (by decide) (by decide) (by decide) <|
    .refl .outside "\"x  y\"".toList
  have hfeed : feedBeforeComma .outside
      "transform\r\n\tS to T grouped by a\n, b where c ==\x0c\"x  y\"".toList = false := by decide
  exact ⟨st, h, hgaps, hfeed, parse_of_sameButGaps h hgaps hfeed⟩

/-- A list of fields ends in front of a form feed, although the form feed is a gap. -/
theorem not_parse_feedBeforeComma :
    ∃ st, Statement.parse "transform S to T grouped by a , b".toList = .ok st ∧
      SameButGaps .outside "transform S to T grouped by a , b".toList
        "transform S to T grouped by a\x0c, b".toList ∧
      Statement.parse "transform S to T grouped by a\x0c, b".toList ≠ .ok st := by
  obtain ⟨st, h, -⟩ := exists_parse "transform S to T grouped by a , b".toList rfl
    (fun _ _ => true) (by decide +kernel)
  have hgaps : SameButGaps .outside "transform S to T grouped by a , b".toList
      "transform S to T grouped by a\x0c, b".toList :=
    .behind "transform S to T grouped by a".toList [' '] ['\x0c'] (by decide) (by decide)
      (by decide) (.refl .outside ", b".toList)
  have hparse : (Statement.parse "transform S to T grouped by a\x0c, b".toList).toOption =
      none := by
    rw [String.toList_ofList]
    decide +kernel
  refine ⟨st, h, hgaps, fun hst => ?_⟩
  rw [hst] at hparse
  cases hparse

end DataPhrase
