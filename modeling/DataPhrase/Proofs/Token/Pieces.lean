/-
# Texts made of whole pieces

`Spans s r` says that between the text `s` and its ending `r` stand whole pieces, that is literals,
groups and single characters, and no arrow. Such a text falls into tokens up to `r`, none of them an
arrow (`scan_of_spans`).
-/
import DataPhrase.Proofs.Grammar.Behind
import DataPhrase.Proofs.Token.Scan

namespace DataPhrase.Token

open Text Lexeme

variable {c q : Char} {s t r v : List Char} {d k n : Nat}

/-! ## Pieces in a row -/

/-- Between the first text and the second stand whole pieces and no arrow. -/
inductive Spans : List Char → List Char → Prop where
  | refl (s : List Char) : Spans s s
  | more {c : Char} {s r : List Char} {x : Read s (List Char)}
      (ha : startsArrow (c :: s) = false) (hx : piece c s = .ok x) (h : Spans x.rest r) :
      Spans (c :: s) r

/-- Whole pieces behind whole pieces are whole pieces. -/
theorem Spans.trans (h : Spans s t) (h' : Spans t r) : Spans s r := by
  induction h with
  | refl => exact h'
  | more ha hx _ ih => exact .more ha hx (ih h')

/-- What whole pieces leave is the end of the text. -/
theorem Spans.suffix (h : Spans s r) : r <:+ s := by
  induction h with
  | refl s => exact List.suffix_refl s
  | @more c s r x _ _ _ ih => exact ih.trans (x.suffix.trans (List.suffix_cons c s))

/-- A character that scans pass is neither a quote nor a parenthesis. -/
theorem not_isQuote_of_isPassed (h : Condition.isPassed c = true) :
    isQuote c = false ∧ c ≠ '(' ∧ c ≠ ')' := by
  simpa only [Condition.isPassed, Bool.and_eq_true, Bool.not_eq_true', bne_iff_ne, ne_eq,
    and_assoc] using h

/-- Any other character is passed. -/
theorem isPassed_of_not (hq : ¬ isQuote c = true) (ho : c ≠ '(') (hp : c ≠ ')') :
    Condition.isPassed c = true := by
  simp only [Condition.isPassed, hq, ho, hp, Bool.and_eq_true, Bool.not_eq_true', bne_iff_ne,
    ne_eq, not_false_eq_true, and_self]

/-- A character that opens and closes nothing is a piece. -/
theorem piece_of_isPassed (h : Condition.isPassed c = true) :
    piece c s = .ok ⟨[c], s, List.suffix_refl s⟩ := by
  obtain ⟨hq, ho, hp⟩ := not_isQuote_of_isPassed h
  rw [piece, hq, if_neg Bool.false_ne_true, if_neg ho, if_neg hp]

/-- A single character is a piece, if no arrow begins with it. -/
theorem spans_cons (h : Condition.isPassed c = true) (ha : startsArrow (c :: s) = false) :
    Spans (c :: s) s :=
  .more ha (piece_of_isPassed h) (.refl s)

/-- A piece is a literal, a group or a character that opens and closes nothing. -/
theorem piece_cases {x : Read s (List Char)} (h : piece c s = .ok x) :
    (isQuote c = true ∧ ∃ y : Read s (List Char), literalRest c s = some y ∧
      x.value = c :: y.value ∧ x.rest = y.rest) ∨
    (c = '(' ∧ ∃ v, (groupRest 0 s).Gives v x.rest ∧ x.value = '(' :: v) ∨
    (Condition.isPassed c = true ∧ x.value = [c] ∧ x.rest = s) := by
  unfold piece at h
  split at h
  · next hq =>
    split at h
    · cases h
    · next y hy =>
      cases h
      exact .inl ⟨hq, y, hy, rfl, rfl⟩
  · next hq =>
    split at h
    · next ho =>
      subst ho
      split at h
      · next y hy =>
        cases h
        exact .inr (.inl ⟨rfl, y.value, ⟨y.suffix, hy⟩, rfl⟩)
      · split at h <;> cases h
    · next ho =>
      split at h
      · cases h
      · next hp =>
        cases h
        exact .inr (.inr ⟨isPassed_of_not hq ho hp, rfl, rfl⟩)

/-- A run of characters that open and close nothing and are no minus signs. -/
theorem spans_dropWhile {p : Char → Bool}
    (hp : ∀ c, p c = true → Condition.isPassed c = true ∧ c ≠ '-') :
    Spans s (s.dropWhile p) := by
  induction s with
  | nil => exact .refl []
  | cons c s ih =>
    rw [List.dropWhile_cons]
    split
    · next h => exact (spans_cons (hp c h).1 (startsArrow_of_ne (hp c h).2)).trans ih
    · exact .refl _

/-- Blanks are whole pieces. -/
theorem spans_trim : Spans s (trim s) :=
  spans_dropWhile fun c h => by
    have hc := forall_isBlank (p := fun c => Condition.isPassed c && c != '-') (by decide) h
    rw [Bool.and_eq_true, bne_iff_ne] at hc
    exact hc

theorem ne_minus_of_isNameChar (h : isNameChar c = true) : c ≠ '-' := by
  rintro rfl
  revert h
  decide

/-- Characters of names are whole pieces. -/
theorem spans_dropWhile_isNameChar : Spans s (s.dropWhile isNameChar) :=
  spans_dropWhile fun _ h => ⟨Condition.isPassed_of_isNameChar h, ne_minus_of_isNameChar h⟩

theorem ne_minus_of_isQuote (h : isQuote c = true) : c ≠ '-' := by
  rintro rfl
  revert h
  decide

theorem ne_backslash_of_isQuote (h : isQuote c = true) : c ≠ '\\' := by
  rintro rfl
  cases h

/-- A literal is a whole piece. -/
theorem spans_literal {x : Read s (List Char)} (hc : isQuote c = true)
    (hx : literalRest c s = some x) : Spans (c :: s) x.rest := by
  refine .more (x := ⟨c :: x.value, x.rest, x.suffix⟩) (startsArrow_of_ne (ne_minus_of_isQuote hc))
    ?_ (.refl _)
  rw [piece, if_pos hc, hx]

/-! ## Groups -/

/-- A group with `d` groups open in it closes in the first text, in front of the second. -/
def Closes (d : Nat) (s r : List Char) : Prop :=
  ∃ v, (groupRest d s).Gives v r

/-- A group is closed where the rest of the group is. -/
theorem closes_of_map {s' : List Char} {f : List Char → List Char} {h : s' <:+ s}
    (hs : groupRest d s = ((groupRest k s').map f).widen h) : Closes d s r ↔ Closes k s' r := by
  constructor
  · rintro ⟨v, hv⟩
    rw [hs, Outcome.gives_widen, Outcome.gives_map] at hv
    obtain ⟨w, hw, -⟩ := hv
    exact ⟨w, hw⟩
  · rintro ⟨w, hw⟩
    refine ⟨f w, ?_⟩
    rw [hs, Outcome.gives_widen, Outcome.gives_map]
    exact ⟨w, hw, rfl⟩

/-- A literal inside a group does not close it. -/
theorem closes_literal {x : Read s (List Char)} (hc : isQuote c = true)
    (hx : literalRest c s = some x) : Closes d (c :: s) r ↔ Closes d x.rest r := by
  have hs : groupRest d (c :: s) = ((groupRest d x.rest).map (c :: x.value ++ ·)).widen
      (x.suffix.trans (List.suffix_cons c s)) := by
    rw [groupRest.eq_def]
    simp only [hc, if_true, hx]
  exact closes_of_map hs

/-- An opening parenthesis inside a group has to be closed first. -/
theorem closes_open : Closes d ('(' :: s) r ↔ Closes (d + 1) s r := by
  have hs : groupRest d ('(' :: s) =
      ((groupRest (d + 1) s).map ('(' :: ·)).widen (List.suffix_cons '(' s) := by
    rw [groupRest.eq_def]
    rfl
  exact closes_of_map hs

/-- A closing parenthesis closes the innermost group. -/
theorem closes_close : Closes (d + 1) (')' :: s) r ↔ Closes d s r := by
  have hs : groupRest (d + 1) (')' :: s) =
      ((groupRest d s).map (')' :: ·)).widen (List.suffix_cons ')' s) := by
    rw [groupRest.eq_def]
    rfl
  exact closes_of_map hs

theorem closes_of_isPassed (h : Condition.isPassed c = true) : Closes d (c :: s) r ↔ Closes d s r := by
  obtain ⟨hq, ho, hp⟩ := not_isQuote_of_isPassed h
  have hs : groupRest d (c :: s) =
      ((groupRest d s).map (c :: ·)).widen (List.suffix_cons c s) := by
    rw [groupRest.eq_def]
    simp only [hq, ho, hp, if_false, Bool.false_eq_true]
  exact closes_of_map hs

/-- A closing parenthesis in front closes the outer group. -/
theorem closes_end : Closes 0 (')' :: r) r := by
  refine ⟨[')'], ?_⟩
  rw [groupRest, if_neg (by decide), if_neg (by decide), if_pos rfl]
  exact Outcome.gives_done.mpr ⟨rfl, rfl⟩

/-- A group inside another one closes first. -/
theorem Closes.trans (h : Closes k s t) (h' : Closes d t r) : Closes (k + d + 1) s r := by
  obtain ⟨v, h⟩ := h
  fun_induction groupRest k s generalizing v t with
  | case1 => exact absurd h Outcome.not_gives_fail
  | case2 => exact absurd h Outcome.not_gives_fail
  | case3 k c s hc x hx hlen ih =>
    obtain ⟨w, hw, -⟩ := Outcome.gives_map.mp (Outcome.gives_widen.mp h)
    exact (closes_literal hc hx).mpr (ih h' w hw)
  | case4 k s hq ih =>
    obtain ⟨w, hw, -⟩ := Outcome.gives_map.mp (Outcome.gives_widen.mp h)
    have hin := ih h' w hw
    -- The parenthesis opens a group in either reading.
    rw [Nat.add_right_comm k 1 d] at hin
    exact closes_open.mpr hin
  | case5 s hq hp =>
    obtain ⟨-, rfl⟩ := Outcome.gives_done.mp h
    rw [Nat.zero_add]
    exact closes_close.mpr h'
  | case6 s k hq ho ih =>
    obtain ⟨w, hw, -⟩ := Outcome.gives_map.mp (Outcome.gives_widen.mp h)
    rw [Nat.add_right_comm k 1 d]
    exact closes_close.mpr (ih h' w hw)
  | case7 k c s hq ho hp ih =>
    obtain ⟨w, hw, -⟩ := Outcome.gives_map.mp (Outcome.gives_widen.mp h)
    exact (closes_of_isPassed (isPassed_of_not hq ho hp)).mpr (ih h' w hw)

/-- A group is not closed by whole pieces. -/
theorem Spans.closes (h : Spans s t) (h' : Closes d t r) : Closes d s r := by
  -- The three kinds of pieces: a literal is skipped, a group closes before the one around it, and
  -- any other character leaves the depth as it is.
  induction h with
  | refl => exact h'
  | @more c s t x _ hx _ ih =>
    have hrest := ih h'
    rcases piece_cases hx with ⟨hq, y, hy, -, hxy⟩ | ⟨rfl, v, hv, -⟩ | ⟨hc, -, hxs⟩
    · rw [hxy] at hrest
      exact (closes_literal hq hy).mpr hrest
    · have hin : Closes 0 s x.rest := ⟨v, hv⟩
      have hout := hin.trans hrest
      rw [Nat.zero_add] at hout
      exact closes_open.mpr hout
    · rw [hxs] at hrest
      exact (closes_of_isPassed hc).mpr hrest

/-- **Whole pieces in parentheses are one piece.** -/
theorem spans_group (h : Spans s (')' :: r)) : Spans ('(' :: s) r := by
  obtain ⟨v, hsuffix, hv⟩ := h.closes closes_end
  refine .more (x := ⟨'(' :: v, r, hsuffix⟩) (startsArrow_of_ne (by decide)) ?_ (.refl r)
  rw [piece, if_neg (by decide), if_pos rfl, hv]

/-! ## Tokens -/

/-- The first text falls into the tokens up to the second text: gaps apart, each token ends at a
break, and none is an arrow. -/
inductive Falls : List Char → List Token → List Char → Prop where
  | stop (r : List Char) : Falls r [] r
  | gap {c : Char} {s r : List Char} {ts : List Token} (hc : isGap c = true) (h : Falls s ts r) :
      Falls (c :: s) ts r
  | token {t : Token} {s r : List Char} {ts : List Token} (hk : t.kind ≠ .arrow)
      (hn : t.text ≠ []) (ha : startsArrow (t.text ++ s) = false) (hb : atBreak s = true)
      (h : Falls s ts r) : Falls (t.text ++ s) (t :: ts) r

/-- Whole pieces have no arrow among their tokens. -/
theorem Falls.kind_ne {ts : List Token} (h : Falls s ts r) : ∀ t ∈ ts, t.kind ≠ .arrow := by
  induction h with
  | stop => exact List.forall_mem_nil _
  | gap _ _ ih => exact ih
  | token hk _ _ _ _ ih => exact List.forall_mem_cons.mpr ⟨hk, ih⟩

theorem Falls.suffix {ts : List Token} (h : Falls s ts r) : r <:+ s := by
  induction h with
  | stop r => exact List.suffix_refl r
  | gap _ _ ih => exact ih.trans (List.suffix_cons _ _)
  | token _ _ _ _ _ ih => exact ih.trans (List.suffix_append _ _)

/-- The characters of the tokens stand in front of the second text. -/
theorem Falls.mem {ts : List Token} (h : Falls s ts r) {u : List Char} (hs : s = u ++ r) :
    ∀ t ∈ ts, ∀ c ∈ t.text, c ∈ u := by
  induction h generalizing u with
  | stop => exact List.forall_mem_nil _
  | @gap g s r ts hg h ih =>
    obtain ⟨v, rfl⟩ := h.suffix
    obtain rfl : u = g :: v := List.append_cancel_right hs.symm
    intro t ht c hc
    exact List.mem_cons_of_mem g (ih rfl t ht c hc)
  | @token t s r ts _ _ _ _ h ih =>
    obtain ⟨v, rfl⟩ := h.suffix
    rw [← List.append_assoc] at hs
    obtain rfl : u = t.text ++ v := List.append_cancel_right hs.symm
    intro t' ht c hc
    rcases List.mem_cons.mp ht with rfl | ht
    · exact List.mem_append_left v hc
    · exact List.mem_append_right t.text (ih rfl t' ht c hc)

/-- A word breaks at the end of the text and at an arrow. -/
theorem atBreak_of_end (h : r = [] ∨ startsArrow r = true) : atBreak r = true := by
  rcases h with rfl | h
  · rfl
  · obtain ⟨t, rfl⟩ := startsArrow_eq_true.mp h
    rfl

/-- A word that starts in front of whole pieces ends among them. -/
theorem wordRest_of_spans (h : Spans s r) (hr : atBreak r = true) :
    ∃ v t, (wordRest s).Gives v t ∧ Spans t r ∧ atBreak t = true := by
  induction h with
  | refl s =>
    refine ⟨[], s, ?_, .refl s, hr⟩
    rw [wordRest.eq_def, if_pos hr]
    exact Outcome.gives_done.mpr ⟨rfl, rfl⟩
  | @more c s r x ha hx h ih =>
    cases hb : atBreak (c :: s) with
    | true =>
      refine ⟨[], c :: s, ?_, .more ha hx h, hb⟩
      rw [wordRest.eq_def, if_pos hb]
      exact Outcome.gives_done.mpr ⟨rfl, rfl⟩
    | false =>
      obtain ⟨v, t, hv, ht, hbt⟩ := ih hr
      refine ⟨x.value ++ v, t, ?_, ht, hbt⟩
      rw [wordRest.eq_def, hb, if_neg Bool.false_ne_true]
      simp only [hx]
      exact Outcome.gives_widen.mpr (Outcome.gives_map.mpr ⟨v, hv, rfl⟩)

/-- A word in front of whole pieces is a token. -/
theorem word_of_spans (h : Spans (c :: s) r) (hne : c :: s ≠ r)
    (hr : atBreak r = true) :
    ∃ x : Read s (TokenKind × List Char), word c s = .ok x ∧ x.value.1 ≠ .arrow ∧ x.value.2 ≠ [] ∧
      Spans x.rest r ∧ atBreak x.rest = true := by
  cases h with
  | refl => exact absurd rfl hne
  | @more _ _ _ x _ hx h =>
    obtain ⟨v, t, ⟨hsuffix, hv⟩, ht, hb⟩ := wordRest_of_spans h hr
    refine ⟨⟨(if isQuote c && v.isEmpty then .text else .word, x.value ++ v), t,
      hsuffix.trans x.suffix⟩, ?_, ?_, ?_, ht, hb⟩
    · rw [word, hx]
      simp only [hv]
    · show (if _ then TokenKind.text else .word) ≠ .arrow
      split <;> exact TokenKind.noConfusion
    · intro hnil
      exact value_ne_nil_of_piece hx (List.append_eq_nil_iff.mp hnil).1

/-- Whole pieces do not begin with an arrow. -/
theorem Spans.startsArrow (h : Spans s r) (hne : s ≠ r) : startsArrow s = false := by
  cases h with
  | refl => exact absurd rfl hne
  | more ha => exact ha

/-- Gaps are five characters of ASCII. -/
theorem eq_of_isGap (h : isGap c = true) :
    c = ' ' ∨ c = '\t' ∨ c = '\n' ∨ c = '\x0c' ∨ c = '\r' := by
  simpa only [isGap, Bool.or_eq_true, beq_iff_eq, or_assoc] using h

theorem isPassed_of_isGap (h : isGap c = true) : Condition.isPassed c = true := by
  rcases eq_of_isGap h with rfl | rfl | rfl | rfl | rfl <;> decide

theorem utf8Size_of_isGap (h : isGap c = true) : c.utf8Size = 1 := by
  rcases eq_of_isGap h with rfl | rfl | rfl | rfl | rfl <;> decide

/-- A gap in front is a piece of its own. -/
theorem Spans.behind_gap (h : Spans (c :: s) r) (hc : isGap c = true) (hne : c :: s ≠ r) :
    Spans s r := by
  cases h with
  | refl => exact absurd rfl hne
  | more _ hx h =>
    rw [piece_of_isPassed (isPassed_of_isGap hc)] at hx
    cases hx
    exact h

/-- **A text that is made of whole pieces falls into tokens.** -/
theorem scan_of_spans (h : Spans s r) (hr : r = [] ∨ startsArrow r = true) (n : Nat) :
    ∃ ts, Falls s ts r ∧ scan n s = (scan (n + (byteCount s - byteCount r)) r).map (ts ++ ·) := by
  -- On the length of the text, not on its pieces: one word may take several pieces.
  induction hl : s.length using Nat.strongRecOn generalizing s n with
  | _ l ih =>
    subst hl
    by_cases hne : s = r
    · subst hne
      refine ⟨[], .stop s, ?_⟩
      rw [Nat.sub_self, Nat.add_zero]
      cases scan n s <;> rfl
    · cases s with
      | nil => exact absurd (List.suffix_nil.mp h.suffix).symm hne
      | cons c s =>
        have ha := h.startsArrow hne
        cases hg : isGap c with
        | true =>
          have hs := h.behind_gap hg hne
          obtain ⟨ts, hts, hscan⟩ := ih s.length (Nat.lt_succ_self _) hs (n + 1) rfl
          refine ⟨ts, .gap hg hts, ?_⟩
          have hle := byteCount_le_of_suffix hs.suffix
          rw [scan_of_isGap n hg, hscan, byteCount_cons, utf8Size_of_isGap hg,
            Nat.add_sub_assoc hle, Nat.add_assoc]
        | false =>
          obtain ⟨x, hx, hk, hv, hrest, hb⟩ := word_of_spans h hne (atBreak_of_end hr)
          have happend := append_word hx
          have hlt : x.rest.length < (c :: s).length := Nat.lt_succ_of_le x.suffix.length_le
          obtain ⟨ts, hts, hscan⟩ := ih x.rest.length hlt hrest (n + byteCount x.value.2) rfl
          refine ⟨⟨x.value.1, x.value.2, n⟩ :: ts, ?_, ?_⟩
          · rw [← happend] at ha ⊢
            exact .token (t := ⟨x.value.1, x.value.2, n⟩) hk hv ha hb hts
          · have hle := byteCount_le_of_suffix hrest.suffix
            rw [scan_word n hg ha, hx]
            simp only [hscan]
            rw [← happend, byteCount_append, Nat.add_sub_assoc hle, Nat.add_assoc]
            cases scan _ r <;> rfl

end DataPhrase.Token
