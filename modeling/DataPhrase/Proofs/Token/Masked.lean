/-
# Masked texts

Masking leaves the characters outside of literals as they are and keeps the number of bytes. So what
stands in the masked text stands in the text itself, outside of its literals and at the same byte
(`mask_eq_append`). Behind whole pieces one is outside of literals (`Token.Spans.startsOutside`).
-/
import DataPhrase.Proofs.Gaps.Text

namespace DataPhrase

open Text

variable {m : MaskState} {c q : Char} {s r a b u v w : List Char}

/-! ## Character by character -/

namespace MaskState

/-- The quote of the literal around a character. -/
def quote? : MaskState → Option Char
  | .outside => none
  | .inside q => some q
  | .escaped q => some q

/-- The character that is masked: itself outside of literals and where a literal ends. -/
def image (m : MaskState) (c : Char) : List Char :=
  if m = .outside ∨ m.step c = .outside then [c] else blanksFor c

theorem isQuote_step (hm : ∀ q ∈ m.quote?, Token.isQuote q = true) :
    ∀ q ∈ (m.step c).quote?, Token.isQuote q = true := by
  cases m with
  | outside =>
    cases hc : Token.isQuote c with
    | false =>
      rw [step_outside hc]
      rintro _ ⟨⟩
    | true =>
      rw [step_quote hc]
      rintro _ ⟨⟩
      exact hc
  | inside q =>
    rw [step]
    split
    · exact hm
    · split
      · rintro _ ⟨⟩
      · exact hm
  | escaped q => exact hm

/-- Whatever is read, only quotes open literals. -/
theorem isQuote_foldl (hm : ∀ q ∈ m.quote?, Token.isQuote q = true) (u : List Char) :
    ∀ q ∈ (u.foldl step m).quote?, Token.isQuote q = true := by
  induction u generalizing m with
  | nil => exact hm
  | cons c u ih => exact ih (isQuote_step hm)

/-- A literal ends with its quote. -/
theorem eq_of_step_outside (hm : m ≠ .outside) (h : m.step c = .outside) : m.quote? = some c := by
  cases m with
  | outside => exact absurd rfl hm
  | inside q =>
    rw [step] at h
    split at h
    · cases h
    · split at h
      · next hc =>
        rw [hc]
        rfl
      · cases h
  | escaped q => cases h

end MaskState

theorem maskFrom_cons : maskFrom m (c :: r) = m.image c ++ maskFrom (m.step c) r := by
  cases m with
  | outside =>
    rw [maskFrom, MaskState.image, if_pos (Or.inl rfl)]
    cases hc : Token.isQuote c with
    | false =>
      rw [MaskState.step_outside hc]
      rfl
    | true =>
      rw [MaskState.step_quote hc]
      rfl
  | inside q =>
    rw [maskFrom, MaskState.image, MaskState.step]
    by_cases hescape : c = '\\'
    · rw [if_pos hescape, if_pos hescape, if_neg]
      rintro (⟨⟨⟩⟩ | ⟨⟨⟩⟩)
    · rw [if_neg hescape, if_neg hescape]
      by_cases hc : c = q
      · rw [if_pos hc, if_pos hc, if_pos (Or.inr rfl)]
        rfl
      · rw [if_neg hc, if_neg hc, if_neg]
        rintro (⟨⟨⟩⟩ | ⟨⟨⟩⟩)
  | escaped q =>
    rw [maskFrom, MaskState.image, MaskState.step, if_neg]
    rintro (⟨⟨⟩⟩ | ⟨⟨⟩⟩)

/-- A text is masked part by part. -/
theorem maskFrom_append (m : MaskState) (u v : List Char) :
    maskFrom m (u ++ v) = maskFrom m u ++ maskFrom (u.foldl MaskState.step m) v := by
  induction u generalizing m with
  | nil => rw [List.nil_append, maskFrom, List.nil_append, List.foldl_nil]
  | cons c u ih =>
    rw [List.cons_append, maskFrom_cons, maskFrom_cons, ih, List.foldl_cons, List.append_assoc]

/-- A character is masked by as many bytes as it has. -/
theorem byteCount_blanksFor (c : Char) : byteCount (blanksFor c) = c.utf8Size := by
  have hblanks : ∀ n, byteCount (List.replicate n ' ') = n := by
    intro n
    induction n with
    | zero => rfl
    | succ n ih =>
      rw [List.replicate_succ, byteCount_cons, ih, Nat.add_comm]
      rfl
  exact hblanks _

/-- **Masking keeps the number of bytes.** -/
theorem byteCount_maskFrom (m : MaskState) (s : List Char) :
    byteCount (maskFrom m s) = byteCount s := by
  induction s generalizing m with
  | nil => rw [maskFrom]
  | cons c s ih =>
    have himage : byteCount (m.image c) = c.utf8Size := by
      unfold MaskState.image
      split
      · rfl
      · exact byteCount_blanksFor c
    rw [maskFrom_cons, byteCount_append, himage, ih, byteCount_cons]

/-! ## Outside of literals -/

/-- Every literal that opens in the text closes in it. -/
def ClosesLiterals (u : List Char) : Prop :=
  u.foldl MaskState.step .outside = .outside

theorem closesLiterals_nil : ClosesLiterals [] :=
  rfl

/-- Texts that close their literals do so one behind the other. -/
theorem ClosesLiterals.append (hu : ClosesLiterals u) (hv : ClosesLiterals v) :
    ClosesLiterals (u ++ v) := by
  rw [ClosesLiterals, List.foldl_append, hu]
  exact hv

/-- A text without quotes opens no literal. -/
theorem ClosesLiterals.of_plain (hu : ∀ c ∈ u, Token.isQuote c = false) : ClosesLiterals u := by
  induction u with
  | nil => exact closesLiterals_nil
  | cons c u ih =>
    obtain ⟨hc, hu⟩ := List.forall_mem_cons.mp hu
    rw [ClosesLiterals, List.foldl_cons, MaskState.step_outside hc]
    exact ih hu

/-- Plain text closes no literal. -/
theorem ClosesLiterals.of_append (h : ClosesLiterals (u ++ v))
    (hv : ∀ c ∈ v, Token.isQuote c = false) : ClosesLiterals u := by
  have hquote := MaskState.isQuote_foldl (m := .outside) nofun u
  rw [ClosesLiterals, List.foldl_append] at h
  rw [ClosesLiterals]
  generalize u.foldl MaskState.step .outside = m at h hquote
  induction v generalizing m with
  | nil => exact h
  | cons c v ih =>
    obtain ⟨hc, hv⟩ := List.forall_mem_cons.mp hv
    have hstep := ih hv _ h (MaskState.isQuote_step hquote)
    refine Decidable.byContradiction fun hne => ?_
    have := hquote c (MaskState.eq_of_step_outside hne hstep)
    rw [hc] at this
    cases this

/-- Behind a text that closes its literals, masking starts anew. -/
theorem ClosesLiterals.mask_append (ha : ClosesLiterals a) : mask (a ++ r) = mask a ++ mask r := by
  rw [mask, maskFrom_append, ha]
  rfl

/-- A text without quotes is not changed by masking. -/
theorem mask_of_plain (hw : ∀ c ∈ w, Token.isQuote c = false) : mask w = w := by
  induction w with
  | nil => rfl
  | cons c w ih =>
    obtain ⟨hc, hw⟩ := List.forall_mem_cons.mp hw
    rw [mask, maskFrom_cons, MaskState.image, if_pos (Or.inl rfl), MaskState.step_outside hc]
    exact congrArg (c :: ·) (ih hw)

/-- Masking does not change whether a text begins with a quote. -/
theorem head?_mask (r : List Char) : (mask r).head? = r.head? := by
  cases r with
  | nil => rfl
  | cons c r =>
    rw [mask, maskFrom_cons, MaskState.image, if_pos (Or.inl rfl)]
    rfl

/-- The ending `r` of the text starts outside of its literals. -/
def StartsOutside (s r : List Char) : Prop :=
  ∃ u, s = u ++ r ∧ ClosesLiterals u

/-- What starts outside of literals does so behind whatever does. -/
theorem StartsOutside.trans {t : List Char} (h : StartsOutside s t) (h' : StartsOutside t r) :
    StartsOutside s r := by
  obtain ⟨u, rfl, hu⟩ := h
  obtain ⟨v, rfl, hv⟩ := h'
  exact ⟨u ++ v, (List.append_assoc u v r).symm, hu.append hv⟩

theorem startsOutside_of_plain (hv : ∀ c ∈ v, Token.isQuote c = false) :
    StartsOutside (v ++ r) r :=
  ⟨v, rfl, .of_plain hv⟩

/-- What starts outside of literals behind plain text starts there in front of it. -/
theorem StartsOutside.of_append (h : StartsOutside s r) (hr : v ++ r <:+ s)
    (hv : ∀ c ∈ v, Token.isQuote c = false) : StartsOutside s (v ++ r) := by
  obtain ⟨u, rfl, hu⟩ := h
  obtain ⟨t, ht⟩ := hr
  rw [← List.append_assoc] at ht
  obtain rfl := List.append_cancel_right ht
  exact ⟨t, List.append_assoc t v r, hu.of_append hv⟩

/-- In front of a place outside of literals the text shows its last character. -/
theorem ClosesLiterals.getLast?_mask (ha : ClosesLiterals a) : (mask a).getLast? = a.getLast? := by
  rcases List.eq_nil_or_concat a with rfl | ⟨u, c, rfl⟩
  · rfl
  · rw [List.concat_eq_append] at ha ⊢
    rw [ClosesLiterals, List.foldl_append] at ha
    have himage : MaskState.image (u.foldl MaskState.step .outside) c = [c] := if_pos (Or.inr ha)
    rw [mask, maskFrom_append, maskFrom_cons, himage, maskFrom, List.append_nil,
      List.getLast?_concat, List.getLast?_concat]

/-- A character that the masked text shows, neither a blank nor a quote, stands outside of literals
at its place in the text. -/
theorem exists_of_maskFrom (hm : ∀ q ∈ m.quote?, Token.isQuote q = true)
    (h : maskFrom m s = a ++ c :: b) (hblank : c ≠ ' ') (hquote : Token.isQuote c = false) :
    ∃ u v, s = u ++ c :: v ∧ maskFrom m u = a ∧ u.foldl MaskState.step m = .outside := by
  induction s generalizing m a with
  | nil =>
    rw [maskFrom] at h
    exact absurd h.symm (List.append_ne_nil_of_right_ne_nil a (List.cons_ne_nil c b))
  | cons d s ih =>
    -- the character belongs to what the first one is masked to, or to what follows
    have hbehind : ∀ t, a = m.image d ++ t → maskFrom (m.step d) s = t ++ c :: b →
        ∃ u v, d :: s = u ++ c :: v ∧ maskFrom m u = a ∧ u.foldl MaskState.step m = .outside := by
      rintro t rfl ht
      obtain ⟨u, v, rfl, rfl, hu⟩ := ih (MaskState.isQuote_step hm) ht
      exact ⟨d :: u, v, rfl, maskFrom_cons, hu⟩
    rw [maskFrom_cons] at h
    rcases List.append_eq_append_iff.mp h with ⟨t, hta, ht⟩ | ⟨t, himage, ht⟩
    · exact hbehind t hta ht
    · cases t with
      | nil =>
        rw [List.append_nil] at himage
        exact hbehind [] (by rw [himage, List.append_nil]) ht.symm
      | cons e t =>
        obtain rfl : c = e := (List.cons.inj ht).1
        have hmem : c ∈ m.image d := by
          rw [himage]
          exact List.mem_append_right a List.mem_cons_self
        by_cases hd : m = .outside ∨ m.step d = .outside
        · rw [MaskState.image, if_pos hd] at himage hmem
          obtain rfl := List.mem_singleton.mp hmem
          obtain rfl : a = [] := by
            cases a with
            | nil => rfl
            | cons x a =>
              have := (List.append_eq_nil_iff.mp (List.cons.inj himage).2.symm).2
              cases this
          -- a literal would end with this character
          have houtside : m = .outside := by
            refine Decidable.byContradiction fun hne => ?_
            have := hm c (MaskState.eq_of_step_outside hne (hd.resolve_left hne))
            rw [hquote] at this
            cases this
          exact ⟨[], s, rfl, by rw [maskFrom], houtside⟩
        · rw [MaskState.image, if_neg hd] at hmem
          exact absurd (List.mem_replicate.mp hmem).2 hblank

/-- Plain text in front of the masked text is in front of the text. -/
theorem exists_of_mask_eq_append (h : mask s = w ++ b) (hw : ∀ c ∈ w, Token.isQuote c = false) :
    ∃ r, s = w ++ r ∧ mask r = b := by
  induction w generalizing s with
  | nil => exact ⟨s, rfl, h⟩
  | cons c w ih =>
    obtain ⟨hc, hrun⟩ := List.forall_mem_cons.mp hw
    cases s with
    | nil => cases h
    | cons d s =>
      rw [mask, maskFrom_cons, MaskState.image, if_pos (Or.inl rfl)] at h
      obtain ⟨rfl, hrest⟩ := List.cons.inj h
      have hmask : mask s = w ++ b := by
        rw [MaskState.step_outside hc] at hrest
        exact hrest
      obtain ⟨r, rfl, hr⟩ := ih hmask hrun
      exact ⟨r, rfl, hr⟩

/-- **What stands in the masked text stands in the text, outside of its literals.** The text that is
found starts with no blank and holds no quotes. -/
theorem mask_eq_append (hblank : ∀ c ∈ w.head?, c ≠ ' ') (hne : w ≠ [])
    (hw : ∀ c ∈ w, Token.isQuote c = false) :
    mask s = a ++ (w ++ b) ↔
      ∃ u r, s = u ++ (w ++ r) ∧ ClosesLiterals u ∧ mask u = a ∧ mask r = b := by
  constructor
  · intro h
    obtain ⟨c, w, rfl⟩ := List.exists_cons_of_ne_nil hne
    obtain ⟨u, v, rfl, hmask, hu⟩ := exists_of_maskFrom (fun q hq => by cases hq) h
      (hblank c rfl) (hw c List.mem_cons_self)
    have hclosed : ClosesLiterals u := hu
    have hua : mask u = a := hmask
    rw [hclosed.mask_append, hua] at h
    obtain ⟨r, hr, hb⟩ := exists_of_mask_eq_append (List.append_cancel_left h) hw
    exact ⟨u, r, by rw [hr], hclosed, hua, hb⟩
  · rintro ⟨u, r, rfl, hu, rfl, rfl⟩
    rw [hu.mask_append, (ClosesLiterals.of_plain hw).mask_append, mask_of_plain hw]

/-! ## Whole pieces -/

namespace Token

/-- Behind a literal one is outside of literals. -/
theorem foldl_literalRest {x : Read s (List Char)} (hq : q ≠ '\\')
    (h : literalRest q s = some x) : x.value.foldl MaskState.step (.inside q) = .outside := by
  fun_induction literalRest q s with
  | case1 => cases h
  | case2 => cases h
  | case3 c r ih =>
    obtain ⟨y, hy, rfl⟩ := Option.map_eq_some_iff.mp h
    exact ih hy
  | case4 r h1 h2 =>
    cases h
    show MaskState.step (.inside q) q = .outside
    rw [MaskState.step, if_neg hq, if_pos rfl]
  | case5 c r h1 h2 hc ih =>
    obtain ⟨y, hy, rfl⟩ := Option.map_eq_some_iff.mp h
    have hstep : MaskState.step (.inside q) c = .inside q := by
      rw [MaskState.step, if_neg (ne_backslash_of_not h1 h2), if_neg hc]
    show y.value.foldl MaskState.step (MaskState.step (.inside q) c) = .outside
    rw [hstep]
    exact ih hy

/-- A literal is closed. -/
theorem closesLiterals_literal {x : Read s (List Char)} (hc : isQuote c = true)
    (h : literalRest c s = some x) : ClosesLiterals (c :: x.value) := by
  rw [ClosesLiterals, List.foldl_cons, MaskState.step_quote hc]
  exact foldl_literalRest (ne_backslash_of_isQuote hc) h

theorem closesLiterals_singleton (hc : isQuote c = false) : ClosesLiterals [c] :=
  .of_plain (List.forall_mem_singleton.mpr hc)

/-- A group closes the literals in it. -/
theorem closesLiterals_groupRest {d : Nat} (h : (groupRest d s).Gives v r) : ClosesLiterals v := by
  fun_induction groupRest d s generalizing v r with
  | case1 => exact absurd h Outcome.not_gives_fail
  | case2 => exact absurd h Outcome.not_gives_fail
  | case3 d c t hc x hx hlen ih =>
    obtain ⟨w, hw, rfl⟩ := Outcome.gives_map.mp (Outcome.gives_widen.mp h)
    exact (closesLiterals_literal hc hx).append (ih hw)
  | case4 d t hq ih =>
    obtain ⟨w, hw, rfl⟩ := Outcome.gives_map.mp (Outcome.gives_widen.mp h)
    exact (closesLiterals_singleton (by decide)).append (ih hw)
  | case5 t hq hp =>
    obtain ⟨rfl, -⟩ := Outcome.gives_done.mp h
    exact closesLiterals_singleton (by decide)
  | case6 t hq hp d ih =>
    obtain ⟨w, hw, rfl⟩ := Outcome.gives_map.mp (Outcome.gives_widen.mp h)
    exact (closesLiterals_singleton (by decide)).append (ih hw)
  | case7 d c t hq hp hc ih =>
    obtain ⟨w, hw, rfl⟩ := Outcome.gives_map.mp (Outcome.gives_widen.mp h)
    exact (closesLiterals_singleton (Bool.eq_false_iff.mpr hq)).append (ih hw)

/-- A piece closes the literals in it. -/
theorem closesLiterals_piece {x : Read s (List Char)} (h : piece c s = .ok x) :
    ClosesLiterals x.value := by
  rcases piece_cases h with ⟨hq, y, hy, hx, -⟩ | ⟨rfl, v, hv, hx⟩ | ⟨hc, hx, -⟩
  · rw [hx]
    exact closesLiterals_literal hq hy
  · rw [hx]
    exact (closesLiterals_singleton (by decide)).append (closesLiterals_groupRest hv)
  · rw [hx]
    exact closesLiterals_singleton (not_isQuote_of_isPassed hc).1

/-- **Behind whole pieces one is outside of literals.** -/
theorem Spans.startsOutside (h : Spans s r) : StartsOutside s r := by
  induction h with
  | refl s => exact ⟨[], rfl, closesLiterals_nil⟩
  | @more c s r x _ hx _ ih =>
    obtain ⟨u, hu, hclosed⟩ := ih
    refine ⟨x.value ++ u, ?_, (closesLiterals_piece hx).append hclosed⟩
    rw [List.append_assoc, ← hu, append_piece hx]

end Token

end DataPhrase
