/-
# Pieces of a text

Literals, groups and words hold the characters that they take off the text, in order. So what they
are followed by lies as many bytes further on as they have themselves.
-/
import DataPhrase.Proofs.Reading.Outcome
import DataPhrase.Token.Basic

namespace DataPhrase.Token

open Text

variable {q c : Char} {s r v : List Char} {depth : Nat}

/-! ## What is taken off -/

/-- Where neither pattern with a backslash fits, no backslash is in front. -/
theorem ne_backslash_of_not (h1 : c = '\\' → s = [] → False)
    (h2 : ∀ d r, c = '\\' → s = d :: r → False) : c ≠ '\\' := by
  rintro rfl
  cases s with
  | nil => exact h1 rfl rfl
  | cons d r => exact h2 d r rfl rfl

/-- A literal and what follows it are the text. -/
theorem append_literalRest {x : Read s (List Char)} (h : literalRest q s = some x) :
    x.value ++ x.rest = s := by
  fun_induction literalRest q s with
  | case1 => cases h
  | case2 => cases h
  | case3 c r ih =>
    obtain ⟨y, hy, rfl⟩ := Option.map_eq_some_iff.mp h
    show '\\' :: c :: (y.value ++ y.rest) = '\\' :: c :: r
    rw [ih hy]
  | case4 r h1 h2 =>
    cases h
    rfl
  | case5 c r h1 h2 hc ih =>
    obtain ⟨y, hy, rfl⟩ := Option.map_eq_some_iff.mp h
    show c :: (y.value ++ y.rest) = c :: r
    rw [ih hy]

/-- A group and what follows it are the text. -/
theorem append_groupRest (h : (groupRest depth s).Gives v r) : v ++ r = s := by
  fun_induction groupRest depth s generalizing v r with
  | case1 => exact absurd h Outcome.not_gives_fail
  | case2 => exact absurd h Outcome.not_gives_fail
  | case3 depth c t hc x hx hlen ih =>
    obtain ⟨w, hw, rfl⟩ := Outcome.gives_map.mp (Outcome.gives_widen.mp h)
    have hr := ih hw
    have ht := append_literalRest hx
    show c :: x.value ++ w ++ r = c :: t
    rw [List.append_assoc, hr, List.cons_append, ht]
  | case4 depth t hq ih =>
    obtain ⟨w, hw, rfl⟩ := Outcome.gives_map.mp (Outcome.gives_widen.mp h)
    exact congrArg ('(' :: ·) (ih hw)
  | case5 t hq hp =>
    obtain ⟨rfl, rfl⟩ := Outcome.gives_done.mp h
    rfl
  | case6 t hq hp depth ih =>
    obtain ⟨w, hw, rfl⟩ := Outcome.gives_map.mp (Outcome.gives_widen.mp h)
    exact congrArg (')' :: ·) (ih hw)
  | case7 depth c t hq hp hc ih =>
    obtain ⟨w, hw, rfl⟩ := Outcome.gives_map.mp (Outcome.gives_widen.mp h)
    exact congrArg (c :: ·) (ih hw)

/-- A piece and what follows it are the text. -/
theorem append_piece {x : Read s (List Char)} (h : piece c s = .ok x) :
    x.value ++ x.rest = c :: s := by
  unfold piece at h
  split at h
  · split at h
    · cases h
    · next y hy =>
      cases h
      exact congrArg (c :: ·) (append_literalRest hy)
  · split at h
    · split at h
      · next y hy =>
        cases h
        have hg : (groupRest 0 s).Gives y.value y.rest := ⟨y.suffix, hy⟩
        exact congrArg (c :: ·) (append_groupRest hg)
      · split at h <;> cases h
    · split at h
      · cases h
      · cases h
        rfl

/-- A piece is not empty. -/
theorem value_ne_nil_of_piece {x : Read s (List Char)} (h : piece c s = .ok x) : x.value ≠ [] := by
  intro hv
  have happ := congrArg List.length (append_piece h)
  have hlen := x.suffix.length_le
  rw [hv, List.nil_append, List.length_cons] at happ
  omega

/-- The rest of a word and what follows it are the text. -/
theorem append_wordRest (h : (wordRest s).Gives v r) : v ++ r = s := by
  fun_induction wordRest s generalizing v r with
  | case1 s hs =>
    obtain ⟨rfl, rfl⟩ := Outcome.gives_done.mp h
    rfl
  | case2 =>
    obtain ⟨rfl, rfl⟩ := Outcome.gives_done.mp h
    rfl
  | case3 => exact absurd h Outcome.not_gives_error
  | case4 c t x hx hlen hb ih =>
    obtain ⟨w, hw, rfl⟩ := Outcome.gives_map.mp (Outcome.gives_widen.mp h)
    rw [List.append_assoc, ih hw, append_piece hx]

/-- A word is its first piece and what is taken off behind it up to the next break. -/
theorem exists_of_word {x : Read s (TokenKind × List Char)} (h : word c s = .ok x) :
    ∃ (y : Read s (List Char)) (v : List Char), piece c s = .ok y ∧
      (wordRest y.rest).Gives v x.rest ∧
      x.value = (if isQuote c && v.isEmpty then .text else .word, y.value ++ v) := by
  unfold word at h
  split at h
  · cases h
  · next y hy =>
    split at h
    · cases h
    · next z hz =>
      cases h
      exact ⟨y, z.value, hy, ⟨z.suffix, hz⟩, rfl⟩

/-- A word and what follows it are the text. -/
theorem append_word {x : Read s (TokenKind × List Char)} (h : word c s = .ok x) :
    x.value.2 ++ x.rest = c :: s := by
  obtain ⟨y, v, hy, hv, hx⟩ := exists_of_word h
  rw [hx, List.append_assoc, append_wordRest hv, append_piece hy]

/-- Where the text does not break, a word is what is taken off up to the next break. -/
theorem gives_wordRest_of_word {x : Read s (TokenKind × List Char)} (h : word c s = .ok x)
    (hb : atBreak (c :: s) = false) : (wordRest (c :: s)).Gives x.value.2 x.rest := by
  obtain ⟨y, v, hy, hv, hx⟩ := exists_of_word h
  rw [wordRest.eq_def, hb, if_neg Bool.false_ne_true, hx]
  simp only [hy]
  exact Outcome.gives_widen.mpr (Outcome.gives_map.mpr ⟨v, hv, rfl⟩)

/-- An ending has no more bytes than the text. -/
theorem byteCount_le_of_suffix (h : r <:+ s) : byteCount r ≤ byteCount s := by
  obtain ⟨t, rfl⟩ := h
  rw [byteCount_append]
  exact Nat.le_add_left _ _

theorem byteCount_append_sub (u t : List Char) :
    byteCount (u ++ t) - byteCount t = byteCount u := by
  rw [byteCount_append, Nat.add_sub_cancel]

theorem byteCount_pos (h : v ≠ []) : 0 < byteCount v := by
  obtain ⟨c, w, rfl⟩ := List.exists_cons_of_ne_nil h
  rw [byteCount_cons]
  exact Nat.add_pos_left c.utf8Size_pos _

/-- Two texts that one text starts with are the same if they have as many bytes. -/
theorem eq_of_byteCount_eq {a b : List Char} (h : a ++ s = b ++ r)
    (hn : byteCount a = byteCount b) : a = b := by
  have hnil {d : List Char} (hd : byteCount d = 0) : d = [] :=
    Decidable.byContradiction fun hne => Nat.ne_of_gt (byteCount_pos hne) hd
  rcases List.append_eq_append_iff.mp h with ⟨d, rfl, -⟩ | ⟨d, rfl, -⟩
  · rw [byteCount_append] at hn
    rw [hnil (d := d) (by omega), List.append_nil]
  · rw [byteCount_append] at hn
    rw [hnil (d := d) (by omega), List.append_nil]

/-! ## Breaks -/

/-- An arrow is in front. -/
def startsArrow : List Char → Bool
  | '-' :: '>' :: _ => true
  | _ => false

/-- An arrow is a minus sign and a greater sign. -/
theorem startsArrow_eq_true : startsArrow s = true ↔ ∃ r, s = '-' :: '>' :: r := by
  unfold startsArrow
  split
  · next r => exact iff_of_true rfl ⟨r, rfl⟩
  · next h =>
    refine iff_of_false Bool.false_ne_true ?_
    rintro ⟨r, rfl⟩
    exact h r rfl

theorem startsArrow_eq_false (h : ∀ r, c = '-' → s = '>' :: r → False) :
    startsArrow (c :: s) = false := by
  rw [← Bool.not_eq_true, startsArrow_eq_true]
  rintro ⟨r, hr⟩
  cases hr
  exact h r rfl rfl

theorem startsArrow_of_ne (h : c ≠ '-') : startsArrow (c :: s) = false := by
  rw [← Bool.not_eq_true, startsArrow_eq_true]
  rintro ⟨r, hr⟩
  cases hr
  exact h rfl

/-- Words break at arrows and at gaps. -/
theorem atBreak_cons : atBreak (c :: s) = (startsArrow (c :: s) || isGap c) := by
  unfold atBreak startsArrow
  split
  · next h => cases h
  · next h =>
    cases h
    rfl
  · next h1 h2 =>
    cases h2
    split
    · next r h =>
      cases h
      exact absurd rfl (h1 r rfl)
    · rfl

theorem atBreak_eq_false (hg : isGap c = false) (ha : startsArrow (c :: s) = false) :
    atBreak (c :: s) = false := by
  rw [atBreak_cons, ha, hg]
  rfl

/-! ## Scanning -/

theorem scan_nil (n : Nat) : scan n [] = .ok [] := by
  rw [scan]

/-- The scan takes an arrow as one token. -/
theorem scan_arrow (n : Nat) (s : List Char) :
    scan n ('-' :: '>' :: s) = (scan (n + 2) s).map (⟨.arrow, ['-', '>'], n⟩ :: ·) := by
  rw [scan]

/-- The scan passes gaps. -/
theorem scan_of_isGap (n : Nat) (h : isGap c = true) : scan n (c :: s) = scan (n + 1) s := by
  rw [scan]
  · rw [if_pos h]
  · rintro r rfl
    exact absurd h (by decide)

/-- The scan takes a word as one token, or stops inside of it. -/
theorem scan_word (n : Nat) (hg : isGap c = false) (ha : startsArrow (c :: s) = false) :
    scan n (c :: s) =
      match word c s with
      | .error e => .error ⟨e.cause, n + (byteCount (c :: s) - byteCount e.rest)⟩
      | .ok x => (scan (n + byteCount x.value.2) x.rest).map (⟨x.value.1, x.value.2, n⟩ :: ·) := by
  rw [scan]
  · exact if_neg (by rw [hg]; exact Bool.false_ne_true)
  · intro r hc hr
    subst hc hr
    cases ha

/-- Induction along a scan: the end, an arrow, a gap, and a word that is taken off or is not. -/
theorem scan_induction {P : Nat → List Char → Except SyntaxError (List Token) → Prop}
    (nil : ∀ n, P n [] (.ok []))
    (arrow : ∀ n s x, P (n + 2) s x →
      P n ('-' :: '>' :: s) (x.map (⟨.arrow, ['-', '>'], n⟩ :: ·)))
    (gap : ∀ n c s x, isGap c = true → P (n + 1) s x → P n (c :: s) x)
    (fault : ∀ n c s e, word c s = .error e →
      P n (c :: s) (.error ⟨e.cause, n + (byteCount (c :: s) - byteCount e.rest)⟩))
    (word : ∀ n c s y x, isGap c = false → startsArrow (c :: s) = false → word c s = .ok y →
      P (n + byteCount y.value.2) y.rest x →
      P n (c :: s) (x.map (⟨y.value.1, y.value.2, n⟩ :: ·)))
    (n : Nat) (s : List Char) : P n s (scan n s) := by
  fun_induction scan n s with
  | case1 n => exact nil n
  | case2 n s ih => exact arrow n s _ ih
  | case3 n c s ha hg ih => exact gap n c s _ hg ih
  | case4 n c s ha hg e he => exact fault n c s e he
  | case5 n c s ha hg y hy hlen ih =>
    exact word n c s y _ (Bool.eq_false_iff.mpr hg) (startsArrow_eq_false ha) hy ih

end DataPhrase.Token
