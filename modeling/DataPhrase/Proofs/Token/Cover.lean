/-
# What the tokens cover

The tokens of a text are slices of it, one behind the other, with nothing but gaps in between. What
each of them is can be read off the text: an arrow is a `->` outside of parentheses and literals, a
literal is a token of its own only if the token is nothing else, and every other token goes on where
it is inside of parentheses or a literal (`covers_tokenize`).
-/
import DataPhrase.Proofs.Settled
import DataPhrase.Proofs.Token.Balance

namespace DataPhrase

open Text Token Nesting

namespace Token

variable {c : Char} {k : TokenKind} {n : Nat} {s r a u v w : List Char} {t : Token}
  {ts : List Token}

/-! ## One token -/

/-- Where the text `w` is outside of parentheses and literals, it does not break in front of `r`. -/
def IsUnbroken (w r : List Char) : Prop :=
  ∀ u v, w = u ++ v → v ≠ [] → level.run u = some level → atBreak (v ++ r) = false

/-- What is taken off in front of `r` is a token. -/
structure IsToken (t : Token) (r : List Char) : Prop where
  ne_nil : t.text ≠ []
  run_eq : level.run t.text = some level
  arrow_iff : t.kind = .arrow ↔ startsArrow (t.text ++ r) = true
  arrow_text : t.kind = .arrow → t.text = ['-', '>']
  unbroken : t.kind ≠ .arrow → IsUnbroken t.text r
  text_iff : t.kind = .text ↔ IsLiteral t.text

/-- An arrow is a token, whatever stands behind it. -/
theorem isToken_arrow (n : Nat) (r : List Char) : IsToken ⟨.arrow, ['-', '>'], n⟩ r where
  ne_nil := List.cons_ne_nil _ _
  run_eq := rfl
  arrow_iff := iff_of_true rfl rfl
  arrow_text _ := rfl
  unbroken h := absurd rfl h
  text_iff := by
    refine iff_of_false TokenKind.noConfusion ?_
    rintro ⟨q, v, hq, -, h⟩
    obtain ⟨rfl, -⟩ := List.cons.inj h
    cases hq

/-- A piece in front of a text that does not break goes on with it. -/
theorem IsPiece.isUnbroken_append (h : IsPiece v) (hb : atBreak (v ++ (w ++ r)) = false)
    (hw : IsUnbroken w r) : IsUnbroken (v ++ w) r := by
  intro u x hux hx hu
  rcases List.append_eq_append_iff.mp hux with ⟨y, rfl, hy⟩ | ⟨y, hy, rfl⟩
  · -- The place is behind the piece, so the rest of the word has it too.
    refine hw y x hy hx ?_
    rwa [run_append, h.run_eq, Option.bind_some] at hu
  · -- The place is in the piece, which is at the level outside only at its two ends.
    by_cases hyne : y = []
    · subst hyne
      exact hw [] w rfl hx rfl
    · by_cases hune : u = []
      · subst hune
        rw [List.append_assoc, ← show v = y from hy]
        exact hb
      · rw [hy] at h
        exact absurd hu (h.run_ne hune hyne)

theorem isUnbroken_nil (r : List Char) : IsUnbroken [] r :=
  fun _ _ h hv => absurd (List.append_eq_nil_iff.mp h.symm).2 hv

/-- The rest of a word has no break in it. -/
theorem isUnbroken_of_wordRest (h : (wordRest s).Gives w r) : IsUnbroken w r := by
  fun_induction wordRest s generalizing w r with
  | case1 =>
    obtain ⟨rfl, -⟩ := Outcome.gives_done.mp h
    exact isUnbroken_nil r
  | case2 =>
    obtain ⟨rfl, -⟩ := Outcome.gives_done.mp h
    exact isUnbroken_nil r
  | case3 => exact absurd h Outcome.not_gives_error
  | case4 c t x hx hlen hb ih =>
    obtain ⟨w, hw, rfl⟩ := Outcome.gives_map.mp (Outcome.gives_widen.mp h)
    refine (isPiece_of_piece hx).isUnbroken_append ?_ (ih hw)
    rw [append_wordRest hw, append_piece hx]
    exact Bool.not_eq_true _ ▸ hb

/-- A word is one literal and nothing else, or it is no literal. -/
theorem text_iff_of_word {x : Read s (TokenKind × List Char)} (h : word c s = .ok x) :
    x.value.1 = .text ↔ IsLiteral x.value.2 := by
  have happend := append_word h
  obtain ⟨y, u, hy, -, hx⟩ := exists_of_word h
  rw [hx] at happend ⊢
  constructor
  · intro hk
    have hkind : (isQuote c && u.isEmpty) = true := by
      by_contra hnot
      rw [if_neg hnot] at hk
      cases hk
    rw [Bool.and_eq_true, List.isEmpty_iff] at hkind
    obtain ⟨hq, rfl⟩ := hkind
    rcases piece_cases hy with ⟨-, z, hz, hvalue, -⟩ | ⟨rfl, -⟩ | ⟨hc, -⟩
    · rw [hvalue, List.append_nil]
      exact isLiteral_of_literalRest hq hz
    · cases hq
    · rw [(not_isQuote_of_isPassed hc).1] at hq
      cases hq
  · rintro ⟨q, v, hq, hv, hw⟩
    -- The literal that is taken off first is all of the word.
    rw [hw, List.cons_append, List.append_assoc, List.singleton_append] at happend
    obtain ⟨rfl, hs⟩ := List.cons.inj happend
    obtain ⟨z, hz, hvalue, -⟩ :=
      literalRest_of_isQuoted (ne_backslash_of_isQuote hq) hv hs.symm
    rw [piece, if_pos hq, hz] at hy
    cases hy
    rw [List.cons_append, hvalue] at hw
    have hnil : u = [] := List.append_right_eq_self.mp (List.cons.inj hw).2
    rw [hq, hnil]
    rfl

theorem kind_of_word {x : Read s (TokenKind × List Char)} (h : word c s = .ok x) :
    x.value.1 ≠ .arrow := by
  obtain ⟨y, u, -, -, hx⟩ := exists_of_word h
  rw [hx]
  show (if _ then TokenKind.text else .word) ≠ .arrow
  split <;> exact TokenKind.noConfusion

/-- A word is a token where it is scanned. -/
theorem isToken_of_word {x : Read s (TokenKind × List Char)} (h : word c s = .ok x) (n : Nat)
    (hg : isGap c = false) (ha : startsArrow (c :: s) = false) :
    IsToken ⟨x.value.1, x.value.2, n⟩ x.rest where
  ne_nil := by
    obtain ⟨y, v, hy, -, hx⟩ := exists_of_word h
    rw [hx]
    exact List.append_ne_nil_of_left_ne_nil (value_ne_nil_of_piece hy) v
  run_eq := run_of_wordRest (gives_wordRest_of_word h (atBreak_eq_false hg ha))
  arrow_iff := by
    refine iff_of_false (kind_of_word h) ?_
    rw [append_word h, ha]
    exact Bool.false_ne_true
  arrow_text hk := absurd hk (kind_of_word h)
  unbroken _ := isUnbroken_of_wordRest (gives_wordRest_of_word h (atBreak_eq_false hg ha))
  text_iff := text_iff_of_word h

/-! ## All tokens -/

/-- From byte `n` on the text is gaps and these tokens. -/
inductive Splits : Nat → List Char → List Token → Prop where
  | nil (n : Nat) : Splits n [] []
  | gap {n : Nat} {c : Char} {s : List Char} {ts : List Token} (hc : isGap c = true)
      (h : Splits (n + 1) s ts) : Splits n (c :: s) ts
  | token {t : Token} {s : List Char} {ts : List Token} (ht : IsToken t s)
      (h : Splits (t.offset + byteCount t.text) s ts) : Splits t.offset (t.text ++ s) (t :: ts)

/-- The tokens that were scanned split the text. -/
theorem splits_of_scan (h : scan n s = .ok ts) : Splits n s ts := by
  revert ts
  apply scan_induction (P := fun n s x => ∀ {ts}, x = .ok ts → Splits n s ts)
  case nil =>
    rintro n ts h
    cases h
    exact .nil n
  case arrow =>
    intro n s x ih ts h
    obtain ⟨us, hus, rfl⟩ := map_eq_ok.mp h
    exact .token (isToken_arrow n s) (ih hus)
  case gap => exact fun n c s x hg ih ts h => .gap hg (ih h)
  case fault => exact fun n c s e _ ts h => nomatch h
  case word =>
    intro n c s y x hg ha hy ih ts h
    obtain ⟨us, hus, rfl⟩ := map_eq_ok.mp h
    rw [← append_word hy]
    exact .token (isToken_of_word hy n hg ha) (ih hus)

/-- Where a token stands, and what it is there. -/
structure Stands (n : Nat) (s : List Char) (t : Token) (a r : List Char) : Prop where
  text : s = a ++ (t.text ++ r)
  offset : t.offset = n + byteCount a
  run_eq : level.run a = some level
  isToken : IsToken t r

/-- Every token stands somewhere in the text. -/
theorem Splits.exists_stands (h : Splits n s ts) (ht : t ∈ ts) : ∃ a r, Stands n s t a r := by
  induction h with
  | nil => cases ht
  | @gap n c s ts hc _ ih =>
    obtain ⟨a, r, hs⟩ := ih ht
    refine ⟨c :: a, r, congrArg (c :: ·) hs.text, ?_, ?_, hs.isToken⟩
    · rw [hs.offset, byteCount_cons, utf8Size_of_isGap hc, Nat.add_assoc]
    · rw [run_of_isPassed (isPassed_of_isGap hc)]
      exact hs.run_eq
  | @token x s ts hx _ ih =>
    rcases List.mem_cons.mp ht with rfl | ht
    · exact ⟨[], s, rfl, rfl, rfl, hx⟩
    · obtain ⟨a, r, hs⟩ := ih ht
      refine ⟨x.text ++ a, r, ?_, ?_, ?_, hs.isToken⟩
      · rw [List.append_assoc, ← hs.text]
      · rw [hs.offset, byteCount_append, Nat.add_assoc]
      · rw [run_append, hx.run_eq]
        exact hs.run_eq

/-- No token starts in front of where scanning did. -/
theorem Splits.le_offset (h : Splits n s ts) (ht : t ∈ ts) : n ≤ t.offset := by
  obtain ⟨a, r, hs⟩ := h.exists_stands ht
  rw [hs.offset]
  exact Nat.le_add_right _ _

/-- Tokens stand one behind the other and do not overlap. -/
theorem Splits.pairwise (h : Splits n s ts) :
    ts.Pairwise fun t u => t.offset + byteCount t.text ≤ u.offset := by
  induction h with
  | nil => exact .nil
  | gap _ _ ih => exact ih
  | token _ h ih => exact .cons (fun u hu => h.le_offset hu) ih

/-- A character of two texts in a row is in the first or in the second. -/
theorem split_cons (h : u ++ s = a ++ c :: r) :
    (∃ b, a = u ++ b ∧ s = b ++ c :: r) ∨ ∃ b, u = a ++ c :: b ∧ r = b ++ s := by
  rcases List.append_eq_append_iff.mp h with ⟨b, hb, hs⟩ | ⟨b, hb, hs⟩
  · exact .inl ⟨b, hb, hs⟩
  · cases b with
    | nil => exact .inl ⟨[], by rw [hb, List.append_nil, List.append_nil], hs.symm⟩
    | cons d b =>
      obtain ⟨rfl, hr⟩ := List.cons.inj hs
      exact .inr ⟨b, hb, hr⟩

/-- What is no gap stands in a token. -/
theorem Splits.exists_of_not_isGap (h : Splits n s ts) (hs : s = a ++ c :: r)
    (hc : isGap c = false) :
    ∃ t ∈ ts, t.offset ≤ n + byteCount a ∧ n + byteCount a < t.offset + byteCount t.text := by
  induction h generalizing a with
  | nil => cases a <;> cases hs
  | @gap n g s ts hg _ ih =>
    cases a with
    | nil =>
      cases hs
      rw [hg] at hc
      cases hc
    | cons d a =>
      cases hs
      obtain ⟨t, ht, hle, hlt⟩ := ih rfl
      rw [byteCount_cons, utf8Size_of_isGap hg, ← Nat.add_assoc]
      exact ⟨t, ht, hle, hlt⟩
  | @token x s ts _ _ ih =>
    rcases split_cons hs with ⟨b, rfl, hb⟩ | ⟨b, hb, -⟩
    · obtain ⟨t, ht, hle, hlt⟩ := ih hb
      rw [byteCount_append, ← Nat.add_assoc]
      exact ⟨t, List.mem_cons_of_mem x ht, hle, hlt⟩
    · refine ⟨x, List.mem_cons_self, Nat.le_add_right _ _, ?_⟩
      have hpos := c.utf8Size_pos
      rw [hb, byteCount_append, byteCount_cons]
      omega

/-- Where an arrow is outside of parentheses and literals, there is the token of it. -/
theorem Splits.exists_arrow (h : Splits n s ts) (hs : s = a ++ '-' :: '>' :: r)
    (ha : level.run a = some level) : ⟨.arrow, ['-', '>'], n + byteCount a⟩ ∈ ts := by
  induction h generalizing a with
  | nil => cases a <;> cases hs
  | @gap n g s ts hg _ ih =>
    cases a with
    | nil =>
      cases hs
      cases hg
    | cons d a =>
      cases hs
      rw [run_of_isPassed (isPassed_of_isGap hg)] at ha
      rw [byteCount_cons, utf8Size_of_isGap hg, ← Nat.add_assoc]
      exact ih rfl ha
  | @token x s ts hx _ ih =>
    rcases split_cons hs with ⟨b, rfl, hb⟩ | ⟨b, hb, hr⟩
    · rw [run_append, hx.run_eq] at ha
      rw [byteCount_append, ← Nat.add_assoc]
      exact List.mem_cons_of_mem x (ih hb ha)
    · have hrest : '-' :: (b ++ s) = '-' :: '>' :: r := congrArg ('-' :: ·) hr.symm
      -- Any other token does not break at this place.
      have hk : x.kind = .arrow := by
        by_contra hk
        have hbreak := hx.unbroken hk a ('-' :: b) hb (List.cons_ne_nil _ _) ha
        rw [List.cons_append, hrest] at hbreak
        cases hbreak
      have htext := hx.arrow_text hk
      rw [htext] at hb
      have hnil : a = [] := by
        cases a with
        | nil => rfl
        | cons d a =>
          obtain ⟨-, hb⟩ := List.cons.inj hb
          cases a <;> simp at hb
      obtain ⟨kind, text, offset⟩ := x
      subst hnil
      obtain rfl : kind = .arrow := hk
      obtain rfl : text = ['-', '>'] := htext
      exact List.mem_cons_self

/-! ## What the tokens are -/

/-- Byte `n` of the text begins a character outside of parentheses and literals. -/
def IsLevelAt (text : List Char) (n : Nat) : Prop :=
  ∃ a r, text = a ++ r ∧ byteCount a = n ∧ level.run a = some level

/-- A token starts outside of parentheses and literals. -/
theorem Stands.isLevelAt (h : Stands 0 s t a r) : IsLevelAt s t.offset :=
  ⟨a, t.text ++ r, h.text, by rw [h.offset, Nat.zero_add], h.run_eq⟩

/-- A front of a token that ends outside of parentheses and literals is balanced. -/
theorem Stands.run_of_isLevelAt (h : Stands 0 s t a r) (ht : t.text = u ++ v)
    (hu : IsLevelAt s (t.offset + byteCount u)) : level.run u = some level := by
  obtain ⟨b, q, hb, hn, hrun⟩ := hu
  have hs : b ++ q = a ++ u ++ (v ++ r) := by
    rw [← hb, h.text, ht, List.append_assoc, List.append_assoc]
  have hbytes : byteCount b = byteCount (a ++ u) := by
    rw [hn, h.offset, byteCount_append, Nat.zero_add]
  rw [eq_of_byteCount_eq hs hbytes, run_append, h.run_eq] at hrun
  exact hrun

end Token

/-- The tokens are the text without its gaps, and each of them is what its text says. -/
structure Covers (ts : List Token) (text : List Char) : Prop where
  /-- No token is empty. -/
  ne_nil : ∀ t ∈ ts, t.text ≠ []
  /-- Each token ends where the ones behind it have not begun. -/
  ordered : ts.Pairwise fun t u =>
    t.offset < u.offset ∧ t.offset + byteCount t.text ≤ u.offset
  /-- Each token is the slice of the text at its offset. -/
  slice : ∀ t ∈ ts, ∃ a r, text = a ++ (t.text ++ r) ∧ byteCount a = t.offset
  /-- A character that is in no token is a gap. -/
  between : ∀ a c r, text = a ++ c :: r →
    (∀ t ∈ ts, byteCount a < t.offset ∨ t.offset + byteCount t.text ≤ byteCount a) → isGap c = true
  /-- An arrow is a `->` outside of parentheses and literals. -/
  arrow_iff : ∀ t ∈ ts, t.kind = .arrow ↔ t.text = ['-', '>'] ∧ IsLevelAt text t.offset
  /-- Each `->` outside of parentheses and literals is an arrow. -/
  arrow : ∀ a r, text = a ++ '-' :: '>' :: r → IsLevelAt text (byteCount a) →
    ⟨.arrow, ['-', '>'], byteCount a⟩ ∈ ts
  /-- Where another token is outside of parentheses and literals, it has neither a gap nor `->`. -/
  unbroken : ∀ t ∈ ts, t.kind ≠ .arrow → ∀ u c v, t.text = u ++ c :: v →
    IsLevelAt text (t.offset + byteCount u) → isGap c = false ∧ startsArrow (c :: v) = false
  /-- A text is one complete literal. -/
  text_iff : ∀ t ∈ ts, t.kind = .text ↔ IsLiteral t.text

variable {text : List Char} {ts : List Token}

/-- **Nothing of a text is lost**: its tokens stand in it one behind the other, only gaps are left
out, and each token is of the kind that its own text shows. -/
theorem covers_tokenize (h : tokenize text = .ok ts) : Covers ts text := by
  have hsplits := splits_of_scan h
  have hstands {t : Token} (ht : t ∈ ts) : ∃ a r, Stands 0 text t a r := hsplits.exists_stands ht
  constructor
  case ne_nil =>
    intro t ht
    obtain ⟨a, r, hs⟩ := hstands ht
    exact hs.isToken.ne_nil
  case ordered =>
    refine hsplits.pairwise.imp_of_mem fun {t u} ht _ hle => ⟨?_, hle⟩
    obtain ⟨a, r, hs⟩ := hstands ht
    have hpos := byteCount_pos hs.isToken.ne_nil
    omega
  case slice =>
    intro t ht
    obtain ⟨a, r, hs⟩ := hstands ht
    exact ⟨a, r, hs.text, by rw [hs.offset, Nat.zero_add]⟩
  case between =>
    intro a c r htext hnone
    by_contra hc
    obtain ⟨t, ht, hle, hlt⟩ := hsplits.exists_of_not_isGap htext (Bool.not_eq_true _ ▸ hc)
    have := hnone t ht
    omega
  case arrow_iff =>
    intro t ht
    obtain ⟨a, r, hs⟩ := hstands ht
    refine ⟨fun hk => ⟨hs.isToken.arrow_text hk, hs.isLevelAt⟩, fun hw => ?_⟩
    rw [hs.isToken.arrow_iff, hw.1]
    rfl
  case arrow =>
    rintro a r htext ⟨b, q, hb, hn, hrun⟩
    rw [eq_of_byteCount_eq (hb.symm.trans htext) hn] at hrun
    rw [← Nat.zero_add (byteCount a)]
    exact hsplits.exists_arrow htext hrun
  case unbroken =>
    intro t ht hk u c v hu hlevel
    obtain ⟨a, r, hs⟩ := hstands ht
    have hrun := hs.run_of_isLevelAt hu hlevel
    have hbreak := hs.isToken.unbroken hk u (c :: v) hu (List.cons_ne_nil c v) hrun
    rw [List.cons_append, atBreak_cons, Bool.or_eq_false_iff] at hbreak
    refine ⟨hbreak.2, startsArrow_eq_false ?_⟩
    rintro w rfl rfl
    cases hbreak.1
  case text_iff =>
    intro t ht
    obtain ⟨a, r, hs⟩ := hstands ht
    exact hs.isToken.text_iff

/-- Literals, groups and words touch each other and the arrows; one arrow is in a literal of a
group. -/
def touchingTokens : List Char :=
  "\"x\"y->f(a \"->)\" -> b)'é'\t 'é \\' '->z".toList

theorem covers_tokenize_touching : ∃ ts, tokenize touchingTokens = .ok ts ∧
    ts.map Token.kind = [.word, .arrow, .word, .text, .arrow, .word] ∧
    ts.map Token.offset = [0, 4, 6, 27, 35, 37] ∧ Covers ts touchingTokens := by
  have hread : (tokenize touchingTokens).toOption.map
      (fun ts => (ts.map Token.kind, ts.map Token.offset)) =
      some ([.word, .arrow, .word, .text, .arrow, .word], [0, 4, 6, 27, 35, 37]) := by
    decide +kernel
  obtain ⟨ts, hts, hshape⟩ := Option.map_eq_some_iff.mp hread
  obtain ⟨hkinds, hoffsets⟩ := Prod.mk.inj hshape
  have htokens := eq_ok_of_toOption hts
  exact ⟨ts, htokens, hkinds, hoffsets, covers_tokenize htokens⟩

end DataPhrase
