/-
# Agreement on literals

Three scanners find the ends of a literal: the one for tokens skips it, masking blanks it out, and
the reader of expressions takes its value. They agree on every literal that the scan for tokens
comes past, and outside of these masking changes nothing (`mask_agrees`). A literal is known by the
bytes that it takes in the statement.
-/
import DataPhrase.Proofs.Grammar.Pieces
import DataPhrase.Proofs.Settled
import DataPhrase.Proofs.Token.Bytes
import DataPhrase.Proofs.Token.Literal

namespace DataPhrase

open Text Token Bytes

namespace Token

variable {c : Char} {d n i : Nat} {s r u v w : List Char}

/-! ## The literals that are skipped -/

/-- The bytes from `start` up to `stop`, the latter not included. -/
structure Range where
  start : Nat
  stop : Nat
  deriving DecidableEq, Repr

/-- The literals that are skipped in a group, `d` groups open inside it, from byte `n` on. -/
def groupLiterals (n d : Nat) (s : List Char) : List Range :=
  match s with
  | [] => []
  | c :: r =>
    if isQuote c then
      match literalRest c r with
      | none => []
      | some x =>
        have := x.suffix.length_le
        ⟨n, n + byteCount (c :: x.value)⟩ ::
          groupLiterals (n + byteCount (c :: x.value)) d x.rest
    else if c = '(' then groupLiterals (n + c.utf8Size) (d + 1) r
    else if c = ')' then
      match d with
      | 0 => []
      | d + 1 => groupLiterals (n + c.utf8Size) d r
    else groupLiterals (n + c.utf8Size) d r
termination_by s.length

/-- The literals that are skipped in the piece that starts with `c` at byte `n`. -/
def pieceLiterals (n : Nat) (c : Char) (r : List Char) : List Range :=
  if isQuote c then
    match literalRest c r with
    | none => []
    | some x => [⟨n, n + byteCount (c :: x.value)⟩]
  else if c = '(' then groupLiterals (n + c.utf8Size) 0 r
  else []

/-- The literals that are skipped up to the end of a word, from byte `n` on. -/
def wordLiterals (n : Nat) (s : List Char) : List Range :=
  if atBreak s then []
  else
    match s with
    | [] => []
    | c :: r =>
      match piece c r with
      | .error _ => []
      | .ok x =>
        have := x.suffix.length_le
        pieceLiterals n c r ++ wordLiterals (n + byteCount x.value) x.rest
termination_by s.length

/-- The literals that the scan for tokens skips from byte `n` on. -/
def scanLiterals (n : Nat) (s : List Char) : List Range :=
  match s with
  | [] => []
  | '-' :: '>' :: r => scanLiterals (n + 2) r
  | c :: r =>
    if isGap c then scanLiterals (n + 1) r
    else
      match word c r with
      | .error _ => []
      | .ok x =>
        have := x.suffix.length_le
        wordLiterals n (c :: r) ++ scanLiterals (n + byteCount x.value.2) x.rest
termination_by s.length

end Token

/-- The literals that the scan for tokens skips in a statement. -/
def skippedLiterals (text : List Char) : List Token.Range :=
  Token.scanLiterals 0 text

namespace Token

variable {c : Char} {d n i : Nat} {s r u v w : List Char} {l : Range} {ls ms : List Range}

/-! ## Texts and their literals -/

/-- From byte `n` on the text has these literals, and no quote is outside of them. -/
inductive Holds : Nat → List Char → List Range → Prop where
  | nil (n : Nat) : Holds n [] []
  | plain {n : Nat} {c : Char} {u : List Char} {ls : List Range} (hc : isQuote c = false)
      (h : Holds (n + c.utf8Size) u ls) : Holds n (c :: u) ls
  | literal {n : Nat} {w u : List Char} {ls : List Range} (hw : IsLiteral w)
      (h : Holds (n + byteCount w) u ls) : Holds n (w ++ u) (⟨n, n + byteCount w⟩ :: ls)

/-- Literals of two stretches in a row are those of the whole, at their offsets. -/
theorem Holds.append (h : Holds n u ls) (h' : Holds (n + byteCount u) v ms) :
    Holds n (u ++ v) (ls ++ ms) := by
  induction h with
  | nil => exact h'
  | plain hc _ ih =>
    rw [byteCount_cons, ← Nat.add_assoc] at h'
    exact .plain hc (ih h')
  | literal hw _ ih =>
    rw [byteCount_append, ← Nat.add_assoc] at h'
    rw [List.append_assoc]
    exact .literal hw (ih h')

/-- A character that is no quote mark holds no literal. -/
theorem holds_singleton (hc : isQuote c = false) (n : Nat) : Holds n [c] [] :=
  .plain hc (.nil _)

/-- The literals collected in a group are those of its text. -/
theorem holds_groupLiterals (h : (groupRest d s).Gives v r) (n : Nat) :
    Holds n v (groupLiterals n d s) := by
  fun_induction groupRest d s generalizing n v r with
  | case1 => exact absurd h Outcome.not_gives_fail
  | case2 => exact absurd h Outcome.not_gives_fail
  | case3 d c t hc x hx hlen ih =>
    obtain ⟨w, hw, rfl⟩ := Outcome.gives_map.mp (Outcome.gives_widen.mp h)
    rw [groupLiterals.eq_def]
    simp only [hc, if_true, hx]
    exact .literal (isLiteral_of_literalRest hc hx) (ih hw _)
  | case4 d t hq ih =>
    obtain ⟨w, hw, rfl⟩ := Outcome.gives_map.mp (Outcome.gives_widen.mp h)
    rw [groupLiterals.eq_def]
    simp only [hq, if_false, if_true, Bool.false_eq_true]
    exact .plain (Bool.eq_false_iff.mpr hq) (ih hw _)
  | case5 t hq hp =>
    obtain ⟨rfl, -⟩ := Outcome.gives_done.mp h
    rw [groupLiterals, if_neg hq, if_neg hp, if_pos rfl]
    exact holds_singleton (Bool.eq_false_iff.mpr hq) n
  | case6 t d hq hp ih =>
    obtain ⟨w, hw, rfl⟩ := Outcome.gives_map.mp (Outcome.gives_widen.mp h)
    rw [groupLiterals, if_neg hq, if_neg hp, if_pos rfl]
    exact .plain (Bool.eq_false_iff.mpr hq) (ih hw _)
  | case7 d c t hq hp hc ih =>
    obtain ⟨w, hw, rfl⟩ := Outcome.gives_map.mp (Outcome.gives_widen.mp h)
    rw [groupLiterals.eq_def]
    simp only [hq, hp, hc, if_false, Bool.false_eq_true]
    exact .plain (Bool.eq_false_iff.mpr hq) (ih hw _)

/-- The literals collected in a piece of a word are those of its text. -/
theorem holds_pieceLiterals {x : Read s (List Char)} (h : piece c s = .ok x) (n : Nat) :
    Holds n x.value (pieceLiterals n c s) := by
  rw [pieceLiterals]
  rcases piece_cases h with ⟨hq, y, hy, hx, -⟩ | ⟨rfl, v, hv, hx⟩ | ⟨hc, hx, -⟩
  · have hliteral := Holds.literal (n := n) (isLiteral_of_literalRest hq hy) (.nil _)
    rw [List.append_nil] at hliteral
    rw [if_pos hq, hy, hx]
    exact hliteral
  · rw [if_neg (by decide), if_pos rfl, hx]
    exact .plain rfl (holds_groupLiterals hv _)
  · obtain ⟨hq, ho, -⟩ := not_isQuote_of_isPassed hc
    rw [hq, if_neg Bool.false_ne_true, if_neg ho, hx]
    exact holds_singleton hq n

/-- The literals collected in a word are those of its text. -/
theorem holds_wordLiterals (h : (wordRest s).Gives v r) (n : Nat) :
    Holds n v (wordLiterals n s) := by
  fun_induction wordRest s generalizing n v r with
  | case1 s hb =>
    obtain ⟨rfl, -⟩ := Outcome.gives_done.mp h
    rw [wordLiterals.eq_def, if_pos hb]
    exact .nil n
  | case2 hb => exact absurd rfl hb
  | case3 => exact absurd h Outcome.not_gives_error
  | case4 c t x hx hlen hb ih =>
    obtain ⟨w, hw, rfl⟩ := Outcome.gives_map.mp (Outcome.gives_widen.mp h)
    rw [wordLiterals.eq_def, if_neg hb]
    simp only [hx]
    exact (holds_pieceLiterals hx n).append (ih hw _)

theorem scanLiterals_cons (n : Nat) (c : Char) (s : List Char)
    (ha : startsArrow (c :: s) = false) : scanLiterals n (c :: s) =
      if isGap c then scanLiterals (n + 1) s
      else match word c s with
        | .error _ => []
        | .ok x => wordLiterals n (c :: s) ++ scanLiterals (n + byteCount x.value.2) x.rest := by
  rw [scanLiterals]
  rintro r rfl rfl
  cases ha

/-- The literals collected over all tokens are those of the whole text. -/
theorem holds_scanLiterals {ts : List Token} (h : scan n s = .ok ts) :
    Holds n s (scanLiterals n s) := by
  revert ts
  apply scan_induction
    (P := fun n s x => ∀ {ts : List Token}, x = .ok ts → Holds n s (scanLiterals n s))
  case nil =>
    intro n ts _
    rw [scanLiterals]
    exact .nil n
  case arrow =>
    intro n s x ih ts h
    obtain ⟨us, hus, -⟩ := map_eq_ok.mp h
    rw [scanLiterals]
    exact .plain rfl (.plain rfl (ih hus))
  case gap =>
    intro n c s x hg ih ts h
    have hpassed := isPassed_of_isGap hg
    have hminus : c ≠ '-' := by
      rintro rfl
      cases hg
    rw [scanLiterals_cons n c s (startsArrow_of_ne hminus), if_pos hg]
    refine .plain (not_isQuote_of_isPassed hpassed).1 ?_
    rw [utf8Size_of_isGap hg]
    exact ih h
  case fault => exact fun n c s e _ ts h => nomatch h
  case word =>
    intro n c s y x hg ha hy ih ts h
    obtain ⟨us, hus, -⟩ := map_eq_ok.mp h
    have hrest := gives_wordRest_of_word hy (atBreak_eq_false hg ha)
    have hword := (holds_wordLiterals hrest n).append (ih hus)
    rw [append_word hy] at hword
    rw [scanLiterals_cons n c s ha, if_neg (by rw [hg]; exact Bool.false_ne_true), hy]
    exact hword

/-- A literal the statement reader accepts is one that masking closes. -/
theorem closesLiterals_of_isLiteral (hw : IsLiteral w) : ClosesLiterals w := by
  obtain ⟨q, v, hq, hv, rfl⟩ := hw
  obtain ⟨x, hx, hvalue, -⟩ :=
    literalRest_of_isQuoted (t := []) (ne_backslash_of_isQuote hq) hv rfl
  rw [← hvalue]
  exact closesLiterals_literal hq hx

/-- A literal of the text and what is around it. -/
structure StandsIn (n : Nat) (s : List Char) (l : Range) (a w r : List Char) : Prop where
  text : s = a ++ (w ++ r)
  closed : ClosesLiterals a
  literal : IsLiteral w
  start : l.start = n + byteCount a
  stop : l.stop = l.start + byteCount w

/-- A collected literal stands in the text at its range. -/
theorem Holds.exists_standsIn (h : Holds n s ls) (hl : l ∈ ls) :
    ∃ a w r, StandsIn n s l a w r := by
  induction h with
  | nil => cases hl
  | @plain n c u ls hc _ ih =>
    obtain ⟨a, w, r, hs⟩ := ih hl
    refine ⟨c :: a, w, r, congrArg (c :: ·) hs.text, ?_, hs.literal, ?_, hs.stop⟩
    · exact (closesLiterals_singleton hc).append hs.closed
    · rw [hs.start, byteCount_cons, Nat.add_assoc]
  | @literal n w u ls hw _ ih =>
    rcases List.mem_cons.mp hl with rfl | hl
    · exact ⟨[], w, u, rfl, closesLiterals_nil, hw, rfl, rfl⟩
    · obtain ⟨a, w', r, hs⟩ := ih hl
      refine ⟨w ++ a, w', r, ?_, ?_, hs.literal, ?_, hs.stop⟩
      · rw [List.append_assoc, ← hs.text]
      · exact (closesLiterals_of_isLiteral hw).append hs.closed
      · rw [hs.start, byteCount_append, Nat.add_assoc]

/-! ## Bytes of the masked text -/

theorem getElem?_append_of_eq {α : Type} {a b x y : List α} (hlen : a.length = b.length)
    (hleft : i < b.length → a[i]? = b[i]?)
    (hright : ∀ j, i = b.length + j → x[j]? = y[j]?) : (a ++ x)[i]? = (b ++ y)[i]? := by
  rcases Nat.lt_or_ge i b.length with hi | hi
  · rw [List.getElem?_append_left (hlen ▸ hi), List.getElem?_append_left hi]
    exact hleft hi
  · obtain ⟨j, rfl⟩ := Nat.exists_eq_add_of_le hi
    rw [List.getElem?_append_right (hlen ▸ hi), List.getElem?_append_right hi, hlen,
      Nat.add_sub_cancel_left]
    exact hright j rfl

/-- Outside of the literals of a text masking keeps each byte. -/
theorem Holds.getElem?_mask (h : Holds n s ls)
    (hi : ∀ l ∈ ls, n + i < l.start ∨ l.stop ≤ n + i) :
    (ofText (mask s))[i]? = (ofText s)[i]? := by
  induction h generalizing i with
  | nil => rfl
  | @plain n c u ls hc _ ih =>
    have hmask : mask (c :: u) = c :: mask u := by
      have hclosed := (closesLiterals_singleton hc).mask_append (r := u)
      rwa [mask_of_plain (List.forall_mem_singleton.mpr hc)] at hclosed
    rw [hmask, ofText_cons, ofText_cons]
    refine getElem?_append_of_eq rfl (fun _ => rfl) fun j hj => ih fun l hl => ?_
    have := hi l hl
    rw [String.length_utf8EncodeChar] at hj
    omega
  | @literal n w u ls hw _ ih =>
    rw [(closesLiterals_of_isLiteral hw).mask_append, ofText_append, ofText_append]
    have hlen : (ofText (mask w)).length = (ofText w).length := by
      rw [length_ofText, length_ofText]
      exact byteCount_maskFrom _ _
    obtain ⟨hout, hi⟩ := List.forall_mem_cons.mp hi
    rw [← length_ofText] at hout
    refine getElem?_append_of_eq hlen (fun hlt => ?_) fun j hj => ih fun l hl => ?_
    · -- The byte would be in the literal.
      rcases hout with hout | hout <;> simp only at hout <;> omega
    · have := hi l hl
      rw [length_ofText] at hj
      omega

/-- Blanks are one byte each. -/
theorem ofText_replicate (n : Nat) :
    ofText (List.replicate n ' ') = List.replicate n ' '.toUInt8 := by
  induction n with
  | zero => rfl
  | succ n ih =>
    rw [List.replicate_succ, List.replicate_succ, ofText_cons_of_lt (by decide), ih]

/-- What is between two equal bytes and these themselves. -/
theorem getElem?_ends {α : Type} {a v r : List α} {b : α}
    (hi : i = a.length ∨ i + 1 = a.length + (v.length + 2)) :
    (a ++ b :: (v ++ b :: r))[i]? = some b := by
  have hfirst (u t : List α) : (u ++ b :: t)[u.length]? = some b := by
    rw [List.getElem?_append_right (Nat.le_refl _), Nat.sub_self]
    rfl
  rcases hi with rfl | hi
  · exact hfirst a _
  · have hlen : i = (a ++ b :: v).length := by
      rw [List.length_append, List.length_cons]
      omega
    rw [hlen, ← List.cons_append, ← List.append_assoc]
    exact hfirst _ r

/-- A byte in the middle of a replaced stretch is the replacement. -/
theorem getElem?_between {α : Type} {a r : List α} {b x : α} {k : Nat} (hle : a.length < i)
    (hlt : i ≤ a.length + k) : (a ++ b :: (List.replicate k x ++ r))[i]? = some x := by
  obtain ⟨j, rfl⟩ := Nat.exists_eq_add_of_le hle
  have hj : j < (List.replicate k x).length := by
    rw [List.length_replicate]
    omega
  rw [List.getElem?_append_right (by omega), show a.length.succ + j - a.length = j + 1 by omega,
    List.getElem?_cons_succ, List.getElem?_append_left hj, List.getElem?_replicate_of_lt (by omega)]

end Token

/-- The scanners agree on a literal of the statement: masking keeps its quotes and puts a blank for
each byte between them, and the reader of literals, which passes blanks, reads it to its end. -/
structure AgreeOn (text : List Char) (l : Token.Range) : Prop where
  quotes : ∀ i, i = l.start ∨ i + 1 = l.stop →
    ∃ b, (ofText text)[i]? = some b ∧ (ofText (mask text))[i]? = some b
  between : ∀ i, l.start < i → i + 1 < l.stop → (ofText (mask text))[i]? = some ' '.toUInt8
  reads : ∃ a w r v, text = a ++ (w ++ r) ∧ byteCount a = l.start ∧
    l.start + byteCount w = l.stop ∧ (Expr.quotedText (Lexeme.trim (w ++ r))).Gives v r

/-- Where a literal stands, the masked text holds blanks between the quote marks and the text itself
outside. -/
theorem Token.StandsIn.agreeOn {text a w r : List Char} {l : Token.Range}
    (h : StandsIn 0 text l a w r) : AgreeOn text l := by
  obtain ⟨rfl, ha, ⟨q, v, hq, hv, rfl⟩, hstart, hstop⟩ := h
  rw [Nat.zero_add] at hstart
  rw [List.cons_append, List.append_assoc, List.singleton_append]
  have hsize : byteCount (q :: (v ++ [q])) = (ofText v).length + 2 := by
    rw [byteCount_cons, byteCount_append, byteCount_cons, byteCount_nil, utf8Size_of_isQuote hq,
      length_ofText]
    omega
  have hmask : ofText (mask (a ++ q :: (v ++ q :: r))) = ofText (mask a) ++ q.toUInt8 ::
      (List.replicate (ofText v).length ' '.toUInt8 ++ q.toUInt8 :: ofText (mask r)) := by
    have hlt := toNat_lt_of_isQuote hq
    rw [ha.mask_append, mask_literal hq hv, ofText_append, ofText_cons_of_lt hlt, ofText_append,
      ofText_replicate, ofText_cons_of_lt hlt, length_ofText]
  have hlen : (ofText (mask a)).length = l.start := by
    rw [length_ofText, hstart]
    exact byteCount_maskFrom _ _
  constructor
  case quotes =>
    intro i hi
    have htext : ofText (a ++ q :: (v ++ q :: r)) =
        ofText a ++ q.toUInt8 :: (ofText v ++ q.toUInt8 :: ofText r) := by
      have hlt := toNat_lt_of_isQuote hq
      rw [ofText_append, ofText_cons_of_lt hlt, ofText_append, ofText_cons_of_lt hlt]
    rw [hstop, hsize] at hi
    refine ⟨q.toUInt8, ?_, ?_⟩
    · rw [htext]
      refine getElem?_ends ?_
      rwa [length_ofText, ← hstart]
    · rw [hmask]
      refine getElem?_ends ?_
      rwa [hlen, List.length_replicate]
  case between =>
    intro i hstart hstop
    rw [hmask]
    exact getElem?_between (by omega) (by omega)
  case reads =>
    obtain ⟨x, hx, -, hrest⟩ := literalRest_of_isQuoted (t := r) (ne_backslash_of_isQuote hq) hv rfl
    obtain ⟨inside, -, hu⟩ := Expr.exists_quotedText hq hx
    rw [hrest] at hu
    refine ⟨a, q :: (v ++ [q]), r, String.ofList (Expr.unescaped inside), ?_, hstart.symm,
      hstop.symm, ?_⟩
    · rw [List.cons_append, List.append_assoc, List.singleton_append]
    · have htrim : Lexeme.trim (q :: (v ++ q :: r)) = q :: (v ++ q :: r) :=
        List.dropWhile_cons_of_neg fun hblank => by
          rw [not_isQuote_of_isBlank hblank] at hq
          cases hq
      rw [List.cons_append, List.append_assoc, List.singleton_append, htrim]
      exact hu

/-- **The scanners agree on literals.** Masking keeps the number of bytes of every statement. Where
a statement falls into tokens, the scanners agree on every literal that is skipped, and every byte
outside of these stays as it is. -/
theorem mask_agrees (text : List Char) :
    (ofText (mask text)).length = (ofText text).length ∧
      ∀ ts, tokenize text = .ok ts →
        (∀ l ∈ skippedLiterals text, AgreeOn text l) ∧
          ∀ i, (∀ l ∈ skippedLiterals text, i < l.start ∨ l.stop ≤ i) →
            (ofText (mask text))[i]? = (ofText text)[i]? := by
  constructor
  · rw [length_ofText, length_ofText]
    exact byteCount_maskFrom _ _
  · intro ts hts
    have hholds := holds_scanLiterals hts
    constructor
    · intro l hl
      obtain ⟨a, w, r, hs⟩ := hholds.exists_standsIn hl
      exact hs.agreeOn
    · intro i hi
      refine hholds.getElem?_mask fun l hl => ?_
      rw [Nat.zero_add]
      exact hi l hl

/-- Literals of both quotes, with escapes and long characters, in groups and outside of them. -/
def nestedLiterals : List Char :=
  "f(\"é\\\"\", ('x)'))->'a\"b'\"→\"".toList

theorem mask_agrees_nested : ∃ ts, tokenize nestedLiterals = .ok ts ∧
    skippedLiterals nestedLiterals = [⟨2, 8⟩, ⟨11, 15⟩, ⟨19, 24⟩, ⟨24, 29⟩] ∧
    (∀ l ∈ skippedLiterals nestedLiterals, AgreeOn nestedLiterals l) ∧
    (ofText (mask nestedLiterals)).length = 29 ∧
    (ofText (mask nestedLiterals))[17]? = some '-'.toUInt8 := by
  have hread : (tokenize nestedLiterals).toOption.isSome = true := by decide +kernel
  have hskipped : skippedLiterals nestedLiterals = [⟨2, 8⟩, ⟨11, 15⟩, ⟨19, 24⟩, ⟨24, 29⟩] := by
    decide +kernel
  obtain ⟨ts, hts⟩ := Option.isSome_iff_exists.mp hread
  obtain ⟨hlen, hagree⟩ := mask_agrees nestedLiterals
  obtain ⟨hliterals, hrest⟩ := hagree ts (eq_ok_of_toOption hts)
  have harrow : (ofText (mask nestedLiterals))[17]? = (ofText nestedLiterals)[17]? := by
    refine hrest 17 ?_
    rw [hskipped]
    decide
  exact ⟨ts, eq_ok_of_toOption hts, hskipped, hliterals, hlen.trans (by decide +kernel),
    harrow.trans (by decide +kernel)⟩

end DataPhrase
