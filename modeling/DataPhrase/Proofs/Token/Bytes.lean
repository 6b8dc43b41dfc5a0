/-
# Tokens from bytes

The tokens of a text can be found byte by byte in its UTF-8 form: a backslash in a literal takes one
byte with it, whatever character stands there, and texts are cut out at the bytes reached. A cut
inside a character is refused here, and the scan of bytes comes to the same tokens at the same
offsets as the scan of characters, so no cut is refused (`scan_ofText`).
-/
import DataPhrase.Proofs.Token.Scan
import DataPhrase.Text.Class

namespace DataPhrase.Bytes

open Text Token

variable {b : UInt8} {c : Char} {s r : List Char}

/-! ## The bytes of a text -/

/-- The bytes of a text in UTF-8. -/
def ofText (s : List Char) : List UInt8 :=
  s.flatMap String.utf8EncodeChar

/-- The empty text has no bytes. -/
@[simp] theorem ofText_nil : ofText [] = [] := rfl

/-- The bytes of a text are those of its first character and of the others. -/
theorem ofText_cons (c : Char) (s : List Char) :
    ofText (c :: s) = String.utf8EncodeChar c ++ ofText s :=
  List.flatMap_cons

/-- The bytes of two texts are one behind the other. -/
theorem ofText_append (s r : List Char) : ofText (s ++ r) = ofText s ++ ofText r :=
  List.flatMap_append

/-- A text has as many bytes as its characters take. -/
@[simp] theorem length_ofText (s : List Char) : (ofText s).length = byteCount s := by
  induction s with
  | nil => rfl
  | cons c s ih =>
    rw [ofText_cons, List.length_append, String.length_utf8EncodeChar, ih, byteCount_cons]

/-- A character is one byte if it is of ASCII, and else it has no byte of ASCII. -/
theorem utf8EncodeChar_cases (c : Char) :
    (c.toNat < 128 ∧ String.utf8EncodeChar c = [c.toUInt8]) ∨
      (128 ≤ c.toNat ∧ ∀ b ∈ String.utf8EncodeChar c, 128 ≤ b.toNat) := by
  by_cases h : c.toNat < 128
  · refine Or.inl ⟨h, String.utf8EncodeChar_eq_singleton ?_⟩
    rw [Char.utf8Size_eq_one_iff, UInt32.le_iff_toNat_le]
    exact Nat.le_of_lt_succ h
  · refine Or.inr ⟨Nat.le_of_not_lt h, ?_⟩
    have hv : c.val.toNat < 0x110000 := by
      have := c.valid
      simp only [UInt32.isValidChar, Nat.isValidChar] at this
      omega
    unfold String.utf8EncodeChar
    simp only
    split
    · next h' => exact absurd (Nat.lt_succ_of_le h') h
    · split
      · simp only [List.forall_mem_cons, UInt8.toNat_ofNat', List.not_mem_nil, false_implies,
          implies_true, and_true]
        omega
      · split
        · simp only [List.forall_mem_cons, UInt8.toNat_ofNat', List.not_mem_nil, false_implies,
          implies_true, and_true]
          omega
        · simp only [List.forall_mem_cons, UInt8.toNat_ofNat', List.not_mem_nil, false_implies,
          implies_true, and_true]
          omega

/-! ## Cuts -/

/-- A character starts in front, or nothing is left. -/
def startsChar : List UInt8 → Bool
  | [] => true
  | b :: _ => decide b.IsUTF8FirstByte

/-- What is left behind the first `n` bytes. A cut inside a character is refused. -/
def cut? (n : Nat) (bs : List UInt8) : Option (List UInt8) :=
  if n ≤ bs.length ∧ startsChar (bs.drop n) = true then some (bs.drop n) else none

/-- The bytes of a text begin with a first byte of a character. -/
theorem startsChar_ofText (s : List Char) : startsChar (ofText s) = true := by
  cases s with
  | nil => rfl
  | cons c s =>
    have h := UInt8.isUTF8FirstByte_getElem_zero_utf8EncodeChar (c := c)
    rw [ofText_cons]
    cases he : String.utf8EncodeChar c with
    | nil => exact absurd he String.utf8EncodeChar_ne_nil
    | cons b bs =>
      simp only [he, List.getElem_cons_zero] at h
      exact decide_eq_true h

/-- The cuts that are not refused are those between two characters. -/
theorem cut?_eq_some {n : Nat} {bs : List UInt8} :
    cut? n (ofText s) = some bs ↔ ∃ a r, s = a ++ r ∧ byteCount a = n ∧ ofText r = bs := by
  constructor
  · intro h
    unfold cut? at h
    split at h
    · next hc =>
      obtain ⟨hn, hs⟩ := hc
      cases h
      induction s generalizing n with
      | nil => exact ⟨[], [], rfl, (Nat.le_zero.mp hn).symm, List.drop_nil.symm⟩
      | cons c s ih =>
        rw [ofText_cons] at hn hs ⊢
        by_cases hlt : n < c.utf8Size
        · -- The cut lies in front of `c` or inside it, where no byte is a first one.
          rw [List.drop_append_of_le_length (by simp; omega)] at hs
          have hlen : n < (String.utf8EncodeChar c).length := by simpa using hlt
          rw [List.drop_eq_getElem_cons hlen, List.cons_append] at hs
          have hzero := UInt8.isUTF8FirstByte_getElem_utf8EncodeChar.mp (of_decide_eq_true hs)
          subst hzero
          exact ⟨[], c :: s, rfl, rfl, ofText_cons c s⟩
        · have hdrop : (String.utf8EncodeChar c ++ ofText s).drop n =
              (ofText s).drop (n - c.utf8Size) := by
            rw [List.drop_append, List.drop_of_length_le (by simp; omega),
              String.length_utf8EncodeChar, List.nil_append]
          rw [hdrop] at hs ⊢
          obtain ⟨a, r, rfl, ha, hr⟩ := ih (by simp at hn ⊢; omega) hs
          exact ⟨c :: a, r, rfl, by simp [ha]; omega, hr⟩
    · cases h
  · rintro ⟨a, r, rfl, rfl, rfl⟩
    have hd : (ofText (a ++ r)).drop (byteCount a) = ofText r := by
      rw [ofText_append, ← length_ofText, List.drop_left]
    unfold cut?
    rw [hd, if_pos]
    exact ⟨by simp, startsChar_ofText r⟩

/-- Cutting between two characters leaves the bytes of the text behind. -/
theorem cut?_ofText (s r : List Char) :
    cut? (byteCount s) (ofText (s ++ r)) = some (ofText r) :=
  cut?_eq_some.mpr ⟨s, r, rfl, rfl, rfl⟩

/-! ## Scanning bytes -/

/-- The byte opens a literal. -/
def isQuoteByte (b : UInt8) : Bool :=
  b == '"'.toUInt8 || b == '\''.toUInt8

/-- The byte parts tokens. -/
def isGapByte (b : UInt8) : Bool :=
  b == ' '.toUInt8 || b == '\t'.toUInt8 || b == '\n'.toUInt8 || b == '\x0c'.toUInt8 ||
    b == '\r'.toUInt8

/-- An arrow is in front. -/
def arrowAhead : List UInt8 → Bool
  | b :: c :: _ => b == '-'.toUInt8 && c == '>'.toUInt8
  | _ => false

/-- The bytes behind a literal that `q` closes. A backslash takes the next byte with it. -/
def afterLiteral (q : UInt8) : List UInt8 → Option (List UInt8)
  | [] => none
  | b :: r =>
    if b == '\\'.toUInt8 then
      match r with
      | [] => none
      | _ :: t => afterLiteral q t
    else if b == q then some r
    else afterLiteral q r

/-- Inside a literal, a byte other than a backslash is the closing mark or is passed over. -/
theorem afterLiteral_cons {q : UInt8} (h : (b == '\\'.toUInt8) = false) (bs : List UInt8) :
    afterLiteral q (b :: bs) = if b == q then some bs else afterLiteral q bs := by
  rw [afterLiteral.eq_def]
  dsimp only
  rw [h, if_neg Bool.false_ne_true]

/-- Inside a literal, a backslash and the byte behind it are passed over. -/
theorem afterLiteral_escape (q b : UInt8) (bs : List UInt8) :
    afterLiteral q ('\\'.toUInt8 :: b :: bs) = afterLiteral q bs := by
  rw [afterLiteral.eq_def]
  rfl

/-- A literal takes at least its closing quote. -/
theorem length_afterLiteral {q : UInt8} {bs rest : List UInt8}
    (h : afterLiteral q bs = some rest) : rest.length < bs.length := by
  fun_induction afterLiteral q bs with
  | case1 => cases h
  | case2 => cases h
  | case3 b hb d t ih =>
    have := ih h
    simp only [List.length_cons]
    omega
  | case4 b r hb hq =>
    cases h
    exact Nat.lt_succ_self _
  | case5 b r hb hq ih => exact Nat.lt_succ_of_lt (ih h)

/-- The bytes behind a group of which `depth` parentheses are open. A group that is never closed is
reported at `start`. -/
def afterGroup (start : List UInt8) (depth : Nat) (bs : List UInt8) :
    Except (Cause × List UInt8) (List UInt8) :=
  match bs with
  | [] => .error (.unbalancedParenthesis, start)
  | b :: r =>
    if isQuoteByte b then
      match h : afterLiteral b r with
      | none => .error (.unterminatedString, b :: r)
      | some t =>
        have := length_afterLiteral h
        afterGroup start depth t
    else if b == '('.toUInt8 then afterGroup start (depth + 1) r
    else if b == ')'.toUInt8 then
      if depth = 1 then .ok r else afterGroup start (depth - 1) r
    else afterGroup start depth r
termination_by bs.length

/-- The bytes behind the literal, the group or the single byte in front. -/
def afterPiece (b : UInt8) (r : List UInt8) : Except (Cause × List UInt8) (List UInt8) :=
  if isQuoteByte b then
    match afterLiteral b r with
    | none => .error (.unterminatedString, b :: r)
    | some t => .ok t
  else if b == '('.toUInt8 then afterGroup (b :: r) 1 r
  else if b == ')'.toUInt8 then .error (.unbalancedParenthesis, b :: r)
  else .ok r

/-- Passing over a group never adds bytes. -/
theorem length_afterGroup {start bs rest : List UInt8} {depth : Nat}
    (h : afterGroup start depth bs = .ok rest) : rest.length ≤ bs.length := by
  fun_induction afterGroup start depth bs with
  | case1 => cases h
  | case2 => cases h
  | case3 depth b r hb t ht hlen ih =>
    have := ih h
    rw [List.length_cons]
    omega
  | case4 depth b r hb hp ih => exact Nat.le_succ_of_le (ih h)
  | case5 b r hb hp hc =>
    cases h
    exact Nat.le_succ _
  | case6 depth b r hb hp hc hd ih => exact Nat.le_succ_of_le (ih h)
  | case7 depth b r hb hp hc ih => exact Nat.le_succ_of_le (ih h)

/-- A piece takes no more than there is. -/
theorem length_afterPiece {r rest : List UInt8} (h : afterPiece b r = .ok rest) :
    rest.length ≤ r.length := by
  unfold afterPiece at h
  split at h
  · split at h
    · cases h
    · next t ht =>
      cases h
      exact Nat.le_of_lt (length_afterLiteral ht)
  · split at h
    · exact length_afterGroup h
    · split at h
      · cases h
      · cases h
        exact Nat.le_refl _

/-- A gap or an arrow is in front, so that a word ends. -/
def atBreak : List UInt8 → Bool
  | [] => true
  | b :: r => isGapByte b || arrowAhead (b :: r)

/-- The number of pieces of a word, `n` of them passed already, and the bytes behind it. -/
def afterWord (n : Nat) (bs : List UInt8) : Except (Cause × List UInt8) (Nat × List UInt8) :=
  if atBreak bs then .ok (n, bs)
  else
    match bs with
    | [] => .ok (n, [])
    | b :: r =>
      match h : afterPiece b r with
      | .error e => .error e
      | .ok t =>
        have := length_afterPiece h
        afterWord (n + 1) t
termination_by bs.length

/-- A word takes no more than there is. -/
theorem length_afterWord {m n : Nat} {bs rest : List UInt8} (h : afterWord n bs = .ok (m, rest)) :
    rest.length ≤ bs.length := by
  fun_induction afterWord n bs with
  | case1 =>
    cases h
    exact Nat.le_refl _
  | case2 =>
    cases h
    exact Nat.le_refl _
  | case3 => cases h
  | case4 n b r hb t ht hlen ih =>
    have := ih h
    rw [List.length_cons]
    omega

/-- The text from the start of `bs` up to its ending `rest`, refused if it ends in a character. -/
def slice? (bs rest : List UInt8) : Option (List UInt8) :=
  if startsChar rest then some (bs.take (bs.length - rest.length)) else none

/-- A token with its text in bytes. -/
structure ByteToken where
  kind : TokenKind
  bytes : List UInt8
  offset : Nat
  deriving DecidableEq, Repr

/-- The tokens of the last bytes `bs` of a text of `size` bytes; nothing if a text would be cut out
inside a character. -/
def scan (size : Nat) (bs : List UInt8) : Option (Except SyntaxError (List ByteToken)) :=
  match bs with
  | [] => some (.ok [])
  | b :: r =>
    if isGapByte b then scan size r
    else if !startsChar (b :: r) then none
    else if arrowAhead (b :: r) then
      match slice? (b :: r) (r.drop 1), scan size (r.drop 1) with
      | some text, some ts => some (ts.map (⟨.arrow, text, size - (b :: r).length⟩ :: ·))
      | _, _ => none
    else
      match h : afterPiece b r with
      | .error e => some (.error ⟨e.1, size - e.2.length⟩)
      | .ok t =>
        match h' : afterWord 1 t with
        | .error e => some (.error ⟨e.1, size - e.2.length⟩)
        | .ok (n, rest) =>
          have := length_afterPiece h
          have := length_afterWord h'
          let kind := if isQuoteByte b && n ≤ 1 then .text else .word
          match slice? (b :: r) rest, scan size rest with
          | some text, some ts => some (ts.map (⟨kind, text, size - (b :: r).length⟩ :: ·))
          | _, _ => none
termination_by bs.length
decreasing_by all_goals simp only [List.length_cons, List.length_drop]; omega

/-! ## Bytes and characters -/

/-- Bytes of characters below 128 are equal exactly when the characters are. -/
theorem beq_toUInt8 {k : Char} (hc : c.toNat < 128) (hk : k.toNat < 128) :
    (c.toUInt8 == k.toUInt8) = (c == k) := by
  have toNat (d : Char) (hd : d.toNat < 128) : d.toUInt8.toNat = d.toNat := by
    show d.toNat % 256 = d.toNat
    omega
  rw [Bool.eq_iff_iff, beq_iff_eq, beq_iff_eq, ← UInt8.toNat_inj, toNat c hc, toNat k hk,
    Char.toNat_inj]

/-- A byte outside ASCII is none of a character of ASCII. -/
theorem beq_of_le_byte {k : Char} (hb : 128 ≤ b.toNat) (hk : k.toNat < 128) :
    (b == k.toUInt8) = false := by
  rw [beq_eq_false_iff_ne]
  rintro rfl
  have : k.toUInt8.toNat = k.toNat % 256 := rfl
  omega

/-- A character of several bytes is none of the special ones, which are ASCII. -/
theorem beq_of_le_char {k : Char} (hc : 128 ≤ c.toNat) (hk : k.toNat < 128) :
    (c == k) = false := by
  rw [beq_eq_false_iff_ne]
  rintro rfl
  omega

/-- Quotes are told by their byte. -/
theorem isQuoteByte_toUInt8 (hc : c.toNat < 128) : isQuoteByte c.toUInt8 = isQuote c := by
  rw [isQuoteByte, isQuote, beq_toUInt8 hc (by decide), beq_toUInt8 hc (by decide)]

/-- Quotes are ASCII. -/
theorem toNat_lt_of_isQuote (h : isQuote c = true) : c.toNat < 128 := by
  rw [isQuote, Bool.or_eq_true, beq_iff_eq, beq_iff_eq] at h
  rcases h with rfl | rfl <;> decide

/-- Gaps are ASCII. -/
theorem toNat_lt_of_isGap (h : isGap c = true) : c.toNat < 128 := by
  simp only [isGap, Bool.or_eq_true, beq_iff_eq] at h
  rcases h with (((rfl | rfl) | rfl) | rfl) | rfl <;> decide

/-- A character of ASCII is one byte. -/
theorem ofText_cons_of_lt (hc : c.toNat < 128) (s : List Char) :
    ofText (c :: s) = c.toUInt8 :: ofText s := by
  rcases utf8EncodeChar_cases c with ⟨-, he⟩ | ⟨hle, -⟩
  · rw [ofText_cons, he]
    rfl
  · omega

/-- No byte of a longer character is a quote. -/
theorem isQuoteByte_of_le (hb : 128 ≤ b.toNat) : isQuoteByte b = false := by
  rw [isQuoteByte, beq_of_le_byte hb (by decide), beq_of_le_byte hb (by decide), Bool.or_false]

/-- No character from 128 on is a quote mark. -/
theorem isQuote_of_le (hc : 128 ≤ c.toNat) : isQuote c = false := by
  rw [isQuote, beq_of_le_char hc (by decide), beq_of_le_char hc (by decide), Bool.or_false]

/-- The first byte of a text passes the same tests as its first character. -/
theorem exists_ofText_cons (c : Char) (s : List Char) :
    ∃ b bs, ofText (c :: s) = b :: bs ∧ (c.toNat < 128 → bs = ofText s) ∧
      ∀ k : Char, k.toNat < 128 → (b == k.toUInt8) = (c == k) := by
  rcases utf8EncodeChar_cases c with ⟨hlt, -⟩ | ⟨hle, hbs⟩
  · exact ⟨_, _, ofText_cons_of_lt hlt s, fun _ => rfl, fun k hk => beq_toUInt8 hlt hk⟩
  · rw [ofText_cons]
    cases he : String.utf8EncodeChar c with
    | nil => exact absurd he String.utf8EncodeChar_ne_nil
    | cons b bs =>
      rw [he, List.forall_mem_cons] at hbs
      refine ⟨b, bs ++ ofText s, rfl, fun hlt => absurd hle (Nat.not_le_of_lt hlt), ?_⟩
      intro k hk
      rw [beq_of_le_byte hbs.1 hk, beq_of_le_char hle hk]

/-! ## The same pieces -/

/-- Inside a literal, bytes outside ASCII are passed over. -/
theorem afterLiteral_append {q : Char} (hq : q.toNat < 128) {bs : List UInt8}
    (hbs : ∀ b ∈ bs, 128 ≤ b.toNat) (rest : List UInt8) :
    afterLiteral q.toUInt8 (bs ++ rest) = afterLiteral q.toUInt8 rest := by
  induction bs with
  | nil => rfl
  | cons b bs ih =>
    rw [List.forall_mem_cons] at hbs
    rw [List.cons_append, afterLiteral_cons (beq_of_le_byte hbs.1 (by decide)),
      beq_of_le_byte hbs.1 hq]
    exact ih hbs.2

/-- **A literal of bytes ends where the literal of characters does.** -/
theorem afterLiteral_ofText {q : Char} (hq : q.toNat < 128) (s : List Char) :
    afterLiteral q.toUInt8 (ofText s) = (literalRest q s).map fun x => ofText x.rest := by
  fun_induction literalRest q s with
  | case1 => rfl
  | case2 => rfl
  | case3 c r ih =>
    -- The backslash takes one byte of `c` with it, and the others are outside ASCII.
    rw [Option.map_map]
    refine Eq.trans ?_ ih
    rw [ofText_cons, ofText_cons]
    show afterLiteral _ ('\\'.toUInt8 :: (String.utf8EncodeChar c ++ ofText r)) = _
    rcases utf8EncodeChar_cases c with ⟨-, he⟩ | ⟨-, hbs⟩
    · rw [he]
      exact afterLiteral_escape _ _ _
    · cases he : String.utf8EncodeChar c with
      | nil => exact absurd he String.utf8EncodeChar_ne_nil
      | cons b bs =>
        rw [he, List.forall_mem_cons] at hbs
        rw [List.cons_append, afterLiteral_escape]
        exact afterLiteral_append hq hbs.2 _
  | case4 r h1 h2 =>
    -- the closing quote
    have hs : (q == '\\') = false := by
      rw [beq_eq_false_iff_ne]
      intro he
      cases r with
      | nil => exact h1 he rfl
      | cons c r => exact h2 c r he rfl
    have he : String.utf8EncodeChar q = [q.toUInt8] := by
      rcases utf8EncodeChar_cases q with ⟨-, he⟩ | ⟨hle, -⟩
      · exact he
      · omega
    rw [ofText_cons, he, List.singleton_append, afterLiteral_cons, beq_self_eq_true, if_pos rfl]
    · rfl
    · rw [beq_toUInt8 hq (by decide), hs]
  | case5 c r h1 h2 hc ih =>
    -- any other character: one byte that is no quote, or bytes outside ASCII
    rw [Option.map_map]
    refine Eq.trans ?_ ih
    have hs : (c == '\\') = false := by
      rw [beq_eq_false_iff_ne]
      intro he
      cases r with
      | nil => exact h1 he rfl
      | cons d r => exact h2 d r he rfl
    rcases utf8EncodeChar_cases c with ⟨hlt, he⟩ | ⟨-, hbs⟩
    · rw [ofText_cons, he, List.singleton_append, afterLiteral_cons, beq_toUInt8 hlt hq,
        beq_eq_false_iff_ne.mpr hc, if_neg Bool.false_ne_true]
      rw [beq_toUInt8 hlt (by decide), hs]
    · rw [ofText_cons, afterLiteral_append hq hbs]

/-- The bytes of a longer character are skipped in a group. -/
theorem afterGroup_cons_of_le (hb : 128 ≤ b.toNat) (start bs : List UInt8) (depth : Nat) :
    afterGroup start depth (b :: bs) = afterGroup start depth bs := by
  rw [afterGroup, if_neg (by rw [isQuoteByte_of_le hb]; exact Bool.false_ne_true),
    beq_of_le_byte hb (by decide), if_neg Bool.false_ne_true, beq_of_le_byte hb (by decide),
    if_neg Bool.false_ne_true]

/-- Inside a group, bytes outside ASCII are passed over. -/
theorem afterGroup_append {bs : List UInt8} (hbs : ∀ b ∈ bs, 128 ≤ b.toNat)
    (start rest : List UInt8) (depth : Nat) :
    afterGroup start depth (bs ++ rest) = afterGroup start depth rest := by
  induction bs with
  | nil => rfl
  | cons b bs ih =>
    rw [List.forall_mem_cons] at hbs
    rw [List.cons_append, afterGroup_cons_of_le hbs.1, ih hbs.2]

/-- What is left behind a piece, or the place of what is wrong with it: the start of a group that is
never closed, or else the place where reading stopped. -/
def behind (start : List Char) {α : Type} (o : Outcome Cause s α) :
    Except (Cause × List UInt8) (List UInt8) :=
  match o with
  | .ok x => .ok (ofText x.rest)
  | .error e =>
    .error (e.cause, ofText (if e.cause = .unbalancedParenthesis then start else e.rest))

theorem behind_widen_map {α β : Type} {f : α → β} {h : r <:+ s} {start : List Char}
    {o : Outcome Cause r α} : behind start ((o.map f).widen h) = behind start o := by
  cases o <;> rfl

/-- **A group of bytes ends where the group of characters does.** -/
theorem afterGroup_ofText (start : List Char) (depth : Nat) (s : List Char) :
    afterGroup (ofText start) (depth + 1) (ofText s) = behind start (groupRest depth s) := by
  fun_induction groupRest depth s with
  | case1 depth =>
    rw [ofText_nil, afterGroup]
    rfl
  | case2 depth c t hc hx =>
    -- a literal that is never closed
    have hlt := toNat_lt_of_isQuote hc
    have hnone : afterLiteral c.toUInt8 (ofText t) = none := by
      rw [afterLiteral_ofText hlt, hx]
      rfl
    rw [ofText_cons_of_lt hlt, afterGroup, if_pos (by rw [isQuoteByte_toUInt8 hlt, hc])]
    split
    · show Except.error _ = Except.error (Cause.unterminatedString, ofText (c :: t))
      rw [ofText_cons_of_lt hlt]
    · next h =>
      rw [hnone] at h
      cases h
  | case3 depth c t hc x hx hlen ih =>
    -- a literal
    have hlt := toNat_lt_of_isQuote hc
    have hsome : afterLiteral c.toUInt8 (ofText t) = some (ofText x.rest) := by
      rw [afterLiteral_ofText hlt, hx]
      rfl
    rw [ofText_cons_of_lt hlt, afterGroup, if_pos (by rw [isQuoteByte_toUInt8 hlt, hc])]
    split
    · next h =>
      rw [hsome] at h
      cases h
    · next rest h =>
      rw [hsome] at h
      cases h
      rw [behind_widen_map]
      exact ih
  | case4 depth t hq ih =>
    -- an inner group starts
    rw [ofText_cons_of_lt (by decide), afterGroup, if_neg (by decide), if_pos (by decide),
      behind_widen_map]
    exact ih
  | case5 t hq hp =>
    -- the group ends
    rw [ofText_cons_of_lt (by decide), afterGroup, if_neg (by decide), if_neg (by decide),
      if_pos (by decide), if_pos rfl]
    rfl
  | case6 t depth hq hp ih =>
    -- an inner group ends
    rw [ofText_cons_of_lt (by decide), afterGroup, if_neg (by decide), if_neg (by decide),
      if_pos (by decide), if_neg (Nat.succ_ne_zero _ ∘ Nat.succ.inj), behind_widen_map]
    exact ih
  | case7 depth c t hq hp hc ih =>
    -- any other character, none of whose bytes is a quote or a parenthesis
    rw [behind_widen_map]
    refine Eq.trans ?_ ih
    rcases utf8EncodeChar_cases c with ⟨hlt, -⟩ | ⟨-, hbs⟩
    · have hbyte (k : Char) (hk : k.toNat < 128) (hne : ¬ c = k) :
          ¬ (c.toUInt8 == k.toUInt8) = true := by
        rw [beq_toUInt8 hlt hk, beq_iff_eq]
        exact hne
      rw [ofText_cons_of_lt hlt, afterGroup, if_neg (by rwa [isQuoteByte_toUInt8 hlt]),
        if_neg (hbyte '(' (by decide) hp), if_neg (hbyte ')' (by decide) hc)]
    · rw [ofText_cons, afterGroup_append hbs]

/-- What an error in characters is in bytes. -/
def inBytes (e : Stop Cause s) : Cause × List UInt8 :=
  (e.cause, ofText e.rest)

/-- A piece that begins with a character of ASCII ends at the same place. -/
theorem afterPiece_ofText (hc : c.toNat < 128) (s : List Char) :
    afterPiece c.toUInt8 (ofText s) =
      match piece c s with
      | .ok x => .ok (ofText x.rest)
      | .error e => .error (inBytes e) := by
  unfold afterPiece piece
  rw [isQuoteByte_toUInt8 hc, beq_toUInt8 hc (by decide), beq_toUInt8 hc (by decide)]
  simp only [beq_iff_eq]
  by_cases hq : isQuote c = true
  · rw [if_pos hq, if_pos hq, afterLiteral_ofText hc]
    cases literalRest c s with
    | none =>
      rw [← ofText_cons_of_lt hc]
      rfl
    | some x => rfl
  · rw [if_neg hq, if_neg hq]
    by_cases hp : c = '('
    · rw [if_pos hp, if_pos hp, ← ofText_cons_of_lt hc, afterGroup_ofText]
      unfold behind
      cases groupRest 0 s with
      | ok x => rfl
      | error e =>
        dsimp only
        by_cases hu : e.cause = .unbalancedParenthesis
        · rw [if_pos hu, if_pos hu]
          rfl
        · rw [if_neg hu, if_neg hu]
          rfl
    · rw [if_neg hp, if_neg hp]
      by_cases hr : c = ')'
      · rw [if_pos hr, if_pos hr, ← ofText_cons_of_lt hc]
        rfl
      · rw [if_neg hr, if_neg hr]

/-- A character from 128 on is a piece by itself. -/
theorem piece_of_le (hc : 128 ≤ c.toNat) (s : List Char) :
    piece c s = .ok ⟨[c], s, List.suffix_refl s⟩ := by
  have hne (k : Char) (hk : k.toNat < 128) : ¬ c = k := by
    rintro rfl
    omega
  rw [piece, isQuote_of_le hc, if_neg Bool.false_ne_true, if_neg (hne '(' (by decide)),
    if_neg (hne ')' (by decide))]

/-- Arrows are told by their bytes. -/
theorem arrowAhead_ofText (s : List Char) : arrowAhead (ofText s) = startsArrow s := by
  cases s with
  | nil => rfl
  | cons c r =>
    obtain ⟨b, bs, he, hbs, hb⟩ := exists_ofText_cons c r
    rw [he]
    by_cases hc : c = '-'
    · -- Behind the minus comes the first byte of the next character.
      subst hc
      rw [hbs (by decide)]
      cases r with
      | nil => rfl
      | cons d r =>
        obtain ⟨b', bs', he', -, hb'⟩ := exists_ofText_cons d r
        rw [he', arrowAhead, hb '-' (by decide), hb' '>' (by decide), beq_self_eq_true,
          Bool.true_and, Bool.eq_iff_iff, beq_iff_eq, startsArrow_eq_true]
        constructor
        · rintro rfl
          exact ⟨r, rfl⟩
        · rintro ⟨r', hr⟩
          cases hr
          rfl
    · rw [startsArrow_of_ne hc]
      cases bs with
      | nil => rfl
      | cons d bs => rw [arrowAhead, hb '-' (by decide), beq_eq_false_iff_ne.mpr hc, Bool.false_and]

/-- Gaps are told by their first byte. -/
theorem isGapByte_ofText {bs : List UInt8} (h : ofText (c :: s) = b :: bs) :
    isGapByte b = isGap c := by
  obtain ⟨b', bs', he, -, hb⟩ := exists_ofText_cons c s
  rw [he] at h
  cases h
  rw [isGapByte, isGap, hb ' ' (by decide), hb '\t' (by decide), hb '\n' (by decide),
    hb '\x0c' (by decide), hb '\r' (by decide)]

/-- Words break at the same places. -/
theorem atBreak_ofText (s : List Char) : atBreak (ofText s) = Token.atBreak s := by
  cases s with
  | nil => rfl
  | cons c r =>
    obtain ⟨b, bs, he, -, -⟩ := exists_ofText_cons c r
    have harrow := arrowAhead_ofText (c :: r)
    rw [he] at harrow ⊢
    rw [atBreak, isGapByte_ofText he, harrow, atBreak_cons, Bool.or_comm]

/-! ## The same words -/

theorem afterWord_of_atBreak {bs : List UInt8} (n : Nat) (h : atBreak bs = true) :
    afterWord n bs = .ok (n, bs) := by
  rw [afterWord.eq_def, if_pos h]

/-- A word goes on behind each of its pieces. -/
theorem afterWord_cons {n : Nat} {bs rest : List UInt8} (h : atBreak (b :: bs) = false)
    (hp : afterPiece b bs = .ok rest) : afterWord n (b :: bs) = afterWord (n + 1) rest := by
  rw [afterWord, h, if_neg Bool.false_ne_true]
  dsimp only
  split
  · next e he =>
    rw [hp] at he
    cases he
  · next t ht =>
    rw [hp] at ht
    cases ht
    rfl

/-- A word fails where one of its pieces does. -/
theorem afterWord_of_error {n : Nat} {bs : List UInt8} {e : Cause × List UInt8}
    (h : atBreak (b :: bs) = false) (hp : afterPiece b bs = .error e) :
    afterWord n (b :: bs) = .error e := by
  rw [afterWord, h, if_neg Bool.false_ne_true]
  dsimp only
  split
  · next e' he =>
    rw [hp] at he
    cases he
    rfl
  · next t ht =>
    rw [hp] at ht
    cases ht

/-- In a word, each byte outside ASCII is a piece of its own. -/
theorem afterPiece_of_le (hb : 128 ≤ b.toNat) (bs : List UInt8) : afterPiece b bs = .ok bs := by
  rw [afterPiece, isQuoteByte_of_le hb, if_neg Bool.false_ne_true, beq_of_le_byte hb (by decide),
    if_neg Bool.false_ne_true, beq_of_le_byte hb (by decide), if_neg Bool.false_ne_true]

/-- The bytes of longer characters go on with a word. -/
theorem afterWord_append {bs : List UInt8} (hbs : ∀ b ∈ bs, 128 ≤ b.toNat) (n : Nat)
    (rest : List UInt8) : afterWord n (bs ++ rest) = afterWord (n + bs.length) rest := by
  induction bs generalizing n with
  | nil => rfl
  | cons b bs ih =>
    rw [List.forall_mem_cons] at hbs
    have hbreak : atBreak (b :: (bs ++ rest)) = false := by
      have hgap : isGapByte b = false := by
        rw [isGapByte, beq_of_le_byte hbs.1 (by decide), beq_of_le_byte hbs.1 (by decide),
          beq_of_le_byte hbs.1 (by decide), beq_of_le_byte hbs.1 (by decide),
          beq_of_le_byte hbs.1 (by decide)]
        rfl
      rw [atBreak, hgap, Bool.false_or]
      cases bs ++ rest with
      | nil => rfl
      | cons d bs' => rw [arrowAhead, beq_of_le_byte hbs.1 (by decide), Bool.false_and]
    rw [List.cons_append, afterWord_cons hbreak (afterPiece_of_le hbs.1 _), ih hbs.2,
      List.length_cons, Nat.add_assoc, Nat.add_comm 1]

/-- A piece of a word in characters is one piece or more of the word in bytes. -/
theorem exists_afterWord (n : Nat) {x : Read s (List Char)} (hb : Token.atBreak (c :: s) = false)
    (hx : piece c s = .ok x) :
    ∃ k, 0 < k ∧ afterWord n (ofText (c :: s)) = afterWord (n + k) (ofText x.rest) := by
  have hbreak := atBreak_ofText (c :: s)
  rcases utf8EncodeChar_cases c with ⟨hlt, -⟩ | ⟨hle, hbs⟩
  · refine ⟨1, Nat.one_pos, ?_⟩
    rw [ofText_cons_of_lt hlt] at hbreak ⊢
    apply afterWord_cons (hbreak.trans hb)
    rw [afterPiece_ofText hlt, hx]
  · rw [piece_of_le hle] at hx
    cases hx
    refine ⟨c.utf8Size, c.utf8Size_pos, ?_⟩
    rw [ofText_cons, afterWord_append hbs, String.length_utf8EncodeChar]

/-- Where a word ends, and whether it has further pieces, can be told from its bytes. -/
theorem afterWord_ofText (n : Nat) (s : List Char) :
    match wordRest s with
    | .error e => afterWord n (ofText s) = .error (inBytes e)
    | .ok y => ∃ m, afterWord n (ofText s) = .ok (n + m, ofText y.rest) ∧ (m = 0 ↔ y.value = []) := by
  fun_induction wordRest s generalizing n with
  | case1 s hs => exact ⟨0, afterWord_of_atBreak n (by rw [atBreak_ofText, hs]), by simp⟩
  | case2 hs => exact absurd rfl hs
  | case3 c r e he hs =>
    rw [Bool.not_eq_true] at hs
    have hbreak := atBreak_ofText (c :: r)
    rcases utf8EncodeChar_cases c with ⟨hlt, -⟩ | ⟨hle, -⟩
    · rw [ofText_cons_of_lt hlt] at hbreak ⊢
      apply afterWord_of_error (hbreak.trans hs)
      rw [afterPiece_ofText hlt, he]
    · rw [piece_of_le hle] at he
      cases he
  | case4 c r x hx hlen hs ih =>
    rw [Bool.not_eq_true] at hs
    obtain ⟨k, hk, he⟩ := exists_afterWord n hs hx
    have hih := ih (n + k)
    rw [he]
    cases hw : wordRest x.rest with
    | error e =>
      rw [hw] at hih
      exact hih
    | ok y =>
      rw [hw] at hih
      obtain ⟨m, hm, -⟩ := hih
      -- The numbers of pieces differ where a character has several bytes, but not in being zero.
      refine ⟨k + m, by rw [hm, Nat.add_assoc]; rfl, ?_⟩
      have hne : x.value ++ y.value ≠ [] :=
        List.append_ne_nil_of_left_ne_nil (value_ne_nil_of_piece hx) _
      exact iff_of_false (by omega) hne

/-- The first piece of a word in characters is one piece in bytes, and what is left of a character
outside ASCII is further pieces. -/
theorem exists_afterPiece {bs : List UInt8} {x : Read s (List Char)} (hx : piece c s = .ok x)
    (h : ofText (c :: s) = b :: bs) :
    ∃ t k, afterPiece b bs = .ok t ∧ afterWord 1 t = afterWord (1 + k) (ofText x.rest) ∧
      isQuoteByte b = isQuote c ∧ (isQuote c = true → k = 0) := by
  rcases utf8EncodeChar_cases c with ⟨hlt, -⟩ | ⟨hle, hbs⟩
  · rw [ofText_cons_of_lt hlt] at h
    cases h
    refine ⟨ofText x.rest, 0, ?_, rfl, isQuoteByte_toUInt8 hlt, fun _ => rfl⟩
    rw [afterPiece_ofText hlt, hx]
  · rw [piece_of_le hle] at hx
    cases hx
    rw [ofText_cons] at h
    cases he : String.utf8EncodeChar c with
    | nil => exact absurd he String.utf8EncodeChar_ne_nil
    | cons b' bs' =>
      rw [he] at h
      cases h
      rw [he, List.forall_mem_cons] at hbs
      refine ⟨bs' ++ ofText s, bs'.length, afterPiece_of_le hbs.1 _, afterWord_append hbs.2 1 _, ?_,
        ?_⟩
      · rw [isQuoteByte_of_le hbs.1, isQuote_of_le hle]
      · intro hq
        rw [isQuote_of_le hle] at hq
        cases hq

/-- The word that starts a text is found in the bytes of the text, with its kind. -/
theorem word_ofText {bs : List UInt8} (h : ofText (c :: s) = b :: bs) :
    match word c s with
    | .error e => afterPiece b bs = .error (inBytes e) ∨
        ∃ t, afterPiece b bs = .ok t ∧ afterWord 1 t = .error (inBytes e)
    | .ok x => ∃ t n, afterPiece b bs = .ok t ∧ afterWord 1 t = .ok (n, ofText x.rest) ∧
        (if isQuoteByte b && n ≤ 1 then TokenKind.text else .word) = x.value.1 := by
  unfold word
  cases hp : piece c s with
  | error e =>
    refine Or.inl ?_
    rcases utf8EncodeChar_cases c with ⟨hlt, -⟩ | ⟨hle, -⟩
    · rw [ofText_cons_of_lt hlt] at h
      cases h
      rw [afterPiece_ofText hlt, hp]
    · rw [piece_of_le hle] at hp
      cases hp
  | ok x =>
    obtain ⟨t, k, ht, hk, hq, hzero⟩ := exists_afterPiece hp h
    have hw := afterWord_ofText (1 + k) x.rest
    dsimp only
    cases hr : wordRest x.rest with
    | error e =>
      rw [hr] at hw
      exact Or.inr ⟨t, ht, hk.trans hw⟩
    | ok y =>
      rw [hr] at hw
      obtain ⟨m, hm, hnil⟩ := hw
      refine ⟨t, 1 + k + m, ht, hk.trans hm, ?_⟩
      -- A literal is the whole word exactly if no piece comes behind it.
      rw [hq]
      by_cases hc : isQuote c = true
      · have hiff : 1 + k + m ≤ 1 ↔ y.value = [] := by
          rw [hzero hc, ← hnil]
          omega
        simp only [hc, Bool.true_and, decide_eq_true_iff, hiff, List.isEmpty_iff]
      · rw [Bool.not_eq_true] at hc
        simp only [hc, Bool.false_and]

/-! ## The same tokens -/

/-- A token with its text in bytes. -/
def tokenInBytes (t : Token) : ByteToken :=
  ⟨t.kind, ofText t.text, t.offset⟩

/-- Between two characters the bytes can be cut out. -/
theorem slice?_ofText (s r : List Char) :
    slice? (ofText (s ++ r)) (ofText r) = some (ofText s) := by
  rw [slice?, startsChar_ofText, if_pos rfl, ofText_append, List.length_append,
    Nat.add_sub_cancel, List.take_left]

theorem map_map {α β γ : Type} {f : α → β} {g : β → γ} (x : Except SyntaxError α) :
    (x.map f).map g = x.map fun a => g (f a) := by
  cases x <;> rfl

section Steps

variable {size n : Nat} {bs t rest text : List UInt8} {e : Cause × List UInt8}
  {ts : Except SyntaxError (List ByteToken)}

/-- A byte between tokens is skipped. -/
theorem scan_gap (size : Nat) (hg : isGapByte b = true) : scan size (b :: bs) = scan size bs := by
  rw [scan.eq_def]
  dsimp only
  rw [if_pos hg]

theorem scan_arrow (hg : isGapByte b = false) (hs : startsChar (b :: bs) = true)
    (ha : arrowAhead (b :: bs) = true) (ht : slice? (b :: bs) (bs.drop 1) = some text)
    (hr : scan size (bs.drop 1) = some ts) :
    scan size (b :: bs) = some (ts.map (⟨.arrow, text, size - (b :: bs).length⟩ :: ·)) := by
  rw [scan.eq_def]
  dsimp only
  rw [hg, if_neg Bool.false_ne_true, hs, if_neg (by decide), if_pos ha, ht, hr]

variable (hg : isGapByte b = false) (hs : startsChar (b :: bs) = true)
  (ha : arrowAhead (b :: bs) = false)

include hg hs ha

/-- An error inside a piece is placed by what is left. -/
theorem scan_piece_error (hp : afterPiece b bs = .error e) :
    scan size (b :: bs) = some (.error ⟨e.1, size - e.2.length⟩) := by
  rw [scan.eq_def]
  dsimp only
  rw [hg, if_neg Bool.false_ne_true, hs, if_neg (by decide), ha, if_neg Bool.false_ne_true]
  split
  · next e' he =>
    rw [hp] at he
    cases he
    rfl
  · next t' ht =>
    rw [hp] at ht
    cases ht

theorem scan_word_error (hp : afterPiece b bs = .ok t) (hw : afterWord 1 t = .error e) :
    scan size (b :: bs) = some (.error ⟨e.1, size - e.2.length⟩) := by
  rw [scan.eq_def]
  dsimp only
  rw [hg, if_neg Bool.false_ne_true, hs, if_neg (by decide), ha, if_neg Bool.false_ne_true]
  split
  · next e' he =>
    rw [hp] at he
    cases he
  · next t' ht =>
    rw [hp] at ht
    cases ht
    split
    · next e' he =>
      rw [hw] at he
      cases he
      rfl
    · next m u hu =>
      rw [hw] at hu
      cases hu

/-- A word is cut out from its first byte to its last. -/
theorem scan_word (hp : afterPiece b bs = .ok t) (hw : afterWord 1 t = .ok (n, rest))
    (ht : slice? (b :: bs) rest = some text) (hr : scan size rest = some ts) :
    scan size (b :: bs) = some (ts.map
      (⟨if isQuoteByte b && n ≤ 1 then .text else .word, text, size - (b :: bs).length⟩ :: ·)) := by
  rw [scan.eq_def]
  dsimp only
  rw [hg, if_neg Bool.false_ne_true, hs, if_neg (by decide), ha, if_neg Bool.false_ne_true]
  split
  · next e' he =>
    rw [hp] at he
    cases he
  · next t' ht' =>
    rw [hp] at ht'
    cases ht'
    split
    · next e' he =>
      rw [hw] at he
      cases he
    · next m u hu =>
      rw [hw] at hu
      cases hu
      rw [ht, hr]

end Steps

/-- **Scanning the bytes of a text comes to the tokens of the text, and no cut is refused.** -/
theorem scan_ofText {size offset : Nat} (h : offset + byteCount s = size) :
    scan size (ofText s) = some ((Token.scan offset s).map (List.map tokenInBytes)) := by
  fun_induction Token.scan offset s with
  | case1 =>
    rw [ofText_nil, scan]
    rfl
  | case2 offset r ih =>
    -- an arrow
    have harrow : ofText ('-' :: '>' :: r) = '-'.toUInt8 :: '>'.toUInt8 :: ofText r := by
      rw [ofText_cons_of_lt (by decide), ofText_cons_of_lt (by decide)]
    have hsize : byteCount ('-' :: '>' :: r) = 2 + byteCount r := (Nat.add_assoc 1 1 _).symm
    have hstart := startsChar_ofText ('-' :: '>' :: r)
    have hslice := slice?_ofText ['-', '>'] r
    have hlength := length_ofText ('-' :: '>' :: r)
    rw [List.cons_append, List.cons_append, List.nil_append] at hslice
    rw [harrow] at hstart hslice hlength ⊢
    rw [scan_arrow (by decide) hstart (by rfl) hslice (ih (by omega)), map_map, hlength,
      show size - byteCount ('-' :: '>' :: r) = offset by omega, map_map]
    rfl
  | case3 offset c r hs hg ih =>
    -- a gap, which is one byte
    have hlt := toNat_lt_of_isGap hg
    have he := ofText_cons_of_lt hlt r
    have hlength := length_ofText (c :: r)
    rw [he, List.length_cons, length_ofText] at hlength
    rw [he, scan_gap size ((isGapByte_ofText he).trans hg)]
    exact ih (by omega)
  | case4 offset c r hs hg e he =>
    obtain ⟨b, bs, hb, -⟩ := exists_ofText_cons c r
    have hw := word_ofText hb
    have hlength := length_ofText (c :: r)
    have hle := byteCount_le_of_suffix e.suffix
    have hgap := (isGapByte_ofText hb).trans (Bool.not_eq_true _ ▸ hg)
    have harrow := (arrowAhead_ofText (c :: r)).trans (startsArrow_eq_false hs)
    have hstart := startsChar_ofText (c :: r)
    rw [hb] at hlength harrow hstart ⊢
    rw [he] at hw
    -- Both scans stop in front of the same ending, so they name the same byte.
    have hplace : size - (ofText e.rest).length =
        offset + (byteCount (c :: r) - byteCount e.rest) := by
      rw [length_ofText]
      omega
    rcases hw with hp | ⟨t, hp, hw⟩
    · rw [scan_piece_error hgap hstart harrow hp, inBytes, hplace]
      rfl
    · rw [scan_word_error hgap hstart harrow hp hw, inBytes, hplace]
      rfl
  | case5 offset c r hs hg x hx hlen ih =>
    -- a word, whose bytes are cut out between two starts of characters
    obtain ⟨b, bs, hb, -⟩ := exists_ofText_cons c r
    have hw := word_ofText hb
    have happend := append_word hx
    have hlength := length_ofText (c :: r)
    have hgap := (isGapByte_ofText hb).trans (Bool.not_eq_true _ ▸ hg)
    have harrow := (arrowAhead_ofText (c :: r)).trans (startsArrow_eq_false hs)
    have hstart := startsChar_ofText (c :: r)
    have hslice := slice?_ofText x.value.2 x.rest
    have hsize : byteCount (c :: r) = byteCount x.value.2 + byteCount x.rest := by
      rw [← happend, byteCount_append]
    rw [happend] at hslice
    rw [hb] at hlength harrow hstart hslice ⊢
    rw [hx] at hw
    obtain ⟨t, n, hp, hw, hkind⟩ := hw
    rw [scan_word hgap hstart harrow hp hw hslice (ih (by omega)), map_map, hlength, hkind,
      show size - byteCount (c :: r) = offset by omega, map_map]
    rfl

end DataPhrase.Bytes
