/-
# Places of errors

A text that cannot be read is answered with a place between two of its characters, and the report of
the error numbers the line of that place and puts a caret under it. On the way there no text is cut
inside a character, neither by the scan for tokens nor by the readers (`place_of_error`).
-/
import DataPhrase.Proofs.Grammar.Scan
import DataPhrase.Proofs.Statement.Parse
import DataPhrase.Proofs.Statement.Periods
import DataPhrase.Proofs.Token.Bytes
import DataPhrase.Text.Word

namespace DataPhrase

open Text

variable {text s r a t : List Char} {n : Nat} {e : SyntaxError}

/-! ## Places between characters -/

/-- Byte `n` lies between two characters of the text or at an end of it. -/
def IsPlace (text : List Char) (n : Nat) : Prop :=
  ∃ a r, text = a ++ r ∧ byteCount a = n

/-- The bytes of a text are counted character by character. -/
theorem utf8ByteSize_ofList (s : List Char) : (String.ofList s).utf8ByteSize = byteCount s := by
  rw [← String.size_toByteArray, String.toByteArray_ofList, ← Bytes.length_ofText]
  show ((s.flatMap String.utf8EncodeChar).toByteArray).size = _
  rw [List.size_toByteArray]
  rfl

/-- Places are the positions of the string that the text makes. -/
theorem isPlace_iff_isValid :
    IsPlace text n ↔ (⟨n⟩ : String.Pos.Raw).IsValid (String.ofList text) := by
  rw [String.Pos.Raw.isValid_iff_exists_append]
  constructor
  · rintro ⟨a, r, rfl, rfl⟩
    refine ⟨String.ofList a, String.ofList r, String.ofList_append, ?_⟩
    rw [String.Pos.Raw.ext_iff, String.byteIdx_rawEndPos, utf8ByteSize_ofList]
  · rintro ⟨a, r, h, hn⟩
    rw [String.Pos.Raw.ext_iff, String.byteIdx_rawEndPos] at hn
    refine ⟨a.toList, r.toList, ?_, ?_⟩
    · rw [← String.toList_append, ← h, String.toList_ofList]
    · rw [← utf8ByteSize_ofList, String.ofList_toList]
      exact hn.symm

/-- A place never lies behind the end of its text. -/
theorem IsPlace.le (h : IsPlace text n) : n ≤ byteCount text := by
  obtain ⟨a, r, rfl, rfl⟩ := h
  rw [byteCount_append]
  exact Nat.le_add_right _ _

/-- An ending of a text starts at a place of it. -/
theorem isPlace_of_suffix (h : r <:+ s) :
    IsPlace (a ++ s) (byteCount a + (byteCount s - byteCount r)) := by
  obtain ⟨v, rfl⟩ := h
  refine ⟨a ++ v, r, (List.append_assoc _ _ _).symm, ?_⟩
  rw [byteCount_append, byteCount_append, Nat.add_sub_cancel]

/-- Where a tail starts is a place of the text. -/
theorem isPlace_offsetOf (h : r <:+ text) : IsPlace text (offsetOf text r) := by
  have := isPlace_of_suffix (a := []) h
  rwa [List.nil_append, byteCount_nil, Nat.zero_add] at this

/-! ## Tokens -/

/-- The tokens start at places of the text, or the error is at one. -/
def ArePlaces (text : List Char) : Except SyntaxError (List Token) → Prop
  | .ok ts => ∀ t ∈ ts, IsPlace text t.offset
  | .error e => IsPlace text e.offset

theorem arePlaces_map_cons {x : Except SyntaxError (List Token)} {token : Token}
    (h : IsPlace text token.offset) (hx : ArePlaces text x) :
    ArePlaces text (x.map (token :: ·)) := by
  cases x with
  | error e => exact hx
  | ok ts => exact List.forall_mem_cons.mpr ⟨h, hx⟩

/-- The scan of an ending of a text finds places of the text. -/
theorem arePlaces_scan {offset : Nat} (ha : byteCount a = offset) (hs : a ++ s = text) :
    ArePlaces text (Token.scan offset s) := by
  -- by induction on the scan: every step moves some characters from `s` to the end of `a`
  have hplace : IsPlace text offset := ⟨a, s, hs.symm, ha⟩
  fun_induction Token.scan offset s generalizing a with
  | case1 =>
    intro t ht
    cases ht
  | case2 offset r ih =>
    apply arePlaces_map_cons hplace
    have ha' : byteCount (a ++ ['-', '>']) = offset + 2 := by
      rw [byteCount_append, ha]
      rfl
    have hs' : a ++ ['-', '>'] ++ r = text := by
      rw [List.append_assoc]
      exact hs
    exact ih ha' hs' ⟨_, r, hs'.symm, ha'⟩
  | case3 offset c r hc hg ih =>
    have hc : c.utf8Size = 1 := by
      rw [← String.length_utf8EncodeChar]
      rcases Bytes.utf8EncodeChar_cases c with ⟨-, he⟩ | ⟨hle, -⟩
      · rw [he]
        rfl
      · exact absurd (Bytes.toNat_lt_of_isGap hg) (Nat.not_lt_of_le hle)
    have ha' : byteCount (a ++ [c]) = offset + 1 := by
      rw [byteCount_append, ha, byteCount_cons, hc]
      rfl
    have hs' : a ++ [c] ++ r = text := by
      rw [List.append_assoc]
      exact hs
    exact ih ha' hs' ⟨_, r, hs'.symm, ha'⟩
  | case4 offset c r hc hg e he =>
    show IsPlace text _
    rw [← hs, ← ha]
    exact isPlace_of_suffix e.suffix
  | case5 offset c r hc hg x hx hlen ih =>
    apply arePlaces_map_cons hplace
    have ha' : byteCount (a ++ x.value.2) = offset + byteCount x.value.2 := by
      rw [byteCount_append, ha]
    have hs' : a ++ x.value.2 ++ x.rest = text := by
      rw [List.append_assoc, Token.append_word hx]
      exact hs
    exact ih ha' hs' ⟨_, x.rest, hs'.symm, ha'⟩

/-- Every token starts at a place. -/
theorem arePlaces_tokenize (text : List Char) : ArePlaces text (tokenize text) :=
  arePlaces_scan byteCount_nil (List.nil_append text)

/-! ## Errors -/

/-- Classifying fails at a place. -/
theorem isPlace_of_classify (h : classify text = .error e) : IsPlace text e.offset := by
  have hplaces := arePlaces_tokenize text
  unfold classify at h
  cases ht : tokenize text with
  | error e' =>
    rw [ht] at h hplaces
    cases h
    exact hplaces
  | ok ts =>
    rw [ht] at h hplaces
    cases hp : Pattern.ofTokens? ts with
    | some p =>
      simp only [bind, Except.bind, hp] at h
      cases h
    | none =>
      simp only [bind, Except.bind, hp] at h
      cases h
      cases ts with
      | nil => exact ⟨[], text, rfl, rfl⟩
      | cons t ts => exact hplaces t List.mem_cons_self

/-- Reading a whole phrase fails at a place. -/
theorem isPlace_of_readWhole {α : Type} {p : Phrase α} (h : readWhole p text = .error e) :
    IsPlace text e.offset := by
  unfold readWhole at h
  split at h
  · next e' he =>
    cases h
    exact isPlace_offsetOf e'.suffix
  · next x hx =>
    split at h
    · cases h
    · cases h
      exact isPlace_offsetOf x.suffix

/-- Parsing a statement fails at a place. -/
theorem isPlace_of_parse (h : Statement.parse text = .error e) : IsPlace text e.offset := by
  unfold Statement.parse at h
  cases hc : classify text with
  | error e' =>
    rw [hc] at h
    cases h
    exact isPlace_of_classify hc
  | ok x =>
    rw [hc] at h
    exact isPlace_of_readWhole h

/-! ## Reports -/

namespace SyntaxError

/-- The report of the error on `text` gives its place: the characters in front of the place are
whole lines and a part of the next one, which tell the number of the line and the blanks in front of
the caret. A place behind the end of the text counts as its end. -/
def ShowsPlace (e : SyntaxError) (text : List Char) : Prop :=
  ∃ before line rest, text = before ++ line ++ rest ∧
    byteCount (before ++ line) = min e.offset (byteCount text) ∧
    (before = [] ∨ before.getLast? = some '\n') ∧ '\n' ∉ line ∧
    e.render text =
      e.message ++ " (line " ++ toString (1 + (before ++ line).count '\n') ++ ")\n  " ++
        String.ofList (firstLine (line ++ rest)) ++ "\n  " ++
        String.ofList (List.replicate line.length ' ') ++ "^"

theorem takeBytes_append (a r : List Char) : takeBytes (byteCount a) (a ++ r) = a := by
  induction a with
  | nil =>
    cases r with
    | nil => rfl
    | cons c r =>
      rw [List.nil_append, byteCount_nil, takeBytes, if_neg (by have := c.utf8Size_pos; omega)]
  | cons c a ih =>
    rw [List.cons_append, byteCount_cons, takeBytes, if_pos (Nat.le_add_right _ _),
      Nat.add_sub_cancel_left, ih]

theorem takeBytes_of_le (h : byteCount s ≤ n) : takeBytes n s = s := by
  induction s generalizing n with
  | nil => rfl
  | cons c s ih =>
    rw [byteCount_cons] at h
    rw [takeBytes, if_pos (by omega), ih (by omega)]

/-- The whole lines in front of the last line. -/
theorem exists_lines (a : List Char) : ∃ before, a = before ++ lastLine a ∧
    (before = [] ∨ before.getLast? = some '\n') ∧ '\n' ∉ lastLine a := by
  refine ⟨(a.reverse.dropWhile (· != '\n')).reverse, ?_, ?_, ?_⟩
  · rw [lastLine, ← List.reverse_append, List.takeWhile_append_dropWhile, List.reverse_reverse]
  · rw [List.getLast?_reverse]
    cases hd : a.reverse.dropWhile (· != '\n') with
    | nil => exact Or.inl rfl
    | cons c r =>
      have := List.head?_dropWhile_not (· != '\n') a.reverse
      rw [hd] at this
      exact Or.inr (by simpa using this)
  · intro h
    rw [lastLine, List.mem_reverse] at h
    have := List.all_eq_true.mp List.all_takeWhile _ h
    simp at this

/-- The report on a text that a place of the error cuts in two. -/
theorem showsPlace_of_append (h : text = a ++ r) (ha : byteCount a = min e.offset (byteCount text))
    (ht : takeBytes e.offset text = a) : e.ShowsPlace text := by
  obtain ⟨before, hb, hlines, hline⟩ := exists_lines a
  refine ⟨before, lastLine a, r, by rw [← hb, h], by rw [← hb, ha], hlines, hline, ?_⟩
  have hlength : a.length - (lastLine a).length = before.length := by
    rw [congrArg List.length hb, List.length_append, Nat.add_sub_cancel]
  have hdrop : text.drop before.length = lastLine a ++ r := by
    rw [h, hb, List.append_assoc, List.drop_left, ← hb]
  rw [render, ht, ← hb, hlength, hdrop]

/-- The report is right on every beginning of a text that has the place. -/
theorem showsPlace_of_prefix (h : IsPlace text e.offset) (ht : t <+: text) : e.ShowsPlace t := by
  obtain ⟨a, r, rfl, ha⟩ := h
  obtain ⟨u, hu⟩ := ht
  rcases List.append_eq_append_iff.mp hu with ⟨v, rfl, -⟩ | ⟨v, rfl, -⟩
  · -- The place lies behind the end of `t`.
    rw [byteCount_append] at ha
    apply showsPlace_of_append (List.append_nil t).symm
    · omega
    · exact takeBytes_of_le (by omega)
  · apply showsPlace_of_append rfl
    · rw [byteCount_append]
      omega
    · rw [← ha, takeBytes_append]

end SyntaxError

/-- Dropping blanks at the end leaves a front of the text. -/
theorem startsWith_trimEnd (s : List Char) : trimEnd s <+: s := by
  have := List.reverse_prefix.mpr (List.dropWhile_suffix (l := s.reverse) isBlank)
  rwa [List.reverse_reverse] at this

/-! ## Cuts of the readers -/

open Bytes Lexeme

/-- Making capitals small changes no number of bytes. -/
theorem byteCount_lower (w : List Char) : byteCount (lower w) = byteCount w := by
  induction w with
  | nil => rfl
  | cons c w ih =>
    have hc : c.toLower.utf8Size = c.utf8Size := by
      unfold Char.toLower
      split
      · next h =>
        have h1 : c.val.toNat ≤ 90 := UInt32.le_iff_toNat_le.mp h.2
        have h2 : (c.val + ('a'.val - 'A'.val)).toNat ≤ 127 := by
          rw [UInt32.toNat_add, show ('a'.val - 'A'.val).toNat = 32 from rfl]
          omega
        rw [Char.utf8Size_eq_one_iff.mpr (UInt32.le_iff_toNat_le.mpr h2),
          Char.utf8Size_eq_one_iff.mpr (UInt32.le_iff_toNat_le.mpr (Nat.le_trans h1 (by decide)))]
      · rfl
    show byteCount (c.toLower :: lower w) = _
    rw [byteCount_cons, hc, ih, byteCount_cons]

/-! ### Words in a group -/

/-- The bytes from `start` up to `stop`, refused if either is inside a character. -/
def between? (bytes : List UInt8) (start stop : Nat) : Option (List UInt8) :=
  (cut? start bytes).bind fun u => (cut? stop bytes).bind fun v => slice? u v

/-- The bytes between two places of a text are the text between them. -/
theorem between?_ofText (a w r : List Char) :
    between? (ofText (a ++ (w ++ r))) (byteCount a) (byteCount (a ++ w)) = some (ofText w) := by
  have hstop := cut?_ofText (a ++ w) r
  rw [List.append_assoc] at hstop
  rw [between?, cut?_ofText, hstop]
  exact slice?_ofText w r

/-- The scan of a group for signs and connectives, where a word is cut out of the bytes of the text
when it ends. The next character starts at byte `i`, the word that it may go on with at byte
`start`; `test` tells the bytes of a connective. Nothing if a word would be cut out inside a
character. -/
def groupScan (test : List UInt8 → Bool) (bytes : List UInt8) (depth : Nat) (quote : Option Char)
    (start : Option Nat) (i : Nat) : List Char → Option Bool
  | [] => some false
  | c :: r =>
    match quote with
    | some q =>
      groupScan test bytes depth (if c = q then none else some q) start (i + c.utf8Size) r
    | none =>
      if isNameChar c then
        groupScan test bytes depth none (some (start.getD i)) (i + c.utf8Size) r
      else
        match start.elim (some []) fun a => between? bytes a i with
        | none => none
        | some w =>
          if depth = 1 ∧ test w then some true
          else if Token.isQuote c then
            groupScan test bytes depth (some c) none (i + c.utf8Size) r
          else if c = '(' then groupScan test bytes (depth + 1) none none (i + c.utf8Size) r
          else if c = ')' then
            if depth ≤ 1 then some false
            else groupScan test bytes (depth - 1) none none (i + c.utf8Size) r
          else if depth = 1 ∧ (c = '=' ∨ c = '<' ∨ c = '>' ∨ c = '!') then some true
          else groupScan test bytes depth none none (i + c.utf8Size) r

/-- **No word of a group is cut out inside a character.** -/
theorem groupScan_ofText {test : List UInt8 → Bool}
    (htest : ∀ w, test (ofText w) = Condition.isConnective w) {a word s : List Char} {depth : Nat}
    {quote : Option Char} (ht : text = a ++ (word.reverse ++ s))
    (hquote : quote.isSome = true → word = []) :
    groupScan test (ofText text) depth quote (if word = [] then none else some (byteCount a))
      (byteCount (a ++ word.reverse)) s = some (Condition.showsCondition depth quote word s) := by
  induction s generalizing a word depth quote with
  | nil => rw [groupScan, Condition.showsCondition]
  | cons c r ih =>
    have hsize (v : List Char) : byteCount (v ++ [c]) = byteCount v + c.utf8Size := by
      rw [byteCount_append, byteCount_cons, byteCount_nil, Nat.add_zero]
    -- Behind `c` no word is being read, unless `c` goes on with one.
    have hnext (d : Nat) (o : Option Char) :
        groupScan test (ofText text) d o none (byteCount (a ++ word.reverse) + c.utf8Size) r =
          some (Condition.showsCondition d o [] r) := by
      have hrest := @ih (a ++ word.reverse ++ [c]) [] d o (by rw [ht]; simp) fun _ => rfl
      rwa [if_pos rfl, List.reverse_nil, List.append_nil, hsize] at hrest
    cases quote with
    | some q =>
      obtain rfl := hquote rfl
      rw [groupScan, Condition.showsCondition, if_pos rfl]
      exact hnext _ _
    | none =>
      rw [groupScan, Condition.showsCondition]
      by_cases hname : isNameChar c = true
      · rw [if_pos hname, if_pos hname]
        have hgoes := @ih a (c :: word) depth none (by rw [ht]; simp) fun h => by cases h
        rw [if_neg (List.cons_ne_nil c word), List.reverse_cons, ← List.append_assoc, hsize] at hgoes
        rw [← hgoes]
        by_cases hw : word = []
        · subst hw
          rw [if_pos rfl, List.reverse_nil, List.append_nil]
          rfl
        · rw [if_neg hw]
          rfl
      · have hcut : ((if word = [] then none else some (byteCount a)).elim (some [])
            fun b => between? (ofText text) b (byteCount (a ++ word.reverse))) =
              some (ofText word.reverse) := by
          by_cases hw : word = []
          · subst hw
            rfl
          · rw [if_neg hw, ht]
            exact between?_ofText a word.reverse (c :: r)
        rw [if_neg hname, if_neg hname, hcut]
        dsimp only
        rw [htest]
        simp only [hnext]
        split_ifs <;> rfl

/-! ### All cuts -/

/-- Whatever is cut off the front of a text by a number of bytes, or cut out of it, ends between two
characters: blanks, a word as it is written or in lower case, a keyword or a mark by its length, a
comparison sign, the one byte of a character of ASCII, digits with or without points, the gap in
front of a comma, a literal up to and with its closing quote, the words of a group, and the phrase
of a period. -/
structure CutsEvenly : Prop where
  blanks (s : List Char) : cut? (byteCount (s.takeWhile isBlank)) (ofText s) = some (ofText (trim s))
  name (s w r : List Char) : wordAhead? s = some (w, r) →
    cut? (byteCount w) (ofText (trim s)) = some (ofText r)
  word (s w r : List Char) : wordAhead? s = some (w, r) →
    cut? (byteCount (lower w)) (ofText (trim s)) = some (ofText r)
  keyword (k : String) (s r : List Char) : after? k s = some r →
    cut? (byteCount k.toList) (ofText (trim s)) = some (ofText r)
  mark (m : String) (s r : List Char) : trim s = m.toList ++ r →
    cut? (byteCount m.toList) (ofText (trim s)) = some (ofText r)
  sign (s : List Char) (op : CompareOp) (n : Nat) : Condition.sign? s = some (op, n) →
    cut? n (ofText s) = some (ofText (s.drop n))
  ascii (c : Char) (s : List Char) : c.toNat < 128 → cut? 1 (ofText (c :: s)) = some (ofText s)
  number (s r : List Char) (x : Number) : (Expr.decimal s).Gives x r →
    cut? (byteCount (s.takeWhile Expr.isNumberChar)) (ofText s) = some (ofText r)
  integer (s r : List Char) (n : Nat) : (integer s).Gives n r →
    cut? (byteCount ((trim s).takeWhile isDigit)) (ofText (trim s)) = some (ofText r)
  comma (s r : List Char) : s.dropWhile isListGap = ',' :: r →
    cut? (byteCount (s.takeWhile isListGap) + 1) (ofText s) = some (ofText r)
  literal (s r : List Char) (v : String) : (Expr.quotedText s).Gives v r → ∃ q inside,
    Token.isQuote q = true ∧ v = String.ofList (Expr.unescaped inside) ∧
      cut? (byteCount (q :: inside) + q.utf8Size) (ofText s) = some (ofText r)
  group (test : List UInt8 → Bool) (r : List Char) :
    (∀ w, test (ofText w) = Condition.isConnective w) →
      groupScan test (ofText ('(' :: r)) 0 none none 0 ('(' :: r) =
        some (Condition.groupAhead ('(' :: r))
  phrase (s r : List Char) (p : Period) : (Period.read s).Gives p r → ∃ text q,
    slice? (ofText (trim s)) (ofText q) = some (ofText text) ∧
      p.phrase = String.ofList (normalizePhrase text) ∧
      (q = r ∨ ∃ y, after? "using" q = some y)

/-- A run of characters of a class is cut off by its number of bytes. -/
theorem cut?_takeWhile (p : Char → Bool) (s : List Char) :
    cut? (byteCount (s.takeWhile p)) (ofText s) = some (ofText (s.dropWhile p)) := by
  have hcut := cut?_ofText (s.takeWhile p) (s.dropWhile p)
  rwa [List.takeWhile_append_dropWhile] at hcut

/-- Every slice the readers take starts and ends at a place. -/
theorem cutsEvenly : CutsEvenly where
  blanks s := cut?_takeWhile isBlank s
  name s w r h := by
    rw [append_wordAhead? h]
    exact cut?_ofText w r
  word s w r h := by
    rw [append_wordAhead? h, byteCount_lower]
    exact cut?_ofText w r
  keyword k s r h := by
    obtain ⟨w, hw, hk⟩ := after?_eq_some.mp h
    rw [sameWord, beq_iff_eq] at hk
    rw [append_wordAhead? hw, ← byteCount_lower, ← hk, byteCount_lower]
    exact cut?_ofText w r
  mark m s r h := by
    rw [h]
    exact cut?_ofText m.toList r
  sign s op n h := by
    -- Each sign is written in one or two characters of ASCII.
    unfold Condition.sign? at h
    split at h <;> cases h <;> first
      | exact cut?_eq_some.mpr ⟨_ :: _ :: [], _, rfl, rfl, rfl⟩
      | exact cut?_eq_some.mpr ⟨_ :: [], _, rfl, rfl, rfl⟩
  ascii c s h := by
    have hsize := congrArg List.length (ofText_cons_of_lt h s)
    rw [length_ofText, List.length_cons, length_ofText, byteCount_cons, Nat.add_comm,
      Nat.add_left_cancel_iff] at hsize
    have hcut := cut?_ofText [c] s
    rwa [byteCount_cons, hsize] at hcut
  number s r x h := by
    obtain ⟨cs, hcs, -⟩ := Reader.gives_refine.mp h
    obtain ⟨-, rfl⟩ := Reader.gives_takeWhile.mp hcs
    exact cut?_takeWhile _ s
  integer s r n h := by
    obtain ⟨_, _, htrim, h⟩ := Reader.gives_bind.mp h
    rw [gives_skipBlanks] at htrim
    subst htrim
    obtain ⟨cs, hcs, -⟩ := Reader.gives_refine.mp h
    obtain ⟨-, rfl⟩ := Reader.gives_takeWhile.mp hcs
    exact cut?_takeWhile _ (trim s)
  comma s r h := by
    refine cut?_eq_some.mpr ⟨s.takeWhile isListGap ++ [','], r, ?_, ?_, rfl⟩
    · rw [List.append_assoc, List.singleton_append, ← h, List.takeWhile_append_dropWhile]
    · rw [byteCount_append]
      rfl
  literal s r v h := by
    obtain ⟨q, inside, hq, rfl, hv⟩ := Expr.inside_of_quotedText h
    have hcut := cut?_ofText (q :: inside ++ [q]) r
    rw [byteCount_append, byteCount_cons q [], byteCount_nil, Nat.add_zero, List.append_assoc]
      at hcut
    exact ⟨q, inside, hq, hv, hcut⟩
  group test r htest := by
    have hscan := @groupScan_ofText ('(' :: r) test htest [] [] ('(' :: r) 0 none rfl fun _ => rfl
    rw [if_pos rfl] at hscan
    rw [Condition.groupAhead, ← Condition.showsCondition_open Condition.undecided_nil]
    exact hscan
  phrase s r p h := by
    obtain ⟨text, q, n, v, x, happend, -, -, -, hphrase, hend⟩ := Period.parts_of_read h
    refine ⟨text, q, ?_, hphrase, hend⟩
    rw [← happend]
    exact slice?_ofText text q

/-- **Every error is at a place between two characters, reports show that place, and nothing is cut
inside a character on the way: the bytes of the text scan to its tokens, and readers cut evenly.** -/
theorem place_of_error (text : List Char) :
    Bytes.scan (byteCount text) (ofText text) =
        some ((tokenize text).map (List.map tokenInBytes)) ∧
      CutsEvenly ∧
      ∀ e, classify text = .error e ∨ Statement.parse text = .error e →
        e.offset ≤ byteCount text ∧ IsPlace text e.offset ∧ e.ShowsPlace text ∧
          e.ShowsPlace (trimEnd text) := by
  refine ⟨Bytes.scan_ofText (Nat.zero_add _), cutsEvenly, ?_⟩
  intro e he
  have hplace : IsPlace text e.offset := by
    rcases he with he | he
    · exact isPlace_of_classify he
    · exact isPlace_of_parse he
  exact ⟨hplace.le, hplace, SyntaxError.showsPlace_of_prefix hplace (List.prefix_refl text),
    SyntaxError.showsPlace_of_prefix hplace (startsWith_trimEnd text)⟩

/-- A text whose second line goes on with a word that opens no clause. -/
def unknownClause : List Char :=
  "transform Maße\n  to Größen nach größe \n".toList

theorem place_of_error_unknownClause : ∃ e, Statement.parse unknownClause = .error e ∧
    e.offset = 30 ∧ IsPlace unknownClause e.offset ∧ e.ShowsPlace unknownClause ∧
    e.ShowsPlace (trimEnd unknownClause) := by
  have hoffset : (match Statement.parse unknownClause with
      | .error e => e.offset
      | .ok _ => 0) = 30 := by
    decide +kernel
  cases he : Statement.parse unknownClause with
  | ok s =>
    rw [he] at hoffset
    cases hoffset
  | error e =>
    rw [he] at hoffset
    obtain ⟨-, hplace, hshows, hend⟩ := (place_of_error unknownClause).2.2 e (Or.inr he)
    exact ⟨e, rfl, hoffset, hplace, hshows, hend⟩

end DataPhrase
