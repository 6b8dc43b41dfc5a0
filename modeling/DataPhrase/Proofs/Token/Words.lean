/-
# Words among gaps

A plain word is a token where gaps part it from what stands around it. A text with one run of
characters holds no two words, so it shows no `transform` with a `to` behind it.
-/
import DataPhrase.Proofs.Token.Pieces

namespace DataPhrase.Token

open Text Lexeme

variable {s t r b v w d : List Char} {c : Char} {n : Nat}

/-! ## Plain words -/

/-- The character goes on with a word, whatever stands behind it. -/
structure IsSolid (c : Char) : Prop where
  passed : Condition.isPassed c = true
  not_blank : isBlank c = false
  ne_minus : c ≠ '-'

/-- A gap is a blank. -/
theorem isBlank_of_isGap (h : isGap c = true) : isBlank c = true := by
  rcases eq_of_isGap h with rfl | rfl | rfl | rfl | rfl <;> decide

theorem IsSolid.not_gap (h : IsSolid c) : isGap c = false := by
  cases hg : isGap c with
  | false => rfl
  | true => exact absurd (isBlank_of_isGap hg) (by rw [h.not_blank]; exact Bool.false_ne_true)

/-- Characters of names are solid. -/
theorem isSolid_of_isNameChar (h : isNameChar c = true) : IsSolid c := by
  refine ⟨Condition.isPassed_of_isNameChar h, ?_, ne_minus_of_isNameChar h⟩
  cases hb : isBlank c with
  | false => rfl
  | true => exact absurd h (by rw [not_isNameChar_of_isBlank hb]; exact Bool.false_ne_true)

/-- Solid characters make one word up to the next break. -/
theorem wordRest_of_isSolid (hv : ∀ c ∈ v, IsSolid c) (hr : atBreak r = true) :
    (wordRest (v ++ r)).Gives v r := by
  induction v with
  | nil =>
    rw [List.nil_append, wordRest.eq_def, if_pos hr]
    exact Outcome.gives_done.mpr ⟨rfl, rfl⟩
  | cons c v ih =>
    obtain ⟨hc, hv⟩ := List.forall_mem_cons.mp hv
    have hb : atBreak (c :: (v ++ r)) = false := by
      rw [atBreak_cons, startsArrow_of_ne hc.ne_minus, hc.not_gap]
      rfl
    rw [List.cons_append, wordRest.eq_def, hb, if_neg Bool.false_ne_true]
    simp only [piece_of_isPassed hc.passed]
    exact Outcome.gives_widen.mpr (Outcome.gives_map.mpr ⟨v, ih hv, rfl⟩)

/-- A plain word that ends at a break is a token. -/
theorem scan_of_isSolid (hne : v ≠ []) (hv : ∀ c ∈ v, IsSolid c) (hr : atBreak r = true) :
    scan n (v ++ r) = (scan (n + byteCount v) r).map (⟨.word, v, n⟩ :: ·) := by
  cases v with
  | nil => exact absurd rfl hne
  | cons c v =>
    obtain ⟨hc, hv⟩ := List.forall_mem_cons.mp hv
    obtain ⟨hsuffix, hrest⟩ := wordRest_of_isSolid hv hr
    have hword : word c (v ++ r) = .ok ⟨(.word, c :: v), r, hsuffix⟩ := by
      rw [word, piece_of_isPassed hc.passed]
      simp only [hrest, (not_isQuote_of_isPassed hc.passed).1, Bool.false_and]
      rfl
    rw [List.cons_append, scan_word n hc.not_gap (startsArrow_of_ne hc.ne_minus), hword]

/-- Gaps in front of tokens only move the offset. -/
theorem scan_of_gaps (hb : ∀ c ∈ b, isGap c = true) : scan n (b ++ s) = scan (n + b.length) s := by
  induction b generalizing n with
  | nil => rfl
  | cons c b ih =>
    obtain ⟨hc, hb⟩ := List.forall_mem_cons.mp hb
    rw [List.cons_append, scan_of_isGap n hc, ih hb, List.length_cons]
    congr 1
    omega

/-- A word breaks at a gap. -/
theorem atBreak_of_gap (hb : ∀ c ∈ b, isGap c = true) (hne : b ≠ []) : atBreak (b ++ s) = true := by
  cases b with
  | nil => exact absurd rfl hne
  | cons c b =>
    rw [List.cons_append, atBreak_cons, hb c List.mem_cons_self, Bool.or_true]

/-! ## Names in a text -/

/-- No name goes on in the text. -/
def NameEnds (s : List Char) : Prop :=
  ∀ c ∈ s.head?, isNameChar c = false

/-- The text is blanks, a plain word that starts a name, and the rest, where the name has ended. -/
structure WordIn (s b v r : List Char) : Prop where
  text : s = b ++ (v ++ r)
  blanks : ∀ c ∈ b, isBlank c = true
  starts : ∃ c ∈ v.head?, isNameChar c = true
  chars : ∀ c ∈ v, IsSolid c
  ends : NameEnds r

/-- Behind the characters of a name, the name ends. -/
theorem nameEnds_dropWhile (s : List Char) : NameEnds (s.dropWhile isNameChar) := by
  intro c hc
  have h := List.head?_dropWhile_not isNameChar s
  rw [Option.mem_def.mp hc] at h
  simpa using h

theorem nameEnds_dotted (hs : NameEnds s) : NameEnds (dotted s).rest := by
  fun_induction dotted s with
  | case1 c s hc hr hlen x ih => exact ih (nameEnds_dropWhile s)
  | case2 => exact hs
  | case3 => exact hs

/-- The dotted rest of a name and what follows it are the text. -/
theorem append_dotted (s : List Char) : (dotted s).value ++ (dotted s).rest = s := by
  fun_induction dotted s with
  | case1 c s hc hr hlen x ih =>
    show '.' :: c :: s.takeWhile isNameChar ++ x.value ++ x.rest = '.' :: c :: s
    rw [List.append_assoc, ih]
    show '.' :: c :: (s.takeWhile isNameChar ++ s.dropWhile isNameChar) = '.' :: c :: s
    rw [List.takeWhile_append_dropWhile]
  | case2 => rfl
  | case3 => rfl

/-- The dotted rest of a name is solid. -/
theorem isSolid_of_dotted (s : List Char) : ∀ c ∈ (dotted s).value, IsSolid c := by
  fun_induction dotted s with
  | case1 c s hc hr hlen x ih =>
    intro d hd
    rcases List.mem_append.mp hd with hd | hd
    · rcases List.mem_cons.mp hd with rfl | hd
      · exact ⟨by decide, by decide, by decide⟩
      · rcases List.mem_cons.mp hd with rfl | hd
        · exact isSolid_of_isNameChar (isNameChar_of_isNameStart hc)
        · exact isSolid_of_isNameChar (List.all_eq_true.mp List.all_takeWhile d hd)
    · exact ih d hd
  | case2 => exact List.forall_mem_nil _
  | case3 => exact List.forall_mem_nil _

/-- Solid characters are whole pieces. -/
theorem spans_of_isSolid (hv : ∀ c ∈ v, IsSolid c) : Spans (v ++ r) r := by
  induction v with
  | nil => exact .refl r
  | cons c v ih =>
    obtain ⟨hc, hv⟩ := List.forall_mem_cons.mp hv
    exact (spans_cons hc.passed (startsArrow_of_ne hc.ne_minus)).trans (ih hv)

theorem spans_dotted (s : List Char) : Spans s (dotted s).rest := by
  have h := @spans_of_isSolid (dotted s).rest (dotted s).value (isSolid_of_dotted s)
  rwa [append_dotted] at h

theorem nameEnds_of_wordAhead? (h : wordAhead? s = some (w, r)) : NameEnds r := by
  unfold wordAhead? at h
  split at h
  · cases h
  · next c t ht =>
    split at h
    · cases h
      exact nameEnds_dropWhile t
    · cases h

/-- The word in front stands in the text behind blanks. -/
theorem exists_wordIn (h : wordAhead? s = some (w, r)) : ∃ b, WordIn s b w r := by
  have hchars : ∀ c ∈ w, isNameChar c = true := fun c hc => isNameChar_of_wordAhead? h hc
  refine ⟨s.takeWhile isBlank, ?_, ?_, ?_, ?_, nameEnds_of_wordAhead? h⟩
  · rw [← append_wordAhead? h, trim, List.takeWhile_append_dropWhile]
  · exact fun c hc => List.all_eq_true.mp List.all_takeWhile c hc
  · obtain ⟨c, v, rfl⟩ := List.exists_cons_of_ne_nil (ne_nil_of_wordAhead? h)
    exact ⟨c, rfl, hchars c List.mem_cons_self⟩
  · exact fun c hc => isSolid_of_isNameChar (hchars c hc)

theorem exists_wordIn_of_after {k : String} (h : after? k s = some r) :
    ∃ b w, WordIn s b w r ∧ sameWord w k.toList = true := by
  obtain ⟨w, hw, hk⟩ := after?_eq_some.mp h
  obtain ⟨b, hb⟩ := exists_wordIn hw
  exact ⟨b, w, hb, hk⟩

/-- The name of a source stands in the text behind blanks. -/
theorem exists_wordIn_of_datasetName {name : String} (h : (datasetName s).Gives name r) :
    ∃ b v, WordIn s b v r := by
  obtain ⟨w, q, hw, rfl, -⟩ := gives_fieldName.mp (gives_datasetName.mp h)
  obtain ⟨b, hb⟩ := exists_wordIn hw
  obtain ⟨c, hc, hn⟩ := hb.starts
  refine ⟨b, w ++ (dotted q).value, ?_, hb.blanks, ⟨c, ?_, hn⟩, ?_, nameEnds_dotted hb.ends⟩
  · rw [List.append_assoc, append_dotted]
    exact hb.text
  · rw [List.head?_append, Option.mem_def.mp hc]
    rfl
  · intro d hd
    rcases List.mem_append.mp hd with hd | hd
    · exact hb.chars d hd
    · exact isSolid_of_dotted q d hd

theorem WordIn.ne_nil (h : WordIn s b v r) : v ≠ [] := by
  rintro rfl
  obtain ⟨c, hc, -⟩ := h.starts
  cases hc

/-- A word behind the end of another one stands apart from it. -/
theorem WordIn.apart (h : WordIn s b v r) (hs : NameEnds s) (hb : ∀ c ∈ b, isGap c = true) :
    atBreak s = true := by
  obtain ⟨c, hc, hn⟩ := h.starts
  -- With no blanks between them the two words would have been read as one name.
  have hne : b ≠ [] := by
    rintro rfl
    have hhead : s.head? = some c := by
      rw [h.text, List.nil_append, List.head?_append, Option.mem_def.mp hc]
      rfl
    rw [hs c hhead] at hn
    cases hn
  rw [h.text]
  exact atBreak_of_gap hb hne

/-- A word among gaps is a token. -/
theorem WordIn.scan_eq (h : WordIn s b v r) (hb : ∀ c ∈ b, isGap c = true) (hr : atBreak r = true)
    (n : Nat) : scan n s =
      (scan (n + b.length + byteCount v) r).map (⟨.word, v, n + b.length⟩ :: ·) := by
  rw [h.text, scan_of_gaps hb, scan_of_isSolid h.ne_nil h.chars hr]

/-- Whole pieces up to the end of the text give tokens, none of them an arrow. -/
theorem exists_scan (h : Spans s []) (n : Nat) :
    ∃ ts, scan n s = .ok ts ∧ ∀ t ∈ ts, t.kind ≠ .arrow := by
  obtain ⟨ts, hts, hscan⟩ := scan_of_spans h (Or.inl rfl) n
  refine ⟨ts, ?_, hts.kind_ne⟩
  rw [hscan, scan_nil]
  show Except.ok (ts ++ []) = Except.ok ts
  rw [List.append_nil]

/-! ## Keywords -/

/-- Among the tokens is a `transform` with a `to` somewhere behind it. -/
def ShowsTransform (tokens : List Token) : Prop :=
  ∃ t u, List.Sublist [t, u] tokens ∧ t.isWord "transform" = true ∧ u.isWord "to" = true

/-- Further tokens show what the others show, and more if `transform` is in front of `to`. -/
theorem showsTransform_cons {t : Token} {ts : List Token} : ShowsTransform (t :: ts) ↔
    ShowsTransform ts ∨ (t.isWord "transform" = true ∧ ∃ u ∈ ts, u.isWord "to" = true) := by
  constructor
  · rintro ⟨x, u, h, hx, hu⟩
    rcases List.sublist_cons_iff.mp h with h | ⟨r, hr, h⟩
    · exact Or.inl ⟨x, u, h, hx, hu⟩
    · cases hr
      exact Or.inr ⟨hx, u, List.singleton_sublist.mp h, hu⟩
  · rintro (⟨x, u, h, hx, hu⟩ | ⟨ht, u, h, hu⟩)
    · exact ⟨x, u, h.cons t, hx, hu⟩
    · exact ⟨t, u, (List.singleton_sublist.mpr h).cons_cons t, ht, hu⟩

/-- A text that shows the words has a `to` among its tokens. -/
theorem exists_of_showsTransform {ts : List Token} (h : ShowsTransform ts) :
    ∃ u ∈ ts, u.isWord "to" = true := by
  obtain ⟨t, u, hs, -, hu⟩ := h
  exact ⟨u, hs.subset (List.mem_cons_of_mem t List.mem_cons_self), hu⟩

/-! ## Single runs -/

/-- The text has at most one run of characters that are no blanks. -/
def HasOneRun (u : List Char) : Prop :=
  ∀ c g v, c :: g :: v <:+ u → isBlank c = false → isBlank g = true → ∀ d ∈ v, isBlank d = true

theorem hasOneRun_of_blanks (hb : ∀ c ∈ b, isBlank c = true) : HasOneRun b := by
  intro c g v h hc
  rw [hb c (h.subset List.mem_cons_self)] at hc
  cases hc

/-- An ending of a text has at most the runs of the text. -/
theorem HasOneRun.suffix (h : HasOneRun s) (hr : r <:+ s) : HasOneRun r :=
  fun c g v hs => h c g v (hs.trans hr)

/-- A run between blanks is the only one. -/
theorem hasOneRun_of_run (hb : ∀ c ∈ b, isBlank c = true) (hv : ∀ c ∈ v, isBlank c = false)
    (hd : ∀ c ∈ d, isBlank c = true) : HasOneRun (b ++ (v ++ d)) := by
  -- Through the blanks in front, then through the run: a run can only end at the last character of
  -- `v`, and what follows it are the blanks `d`.
  induction b with
  | cons c b ih =>
    rw [List.forall_mem_cons] at hb
    intro x g u h hx hg
    rcases List.suffix_cons_iff.mp h with h | h
    · obtain ⟨rfl, -⟩ := List.cons.inj h
      rw [hb.1] at hx
      cases hx
    · exact ih hb.2 x g u h hx hg
  | nil =>
    induction v with
    | nil => exact hasOneRun_of_blanks hd
    | cons c v ih =>
      rw [List.forall_mem_cons] at hv
      intro x g u h hx hg
      rcases List.suffix_cons_iff.mp h with h | h
      · obtain ⟨-, h⟩ := List.cons.inj h
        cases v with
        | nil =>
          intro y hy
          refine hd y ?_
          rw [← (show g :: u = d from h)]
          exact List.mem_cons_of_mem g hy
        | cons y v =>
          obtain ⟨rfl, -⟩ := List.cons.inj h
          rw [hv.2 g List.mem_cons_self] at hg
          cases hg
      · exact ih hv.2 x g u h hx hg

/-- Blanks have no letters among them. -/
theorem isBlank_of_isBlank_toLower (h : isBlank c = true) : isBlank c.toLower = true :=
  forall_isBlank (p := fun c => isBlank c.toLower) (by decide) h

/-- A keyword has no blanks in it. -/
theorem not_isBlank_of_isWord {k : String} {x : Token} (h : x.isWord k = true)
    (hk : ((lower k.toList).all fun c => !isBlank c) = true) : ∀ c ∈ x.text, isBlank c = false := by
  rw [isWord, Bool.and_eq_true, sameWord, beq_iff_eq, beq_iff_eq] at h
  intro c hc
  cases hb : isBlank c with
  | false => rfl
  | true =>
    have hlower : c.toLower ∈ lower k.toList := h.2 ▸ List.mem_map_of_mem hc
    have hblank := List.all_eq_true.mp hk _ hlower
    rw [isBlank_of_isBlank_toLower hb] at hblank
    cases hblank

theorem text_ne_nil_of_isWord {k : String} {x : Token} (h : x.isWord k = true)
    (hk : k.toList ≠ []) : x.text ≠ [] := by
  rw [isWord, Bool.and_eq_true, sameWord, beq_iff_eq, beq_iff_eq] at h
  intro hx
  rw [hx] at h
  exact hk (List.map_eq_nil_iff.mp h.2.symm)

/-- Where a token ends and another one follows, there is a gap between them. -/
theorem Falls.gap_of_atBreak {ts : List Token} (h : Falls (c :: s) ts r) (hts : ts ≠ [])
    (hb : atBreak (c :: s) = true) : isGap c = true := by
  generalize hs : c :: s = s' at h
  cases h with
  | stop => exact absurd rfl hts
  | gap hc _ =>
    cases hs
    exact hc
  | token _ _ ha _ _ =>
    rw [← hs] at ha
    rwa [atBreak_cons, ha, Bool.false_or] at hb

/-- One run of characters holds one word, so not both `transform` and `to`. -/
theorem Falls.not_showsTransform {ts : List Token} (h : Falls s ts r) {u : List Char}
    (hs : s = u ++ r) (hu : HasOneRun u) : ¬ ShowsTransform ts := by
  induction h generalizing u with
  | stop =>
    rintro ⟨t, x, h, -⟩
    cases h
  | @gap g s r ts hg h ih =>
    obtain ⟨v, rfl⟩ := h.suffix
    obtain rfl : u = g :: v := List.append_cancel_right hs.symm
    exact ih rfl (hu.suffix (List.suffix_cons g v))
  | @token t s r ts _ hne _ hb h ih =>
    obtain ⟨v, rfl⟩ := h.suffix
    rw [← List.append_assoc] at hs
    obtain rfl : u = t.text ++ v := List.append_cancel_right hs.symm
    rw [showsTransform_cons]
    rintro (hform | ⟨ht, x, hx, hto⟩)
    · exact ih rfl (hu.suffix (List.suffix_append t.text v)) hform
    · -- The token `transform` ends the run, so all that is left is blank, and `to` is not.
      have hsolid := not_isBlank_of_isWord ht (by decide)
      have hblank : ∀ c ∈ v, isBlank c = true := by
        cases v with
        | nil => exact List.forall_mem_nil _
        | cons g v =>
          have hg := isBlank_of_isGap (h.gap_of_atBreak (List.ne_nil_of_mem hx) hb)
          refine List.forall_mem_cons.mpr ⟨hg, hu (t.text.getLast hne) g v ?_ ?_ hg⟩
          · refine ⟨t.text.dropLast, ?_⟩
            rw [← List.singleton_append, ← List.append_assoc, List.dropLast_concat_getLast]
          · exact hsolid _ (List.getLast_mem hne)
      obtain ⟨c, hc⟩ := List.exists_mem_of_ne_nil _ (text_ne_nil_of_isWord hto (by decide))
      have hc' := hblank c (h.mem rfl x hx c hc)
      rw [not_isBlank_of_isWord hto (by decide) c hc] at hc'
      cases hc'

end DataPhrase.Token
