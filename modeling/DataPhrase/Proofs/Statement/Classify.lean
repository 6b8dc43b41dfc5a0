/-
# Surface forms and grammars

The surface form of a text is decided on its tokens, and the grammars read the text itself. Where
the two views agree on the words that show the form (`Pattern.StandsAlone`), a text that one of the
grammars reads to its end is classified to this grammar.
-/
import DataPhrase.Proofs.Settled
import DataPhrase.Proofs.Statement.Parse
import DataPhrase.Proofs.Statement.Pieces
import DataPhrase.Proofs.Token.Words
import Mathlib.Data.List.TakeWhile

namespace DataPhrase

open Text Lexeme Token

/-! ## Forms of tokens -/

section Forms

variable {t a : Token} {ts us : List Token}

/-- The test of the classifier is whether `transform` and `to` are shown. -/
theorem any_behind_transform :
    ((ts.dropWhile fun t => !t.isWord "transform").drop 1).any (·.isWord "to") = true ↔
      ShowsTransform ts := by
  induction ts with
  | nil =>
    refine iff_of_false Bool.false_ne_true ?_
    rintro ⟨t, u, h, -⟩
    cases h
  | cons t ts ih =>
    rw [showsTransform_cons]
    cases ht : t.isWord "transform" with
    | true =>
      rw [List.dropWhile_cons_of_neg (by rw [ht]; decide), List.drop_one, List.tail_cons,
        List.any_eq_true]
      exact ⟨fun h => Or.inr ⟨rfl, h⟩, fun h => h.elim exists_of_showsTransform And.right⟩
    | false =>
      rw [List.dropWhile_cons_of_pos (by rw [ht]; decide), ih]
      exact ⟨Or.inl, fun h => h.elim id fun h => absurd h.1 Bool.false_ne_true⟩

instance : Decidable (ShowsTransform ts) :=
  decidable_of_iff _ any_behind_transform

theorem takeWhile_of_noArrow (h : ∀ t ∈ ts, t.kind ≠ .arrow) :
    (ts.takeWhile fun t => t.kind != .arrow) = ts := by
  rw [List.takeWhile_eq_self_iff]
  exact fun t ht => bne_iff_ne.mpr (h t ht)

/-- Tokens that show a transform statement are classified as one. -/
theorem ofTokens?_transform (hk : ∀ t ∈ ts, t.kind ≠ .arrow) (h : ShowsTransform ts) :
    Pattern.ofTokens? ts = some .transformTo := by
  unfold Pattern.ofTokens?
  rw [takeWhile_of_noArrow hk, if_pos (any_behind_transform.mpr h)]

/-- Other tokens with an arrow among them are a pipeline. -/
theorem ofTokens?_arrow (hk : ∀ t ∈ ts, t.kind ≠ .arrow) (h : ¬ ShowsTransform ts)
    (ha : a.kind = .arrow) : Pattern.ofTokens? (ts ++ a :: us) = some .arrowPipeline := by
  have hhead : ((ts ++ a :: us).takeWhile fun t => t.kind != .arrow) = ts := by
    rw [List.takeWhile_append_of_pos fun t ht => bne_iff_ne.mpr (hk t ht),
      List.takeWhile_cons_of_neg (by rw [ha]; decide), List.append_nil]
  have hlt : ts.length < (ts ++ a :: us).length := by
    rw [List.length_append, List.length_cons]
    omega
  unfold Pattern.ofTokens?
  rw [hhead, if_neg (fun hs => h (any_behind_transform.mp hs)), if_pos hlt]

/-- Other tokens that open with a verb are a question. -/
theorem ofTokens?_verb (hk : ∀ u ∈ t :: ts, u.kind ≠ .arrow) (h : ¬ ShowsTransform (t :: ts))
    (ht : Question.verbs.any t.isWord = true) :
    Pattern.ofTokens? (t :: ts) = some .naturalQuery := by
  unfold Pattern.ofTokens?
  rw [takeWhile_of_noArrow hk, if_neg (fun hs => h (any_behind_transform.mp hs)),
    if_neg (Nat.lt_irrefl _)]
  exact if_pos ht

end Forms

variable {text s r : List Char} {st : Statement}

/-! ## Texts that stand alone -/

/-- The header of a transform statement. -/
def Transform.header : Phrase (String × String) := do
  keyword "transform"
  let source ← datasetName
  keyword "to"
  let target ← datasetName
  pure (source, target)

/-- The blanks in what the reader takes off the text are all gaps. -/
def IsSpaced {α : Type} (p : Phrase α) (text : List Char) : Prop :=
  ∀ u a r, text = u ++ r → (p text).Gives a r → ∀ c ∈ u, isBlank c = true → isGap c = true

/-- The words that show the surface form of the text stand alone among its tokens. For a transform
statement this means that its header is spaced by gaps; for a question, that its verb is, that a gap
follows, and that nothing in it looks like the header of a transform statement. -/
def Pattern.StandsAlone : Pattern → List Char → Prop
  | .transformTo, text => IsSpaced Transform.header text
  | .arrowPipeline, _ => True
  | .naturalQuery, text =>
    IsSpaced Question.readVerb text ∧
      (∀ r, (Question.readVerb text).Gives () r → r.head?.any isGap = true) ∧
      ∀ tokens, tokenize text = .ok tokens → ¬ ShowsTransform tokens

theorem classify_eq_ok {ts : List Token} {p : Pattern} (h : tokenize text = .ok ts)
    (hp : Pattern.ofTokens? ts = some p) : classify text = .ok (p, ts) := by
  unfold classify
  rw [h]
  simp only [bind, Except.bind, hp]
  rfl

/-! ## Transform statements -/

/-- A text read as a transform statement is classified as one where its header stands apart. -/
theorem classify_transform (h : (Transform.read text).Gives st [])
    (ha : IsSpaced Transform.header text) : ∃ ts, classify text = .ok (.transformTo, ts) := by
  obtain ⟨_, p, hp, h⟩ := Reader.gives_bind.mp h
  obtain ⟨source, q, hq, h⟩ := Reader.gives_bind.mp h
  obtain ⟨_, u, hu, h⟩ := Reader.gives_bind.mp h
  obtain ⟨target, v, hv, h⟩ := Reader.gives_bind.mp h
  obtain ⟨clauses, _, hc, h⟩ := Reader.gives_bind.mp h
  obtain ⟨-, rfl⟩ := Reader.gives_pure.mp h
  have hheader : (Transform.header text).Gives (source, target) v :=
    Reader.gives_bind.mpr ⟨(), p, hp, Reader.gives_bind.mpr ⟨source, q, hq,
      Reader.gives_bind.mpr ⟨(), u, hu, Reader.gives_bind.mpr ⟨target, v, hv,
        Reader.gives_pure.mpr ⟨rfl, rfl⟩⟩⟩⟩⟩
  -- Each word of the header stands behind blanks, and each name ends where the next blanks start.
  obtain ⟨b₁, w₁, h₁, hw₁⟩ := exists_wordIn_of_after (gives_keyword.mp hp)
  obtain ⟨b₂, w₂, h₂⟩ := exists_wordIn_of_datasetName hq
  obtain ⟨b₃, w₃, h₃, hw₃⟩ := exists_wordIn_of_after (gives_keyword.mp hu)
  obtain ⟨b₄, w₄, h₄⟩ := exists_wordIn_of_datasetName hv
  have htext : text = (b₁ ++ w₁ ++ (b₂ ++ w₂) ++ (b₃ ++ w₃) ++ (b₄ ++ w₄)) ++ v := by
    rw [h₁.text, h₂.text, h₃.text, h₄.text]
    simp only [List.append_assoc]
  have hgaps : ∀ b, (∀ c ∈ b, isBlank c = true) →
      b ⊆ b₁ ++ w₁ ++ (b₂ ++ w₂) ++ (b₃ ++ w₃) ++ (b₄ ++ w₄) → ∀ c ∈ b, isGap c = true :=
    fun b hb hsub c hc => ha _ _ _ htext hheader c (hsub hc) (hb c hc)
  have hb₁ := hgaps b₁ h₁.blanks fun c hc => by simp only [List.mem_append, hc, true_or]
  have hb₂ := hgaps b₂ h₂.blanks fun c hc => by simp only [List.mem_append, hc, true_or, or_true]
  have hb₃ := hgaps b₃ h₃.blanks fun c hc => by simp only [List.mem_append, hc, true_or, or_true]
  have hb₄ := hgaps b₄ h₄.blanks fun c hc => by simp only [List.mem_append, hc, true_or, or_true]
  have hrest : Spans u [] := spans_andThen (spanning_datasetName u target v hv)
    (Transform.Clauses.spanning_readAll {} v clauses [] hc)
  obtain ⟨ts, hts, hk⟩ := exists_scan hrest _
  -- The three words of the header are tokens, and the clauses give no arrow.
  have htokens := h₁.scan_eq hb₁ (h₂.apart h₁.ends hb₂) 0
  rw [h₂.scan_eq hb₂ (h₃.apart h₂.ends hb₃), h₃.scan_eq hb₃ (h₄.apart h₃.ends hb₄), hts] at htokens
  refine ⟨_, classify_eq_ok htokens (ofTokens?_transform ?_ ?_)⟩
  · refine List.forall_mem_cons.mpr ⟨TokenKind.noConfusion, List.forall_mem_cons.mpr
      ⟨TokenKind.noConfusion, List.forall_mem_cons.mpr ⟨TokenKind.noConfusion, hk⟩⟩⟩
  · refine showsTransform_cons.mpr (Or.inr ⟨hw₁, ?_⟩)
    exact ⟨_, List.mem_cons_of_mem _ List.mem_cons_self, hw₃⟩

/-! ## Questions -/

/-- A text read as a question is classified as one where its verb stands apart. -/
theorem classify_question (h : (Question.read text).Gives st [])
    (ha : Pattern.StandsAlone .naturalQuery text) :
    ∃ ts, classify text = .ok (.naturalQuery, ts) := by
  obtain ⟨hspaced, hgap, hform⟩ := ha
  obtain ⟨p, limit, q, hverb, hl, hbody⟩ := Question.gives_read.mp h
  obtain ⟨w, hw, hone⟩ := Question.gives_readVerb.mp hverb
  obtain ⟨b, hword⟩ := exists_wordIn hw
  have htext : text = (b ++ w) ++ p := by
    rw [List.append_assoc]
    exact hword.text
  have hb : ∀ c ∈ b, isGap c = true := fun c hc =>
    hspaced _ _ _ htext hverb c (List.mem_append_left w hc) (hword.blanks c hc)
  -- Without the gap, what follows the verb would go on with its token.
  have hp : atBreak p = true := by
    obtain ⟨c, hc, hg⟩ := (Option.any_eq_true _ _).mp (hgap p hverb)
    obtain ⟨t, rfl⟩ := List.head?_eq_some_iff.mp hc
    rw [atBreak_cons, hg, Bool.or_true]
  have hrest : Spans p (trim []) :=
    spans_andThen (Question.spans_limit hl) (Question.spans_body hbody)
  obtain ⟨ts, hts, hk⟩ := exists_scan hrest _
  have htokens := hword.scan_eq hb hp 0
  rw [hts] at htokens
  refine ⟨_, classify_eq_ok htokens (ofTokens?_verb ?_ (hform _ htokens) hone)⟩
  exact List.forall_mem_cons.mpr ⟨TokenKind.noConfusion, hk⟩

/-! ## Pipelines -/

/-- The stages of a pipeline are scanned, and the first of them starts with an arrow. -/
theorem exists_scan_readStages {d e : Pipeline.Draft} (h : (Pipeline.readStages d s).Gives e []) :
    (trim s = [] ∨ startsArrow (trim s) = true) ∧ ∀ n, ∃ ts, scan n (trim s) = .ok ts := by
  fun_induction Pipeline.readStages d s with
  | case1 d s t ht hsuf hlt ih =>
    obtain ⟨d', q, hq, hd', h⟩ := Outcome.gives_andThen.mp (Outcome.gives_widen.mp h)
    obtain ⟨hend, hscan⟩ := ih d' q hq h
    -- The stage has no arrow outside its parentheses, so its tokens stop at the next stage.
    refine ⟨Or.inr (by rw [ht]; rfl), fun n => ?_⟩
    obtain ⟨ts, -, hts⟩ := scan_of_spans (Pipeline.spanning_stage d t d' q hd') hend (n + 2)
    obtain ⟨us, hus⟩ := hscan _
    rw [hus] at hts
    rw [ht, scan_arrow, hts]
    exact ⟨_, rfl⟩
  | case2 d s hs =>
    obtain ⟨-, hend⟩ := Outcome.gives_done.mp h
    rw [hend]
    exact ⟨Or.inl rfl, fun n => ⟨[], scan_nil n⟩⟩

/-- An arrow is scanned as a token of its own. -/
theorem exists_arrow_of_scan {n : Nat} {ts : List Token} (h : scan n ('-' :: '>' :: s) = .ok ts) :
    ∃ a us, a.kind = .arrow ∧ ts = a :: us := by
  rw [scan_arrow] at h
  obtain ⟨us, -, rfl⟩ := map_eq_ok.mp h
  exact ⟨_, us, rfl, rfl⟩

/-- A text read as a pipeline is classified as one. -/
theorem classify_pipeline (h : (Pipeline.read text).Gives st []) :
    ∃ ts, classify text = .ok (.arrowPipeline, ts) := by
  obtain ⟨source, p, hp, h⟩ := Reader.gives_bind.mp h
  obtain ⟨_, q, hq, h⟩ := Reader.gives_bind.mp h
  obtain ⟨_, _, hl, h⟩ := Reader.gives_bind.mp h
  obtain ⟨rfl, rfl⟩ := Reader.gives_look.mp hl
  rw [gives_skipBlanks] at hq
  subst hq
  by_cases harrow : ∃ t, trim p = '-' :: '>' :: t
  · obtain ⟨t, ht⟩ := harrow
    rw [ht] at h
    obtain ⟨d, u, hd, h⟩ := Reader.gives_bind.mp h
    obtain ⟨_, _, hl, h⟩ := Reader.gives_bind.mp h
    obtain ⟨rfl, rfl⟩ := Reader.gives_look.mp hl
    rw [← ht] at hd
    split at h
    · obtain ⟨-, rfl⟩ := Reader.gives_pure.mp h
      obtain ⟨ts, hts, hscan⟩ :=
        scan_of_spans (spanning_datasetName text source p hp) (Or.inr (by rw [ht]; rfl)) 0
      -- The blanks around the source need not be gaps, so its token can hold some of them. But the
      -- source is the only run in front of the first arrow, which leaves no room for two keywords.
      obtain ⟨b, v, hword⟩ := exists_wordIn_of_datasetName hp
      have hrun : HasOneRun (b ++ (v ++ p.takeWhile isBlank)) :=
        hasOneRun_of_run hword.blanks (fun c hc => (hword.chars c hc).not_blank)
          fun c hc => List.all_eq_true.mp List.all_takeWhile c hc
      have htext : text = (b ++ (v ++ p.takeWhile isBlank)) ++ trim p := by
        rw [List.append_assoc, List.append_assoc, trim, List.takeWhile_append_dropWhile]
        exact hword.text
      have hform := hts.not_showsTransform htext hrun
      obtain ⟨us, hus⟩ := (exists_scan_readStages hd).2 (0 + (byteCount text - byteCount (trim p)))
      rw [trim_trim] at hus
      rw [hus] at hscan
      rw [ht] at hus
      obtain ⟨a, us', ha, rfl⟩ := exists_arrow_of_scan hus
      exact ⟨_, classify_eq_ok hscan (ofTokens?_arrow hts.kind_ne hform ha)⟩
    · exact absurd h not_gives_expected
  · have hn : ∀ t, trim p = '-' :: '>' :: t → False := fun t ht => harrow ⟨t, ht⟩
    simp only at h
    exact absurd h not_gives_expected

/-! ## All statements -/

/-- **Classification hides no statement from its grammar whose surface form stands alone.** A text
that one of the three grammars reads to its end makes the statement that this grammar gives. -/
theorem parse_of_readWhole (p : Pattern) (h : readWhole p.grammar text = .ok st)
    (ha : p.StandsAlone text) : Statement.parse text = .ok st := by
  have hread := readWhole_eq_ok.mp h
  obtain ⟨ts, hts⟩ : ∃ ts, classify text = .ok (p, ts) := by
    cases p with
    | transformTo => exact classify_transform hread ha
    | arrowPipeline => exact classify_pipeline hread
    | naturalQuery => exact classify_question hread ha
  exact parse_eq_ok.mpr ⟨p, ts, hts, hread⟩

/-- A question that stands alone. -/
theorem parse_of_readWhole_revenue :
    ∃ st, readWhole Question.read "show total revenue by region from Sales".toList = .ok st ∧
      Pattern.StandsAlone .naturalQuery "show total revenue by region from Sales".toList ∧
      Statement.parse "show total revenue by region from Sales".toList = .ok st := by
  have hverb : (Question.readVerb "show total revenue by region from Sales".toList).Gives ()
      " total revenue by region from Sales".toList := ⟨by decide, rfl⟩
  have halone : Pattern.StandsAlone .naturalQuery
      "show total revenue by region from Sales".toList := by
    refine ⟨?_, ?_, ?_⟩
    · intro u a r hu hr
      obtain rfl := hr.rest_unique hverb
      obtain rfl : "show".toList = u := List.append_cancel_right hu
      intro c hc hb
      have hverb : ("show".toList.all fun c => !isBlank c) = true := by decide
      have hblank := List.all_eq_true.mp hverb c hc
      rw [hb] at hblank
      cases hblank
    · intro r hr
      obtain rfl := hr.rest_unique hverb
      decide
    · intro ts hts
      have hform : (tokenize "show total revenue by region from Sales".toList).toOption.all
        (fun ts => !decide (ShowsTransform ts)) = true := by decide +kernel
      rw [hts] at hform
      simpa [Except.toOption] using hform
  have hread : (readWhole Question.read
      "show total revenue by region from Sales".toList).toOption.isSome = true := by decide +kernel
  obtain ⟨st, hst⟩ := Option.isSome_iff_exists.mp hread
  have hok := eq_ok_of_toOption hst
  exact ⟨st, hok, halone, parse_of_readWhole .naturalQuery hok halone⟩

/-- A question whose items are named like the header of a transform statement is hidden from its
grammar. -/
theorem not_parse_transformAndTo :
    ∃ st, readWhole Question.read "show transform and to from S".toList = .ok st ∧
      Statement.parse "show transform and to from S".toList ≠ .ok st := by
  have hread : (readWhole Question.read "show transform and to from S".toList).toOption.isSome =
      true := by decide +kernel
  have hparse : (Statement.parse "show transform and to from S".toList).toOption = none := by
    decide +kernel
  obtain ⟨st, hst⟩ := Option.isSome_iff_exists.mp hread
  refine ⟨st, eq_ok_of_toOption hst, ?_⟩
  intro h
  rw [h] at hparse
  cases hparse

end DataPhrase
