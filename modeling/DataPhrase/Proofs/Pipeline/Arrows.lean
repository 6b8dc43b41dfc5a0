/-
# Stages and arrows

The scan for tokens finds the arrows of a pipeline outside of parentheses and literals, the grammar
finds them behind stages that it has read to their end. Both part the text at the same places: there
are as many arrows as stages, and each stage stands between its arrow and the next one
(`stages_between_arrows`).
-/
import DataPhrase.Proofs.Statement.Parse
import DataPhrase.Proofs.Statement.Pieces

namespace DataPhrase

open Text Lexeme Token

/-! ## Arrows -/

/-- The arrows among the tokens. -/
def arrowsOf (ts : List Token) : List Token :=
  ts.filter fun t => t.kind == .arrow

/-- The byte of the text at which the first arrow stands, or the end of the text. -/
def arrowAt (text : List Char) (arrows : List Token) : Nat :=
  (arrows.head?.map Token.offset).getD (byteCount text)

theorem arrowsOf_append (ts us : List Token) : arrowsOf (ts ++ us) = arrowsOf ts ++ arrowsOf us :=
  List.filter_append ts us

theorem arrowsOf_of_kind_ne {ts : List Token} (h : ∀ t ∈ ts, t.kind ≠ .arrow) :
    arrowsOf ts = [] := by
  rw [arrowsOf, List.filter_eq_nil_iff]
  intro t ht hk
  exact h t ht (beq_iff_eq.mp hk)

namespace Pipeline

variable {text s t q r a : List Char} {w : Written} {ws : List Written} {arrows : List Token}

/-! ## Stages in a text -/

/-- The text spells the stage in front of `r`: its name in any case and its body in parentheses,
blanks in front of either. -/
def Written.Spells (w : Written) (s r : List Char) : Prop :=
  ∃ a name b body q, s = a ++ (name ++ (b ++ '(' :: (body ++ ')' :: r))) ∧
    (∀ c ∈ a ++ b, isBlank c = true) ∧ String.ofList (lower name) = w.name ∧
    StageKind.ofName? w.name = some w.kind ∧
    (readBody w.kind (body ++ ')' :: r)).Gives w.body q ∧ trim q = ')' :: r

/-- From byte `start` to byte `stop` of the text stands the stage, with nothing but blanks around
its name and its body. -/
def Written.StandsBetween (w : Written) (text : List Char) (start stop : Nat) : Prop :=
  ∃ a s d r, text = a ++ s ∧ byteCount a = start ∧ w.Spells s (d ++ r) ∧
    (∀ c ∈ d, isBlank c = true) ∧ stop + byteCount r = byteCount text

theorem exists_wordAhead_of_stageName {named : String × StageKind}
    (h : (stageName s).Gives named r) : ∃ v, wordAhead? s = some (v, r) ∧
      String.ofList (lower v) = named.1 ∧ StageKind.ofName? named.1 = some named.2 := by
  obtain ⟨n, hn, hkind⟩ := Reader.gives_refine.mp h
  obtain ⟨v, hv, rfl⟩ := gives_identifier.mp hn
  rw [String.toList_ofList] at hkind
  refine ⟨v, hv, ?_⟩
  cases hk : StageKind.ofName? (String.ofList (lower v)) with
  | none =>
    simp only [hk] at hkind
    cases hkind
  | some kind =>
    simp only [hk] at hkind
    cases hkind
    exact ⟨rfl, hk⟩

/-- A stage is read as the text spells it. -/
theorem spells_of_written (h : (written s).Gives w r) : w.Spells s r := by
  obtain ⟨_, p, hp, h⟩ := Reader.gives_bind.mp h
  rw [gives_skipBlanks] at hp
  subst hp
  obtain ⟨named, u, hopen, h⟩ := Reader.gives_bind.mp h
  obtain ⟨body, q, hbody, h⟩ := Reader.gives_bind.mp h
  obtain ⟨_, y, hclose, h⟩ := Reader.gives_bind.mp h
  obtain ⟨rfl, rfl⟩ := Reader.gives_pure.mp h
  obtain ⟨named', x, hname, hopen⟩ := Reader.gives_bind.mp hopen
  obtain ⟨_, z, hparen, hopen⟩ := Reader.gives_bind.mp hopen
  obtain ⟨rfl, rfl⟩ := Reader.gives_pure.mp hopen
  obtain ⟨v, hv, hlower, hkind⟩ := exists_wordAhead_of_stageName hname
  obtain ⟨m, hm⟩ := hbody.suffix
  -- The name, the body and what is in front of them, each with the blanks there.
  have hs : s.takeWhile isBlank ++ (v ++ x) = s := by
    rw [← append_wordAhead? hv, trim_trim, takeWhile_append_trim]
  have hx : x.takeWhile isBlank ++ '(' :: z = x := by
    rw [← show trim x = '(' :: z from gives_mark.mp hparen, takeWhile_append_trim]
  have hz : m ++ q.takeWhile isBlank ++ ')' :: y = z := by
    rw [← show trim q = ')' :: y from gives_mark.mp hclose, List.append_assoc,
      takeWhile_append_trim, hm]
  refine ⟨s.takeWhile isBlank, v, x.takeWhile isBlank, m ++ q.takeWhile isBlank, q, ?_, ?_, hlower,
    hkind, ?_, gives_mark.mp hclose⟩
  · rw [hz, hx, hs]
  · intro c hc
    rcases List.mem_append.mp hc with hc | hc
    · exact isBlank_of_mem_takeWhile s c hc
    · exact isBlank_of_mem_takeWhile x c hc
  · rw [hz]
    exact hbody

/-! ## Stages between arrows -/

/-- Each stage stands between its arrow and the next one, or the end of the text. -/
inductive Parts (text : List Char) : List Token → List Written → Prop where
  | nil : Parts text [] []
  | cons {arrow : Token} {arrows : List Token} {w : Written} {ws : List Written}
      (hw : w.StandsBetween text (arrow.offset + byteCount arrow.text) (arrowAt text arrows))
      (h : Parts text arrows ws) : Parts text (arrow :: arrows) (w :: ws)

theorem Parts.length_eq (h : Parts text arrows ws) : arrows.length = ws.length := by
  induction h with
  | nil => rfl
  | cons _ _ ih => exact congrArg (· + 1) ih

theorem Parts.exists_getElem? (h : Parts text arrows ws) {i : Nat} {arrow : Token}
    (hi : arrows[i]? = some arrow) : ∃ w, ws[i]? = some w ∧
      w.StandsBetween text (arrow.offset + byteCount arrow.text)
        (arrowAt text (arrows.drop (i + 1))) := by
  induction h generalizing i with
  | nil => cases hi
  | @cons x arrows w ws hw _ ih =>
    cases i with
    | zero =>
      cases hi
      exact ⟨w, rfl, hw⟩
    | succ i => exact ih hi

/-- Behind the last stage the text ends, behind any other one an arrow stands. -/
theorem ends_of_writtenStages (h : (writtenStages s).Gives ws []) :
    trim s = [] ∨ startsArrow (trim s) = true := by
  by_cases hs : ∃ t, trim s = '-' :: '>' :: t
  · exact .inr (startsArrow_eq_true.mpr hs)
  · exact .inl ((gives_writtenStages_end fun t ht => hs ⟨t, ht⟩).mp h).2

/-- **The scan for tokens finds the arrows of the stages.** -/
theorem exists_scan_writtenStages (h : (writtenStages s).Gives ws []) (a : List Char) :
    ∃ ts, scan (byteCount a) (trim s) = .ok ts ∧
      arrowAt (a ++ trim s) (arrowsOf ts) = byteCount a ∧
      Parts (a ++ trim s) (arrowsOf ts) ws := by
  induction s using writtenStages.induct generalizing a ws with
  | case1 s t hs _ _ ih =>
    obtain ⟨w, q, ws', hw, hws, rfl⟩ := (gives_writtenStages_arrow hs).mp h
    -- The stage is whole pieces up to the next arrow, so it falls into tokens that are none.
    have hspans : Spans t (trim q) := spanning_written t w q hw
    obtain ⟨us, hfalls, hscan⟩ :=
      scan_of_spans hspans (ends_of_writtenStages hws) (byteCount a + 2)
    obtain ⟨u, rfl⟩ := hspans.suffix
    have hoffset : byteCount a + 2 + (byteCount (u ++ trim q) - byteCount (trim q)) =
        byteCount (a ++ '-' :: '>' :: u) := by
      rw [byteCount_append_sub, byteCount_append, byteCount_cons, byteCount_cons,
        Nat.add_assoc, ← Nat.add_assoc '-'.utf8Size]
      rfl
    obtain ⟨ts, hts, hat, hparts⟩ := ih q hw.suffix hws (a ++ '-' :: '>' :: u)
    have htext : a ++ '-' :: '>' :: u ++ trim q = a ++ trim s := by
      rw [hs, List.append_assoc]
      rfl
    rw [htext] at hat hparts
    have harrows : arrowsOf (⟨.arrow, ['-', '>'], byteCount a⟩ :: (us ++ ts)) =
        ⟨.arrow, ['-', '>'], byteCount a⟩ :: arrowsOf ts := by
      have hnone := arrowsOf_of_kind_ne hfalls.kind_ne
      rw [← List.nil_append (arrowsOf ts), ← hnone, ← arrowsOf_append]
      rfl
    refine ⟨⟨.arrow, ['-', '>'], byteCount a⟩ :: (us ++ ts), ?_, ?_, ?_⟩
    · rw [hs, scan_arrow, hscan, hoffset, hts]
      rfl
    · rw [harrows]
      rfl
    · rw [harrows]
      refine .cons ?_ hparts
      refine ⟨a ++ ['-', '>'], u ++ trim q, q.takeWhile isBlank, trim q, ?_, ?_, ?_,
        isBlank_of_mem_takeWhile q, ?_⟩
      · rw [hs, List.append_assoc]
        rfl
      · exact byteCount_append a ['-', '>']
      · rw [takeWhile_append_trim]
        exact spells_of_written hw
      · rw [hat, ← byteCount_append, htext]
  | case2 s hs =>
    obtain ⟨rfl, hend⟩ := (gives_writtenStages_end fun t ht => hs t ht).mp h
    rw [hend]
    refine ⟨[], scan_nil _, ?_, .nil⟩
    rw [List.append_nil]
    rfl

/-! ## Stages of a statement -/

/-- The stages that a draft takes are recorded in order, each with what it reads and declares. -/
theorem exists_stages_foldl (d : Draft) (ws : List Written) :
    ∃ stages, (ws.foldl Draft.take d).statement.stages = d.statement.stages ++ stages ∧
      stages.length = ws.length ∧
      ∀ (i : Nat) w, ws[i]? = some w → ∃ input, stages[i]? = some (w.recorded input) := by
  induction ws generalizing d with
  | nil => exact ⟨[], (List.append_nil _).symm, rfl, fun i w h => by cases h⟩
  | cons w ws ih =>
    obtain ⟨stages, hstages, hlen, hget⟩ := ih (d.take w)
    refine ⟨w.recorded d.shape :: stages, ?_, congrArg (· + 1) hlen, fun i x hx => ?_⟩
    · rw [List.foldl_cons, hstages, stages_take, List.append_assoc]
      rfl
    · cases i with
      | zero =>
        cases hx
        exact ⟨d.shape, rfl⟩
      | succ i => exact hget i x hx

/-- **Stages and arrows correspond.** Where a text makes a pipeline, its tokens show as many arrows
as the statement has stages. Each stage stands between its arrow and the next one, or the end of the
text, with its name, its kind and all that is read of its body; and the statement is what comes of
taking these stages one after another. -/
theorem stages_between_arrows {text : List Char} {st : Statement}
    (h : Statement.parse text = .ok st) (hp : st.pattern = .arrowPipeline) :
    ∃ (tokens : List Token) (source : String) (ws : List Written),
      tokenize text = .ok tokens ∧ (ws.foldl Draft.take (.start source)).statement = st ∧
      (arrowsOf tokens).length = st.stages.length ∧
      ∀ (i : Nat) arrow, (arrowsOf tokens)[i]? = some arrow → ∃ w input,
        ws[i]? = some w ∧ st.stages[i]? = some (w.recorded input) ∧
        w.StandsBetween text (arrow.offset + byteCount arrow.text)
          (arrowAt text ((arrowsOf tokens).drop (i + 1))) := by
  obtain ⟨p, -, -, hread⟩ := parse_eq_ok.mp h
  obtain rfl : p = .arrowPipeline := (pattern_of_grammar hread).symm.trans hp
  obtain ⟨source, ws, hstages, -, rfl⟩ := exists_stagesOf? hread
  obtain ⟨q, hsource, hws⟩ := gives_nil_of_stagesOf? hstages
  -- The name of the source is in front of the first arrow.
  have hspans : Spans text (trim q) := spanning_datasetName text source q hsource
  obtain ⟨us, hfalls, hscan⟩ := scan_of_spans hspans (ends_of_writtenStages hws) 0
  obtain ⟨a, rfl⟩ := hspans.suffix
  obtain ⟨ts, hts, -, hparts⟩ := exists_scan_writtenStages hws a
  have harrows : arrowsOf (us ++ ts) = arrowsOf ts := by
    rw [arrowsOf_append, arrowsOf_of_kind_ne hfalls.kind_ne, List.nil_append]
  obtain ⟨stages, hrecorded, hlen, hget⟩ := exists_stages_foldl (.start source) ws
  refine ⟨us ++ ts, source, ws, ?_, rfl, ?_, fun i arrow hi => ?_⟩
  · rw [tokenize, hscan, byteCount_append_sub, Nat.zero_add, hts]
    rfl
  · rw [harrows, hparts.length_eq, hrecorded]
    exact hlen.symm
  · rw [harrows] at hi ⊢
    obtain ⟨w, hw, hbetween⟩ := hparts.exists_getElem? hi
    obtain ⟨input, hinput⟩ := hget i w hw
    rw [hrecorded]
    exact ⟨w, input, hw, hinput, hbetween⟩

/-- An arrow in a literal, minus signs in front of numbers and of `>`, a long character, and stages
with and without blanks around them. -/
def crowdedStages : List Char :=
  "Sales->filter(note == \"a->b\" and (x - -1) > y-2) -> calculate(x -1 as é) ->Limit ( 3 )".toList

theorem stages_between_arrows_crowded : ∃ st tokens,
    Statement.parse crowdedStages = .ok st ∧ tokenize crowdedStages = .ok tokens ∧
    st.stages.map Stage.name = ["filter", "calculate", "limit"] ∧
    (arrowsOf tokens).map Token.offset = [5, 49, 74] ∧
    (arrowsOf tokens).length = st.stages.length ∧
    ∃ w input, st.stages[1]? = some (Written.recorded w input) ∧
      w.StandsBetween crowdedStages 51 74 := by
  obtain ⟨st, hst, hshape⟩ := exists_parse crowdedStages rfl
    (fun _ st => st.pattern == .arrowPipeline &&
      st.stages.map Stage.name == ["filter", "calculate", "limit"]) (by decide +kernel)
  rw [Bool.and_eq_true, beq_iff_eq, beq_iff_eq] at hshape
  obtain ⟨tokens, source, ws, htokens, -, hlen, hbetween⟩ := stages_between_arrows hst hshape.1
  have hread : (tokenize crowdedStages).toOption.map arrowsOf =
      some ([5, 49, 74].map fun n => ⟨.arrow, ['-', '>'], n⟩) := by
    decide +kernel
  rw [htokens] at hread
  have harrows : arrowsOf tokens = [5, 49, 74].map fun n => ⟨.arrow, ['-', '>'], n⟩ :=
    Option.some.inj hread
  rw [harrows] at hlen hbetween
  obtain ⟨w, input, -, hstage, hw⟩ := hbetween 1 _ rfl
  refine ⟨st, tokens, hst, htokens, hshape.2, ?_, ?_, w, input, hstage, hw⟩
  · rw [harrows]
    rfl
  · rw [harrows]
    exact hlen

end Pipeline

end DataPhrase
